import Mathlib.Tactic
import Mathlib.Data.BitVec

/-!
# Byte memory with 32-bit words

A memory maps `w`-bit addresses to bytes. Addresses are moved by signed offsets
(`off`), with the wrap-around of `w`-bit arithmetic; two offsets less than `2^w`
apart name different cells (`off_inj`), two that differ by a multiple of `2^w` the same
one (`off_congr`). A 32-bit word is stored with its low byte first.

* `word_store`: seen as an array of words at one base, a store changes one element.
* `store32_frame`, `copy_frame`: what a store and a copy leave alone.
* `word_copy`: a copy carries whole words with it.
-/

namespace ByteMem

variable {w : ℕ}

/-- A byte-addressed memory with `w`-bit addresses. -/
abbrev Mem (w : ℕ) := BitVec w → BitVec 8

def off (a : BitVec w) (x : ℤ) : BitVec w := a + BitVec.ofInt w x

theorem off_off (a : BitVec w) (x y : ℤ) : off (off a x) y = off a (x + y) := by
  simp only [off, BitVec.ofInt_add, BitVec.add_assoc]

/-- Offsets less than `2^w` apart name different cells. -/
theorem off_inj (a : BitVec w) {x y : ℤ} (h : |x - y| < 2 ^ w) : off a x = off a y ↔ x = y := by
  refine ⟨?_, fun he => by rw [he]⟩
  intro he
  have h1 : BitVec.ofInt w x = BitVec.ofInt w y := by simpa [off] using he
  have h2 := congrArg BitVec.toNat h1
  rw [BitVec.toNat_ofInt, BitVec.toNat_ofInt] at h2
  have hpos : (0 : ℤ) < ((2 ^ w : ℕ) : ℤ) := by positivity
  have hx := Int.emod_nonneg x hpos.ne'
  have hy := Int.emod_nonneg y hpos.ne'
  have h3 : x % ((2 ^ w : ℕ) : ℤ) = y % ((2 ^ w : ℕ) : ℤ) := by omega
  have h4 : ((2 ^ w : ℕ) : ℤ) ∣ x - y :=
    Int.dvd_of_emod_eq_zero (Int.emod_eq_emod_iff_emod_sub_eq_zero.1 h3)
  have h5 : x - y = 0 := by
    apply Int.eq_zero_of_abs_lt_dvd h4
    exact_mod_cast h
  omega

/-- Offsets that differ by a multiple of `2^w` name the same cell. -/
theorem off_congr (a : BitVec w) {x y : ℤ} (h : 2 ^ w ∣ x - y) : off a x = off a y := by
  have hmod : x % ((2 ^ w : ℕ) : ℤ) = y % ((2 ^ w : ℕ) : ℤ) := by
    rw [Int.emod_eq_emod_iff_emod_sub_eq_zero]
    exact Int.emod_eq_zero_of_dvd (by exact_mod_cast h)
  have hofInt : BitVec.ofInt w x = BitVec.ofInt w y := by
    apply BitVec.eq_of_toNat_eq
    rw [BitVec.toNat_ofInt, BitVec.toNat_ofInt, hmod]
  rw [off, off, hofInt]

/-- The distance of `off a x` from `a`, for an offset inside the address space. -/
theorem off_sub_toNat (a : BitVec w) {x : ℤ} (h0 : 0 ≤ x) (hx : x < 2 ^ w) :
    ((off a x - a).toNat : ℤ) = x := by
  have h1 : off a x - a = BitVec.ofInt w x := by
    rw [off, BitVec.add_comm, BitVec.add_sub_cancel]
  rw [h1, BitVec.toNat_ofInt, Int.emod_eq_of_lt h0 (by exact_mod_cast hx), Int.toNat_of_nonneg h0]

theorem off_sub (a b : BitVec w) : off a ((b - a).toNat : ℤ) = b := by
  rw [off, BitVec.ofInt_natCast, BitVec.ofNat_toNat, BitVec.setWidth_eq, BitVec.add_comm,
    BitVec.sub_add_cancel]

/-! ### Words -/

/-- The 32-bit word at address `a`. -/
def load32 (m : Mem w) (a : BitVec w) : BitVec 32 :=
  m (off a 3) ++ m (off a 2) ++ m (off a 1) ++ m (off a 0)

/-- Store the 32-bit word `v` at address `a`. -/
def store32 (m : Mem w) (a : BitVec w) (v : BitVec 32) : Mem w := fun b =>
  if b = off a 0 then v.extractLsb' 0 8
  else if b = off a 1 then v.extractLsb' 8 8
  else if b = off a 2 then v.extractLsb' 16 8
  else if b = off a 3 then v.extractLsb' 24 8
  else m b

theorem store32_frame (m : Mem w) (a : BitVec w) (v : BitVec 32) {b : BitVec w}
    (h : ∀ k : ℤ, 0 ≤ k → k < 4 → b ≠ off a k) : store32 m a v b = m b := by
  rw [store32, if_neg (h 0 (by omega) (by omega)), if_neg (h 1 (by omega) (by omega)),
    if_neg (h 2 (by omega) (by omega)), if_neg (h 3 (by omega) (by omega))]

theorem load32_congr {m m' : Mem w} {a a' : BitVec w}
    (h : ∀ k : ℤ, 0 ≤ k → k < 4 → m (off a k) = m' (off a' k)) : load32 m a = load32 m' a' := by
  rw [load32, load32, h 0 (by omega) (by omega), h 1 (by omega) (by omega),
    h 2 (by omega) (by omega), h 3 (by omega) (by omega)]

theorem load32_store32 (m : Mem w) (a : BitVec w) (v : BitVec 32) (hw : 2 < w) :
    load32 (store32 m a v) a = v := by
  have hpow : (2 : ℤ) ^ 3 ≤ 2 ^ w := pow_le_pow_right₀ (by norm_num) hw
  have hne : ∀ x y : ℤ, 0 ≤ x → x < 4 → 0 ≤ y → y < 4 → x ≠ y → off a x ≠ off a y := by
    intro x y hx0 hx4 hy0 hy4 hxy he
    have hclose : |x - y| < 2 ^ w := by
      rw [abs_lt]
      omega
    rw [off_inj a hclose] at he
    exact hxy he
  have h10 := hne 1 0 (by omega) (by omega) (by omega) (by omega) (by omega)
  have h20 := hne 2 0 (by omega) (by omega) (by omega) (by omega) (by omega)
  have h21 := hne 2 1 (by omega) (by omega) (by omega) (by omega) (by omega)
  have h30 := hne 3 0 (by omega) (by omega) (by omega) (by omega) (by omega)
  have h31 := hne 3 1 (by omega) (by omega) (by omega) (by omega) (by omega)
  have h32 := hne 3 2 (by omega) (by omega) (by omega) (by omega) (by omega)
  simp only [load32, store32, if_true, if_neg h10, if_neg h20, if_neg h21, if_neg h30, if_neg h31,
    if_neg h32]
  ext i hi
  simp only [BitVec.getElem_append, BitVec.getElem_extractLsb']
  grind

/-! ### An array of words at one base -/

/-- Element `i` of the array of words at `base`. -/
def word (m : Mem w) (base : BitVec w) (i : ℤ) : BitVec 32 := load32 m (off base (4 * i))

/-- **A store changes one element**, for indices that stay inside the address space. -/
theorem word_store (m : Mem w) (base : BitVec w) (v : BitVec 32) {i j : ℤ}
    (h : 4 * |i - j| + 4 ≤ 2 ^ w) (hw : 2 < w) :
    word (store32 m (off base (4 * i)) v) base j = if j = i then v else word m base j := by
  by_cases hij : j = i
  · subst hij
    rw [if_pos rfl, word, load32_store32 m _ v hw]
  · rw [if_neg hij]
    apply load32_congr
    intro k hk0 hk4
    apply store32_frame
    intro l hl0 hl4 he
    rw [off_off, off_off, off_inj] at he
    · omega
    · rw [abs_lt]
      have := abs_le.1 (le_refl |i - j|)
      constructor <;> omega

/-! ### Copies -/

/-- Copy `n` bytes from `src` to `dst`. -/
def copy (m : Mem w) (dst src : BitVec w) (n : ℕ) : Mem w := fun b =>
  if (b - dst).toNat < n then m (src + (b - dst)) else m b

theorem copy_frame (m : Mem w) (dst src : BitVec w) (n : ℕ) {b : BitVec w}
    (h : ∀ k : ℤ, 0 ≤ k → k < n → b ≠ off dst k) : copy m dst src n b = m b := by
  rw [copy, if_neg]
  intro hlt
  exact h ((b - dst).toNat : ℤ) (by omega) (by omega) (off_sub dst b).symm

theorem copy_at (m : Mem w) (dst src : BitVec w) {n : ℕ} (hn : n ≤ 2 ^ w) {k : ℤ} (h0 : 0 ≤ k)
    (hk : k < n) : copy m dst src n (off dst k) = m (off src k) := by
  have hkw : k < 2 ^ w := lt_of_lt_of_le hk (by exact_mod_cast hn)
  have hd := off_sub_toNat dst h0 hkw
  rw [copy, if_pos (by omega)]
  congr 1
  rw [off, off, BitVec.add_comm dst, BitVec.add_sub_cancel]

/-- **A copy carries whole words with it.** -/
theorem word_copy (m : Mem w) (dst src : BitVec w) {n : ℕ} (hn : n ≤ 2 ^ w) {i : ℤ} (h0 : 0 ≤ i)
    (hi : 4 * i + 4 ≤ n) : word (copy m dst src n) dst i = word m src i := by
  apply load32_congr
  intro k hk0 hk4
  rw [off_off, off_off, copy_at m dst src hn (by omega) (by omega)]

end ByteMem
