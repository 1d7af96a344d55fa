import Aesd.Lib.Memory
import Aesd.Lib.Rearrange

/-!
# The kernel state the sort system calls run on

One byte memory holds user space and kernel space together: `HW2/Required Files/sys.c`
dereferences whatever pointer it is given. An `int32_t*` with an index `i` names the
word at `pointer + 4*i`, with the wrap-around of the address space.

The width `w` of a pointer and of `size_t` is a parameter. The kernel of the repository
is built for 32-bit ARM, where `2^32` indices name only `2^30` words: `p[i]` and
`p[i + 2^30]` are one cell. What is said about values is said of a set of indices that
name different cells (`Apart`), an array or a range, and reads the memory through it
(`Kernel.window`).

`touched` is ghost state: it records the pointer and the index of every array element
that is read or written, latest first. `live` is the set of kernel allocations not
freed yet.

`Within p S s s'` is the frame condition of the whole development: between `s` and
`s'` only elements of the array `p` with an index in `S` were read or written.
-/

namespace Aesd

open ByteMem Rearrange

/-- The order of `int32_t`, as the comparison operators compute it. -/
instance instLinearOrderInt32 : LinearOrder Int32 where
  le_refl := Int32.le_refl
  le_trans := fun a b c h1 h2 => by rw [Int32.le_iff_toInt_le] at *; omega
  le_antisymm := fun a b h1 h2 => by
    rw [Int32.le_iff_toInt_le] at *; exact Int32.toInt_inj.1 (by omega)
  le_total := fun a b => by rw [Int32.le_iff_toInt_le, Int32.le_iff_toInt_le]; omega
  lt_iff_le_not_ge := fun a b => by
    rw [Int32.le_iff_toInt_le, Int32.le_iff_toInt_le, Int32.lt_iff_toInt_lt]; omega
  toDecidableLE := inferInstance
  min_def := fun _ _ => rfl
  max_def := fun _ _ => rfl

theorem toInt_succ {i j : Int32} (h : i < j) : (i + 1).toInt = i.toInt + 1 := by
  have h1 := j.toInt_lt
  have h2 := i.le_toInt
  rw [Int32.lt_iff_toInt_lt] at h
  rw [Int32.toInt_add, Int32.toInt_one, Int.bmod_eq_of_le] <;> omega

theorem lt_succ {i j k : Int32} (h : i < j) : k < i + 1 ↔ k ≤ i := by
  rw [Int32.lt_iff_toInt_lt, Int32.le_iff_toInt_le, toInt_succ h]; omega

theorem succ_le {i j k : Int32} (h : i < j) : i + 1 ≤ k ↔ i < k := by
  rw [Int32.lt_iff_toInt_lt, Int32.le_iff_toInt_le, toInt_succ h]; omega

variable {w : ℕ}

abbrev Addr (w : ℕ) := BitVec w

def NULL : Addr w := 0

/-- Where user programs live on 32-bit ARM. -/
def userSpace : Set (Addr 32) := {x | 0 < x.toNat ∧ x.toNat < 0xbf000000}

/-- `-EFAULT`. A result is a `long`; it is 0, `-EFAULT` or an index, which any width holds. -/
def negEFAULT : ℤ := -14

/-- The errors of the system calls that report them by name. -/
inductive Errno
  | EPERM
  | ESRCH
  | EBADF
  | EAGAIN
  | ENOMEM
  | EACCES
  | EFAULT
  | EBUSY
  | EINVAL
  /-- what a security module returns -/
  | security (code : ℕ)
deriving DecidableEq

/-- A check that fails with an error has been passed. -/
theorem ite_error_eq_ok {ε α : Type} {c : Prop} [Decidable c] {e : ε} {x : Except ε α} {a : α} :
    (if c then .error e else x) = .ok a ↔ ¬ c ∧ x = .ok a := by
  by_cases h : c
  · rw [if_pos h]
    exact iff_of_false (fun h => nomatch h) fun hx => hx.1 h
  · rw [if_neg h]
    exact (and_iff_right h).symm

/-- A chain of checks that succeeds has passed its first one. -/
theorem bind_eq_ok {ε α β : Type} {x : Except ε α} {f : α → Except ε β} {b : β}
    (h : x >>= f = .ok b) : ∃ a, x = .ok a ∧ f a = .ok b := by
  cases x with
  | error e => cases h
  | ok a => exact ⟨a, rfl, h⟩

/-- One read or write of the array element `ptr[idx]`. -/
structure Access (w : ℕ) where
  ptr : Addr w
  idx : Int32
deriving DecidableEq

structure Kernel (w : ℕ) where
  mem : Mem w
  live : Finset (Addr w)
  touched : List (Access w)

namespace Kernel

/-- The value of the array element `p[i]`. -/
def elem (s : Kernel w) (p : Addr w) (i : Int32) : Int32 := ⟨⟨word s.mem p i.toInt⟩⟩

/-- Evaluate `p[i]`. -/
def read (s : Kernel w) (p : Addr w) (i : Int32) : Int32 × Kernel w :=
  (s.elem p i, { s with touched := ⟨p, i⟩ :: s.touched })

/-- Execute `p[i] = v`. -/
def write (s : Kernel w) (p : Addr w) (i : Int32) (v : Int32) : Kernel w :=
  { s with
    mem := store32 s.mem (off p (4 * i.toInt)) v.toBitVec
    touched := ⟨p, i⟩ :: s.touched }

/-- `temp = p[a]; p[a] = p[b]; p[b] = temp`. -/
def exchange (s : Kernel w) (p : Addr w) (a b : Int32) : Kernel w :=
  let (temp, s) := s.read p a
  let (x, s) := s.read p b
  let s := s.write p a x
  s.write p b temp

open Classical in
/-- The array at `p` as far as its indices lie in `A`, and 0 elsewhere. -/
noncomputable def window (s : Kernel w) (A : Set Int32) (p : Addr w) (i : Int32) : Int32 :=
  if i ∈ A then s.elem p i else 0

end Kernel

variable {s s' s'' : Kernel w} {p : Addr w} {S T A : Set Int32}

@[simp] theorem read_fst (i : Int32) : (s.read p i).1 = s.elem p i := rfl

@[simp] theorem read_elem (q : Addr w) (i : Int32) : (s.read p i).2.elem q = s.elem q := rfl

@[simp] theorem read_touched (i : Int32) : (s.read p i).2.touched = ⟨p, i⟩ :: s.touched := rfl

@[simp] theorem exchange_touched (a b : Int32) :
    (s.exchange p a b).touched = ⟨p, b⟩ :: ⟨p, a⟩ :: ⟨p, b⟩ :: ⟨p, a⟩ :: s.touched := rfl

/-! ### Indices that name different cells -/

/-- **Two indices in `A` name different cells** of any array, if they are different. -/
def Apart (w : ℕ) (A : Set Int32) : Prop :=
  ∀ i ∈ A, ∀ j ∈ A, 4 * |i.toInt - j.toInt| + 4 ≤ 2 ^ w

/-- Indices less than `n` apart, when `n` elements fit into the address space. -/
theorem apart_of_lt {n : ℤ} (hn : 4 * n ≤ 2 ^ w)
    (h : ∀ i ∈ A, ∀ j ∈ A, i.toInt - j.toInt < n) : Apart w A := by
  intro i hi j hj
  have h1 := h i hi j hj
  have h2 := h j hj i hi
  have habs : |i.toInt - j.toInt| < n := by
    rw [abs_lt]
    omega
  omega

/-- From 34 bits on every two indices name different cells. -/
theorem apart_univ (hw : 34 ≤ w) : Apart w Set.univ := by
  have hpow : (2 : ℤ) ^ 34 ≤ 2 ^ w := pow_le_pow_right₀ (by norm_num) hw
  refine apart_of_lt (n := 2 ^ 32) (by omega) ?_
  intro i _ j _
  have h1 := i.toInt_lt
  have h2 := j.le_toInt
  omega

/-- The indices of an array that fits into the address space. -/
theorem apart_array {n : ℕ} (hn : 4 * n ≤ 2 ^ w) : Apart w {k | 0 ≤ k ∧ k.toInt < n} := by
  refine apart_of_lt (n := n) (by exact_mod_cast hn) ?_
  intro i hi j hj
  have h1 := hi.2
  have h2 := Int32.le_iff_toInt_le.1 hj.1
  rw [Int32.toInt_zero] at h2
  omega

theorem window_of_mem {i : Int32} (hi : i ∈ A) : s.window A p i = s.elem p i := if_pos hi

theorem window_congr (h : ∀ i ∈ A, s'.elem p i = s.elem p i) : s'.window A p = s.window A p := by
  funext i
  unfold Kernel.window
  split
  · exact h i ‹_›
  · rfl

@[simp] theorem window_read (i : Int32) : (s.read p i).2.window A p = s.window A p := rfl

/-- **A write changes one element** of the window. -/
theorem window_write (hA : Apart w A) (hw : 32 ≤ w) {i : Int32} (hi : i ∈ A) (v : Int32) :
    (s.write p i v).window A p = Function.update (s.window A p) i v := by
  funext j
  rw [Function.update_apply]
  by_cases hj : j ∈ A
  · rw [window_of_mem hj, window_of_mem hj]
    unfold Kernel.elem Kernel.write
    dsimp only
    rw [word_store _ _ _ (hA i hi j hj) (by omega)]
    by_cases hij : j = i
    · rw [if_pos (by rw [hij]), if_pos hij]
      rfl
    · rw [if_neg (fun h => hij (Int32.toInt_inj.1 h)), if_neg hij]
  · have hij : j ≠ i := fun h => hj (h ▸ hi)
    rw [if_neg hij]
    unfold Kernel.window
    rw [if_neg hj, if_neg hj]

/-- **Exchanging two elements** swaps their positions and nothing else. -/
theorem window_exchange (hA : Apart w A) (hw : 32 ≤ w) {a b : Int32} (ha : a ∈ A) (hb : b ∈ A) :
    (s.exchange p a b).window A p = s.window A p ∘ Equiv.swap a b := by
  have hea : s.elem p a = s.window A p a := (window_of_mem ha).symm
  have heb : s.elem p b = s.window A p b := (window_of_mem hb).symm
  funext k
  simp only [Kernel.exchange, window_write hA hw ha, window_write hA hw hb, window_read, read_fst,
    read_elem, hea, heb, Function.update_apply, Function.comp_apply, Equiv.swap_apply_def]
  by_cases hkb : k = b
  · subst hkb
    by_cases hka : k = a <;> simp [hka]
  · by_cases hka : k = a
    · subst hka; simp [hkb]
    · simp [hka, hkb]

/-! ### What a run accesses -/

/-- The byte `x` belongs to one of the elements `p[i]`, `i ∈ S`. -/
def InElems (p : Addr w) (S : Set Int32) (x : Addr w) : Prop :=
  ∃ i ∈ S, ∃ k : ℤ, 0 ≤ k ∧ k < 4 ∧ x = off p (4 * i.toInt + k)

/-- **Between `s` and `s'` only elements `p[i]` with `i ∈ S` were accessed.** -/
structure Within (p : Addr w) (S : Set Int32) (s s' : Kernel w) : Prop where
  live : s'.live = s.live
  touched : ∃ t, s'.touched = t ++ s.touched ∧ ∀ a ∈ t, a.ptr = p ∧ a.idx ∈ S
  frame : ∀ x, ¬ InElems p S x → s'.mem x = s.mem x

theorem Within.refl (p : Addr w) (S : Set Int32) (s : Kernel w) : Within p S s s :=
  ⟨rfl, ⟨[], rfl, by simp⟩, fun _ _ => rfl⟩

theorem Within.trans (h₁ : Within p S s s') (h₂ : Within p S s' s'') : Within p S s s'' := by
  obtain ⟨t₁, e₁, ht₁⟩ := h₁.touched
  obtain ⟨t₂, e₂, ht₂⟩ := h₂.touched
  refine ⟨h₂.live.trans h₁.live, ⟨t₂ ++ t₁, by rw [e₂, e₁, List.append_assoc], ?_⟩, ?_⟩
  · intro a ha
    rcases List.mem_append.1 ha with h | h
    · exact ht₂ a h
    · exact ht₁ a h
  · intro x hx
    rw [h₂.frame x hx, h₁.frame x hx]

theorem Within.mono (hST : S ⊆ T) (h : Within p S s s') : Within p T s s' := by
  obtain ⟨t, e, ht⟩ := h.touched
  refine ⟨h.live, ⟨t, e, fun a ha => ⟨(ht a ha).1, hST (ht a ha).2⟩⟩, ?_⟩
  intro x hx
  exact h.frame x (fun ⟨i, hi, hk⟩ => hx ⟨i, hST hi, hk⟩)

theorem Within.touched_mono (h : Within p S s s') {a : Access w} (ha : a ∈ s.touched) :
    a ∈ s'.touched := by
  obtain ⟨t, e, -⟩ := h.touched
  rw [e]
  exact List.mem_append_right t ha

/-- The new accesses of a run that starts with an empty record. -/
theorem Within.touched_mem (h : Within p S s s') (h0 : s.touched = []) {a : Access w}
    (ha : a ∈ s'.touched) : a.ptr = p ∧ a.idx ∈ S := by
  obtain ⟨t, e, ht⟩ := h.touched
  rw [e, h0, List.append_nil] at ha
  exact ht a ha

theorem Within.read {i : Int32} (hi : i ∈ S) : Within p S s (s.read p i).2 :=
  ⟨rfl, ⟨[⟨p, i⟩], rfl, by simpa using hi⟩, fun _ _ => rfl⟩

theorem Within.write {i v : Int32} (hi : i ∈ S) : Within p S s (s.write p i v) := by
  refine ⟨rfl, ⟨[⟨p, i⟩], rfl, by simpa using hi⟩, ?_⟩
  intro x hx
  apply store32_frame
  intro k hk0 hk4 he
  exact hx ⟨i, hi, k, hk0, hk4, by rw [he, off_off]⟩

theorem Within.exchange {a b : Int32} (ha : a ∈ S) (hb : b ∈ S) :
    Within p S s (s.exchange p a b) :=
  (((Within.read ha).trans (Within.read hb)).trans (Within.write ha)).trans (Within.write hb)

end Aesd
