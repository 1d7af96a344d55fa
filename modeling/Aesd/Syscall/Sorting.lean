import Aesd.Syscall.QuickSort

/-!
# What `sorting` does

`sorting_cases` lists the five ways through the system call: refused arguments, no
buffer, a failed copy in, a failed copy out, and success. Everything about `sorting`
is read off from it.

`sorting_sorts`: when the buffer and both copies are granted, the call returns 0 and
leaves in `sorted` the values that `unsorted` held, in non-increasing order, however
the two user ranges overlap; nothing else in user space changes. A refused call
changes nothing.
-/

namespace Aesd

open ByteMem Rearrange

variable {w : ℕ} {c : SortingCall w} {s s' : Kernel w} {p : Addr w}

/-! ### The loops that print the buffer -/

theorem printLoop_spec (p : Addr w) (size j : Int32) (s : Kernel w) :
    (printLoop p size j s).mem = s.mem ∧
      Within p {k | j ≤ k ∧ k < size} s (printLoop p size j s) ∧
      ∀ k, j ≤ k → k < size → (⟨p, k⟩ : Access w) ∈ (printLoop p size j s).touched := by
  fun_induction printLoop p size j s with
  | case1 j s hj ih =>
    obtain ⟨hm, hw, ht⟩ := ih
    have hsub : {k : Int32 | j + 1 ≤ k ∧ k < size} ⊆ {k | j ≤ k ∧ k < size} :=
      fun k hk => ⟨((succ_le hj).1 hk.1).le, hk.2⟩
    have hread : Within p {k | j ≤ k ∧ k < size} s (s.read p j).2 := Within.read ⟨le_rfl, hj⟩
    refine ⟨hm, hread.trans (hw.mono hsub), ?_⟩
    intro k h1 h2
    rcases eq_or_lt_of_le h1 with rfl | hk
    · exact hw.touched_mono (by simp)
    · exact ht k ((succ_le hj).2 hk) h2
  | case2 j s hj => exact ⟨rfl, Within.refl _ _ _, fun k h1 h2 => absurd (h1.trans_lt h2) hj⟩

/-! ### The ways through the call -/

/-- The argument checks at the head of `sorting` pass. -/
structure Checked (c : SortingCall w) : Prop where
  sorted : c.sorted ≠ NULL
  unsorted : c.unsorted ≠ NULL
  size : 0 < c.size

/-- The bytes `sorting` asks for and copies. -/
def SortingCall.bytes (c : SortingCall w) : ℕ := (sizeT w (sizeOfVar w c.size)).toNat

/-- The state after `copy_from_user`. -/
def copiedIn (c : SortingCall w) (s : Kernel w) : Kernel w :=
  (s.kmalloc c.kmalloc c.bytes).copyUser c.kmalloc c.unsorted c.bytes c.from_left

/-- The state before `copy_to_user`: the buffer printed, sorted and printed again. -/
def sortedBuffer (c : SortingCall w) (s : Kernel w) : Kernel w :=
  printLoop c.kmalloc c.size 0 (quickSort (c.size.toNatClampNeg + 1) c.kmalloc 0 (c.size - 1)
    (printLoop c.kmalloc c.size 0 (copiedIn c s))).2

/-- The state after `copy_to_user`. -/
def copiedOut (c : SortingCall w) (s : Kernel w) : Kernel w :=
  (sortedBuffer c s).copyUser c.sorted c.kmalloc c.bytes c.to_left

/-- **The ways through `sorting`.** -/
theorem sorting_cases (c : SortingCall w) (s : Kernel w) :
    (¬ Checked c ∧ sorting c s = (negEFAULT, s)) ∨
    (Checked c ∧ c.kmalloc = NULL ∧ sorting c s = (negEFAULT, s)) ∨
    (Checked c ∧ c.kmalloc ≠ NULL ∧ c.from_left ≠ 0 ∧ sorting c s = (negEFAULT, copiedIn c s)) ∨
    (Checked c ∧ c.kmalloc ≠ NULL ∧ c.from_left = 0 ∧ c.to_left ≠ 0 ∧
      sorting c s = (negEFAULT, copiedOut c s)) ∨
    (Checked c ∧ c.kmalloc ≠ NULL ∧ c.from_left = 0 ∧ c.to_left = 0 ∧
      sorting c s = (0, (copiedOut c s).kfree c.kmalloc)) := by
  by_cases h1 : c.sorted = NULL
  · exact .inl ⟨fun h => h.sorted h1, by rw [sorting, if_pos h1]⟩
  by_cases h2 : c.unsorted = NULL
  · exact .inl ⟨fun h => h.unsorted h2, by rw [sorting, if_neg h1, if_pos h2]⟩
  by_cases h3 : c.size ≤ 0
  · exact .inl ⟨fun h => h3.not_gt h.size, by rw [sorting, if_neg h1, if_neg h2, if_pos h3]⟩
  have hc : Checked c := ⟨h1, h2, not_le.1 h3⟩
  right
  by_cases h4 : c.kmalloc = NULL
  · refine .inl ⟨hc, h4, ?_⟩
    simp only [sorting, if_neg h1, if_neg h2, if_neg h3, h4, ne_eq, not_true_eq_false, if_false,
      Kernel.kmalloc, true_or, if_true]
  right
  by_cases h5 : c.from_left = 0
  swap
  · refine .inl ⟨hc, h4, h5, ?_⟩
    simp only [sorting, if_neg h1, if_neg h2, if_neg h3, if_pos h4, if_pos h5]
    rfl
  right
  by_cases h6 : c.to_left = 0
  swap
  · refine .inl ⟨hc, h4, h5, h6, ?_⟩
    simp only [sorting, if_neg h1, if_neg h2, if_neg h3, if_pos h4, if_neg (not_not.2 h5), if_pos h6]
    rfl
  · refine .inr ⟨hc, h4, h5, h6, ?_⟩
    simp only [sorting, if_neg h1, if_neg h2, if_neg h3, if_pos h4, if_neg (not_not.2 h5),
      if_neg (not_not.2 h6)]
    rfl

/-! ### The buffer -/

theorem inner_size (h : 0 < c.size) :
    Inner 0 (c.size - 1) ∧ (c.size - 1).toInt = c.size.toInt - 1 ∧
      range 0 (c.size - 1) = {k | 0 ≤ k ∧ k < c.size} := by
  have h0 : 0 < c.size.toInt := by
    rw [Int32.lt_iff_toInt_lt, Int32.toInt_zero] at h; exact h
  have h1 := c.size.toInt_lt
  have h2 := toInt_sub_one (m := c.size) (by omega)
  refine ⟨⟨by rw [Int32.toInt_zero]; omega, by omega⟩, h2, ?_⟩
  ext k
  simp only [range, Set.mem_ofPred_eq, Int32.le_iff_toInt_le, Int32.lt_iff_toInt_lt]
  omega

theorem toNatClampNeg_size (h : 0 < c.size) : (c.size.toNatClampNeg : ℤ) = c.size.toInt :=
  (Int32.toInt_eq_toNatClampNeg h.le).symm

theorem fuel_size (h : 0 < c.size) :
    ((c.size - 1).toInt - (0 : Int32).toInt + 1).toNat < c.size.toNatClampNeg + 1 := by
  obtain ⟨-, hs, -⟩ := inner_size h
  have := toNatClampNeg_size h
  rw [hs, Int32.toInt_zero]
  omega

/-- **The buffer is gone through**: every element of it is accessed, and nothing else. -/
theorem sortedBuffer_within (hp : c.kmalloc ≠ NULL) (h : 0 < c.size) (s : Kernel w) :
    Within c.kmalloc (range 0 (c.size - 1)) (copiedIn c s) (sortedBuffer c s) ∧
      ∀ k ∈ range 0 (c.size - 1), ⟨c.kmalloc, k⟩ ∈ (sortedBuffer c s).touched := by
  obtain ⟨hin, -, hr⟩ := inner_size h
  obtain ⟨-, hw1, -⟩ := printLoop_spec c.kmalloc c.size 0 (copiedIn c s)
  rw [← hr] at hw1
  have hw2 := quickSort_within hp hin (c.size.toNatClampNeg + 1)
    (printLoop c.kmalloc c.size 0 (copiedIn c s))
  obtain ⟨-, hw3, ht3⟩ := printLoop_spec c.kmalloc c.size 0 (quickSort (c.size.toNatClampNeg + 1)
    c.kmalloc 0 (c.size - 1) (printLoop c.kmalloc c.size 0 (copiedIn c s))).2
  rw [← hr] at hw3
  refine ⟨(hw1.trans hw2).trans hw3, ?_⟩
  intro k hk
  rw [hr] at hk
  exact ht3 k hk.1 hk.2

/-- **The buffer is sorted in place**, when its elements are different cells. -/
theorem sortedBuffer_leaves (hw : 32 ≤ w) (hA : Apart w (range 0 (c.size - 1)))
    (hp : c.kmalloc ≠ NULL) (h : 0 < c.size) (s : Kernel w) :
    Leaves (range 0 (c.size - 1)) c.kmalloc 0 (c.size - 1) (copiedIn c s) (sortedBuffer c s) := by
  obtain ⟨hin, -, -⟩ := inner_size h
  obtain ⟨hm1, -, -⟩ := printLoop_spec c.kmalloc c.size 0 (copiedIn c s)
  -- the printing loops read the buffer and leave memory alone
  set t₁ := printLoop c.kmalloc c.size 0 (copiedIn c s)
  obtain ⟨t₂, hq, hl⟩ := quickSort_leaves hw hA hp _ hin subset_rfl (fuel_size h) t₁
  have hsb : sortedBuffer c s = printLoop c.kmalloc c.size 0 t₂ := by
    unfold sortedBuffer; rw [hq]
  obtain ⟨hm3, -, -⟩ := printLoop_spec c.kmalloc c.size 0 t₂
  have he1 : t₁.window (range 0 (c.size - 1)) c.kmalloc =
      (copiedIn c s).window (range 0 (c.size - 1)) c.kmalloc :=
    window_congr fun i _ => by unfold Kernel.elem; rw [hm1]
  have he3 : (printLoop c.kmalloc c.size 0 t₂).window (range 0 (c.size - 1)) c.kmalloc =
      t₂.window (range 0 (c.size - 1)) c.kmalloc :=
    window_congr fun i _ => by unfold Kernel.elem; rw [hm3]
  refine ⟨?_, ?_⟩
  · rw [hsb, he3, ← he1]
    exact hl.rearr
  · rw [hsb, he3]
    exact hl.sorted

/-! ### Functional correctness -/

/-- The first `n` elements of the array at `p`. -/
def Kernel.elems (s : Kernel w) (p : Addr w) (n : ℕ) : List Int32 :=
  (List.range n).map fun i => s.elem p (Int32.ofNat i)

/-- **The kernel grants the call**, for the user address space `U`: `kmalloc` returns a
kernel buffer and both copies go through, so both user ranges lie in `U`. -/
structure Granted (U : Set (Addr w)) (c : SortingCall w) : Prop where
  kmalloc : c.kmalloc ≠ NULL
  from_left : c.from_left = 0
  to_left : c.to_left = 0
  unsorted : ∀ k : ℤ, 0 ≤ k → k < 4 * c.size.toInt → off c.unsorted k ∈ U
  sorted : ∀ k : ℤ, 0 ≤ k → k < 4 * c.size.toInt → off c.sorted k ∈ U
  buffer : ∀ k : ℤ, 0 ≤ k → k < 4 * c.size.toInt → off c.kmalloc k ∉ U

/-- An `int32_t` as a `size_t` is taken modulo `2^w`. -/
theorem sizeT_eq (w : ℕ) (x : Int32) : ((sizeT w x).toNat : ℤ) = x.toInt % 2 ^ w := by
  have hpos : (0 : ℤ) < ((2 ^ w : ℕ) : ℤ) := by positivity
  unfold sizeT
  rw [BitVec.toNat_ofInt, Int.toNat_of_nonneg (Int.emod_nonneg _ hpos.ne')]
  norm_cast

/-- The byte count is stored modulo `2^32`, as a signed value. -/
theorem toInt_sizeOfVar (hw : 32 ≤ w) (size : Int32) :
    (sizeOfVar w size).toInt = (4 * size.toInt).bmod (2 ^ 32) := by
  have hdvd : ((2 ^ 32 : ℕ) : ℤ) ∣ ((2 ^ w : ℕ) : ℤ) := by exact_mod_cast pow_dvd_pow 2 hw
  have hpos : (0 : ℤ) < ((2 ^ w : ℕ) : ℤ) := by positivity
  have hproduct : sizeT w size * 4 = BitVec.ofInt w (4 * size.toInt) := by
    have h4 : (4 : BitVec w) = BitVec.ofInt w 4 := rfl
    rw [sizeT, h4, ← BitVec.ofInt_mul, mul_comm]
  unfold sizeOfVar
  rw [hproduct]
  change (BitVec.setWidth 32 (BitVec.ofInt w (4 * size.toInt))).toInt = _
  rw [BitVec.toInt_setWidth, BitVec.toNat_ofInt, Int.toNat_of_nonneg (Int.emod_nonneg _ hpos.ne'),
    ← Int.emod_bmod, Int.emod_emod_of_dvd _ hdvd, Int.emod_bmod]

theorem bytes_lt (c : SortingCall w) : c.bytes < 2 ^ w := (sizeT w (sizeOfVar w c.size)).isLt

/-- Below `2^29` elements the byte count does not wrap. -/
theorem bytes_of_lt (hw : 32 ≤ w) (h0 : 0 < c.size) (h : c.size.toInt < 2 ^ 29) :
    (c.bytes : ℤ) = 4 * c.size.toInt := by
  have hpow : (2 : ℤ) ^ 32 ≤ 2 ^ w := pow_le_pow_right₀ (by norm_num) hw
  rw [Int32.lt_iff_toInt_lt, Int32.toInt_zero] at h0
  unfold SortingCall.bytes
  rw [sizeT_eq, toInt_sizeOfVar hw, Int.bmod_eq_of_le (by omega) (by omega),
    Int.emod_eq_of_lt (by omega) (by omega)]

/-- Two arrays that agree up to `n` have the same first `n` elements. -/
theorem elems_congr {s s' : Kernel w} {p q : Addr w} {n : ℕ} (hn : n ≤ 2 ^ 31)
    (h : ∀ i : Int32, 0 ≤ i.toInt → i.toInt < n → s.elem p i = s'.elem q i) :
    s.elems p n = s'.elems q n := by
  refine List.map_congr_left ?_
  intro i hi
  have hi := List.mem_range.1 hi
  have := Int32.toInt_ofNat_of_lt (n := i) (by omega)
  exact h _ (by omega) (by omega)

/-- The data of a granted call: the buffer gets the values of `unsorted`, `sorted` gets
the values of the buffer. -/
theorem copied_elem {U : Set (Addr w)} (hw : 32 ≤ w) (hg : Granted U c) (h0 : 0 < c.size)
    (hlt : c.size.toInt < 2 ^ 29) (i : Int32) (hi0 : 0 ≤ i.toInt) (hi : i.toInt < c.size.toInt) :
    (copiedIn c s).elem c.kmalloc i = s.elem c.unsorted i ∧
      (copiedOut c s).elem c.sorted i = (sortedBuffer c s).elem c.kmalloc i := by
  have hb := bytes_of_lt hw h0 hlt
  have hk : (s.kmalloc c.kmalloc c.bytes).mem = s.mem := by
    unfold Kernel.kmalloc; split <;> rfl
  constructor
  · simp only [Kernel.elem, copiedIn, Kernel.copyUser, hk, hg.from_left, Nat.sub_zero]
    rw [word_copy _ _ _ (by have := bytes_lt c; omega) hi0 (by omega)]
  · simp only [Kernel.elem, copiedOut, Kernel.copyUser, hg.to_left, Nat.sub_zero]
    rw [word_copy _ _ _ (by have := bytes_lt c; omega) hi0 (by omega)]

/-- **User space outside `sorted` is left alone** by a granted call. -/
theorem copied_frame {U : Set (Addr w)} (hw : 32 ≤ w) (hg : Granted U c) (h0 : 0 < c.size)
    (hlt : c.size.toInt < 2 ^ 29) {x : Addr w} (hx : x ∈ U)
    (hout : ¬ InElems c.sorted (range 0 (c.size - 1)) x) : (copiedOut c s).mem x = s.mem x := by
  have hb := bytes_of_lt hw h0 hlt
  obtain ⟨-, -, hr⟩ := inner_size h0
  obtain ⟨hwithin, -⟩ := sortedBuffer_within (c := c) hg.kmalloc h0 s
  have hk : (s.kmalloc c.kmalloc c.bytes).mem = s.mem := by
    unfold Kernel.kmalloc; split <;> rfl
  -- byte `k` of an array of `size` elements is byte `k % 4` of element `k / 4`
  have hidx : ∀ (q : Addr w) (k : ℤ), 0 ≤ k → k < 4 * c.size.toInt → x = off q k →
      InElems q (range 0 (c.size - 1)) x := by
    intro q k hk0 hk4 he
    have hk31 : (Int32.ofInt (k / 4)).toInt = k / 4 := Int32.toInt_ofInt_of_le (by omega) (by omega)
    refine ⟨Int32.ofInt (k / 4), ?_, k % 4, by omega, by omega, ?_⟩
    · rw [hr]
      constructor
      · rw [Int32.le_iff_toInt_le, hk31, Int32.toInt_zero]; omega
      · rw [Int32.lt_iff_toInt_lt, hk31]; omega
    · rw [hk31, he]; congr 1; omega
  -- back through `copy_to_user`, the sort and `copy_from_user`
  have h1 : (copiedOut c s).mem x = (sortedBuffer c s).mem x := by
    refine copy_frame _ _ _ _ fun k hk0 hk4 he => hout (hidx _ k hk0 (by omega) he)
  have h2 : (sortedBuffer c s).mem x = (copiedIn c s).mem x := by
    refine hwithin.frame x ?_
    rintro ⟨i, hi, k, hk0, hk4, he⟩
    rw [hr] at hi
    have hi1 := Int32.le_iff_toInt_le.1 hi.1
    have hi2 := Int32.lt_iff_toInt_lt.1 hi.2
    rw [Int32.toInt_zero] at hi1
    exact hg.buffer _ (by omega) (by omega) (he ▸ hx)
  have h3 : (copiedIn c s).mem x = (s.kmalloc c.kmalloc c.bytes).mem x := by
    refine copy_frame _ _ _ _ ?_
    intro k hk0 hk4 he
    exact hg.buffer k hk0 (by omega) (he ▸ hx)
  rw [h1, h2, h3, hk]

theorem elems_between (h0 : 0 < c.size) (s : Kernel w) (p : Addr w) :
    s.elems p c.size.toNatClampNeg = s.between p 0 (c.size - 1) := by
  have hn := toNatClampNeg_size h0
  obtain ⟨-, hs, -⟩ := inner_size h0
  have hlen : ((c.size - 1).toInt - (0 : Int32).toInt + 1).toNat = c.size.toNatClampNeg := by
    rw [hs, Int32.toInt_zero]
    omega
  unfold Kernel.elems Kernel.between
  rw [hlen]
  refine List.map_congr_left ?_
  intro i _
  rw [Int32.toInt_zero, zero_add]
  rfl

/-- A granted call runs to its end. -/
theorem sorting_granted {U : Set (Addr w)} (hc : Checked c) (hg : Granted U c) (s : Kernel w) :
    sorting c s = (0, (copiedOut c s).kfree c.kmalloc) := by
  rcases sorting_cases c s with h | h | h | h | h
  · exact absurd hc h.1
  · exact absurd h.2.1 hg.kmalloc
  · exact absurd hg.from_left h.2.2.1
  · exact absurd hg.to_left h.2.2.2.1
  · exact h.2.2.2.2

theorem sorting_refused (hc : ¬ Checked c) (s : Kernel w) : sorting c s = (negEFAULT, s) := by
  rcases sorting_cases c s with h | h | h | h | h
  · exact h.2
  all_goals exact absurd h.1 hc

/-- Below `2^29` elements the buffer is not the whole of the address space. -/
theorem apart_size (hw : 32 ≤ w) (h0 : 0 < c.size) (hlt : c.size.toInt < 2 ^ 29) :
    Apart w (range 0 (c.size - 1)) := by
  have hpow : (2 : ℤ) ^ 32 ≤ 2 ^ w := pow_le_pow_right₀ (by norm_num) hw
  obtain ⟨-, -, hr⟩ := inner_size h0
  rw [hr]
  refine apart_of_lt (n := 2 ^ 29) (by omega) ?_
  intro i hi j hj
  have h1 := Int32.lt_iff_toInt_lt.1 hi.2
  have h2 := Int32.le_iff_toInt_le.1 hj.1
  rw [Int32.toInt_zero] at h2
  omega

/-- **The values of a granted call**: those of `unsorted`, in non-increasing order. -/
theorem granted_sorts {U : Set (Addr w)} (hw : 32 ≤ w) (hc : Checked c)
    (hlt : c.size.toInt < 2 ^ 29) (hg : Granted U c) (s : Kernel w) :
    (((copiedOut c s).kfree c.kmalloc).elems c.sorted c.size.toNatClampNeg).Perm
        (s.elems c.unsorted c.size.toNatClampNeg) ∧
      (((copiedOut c s).kfree c.kmalloc).elems c.sorted c.size.toNatClampNeg).Pairwise (· ≥ ·) := by
  have hn := toNatClampNeg_size hc.size
  have hn31 : c.size.toNatClampNeg ≤ 2 ^ 31 := by omega
  -- the values in `sorted` are those of the sorted buffer, which came from `unsorted`
  have hout : ((copiedOut c s).kfree c.kmalloc).elems c.sorted c.size.toNatClampNeg =
      (sortedBuffer c s).elems c.kmalloc c.size.toNatClampNeg :=
    elems_congr hn31 fun i hi0 hi => (copied_elem hw hg hc.size hlt i hi0 (by omega)).2
  have hin : (copiedIn c s).elems c.kmalloc c.size.toNatClampNeg =
      s.elems c.unsorted c.size.toNatClampNeg :=
    elems_congr hn31 fun i hi0 hi => (copied_elem hw hg hc.size hlt i hi0 (by omega)).1
  rw [hout, ← hin]
  rw [elems_between hc.size, elems_between hc.size]
  exact (sortedBuffer_leaves hw (apart_size hw hc.size hlt) hg.kmalloc hc.size s).between subset_rfl

/-- **`sorting` sorts**, for every user memory, every pair of ranges and every size
below `2^29`; a call with a null pointer or without a positive size is refused. -/
theorem sorting_sorts (hw : 32 ≤ w) (U : Set (Addr w)) (c : SortingCall w) (s : Kernel w) :
    (c.unsorted ≠ NULL → c.sorted ≠ NULL → 1 ≤ c.size.toInt → c.size.toInt < 2 ^ 29 →
      Granted U c →
      (sorting c s).1 = 0 ∧
      ((sorting c s).2.elems c.sorted c.size.toNatClampNeg).Perm
        (s.elems c.unsorted c.size.toNatClampNeg) ∧
      ((sorting c s).2.elems c.sorted c.size.toNatClampNeg).Pairwise (· ≥ ·) ∧
      ∀ x ∈ U, ¬ InElems c.sorted (range 0 (c.size - 1)) x → (sorting c s).2.mem x = s.mem x) ∧
    (c.unsorted = NULL ∨ c.sorted = NULL ∨ c.size.toInt ≤ 0 →
      sorting c s = (negEFAULT, s)) := by
  constructor
  · intro hu hs h1 hlt hg
    have h0 : 0 < c.size := by rw [Int32.lt_iff_toInt_lt, Int32.toInt_zero]; omega
    have hc : Checked c := ⟨hs, hu, h0⟩
    obtain ⟨hperm, hsorted⟩ := granted_sorts hw hc hlt hg s
    rw [sorting_granted hc hg]
    exact ⟨rfl, hperm, hsorted, fun x hx hx' => copied_frame hw hg h0 hlt hx hx'⟩
  · intro h
    refine sorting_refused ?_ s
    intro hc
    have h0 := hc.size
    rw [Int32.lt_iff_toInt_lt, Int32.toInt_zero] at h0
    rcases h with h | h | h
    · exact hc.unsorted h
    · exact hc.sorted h
    · omega

/-- Two elements, the second range starting inside the first. -/
def overlapCall : SortingCall 32 where
  unsorted := 0x1000
  sorted := 0x1006
  size := 2
  kmalloc := 0xc0008000
  from_left := 0
  to_left := 0

theorem overlapCall_granted : Granted userSpace overlapCall := by
  have h8 : 4 * overlapCall.size.toInt = 8 := by decide
  refine ⟨by decide, rfl, rfl, ?_, ?_, ?_⟩ <;> intro k hk0 hk <;> rw [h8] at hk <;>
    interval_cases k <;> simp [userSpace, overlapCall, off]

/-- A kernel without allocations, each byte of memory holding its own address. -/
def freshKernel : Kernel 32 := ⟨fun x => x.setWidth 8, ∅, []⟩

theorem sorting_sorts_overlap :
    (sorting overlapCall freshKernel).1 = 0 ∧
      ((sorting overlapCall freshKernel).2.elems 0x1006 2).Perm (freshKernel.elems 0x1000 2) :=
  have h := (sorting_sorts le_rfl userSpace overlapCall freshKernel).1 (by decide) (by decide)
    (by decide) (by decide) overlapCall_granted
  ⟨h.1, h.2.1⟩

end Aesd
