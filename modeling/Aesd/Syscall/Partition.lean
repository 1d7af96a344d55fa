import Aesd.Syscall.Sys

/-!
# What `get_partition_index` does

The loop keeps its two indices in the range (`InRange`), whatever the memory holds. On a
range whose elements are different cells it also keeps three regions (`PartInv`): values at
least the pivot in `lo..i-1`, values below it in `i..j-1`, and values not looked at yet from
`j` on. `i = j`, where the element is exchanged with itself, is the case of an empty middle
region.

* `getPartitionIndex_within`: for `lo ≤ hi` the result is a position of the range, and only
  the range is touched.
* `getPartitionIndex_touches`: every element of the range is read.
* `getPartitionIndex_split`: the range is split around the old last element.
* `getPartitionIndex_partitions`: the same in terms of the values.
-/

namespace Aesd

open ByteMem Rearrange

variable {w : ℕ} {p : Addr w} {lo hi pivot m : Int32} {s s₀ s₁ : Kernel w} {i j : Int32}
  {A : Set Int32}

/-- The indices `lo..hi`. -/
def range (lo hi : Int32) : Set Int32 := {k | lo ≤ k ∧ k ≤ hi}

theorem lt_subset_range : {k : Int32 | lo ≤ k ∧ k < hi} ⊆ range lo hi :=
  fun _ hk => ⟨hk.1, hk.2.le⟩

/-! ### The indices of the loop -/

/-- **The loop stays in its range**, started in `s₀`. -/
structure InRange (p : Addr w) (lo hi : Int32) (s₀ : Kernel w) (i j : Int32) (s : Kernel w) :
    Prop where
  lo_le : lo ≤ i
  i_le : i ≤ j
  j_le : j ≤ hi
  within : Within p {k | lo ≤ k ∧ k < hi} s₀ s

theorem inRange_init (h : lo ≤ hi) : InRange p lo hi s lo lo s :=
  ⟨le_rfl, le_rfl, h, Within.refl _ _ _⟩

/-- Both indices of a step are in the range. -/
theorem InRange.mem (h : InRange p lo hi s₀ i j s) (hj : j < hi) :
    j ∈ {k | lo ≤ k ∧ k < hi} ∧ i ∈ {k | lo ≤ k ∧ k < hi} :=
  ⟨⟨h.lo_le.trans h.i_le, hj⟩, h.lo_le, h.i_le.trans_lt hj⟩

theorem InRange.step_lt (h : InRange p lo hi s₀ i j s) (hj : j < hi) :
    InRange p lo hi s₀ i (j + 1) (s.read p j).2 :=
  ⟨h.lo_le, h.i_le.trans ((lt_succ hj).2 le_rfl).le, (succ_le hj).2 hj,
    h.within.trans (Within.read (h.mem hj).1)⟩

theorem InRange.step_ge (h : InRange p lo hi s₀ i j s) (hj : j < hi) :
    InRange p lo hi s₀ (i + 1) (j + 1) ((s.read p j).2.exchange p j i) := by
  obtain ⟨hjm, him⟩ := h.mem hj
  have hi' : i < hi := him.2
  exact ⟨h.lo_le.trans ((lt_succ hi').2 le_rfl).le, (succ_le hi').2 ((lt_succ hj).2 h.i_le),
    (succ_le hj).2 hj, (h.within.trans (Within.read hjm)).trans (Within.exchange hjm him)⟩

theorem partitionLoop_inRange (h : InRange p lo hi s₀ i j s) :
    InRange p lo hi s₀ (partitionLoop p pivot hi i j s).1 hi
      (partitionLoop p pivot hi i j s).2 := by
  fun_induction partitionLoop p pivot hi i j s with
  | case1 i j s hj x s₁ hread hx ih =>
    obtain ⟨rfl, rfl⟩ := Prod.mk.inj hread
    exact ih (h.step_ge hj)
  | case2 i j s hj x s₁ hread hx ih =>
    obtain ⟨rfl, rfl⟩ := Prod.mk.inj hread
    exact ih (h.step_lt hj)
  | case3 i j s hj =>
    have : j = hi := le_antisymm h.j_le (not_lt.1 hj)
    exact this ▸ h

/-! ### The three regions -/

/-- **Loop invariant** of the partition loop at `i`, `j`, started in `s₀`, for indices in `A`. -/
structure PartInv (A : Set Int32) (p : Addr w) (lo hi pivot : Int32) (s₀ : Kernel w)
    (i j : Int32) (s : Kernel w) : Prop where
  inRange : InRange p lo hi s₀ i j s
  rearr : Rearr {k | lo ≤ k ∧ k < hi} (s₀.window A p) (s.window A p)
  ge : ∀ k, lo ≤ k → k < i → pivot ≤ s.window A p k
  lt : ∀ k, i ≤ k → k < j → s.window A p k < pivot

theorem partInv_init (h : lo ≤ hi) : PartInv A p lo hi pivot s lo lo s := by
  refine ⟨inRange_init h, Rearr.refl _ _, ?_, ?_⟩
  · intro k h1 h2; exact absurd h2 h1.not_gt
  · intro k h1 h2; exact absurd h2 h1.not_gt

/-- An element below the pivot extends the middle region. -/
theorem PartInv.step_lt (h : PartInv A p lo hi pivot s₀ i j s) (hA : range lo hi ⊆ A) (hj : j < hi)
    (hx : s.elem p j < pivot) : PartInv A p lo hi pivot s₀ i (j + 1) (s.read p j).2 := by
  have hjA : j ∈ A := hA (lt_subset_range (h.inRange.mem hj).1)
  refine ⟨h.inRange.step_lt hj, h.rearr, h.ge, ?_⟩
  intro k h1 h2
  rw [window_read]
  rcases eq_or_lt_of_le ((lt_succ hj).1 h2) with rfl | hk
  · rw [window_of_mem hjA]
    exact hx
  · exact h.lt k h1 hk

/-- An element at least the pivot is exchanged with the first of the middle region. -/
theorem PartInv.step_ge (h : PartInv A p lo hi pivot s₀ i j s) (hw : 32 ≤ w) (hAp : Apart w A)
    (hA : range lo hi ⊆ A) (hj : j < hi) (hx : pivot ≤ s.elem p j) :
    PartInv A p lo hi pivot s₀ (i + 1) (j + 1) ((s.read p j).2.exchange p j i) := by
  have hij := h.inRange.i_le
  obtain ⟨hjm, him⟩ := h.inRange.mem hj
  have hjA : j ∈ A := hA (lt_subset_range hjm)
  have hiA : i ∈ A := hA (lt_subset_range him)
  have hi' : i < hi := him.2
  have he : ((s.read p j).2.exchange p j i).window A p = s.window A p ∘ Equiv.swap j i := by
    rw [window_exchange hAp hw hjA hiA, window_read]
  refine ⟨h.inRange.step_ge hj, ?_, ?_, ?_⟩
  · rw [he]
    exact h.rearr.trans (Rearr.swap _ hjm him)
  · intro k h1 h2
    rw [he, Function.comp_apply]
    rcases eq_or_lt_of_le ((lt_succ hi').1 h2) with rfl | hki
    · rw [Equiv.swap_apply_right, window_of_mem hjA]
      exact hx
    · rw [Equiv.swap_apply_of_ne_of_ne (hki.trans_le hij).ne hki.ne]
      exact h.ge k h1 hki
  · intro k h1 h2
    have hik : i < k := (succ_le hi').1 h1
    rw [he, Function.comp_apply]
    rcases eq_or_lt_of_le ((lt_succ hj).1 h2) with rfl | hkj
    -- the first of the middle region has moved to `j`
    · rw [Equiv.swap_apply_left]
      exact h.lt i le_rfl hik
    · rw [Equiv.swap_apply_of_ne_of_ne hkj.ne hik.ne']
      exact h.lt k hik.le hkj

/-- **The whole loop**: the invariant holds at its end, where `j = hi`. -/
theorem partitionLoop_inv (hw : 32 ≤ w) (hAp : Apart w A) (hA : range lo hi ⊆ A)
    (h : PartInv A p lo hi pivot s₀ i j s) :
    PartInv A p lo hi pivot s₀ (partitionLoop p pivot hi i j s).1 hi
      (partitionLoop p pivot hi i j s).2 := by
  fun_induction partitionLoop p pivot hi i j s with
  | case1 i j s hj x s₁ hread hx ih =>
    obtain ⟨rfl, rfl⟩ := Prod.mk.inj hread
    exact ih (h.step_ge hw hAp hA hj hx)
  | case2 i j s hj x s₁ hread hx ih =>
    obtain ⟨rfl, rfl⟩ := Prod.mk.inj hread
    exact ih (h.step_lt hA hj (not_le.1 hx))
  | case3 i j s hj =>
    have : j = hi := le_antisymm h.inRange.j_le (not_lt.1 hj)
    exact this ▸ h

/-- The elements the loop goes through are all read. -/
theorem partitionLoop_touches (p : Addr w) (pivot hi i j : Int32) (s : Kernel w) :
    (∀ a ∈ s.touched, a ∈ (partitionLoop p pivot hi i j s).2.touched) ∧
      ∀ k, j ≤ k → k < hi → ⟨p, k⟩ ∈ (partitionLoop p pivot hi i j s).2.touched := by
  fun_induction partitionLoop p pivot hi i j s with
  | case1 i j s hj x s₁ hread hx ih =>
    obtain ⟨rfl, rfl⟩ := Prod.mk.inj hread
    refine ⟨fun a ha => ih.1 a (by simp [ha]), ?_⟩
    intro k h1 h2
    rcases eq_or_lt_of_le h1 with rfl | hk
    · exact ih.1 _ (by simp)
    · exact ih.2 k ((succ_le hj).2 hk) h2
  | case2 i j s hj x s₁ hread hx ih =>
    obtain ⟨rfl, rfl⟩ := Prod.mk.inj hread
    refine ⟨fun a ha => ih.1 a (by simp [ha]), ?_⟩
    intro k h1 h2
    rcases eq_or_lt_of_le h1 with rfl | hk
    · exact ih.1 _ (by simp)
    · exact ih.2 k ((succ_le hj).2 hk) h2
  | case3 i j s hj =>
    exact ⟨fun a ha => ha, fun k h1 h2 => absurd (h1.trans_lt h2) hj⟩

/-- The position the loop ends at, and the state in which the pivot is put there. -/
def cut (p : Addr w) (lo hi : Int32) (s : Kernel w) : Int32 × Kernel w :=
  partitionLoop p (s.elem p hi) hi lo lo (s.read p hi).2

theorem getPartitionIndex_eq (hp : p ≠ NULL) (lo hi : Int32) (s : Kernel w) :
    getPartitionIndex p lo hi s =
      ((cut p lo hi s).1.toInt, (cut p lo hi s).2.exchange p (cut p lo hi s).1 hi) := by
  simp only [getPartitionIndex, cut, Kernel.read, if_pos hp]

/-- The position is in the range, and nothing outside the range is accessed. -/
theorem getPartitionIndex_within (hp : p ≠ NULL) (h : lo ≤ hi) (s : Kernel w) :
    ∃ m s₁, getPartitionIndex p lo hi s = (m.toInt, s₁) ∧ lo ≤ m ∧ m ≤ hi ∧
      Within p (range lo hi) s s₁ := by
  have hin : InRange p lo hi (s.read p hi).2 (cut p lo hi s).1 hi (cut p lo hi s).2 :=
    partitionLoop_inRange (inRange_init h)
  have hmm : (cut p lo hi s).1 ∈ range lo hi := ⟨hin.lo_le, hin.i_le⟩
  have hhm : hi ∈ range lo hi := ⟨h, le_rfl⟩
  exact ⟨_, _, getPartitionIndex_eq hp lo hi s, hin.lo_le, hin.i_le,
    ((Within.read hhm).trans (hin.within.mono lt_subset_range)).trans (Within.exchange hmm hhm)⟩

/-- **`get_partition_index` splits its range** around the old last element, when the elements
of the range are different cells. -/
theorem getPartitionIndex_split (hw : 32 ≤ w) (hAp : Apart w A) (hA : range lo hi ⊆ A)
    (hp : p ≠ NULL) (h : lo ≤ hi) (hg : getPartitionIndex p lo hi s = (m.toInt, s₁)) :
    Split (fun a b : Int32 => b ≤ a) lo hi m (s₁.window A p) ∧
      (∀ k, m < k → k ≤ hi → s₁.window A p k < s₁.window A p m) ∧
      s₁.window A p m = s.window A p hi ∧
      Rearr (range lo hi) (s.window A p) (s₁.window A p) := by
  have hhA : hi ∈ A := hA ⟨h, le_rfl⟩
  have hinv : PartInv A p lo hi (s.elem p hi) (s.read p hi).2 (cut p lo hi s).1 hi
      (cut p lo hi s).2 := partitionLoop_inv hw hAp hA (partInv_init h)
  rw [getPartitionIndex_eq hp] at hg
  obtain ⟨hm, rfl⟩ := Prod.mk.inj hg
  obtain rfl : (cut p lo hi s).1 = m := Int32.toInt_inj.1 hm
  set m := (cut p lo hi s).1
  set t := (cut p lo hi s).2
  have hmm : m ∈ range lo hi := ⟨hinv.inRange.lo_le, hinv.inRange.i_le⟩
  have hhm : hi ∈ range lo hi := ⟨h, le_rfl⟩
  rw [← window_of_mem (s := s) (p := p) hhA] at hinv
  -- the loop stays below `hi`, where the pivot is
  have hhi : t.window A p hi = s.window A p hi := hinv.rearr.frame (fun hm => lt_irrefl hi hm.2)
  have he : (t.exchange p m hi).window A p = t.window A p ∘ Equiv.swap m hi :=
    window_exchange hAp hw (hA hmm) hhA
  have hm : (t.exchange p m hi).window A p m = s.window A p hi := by
    rw [he, Function.comp_apply, Equiv.swap_apply_left, hhi]
  have hlt : ∀ k, m < k → k ≤ hi → (t.exchange p m hi).window A p k < s.window A p hi := by
    intro k h1 h2
    rw [he, Function.comp_apply]
    rcases eq_or_ne k hi with rfl | hk
    · rw [Equiv.swap_apply_right]
      exact hinv.lt m le_rfl h1
    · rw [Equiv.swap_apply_of_ne_of_ne h1.ne' hk]
      exact hinv.lt k h1.le (lt_of_le_of_ne h2 hk)
  refine ⟨⟨hmm.1, hmm.2, ?_, ?_⟩, ?_, hm, ?_⟩
  · intro k h1 h2
    rw [hm, he, Function.comp_apply, Equiv.swap_apply_of_ne_of_ne h2.ne (h2.trans_le hmm.2).ne]
    exact hinv.ge k h1 h2
  · intro k h1 h2
    rw [hm]
    exact (hlt k h1 h2).le
  · intro k h1 h2
    rw [hm]
    exact hlt k h1 h2
  · rw [he]
    exact (hinv.rearr.mono lt_subset_range).trans (Rearr.swap _ hmm hhm)

/-- The accesses recorded before the call stay recorded, and every element from `lo` to
`hi` is added, whichever way round the two indices are. -/
theorem getPartitionIndex_touches (hp : p ≠ NULL) (lo hi : Int32) (s : Kernel w) :
    (∀ a ∈ s.touched, a ∈ (getPartitionIndex p lo hi s).2.touched) ∧
      (∀ k, lo ≤ k → k < hi → ⟨p, k⟩ ∈ (getPartitionIndex p lo hi s).2.touched) ∧
      ⟨p, hi⟩ ∈ (getPartitionIndex p lo hi s).2.touched := by
  have ht := partitionLoop_touches p (s.elem p hi) hi lo lo (s.read p hi).2
  change (∀ a ∈ (s.read p hi).2.touched, a ∈ (cut p lo hi s).2.touched) ∧
    ∀ k, lo ≤ k → k < hi → ⟨p, k⟩ ∈ (cut p lo hi s).2.touched at ht
  rw [getPartitionIndex_eq hp]
  simp only [exchange_touched, List.mem_cons]
  refine ⟨?_, ?_, by simp⟩
  · intro a ha
    have := ht.1 a (by simp [ha])
    simp [this]
  · intro k h1 h2
    have := ht.2 k h1 h2
    simp [this]

/-! ### In terms of the values -/

/-- The values of `p[lo], …, p[hi]`. -/
def Kernel.between (s : Kernel w) (p : Addr w) (lo hi : Int32) : List Int32 :=
  (List.range (hi.toInt - lo.toInt + 1).toNat).map
    fun i : ℕ => s.elem p (Int32.ofInt (lo.toInt + i))

/-- The indices `lo, …, hi`, as a list. -/
def indices (lo hi : Int32) : List Int32 :=
  (List.range (hi.toInt - lo.toInt + 1).toNat).map fun i : ℕ => Int32.ofInt (lo.toInt + i)

theorem toInt_index {i : ℕ} (hi' : i ∈ List.range (hi.toInt - lo.toInt + 1).toNat) :
    (Int32.ofInt (lo.toInt + i)).toInt = lo.toInt + i := by
  have hi' := List.mem_range.1 hi'
  have hmin := lo.le_toInt
  have hmax := hi.toInt_lt
  exact Int32.toInt_ofInt_of_le (by omega) (by omega)

theorem mem_indices {k : Int32} : k ∈ indices lo hi ↔ lo ≤ k ∧ k ≤ hi := by
  rw [indices, List.mem_map, Int32.le_iff_toInt_le, Int32.le_iff_toInt_le]
  constructor
  · rintro ⟨i, hi', rfl⟩
    rw [toInt_index hi']
    have hi' := List.mem_range.1 hi'
    omega
  · rintro ⟨h1, h2⟩
    have hmem : (k.toInt - lo.toInt).toNat ∈ List.range (hi.toInt - lo.toInt + 1).toNat :=
      List.mem_range.2 (by omega)
    refine ⟨_, hmem, Int32.toInt_inj.1 ?_⟩
    rw [toInt_index hmem]
    omega

theorem indices_lt : (indices lo hi).Pairwise (· < ·) := by
  refine List.pairwise_map.2 (List.pairwise_lt_range.imp_of_mem ?_)
  intro i j hi' hj hij
  rw [Int32.lt_iff_toInt_lt, toInt_index hi', toInt_index hj]
  omega

/-- The window shows the values of the range. -/
theorem between_window (hA : range lo hi ⊆ A) (s : Kernel w) :
    s.between p lo hi = (indices lo hi).map (s.window A p) := by
  rw [indices, List.map_map]
  refine List.map_congr_left ?_
  intro i hi'
  have hmem : Int32.ofInt (lo.toInt + i) ∈ indices lo hi := List.mem_map_of_mem hi'
  exact (window_of_mem (hA (mem_indices.1 hmem))).symm

/-- A rearrangement of the range permutes its values. -/
theorem between_perm (hA : range lo hi ⊆ A)
    (h : Rearr (range lo hi) (s.window A p) (s₁.window A p)) :
    (s₁.between p lo hi).Perm (s.between p lo hi) := by
  have hnodup : (indices lo hi).Nodup := indices_lt.imp fun hlt => hlt.ne
  rw [between_window hA, between_window hA]
  exact h.perm_map hnodup fun k hk => mem_indices.2 hk

/-- **`get_partition_index` partitions its range**: it returns the position where the last
element of the range has come to stand, with the elements at least as large before it, the
smaller ones behind it, and nothing changed outside. The range lies in an array `A` whose
elements are different cells. -/
theorem getPartitionIndex_partitions (hw : 32 ≤ w) (hAp : Apart w A) (hA : range lo hi ⊆ A)
    (hp : p ≠ NULL) (h : lo ≤ hi) (s : Kernel w) :
    ∃ m s', getPartitionIndex p lo hi s = (m.toInt, s') ∧ lo ≤ m ∧ m ≤ hi ∧
      s'.elem p m = s.elem p hi ∧
      (∀ k, lo ≤ k → k < m → s.elem p hi ≤ s'.elem p k) ∧
      (∀ k, m < k → k ≤ hi → s'.elem p k < s.elem p hi) ∧
      (s'.between p lo hi).Perm (s.between p lo hi) ∧
      ∀ k ∈ A, ¬ (lo ≤ k ∧ k ≤ hi) → s'.elem p k = s.elem p k := by
  obtain ⟨m, s', hg, h1, h2, -⟩ := getPartitionIndex_within hp h s
  obtain ⟨hs, hlt, hm, hr⟩ := getPartitionIndex_split hw hAp hA hp h hg
  have hmA : m ∈ A := hA ⟨h1, h2⟩
  have hhA : hi ∈ A := hA ⟨h, le_rfl⟩
  rw [window_of_mem hmA, window_of_mem hhA] at hm
  refine ⟨m, s', hg, h1, h2, hm, ?_, ?_, between_perm hA hr, ?_⟩
  · intro k hk1 hk2
    have hkA : k ∈ A := hA ⟨hk1, hk2.le.trans h2⟩
    have hle := hs.left k hk1 hk2
    rwa [window_of_mem hmA, window_of_mem hkA, hm] at hle
  · intro k hk1 hk2
    have hkA : k ∈ A := hA ⟨h1.trans hk1.le, hk2⟩
    have hle := hlt k hk1 hk2
    rwa [window_of_mem hmA, window_of_mem hkA, hm] at hle
  · intro k hkA hk
    have hfr := hr.frame hk
    rwa [window_of_mem hkA, window_of_mem hkA] at hfr

/-- The values 3, 7, 3 and 5 at `0x1000`. -/
def fourValues : Kernel 32 where
  mem x := if x = 0x1000 then 3 else if x = 0x1004 then 7 else if x = 0x1008 then 3
    else if x = 0x100c then 5 else 0
  live := ∅
  touched := []

/-- The first three values: the last of them, the pivot, ties with the first. -/
theorem getPartitionIndex_partitions_fourValues :
    fourValues.between 0x1000 0 3 = [3, 7, 3, 5] ∧
    ∃ m s', getPartitionIndex 0x1000 0 2 fourValues = (m.toInt, s') ∧ 0 ≤ m ∧ m ≤ 2 ∧
      s'.elem 0x1000 m = 3 ∧ (s'.between 0x1000 0 2).Perm [3, 7, 3] ∧ s'.elem 0x1000 3 = 5 := by
  have hap : Apart 32 {k | 0 ≤ k ∧ k.toInt < (4 : ℕ)} := apart_array (by norm_num)
  have hsub : range 0 2 ⊆ {k | 0 ≤ k ∧ k.toInt < (4 : ℕ)} :=
    fun k hk => ⟨hk.1, lt_of_le_of_lt (Int32.le_iff_toInt_le.1 hk.2) (by decide)⟩
  have hp : (0x1000 : Addr 32) ≠ NULL := by decide
  obtain ⟨m, s', hg, h1, h2, hm, -, -, hperm, hframe⟩ :=
    getPartitionIndex_partitions le_rfl hap hsub hp (by decide) fourValues
  exact ⟨by decide, m, s', hg, h1, h2, hm, hperm, hframe 3 ⟨by decide, by decide⟩ (by decide)⟩

end Aesd
