import Aesd.Syscall.Partition

/-!
# What `quick_sort` does

Away from the two ends of the `int32_t` range (`Inner lo hi`) the bounds of the
recursive calls, `partition_index - 1` and `partition_index + 1`, do not wrap. Then,
whatever the fuel and the memory, only elements of the range are accessed
(`quickSort_within`), and with more fuel than the range has elements the call returns 0
(`quickSort_returns`). On a range whose elements are different cells it leaves them in
non-increasing order (`quickSort_leaves`). `quickSort_reach` is the general rule for the
elements a call accesses, wrapped bounds included; it and the other results follow from
`quickSort_cases`, what a call does behind its partition step.

`quickSort_sorts`: every range of an array is sorted. The greatest index, where
`partition_index + 1` can wrap, is never an index of an array that fits into the address
space of the 32-bit kernel.
-/

namespace Aesd

open Rearrange

variable {w : ℕ} {p : Addr w} {lo hi m : Int32} {s s₁ s₂ s₃ : Kernel w} {fuel : ℕ} {A : Set Int32}

/-- Neither end of the range is an end of the `int32_t` range. -/
structure Inner (lo hi : Int32) : Prop where
  lo : -2 ^ 31 < lo.toInt
  hi : hi.toInt < 2 ^ 31 - 1

theorem toInt_one_add (h : m.toInt < 2 ^ 31 - 1) : (m + 1).toInt = m.toInt + 1 := by
  have := m.le_toInt
  rw [Int32.toInt_add, Int32.toInt_one, Int.bmod_eq_of_le] <;> omega

theorem toInt_sub_one (h : -2 ^ 31 < m.toInt) : (m - 1).toInt = m.toInt - 1 := by
  have := m.toInt_lt
  rw [Int32.toInt_sub, Int32.toInt_one, Int.bmod_eq_of_le] <;> omega

theorem range_sub_one (h : -2 ^ 31 < m.toInt) : range lo (m - 1) = {i | lo ≤ i ∧ i < m} := by
  have hm := toInt_sub_one h
  ext i
  simp only [range, Set.mem_ofPred_eq, Int32.le_iff_toInt_le, Int32.lt_iff_toInt_lt]
  omega

theorem range_add_one (h : m.toInt < 2 ^ 31 - 1) : range (m + 1) hi = {i | m < i ∧ i ≤ hi} := by
  have hm := toInt_one_add h
  ext i
  simp only [range, Set.mem_ofPred_eq, Int32.le_iff_toInt_le, Int32.lt_iff_toInt_lt]
  omega

/-- In the left half `partition_index - 1` does not wrap, wherever the range ends. -/
theorem inner_left (hlo : -2 ^ 31 < lo.toInt) (h1 : lo ≤ m) : Inner lo (m - 1) := by
  have hle := Int32.le_iff_toInt_le.1 h1
  have hmax := m.toInt_lt
  have hsub := toInt_sub_one (m := m) (by omega)
  exact ⟨hlo, by omega⟩

/-- **The two recursive ranges** around a position of the range. -/
theorem Inner.split (h : Inner lo hi) (h1 : lo ≤ m) (h2 : m ≤ hi) :
    (Inner lo (m - 1) ∧ range lo (m - 1) = {i | lo ≤ i ∧ i < m}) ∧
      Inner (m + 1) hi ∧ range (m + 1) hi = {i | m < i ∧ i ≤ hi} := by
  have hl := h.lo
  have hh := h.hi
  have hlm := Int32.le_iff_toInt_le.1 h1
  have hmh := Int32.le_iff_toInt_le.1 h2
  have hm1 : -2 ^ 31 < m.toInt := by omega
  have hm2 : m.toInt < 2 ^ 31 - 1 := by omega
  have hadd := toInt_one_add hm2
  exact ⟨⟨inner_left hl h1, range_sub_one hm1⟩, ⟨by omega, hh⟩, range_add_one hm2⟩

/-- Both recursive ranges have fewer elements. -/
theorem Inner.shorter (h : Inner lo hi) (h1 : lo ≤ m) (h2 : m ≤ hi)
    (hfuel : (hi.toInt - lo.toInt + 1).toNat < fuel + 1) :
    ((m - 1).toInt - lo.toInt + 1).toNat < fuel ∧ (hi.toInt - (m + 1).toInt + 1).toNat < fuel := by
  have hlm := Int32.le_iff_toInt_le.1 h1
  have hmh := Int32.le_iff_toInt_le.1 h2
  have hm1 := toInt_sub_one (m := m) (lt_of_lt_of_le h.lo hlm)
  have hm2 := toInt_one_add (m := m) (lt_of_le_of_lt hmh h.hi)
  omega

theorem quickSort_done (hp : p ≠ NULL) (h : hi ≤ lo) (s : Kernel w) :
    quickSort (fuel + 1) p lo hi s = (some 0, s) := by
  rw [quickSort, if_pos hp, if_neg h.not_gt]

/-- The recursive case, with the partition step carried out. -/
theorem quickSort_step (hp : p ≠ NULL) (h : lo < hi)
    (hg : getPartitionIndex p lo hi s = (m.toInt, s₁)) :
    quickSort (fuel + 1) p lo hi s =
      match quickSort fuel p lo (m - 1) s₁ with
      | (none, s) => (none, s)
      | (some _, s) =>
        match quickSort fuel p (m + 1) hi s with
        | (none, s) => (none, s)
        | (some _, s) => (some 0, s) := by
  have hm : Int32.ofInt m.toInt = m := Int32.ofInt_toInt m
  rw [quickSort, if_pos hp, if_pos h, hg]
  dsimp only
  exact hm.symm ▸ rfl

/-- **What a call does behind its partition step**: the first recursive call runs out of fuel,
or it returns and the second one decides. -/
theorem quickSort_cases (hp : p ≠ NULL) (h : lo < hi) (fuel : ℕ)
    (hg : getPartitionIndex p lo hi s = (m.toInt, s₁)) :
    (∃ s₂, quickSort fuel p lo (m - 1) s₁ = (none, s₂) ∧
      quickSort (fuel + 1) p lo hi s = (none, s₂)) ∨
    ∃ r s₂ r' s₃, quickSort fuel p lo (m - 1) s₁ = (some r, s₂) ∧
      quickSort fuel p (m + 1) hi s₂ = (r', s₃) ∧
      quickSort (fuel + 1) p lo hi s = (r'.map fun _ => 0, s₃) := by
  rw [quickSort_step hp h hg]
  rcases quickSort fuel p lo (m - 1) s₁ with ⟨r, s₂⟩
  cases r with
  | none => exact .inl ⟨s₂, rfl, rfl⟩
  | some r =>
    refine .inr ⟨r, s₂, ?_⟩
    dsimp only
    rcases quickSort fuel p (m + 1) hi s₂ with ⟨r', s₃⟩
    refine ⟨r', s₃, rfl, rfl, ?_⟩
    cases r' with
    | none => rfl
    | some r' => rfl

/-- **Which elements are accessed**, also by a call that has run out of fuel: those in a
set that contains every range the recursion can reach. -/
theorem quickSort_reach (hp : p ≠ NULL) {S : Set Int32} (R : Int32 → Int32 → Prop)
    (hS : ∀ {lo hi}, R lo hi → range lo hi ⊆ S)
    (hR : ∀ {lo hi m}, R lo hi → lo ≤ m → m ≤ hi → R lo (m - 1) ∧ R (m + 1) hi) (fuel : ℕ) :
    ∀ {lo hi : Int32} (_ : R lo hi) (s : Kernel w), Within p S s (quickSort fuel p lo hi s).2 := by
  induction fuel with
  | zero => intro lo hi _ s; exact Within.refl _ _ _
  | succ fuel ih =>
    intro lo hi hr s
    rcases le_or_gt hi lo with h | h
    · rw [quickSort_done hp h]
      exact Within.refl _ _ _
    · obtain ⟨m, s₁, hg, hlm, hmh, hin⟩ := getPartitionIndex_within hp h.le s
      -- the partition step, then the two calls, either of which may run out of fuel
      obtain ⟨hr1, hr2⟩ := hR hr hlm hmh
      have hw1 := (hin.mono (hS hr)).trans (ih hr1 s₁)
      rcases quickSort_cases hp h fuel hg with ⟨s₂, hq1, hq⟩ | ⟨r, s₂, r', s₃, hq1, hq2, hq⟩
      · rw [hq1] at hw1
        rw [hq]
        exact hw1
      · rw [hq1] at hw1
        have hw2 := hw1.trans (ih hr2 s₂)
        rw [hq2] at hw2
        rw [hq]
        exact hw2

theorem Inner.range_subset (h : Inner lo hi) (h1 : lo ≤ m) (h2 : m ≤ hi) :
    range lo (m - 1) ⊆ range lo hi ∧ range (m + 1) hi ⊆ range lo hi := by
  obtain ⟨⟨-, hr1⟩, -, hr2⟩ := h.split h1 h2
  rw [hr1, hr2]
  exact ⟨fun k hk => ⟨hk.1, (hk.2.trans_le h2).le⟩, fun k hk => ⟨(h1.trans_lt hk.1).le, hk.2⟩⟩

/-- **Only the range is accessed**, away from the ends of the `int32_t` range. -/
theorem quickSort_within (hp : p ≠ NULL) (hin : Inner lo hi) (fuel : ℕ) (s : Kernel w) :
    Within p (range lo hi) s (quickSort fuel p lo hi s).2 := by
  refine quickSort_reach hp (fun a b => Inner a b ∧ range a b ⊆ range lo hi) (fun h => h.2) ?_ fuel
    ⟨hin, subset_rfl⟩ s
  intro a b m ⟨hab, hsub⟩ h1 h2
  obtain ⟨hs1, hs2⟩ := hab.range_subset h1 h2
  obtain ⟨⟨hi1, -⟩, hi2, -⟩ := hab.split h1 h2
  exact ⟨⟨hi1, hs1.trans hsub⟩, hi2, hs2.trans hsub⟩

/-- A call returns 0 when its two recursive calls return. -/
theorem quickSort_returned (hp : p ≠ NULL) (h : lo < hi) {r r' : ℤ}
    (hg : getPartitionIndex p lo hi s = (m.toInt, s₁))
    (hq1 : quickSort fuel p lo (m - 1) s₁ = (some r, s₂))
    (hq2 : quickSort fuel p (m + 1) hi s₂ = (some r', s₃)) :
    quickSort (fuel + 1) p lo hi s = (some 0, s₃) := by
  rw [quickSort_step hp h hg, hq1]
  simp only
  rw [hq2]

/-- **The recursion of a range is never deeper than the range has elements**, whatever the
memory holds. -/
theorem quickSort_returns (hp : p ≠ NULL) (fuel : ℕ) :
    ∀ {lo hi : Int32} (_ : Inner lo hi) (_ : (hi.toInt - lo.toInt + 1).toNat < fuel) (s : Kernel w),
      ∃ s', quickSort fuel p lo hi s = (some 0, s') := by
  induction fuel with
  | zero => intro lo hi _ h; omega
  | succ fuel ih =>
    intro lo hi hin hfuel s
    rcases le_or_gt hi lo with h | h
    · exact ⟨s, quickSort_done hp h s⟩
    · obtain ⟨m, s₁, hg, h1, h2, -⟩ := getPartitionIndex_within hp h.le s
      obtain ⟨⟨hin1, -⟩, hin2, -⟩ := hin.split h1 h2
      obtain ⟨hfuel1, hfuel2⟩ := hin.shorter h1 h2 hfuel
      obtain ⟨s₂, hq1⟩ := ih hin1 hfuel1 s₁
      obtain ⟨s₃, hq2⟩ := ih hin2 hfuel2 s₂
      exact ⟨s₃, quickSort_returned hp h hg hq1 hq2⟩

/-! ### The values -/

/-- **What a call leaves of its range**, seen through the indices in `A`: a rearrangement in
non-increasing order. -/
structure Leaves (A : Set Int32) (p : Addr w) (lo hi : Int32) (s s' : Kernel w) : Prop where
  rearr : Rearr (range lo hi) (s.window A p) (s'.window A p)
  sorted : SortedOn (fun a b : Int32 => b ≤ a) lo hi (s'.window A p)

theorem Leaves.refl (h : hi ≤ lo) (s : Kernel w) : Leaves A p lo hi s s := by
  refine ⟨Rearr.refl _ _, ?_⟩
  intro i j h1 h2 h3
  exact absurd (h1.trans_lt (h2.trans_le h3)) h.not_gt

/-- **Putting the two halves together**, when neither recursive bound has wrapped. -/
theorem Leaves.compose (hs : Split (fun a b : Int32 => b ≤ a) lo hi m (s₁.window A p))
    (hr : Rearr (range lo hi) (s.window A p) (s₁.window A p))
    (hr1 : range lo (m - 1) = {i | lo ≤ i ∧ i < m}) (hr2 : range (m + 1) hi = {i | m < i ∧ i ≤ hi})
    (h1 : Leaves A p lo (m - 1) s₁ s₂) (h2 : Leaves A p (m + 1) hi s₂ s₃) :
    Leaves A p lo hi s s₃ := by
  have hsub1 : range lo (m - 1) ⊆ range lo hi := by
    rw [hr1]
    exact fun k hk => ⟨hk.1, (hk.2.trans_le hs.le_hi).le⟩
  have hsub2 : range (m + 1) hi ⊆ range lo hi := by
    rw [hr2]
    exact fun k hk => ⟨(hs.lo_le.trans_lt hk.1).le, hk.2⟩
  refine ⟨(hr.trans (h1.rearr.mono hsub1)).trans (h2.rearr.mono hsub2), ?_⟩
  have hsp := hs.rearr (hr1 ▸ h1.rearr) (hr2 ▸ h2.rearr)
  refine hsp.sorted ?_ ?_
  -- the second call leaves the first call's result alone
  · intro i j hi1 hi2 hi3
    have hfr : ∀ k, k < m → s₃.window A p k = s₂.window A p k := by
      intro k hk
      refine h2.rearr.frame ?_
      rw [hr2]
      exact fun hm => lt_asymm hk hm.1
    rw [hfr i (hi2.trans hi3), hfr j hi3]
    have hj : j ∈ range lo (m - 1) := by rw [hr1]; exact ⟨(hi1.trans_lt hi2).le, hi3⟩
    exact h1.sorted i j hi1 hi2 hj.2
  · intro i j hi1 hi2 hi3
    have hi' : i ∈ range (m + 1) hi := by rw [hr2]; exact ⟨hi1, (hi2.trans_le hi3).le⟩
    exact h2.sorted i j hi'.1 hi2 hi3

/-- The values of the range are permuted into non-increasing order. -/
theorem Leaves.between (hA : range lo hi ⊆ A) (h : Leaves A p lo hi s s₁) :
    (s₁.between p lo hi).Perm (s.between p lo hi) ∧
      (s₁.between p lo hi).Pairwise (· ≥ ·) := by
  refine ⟨between_perm hA h.rearr, ?_⟩
  rw [between_window hA]
  exact h.sorted.pairwise indices_lt fun k hk => mem_indices.1 hk

/-- **`quick_sort` sorts its range**, when the elements of the range are different cells: with
enough fuel it returns 0 and leaves a rearrangement in non-increasing order. -/
theorem quickSort_leaves (hw : 32 ≤ w) (hAp : Apart w A) (hp : p ≠ NULL) (fuel : ℕ) :
    ∀ {lo hi : Int32} (_ : Inner lo hi) (_ : range lo hi ⊆ A)
      (_ : (hi.toInt - lo.toInt + 1).toNat < fuel) (s : Kernel w),
      ∃ s', quickSort fuel p lo hi s = (some 0, s') ∧ Leaves A p lo hi s s' := by
  induction fuel with
  | zero => intro lo hi _ _ h; omega
  | succ fuel ih =>
    intro lo hi hin hA hfuel s
    rcases le_or_gt hi lo with h | h
    · exact ⟨s, quickSort_done hp h s, Leaves.refl h s⟩
    · obtain ⟨m, s₁, hg, h1, h2, -⟩ := getPartitionIndex_within hp h.le s
      obtain ⟨hs, -, -, hr⟩ := getPartitionIndex_split hw hAp hA hp h.le hg
      obtain ⟨⟨hin1, hr1⟩, hin2, hr2⟩ := hin.split h1 h2
      obtain ⟨hsub1, hsub2⟩ := hin.range_subset h1 h2
      obtain ⟨hfuel1, hfuel2⟩ := hin.shorter h1 h2 hfuel
      obtain ⟨s₂, hq1, hl1⟩ := ih hin1 (hsub1.trans hA) hfuel1 s₁
      obtain ⟨s₃, hq2, hl2⟩ := ih hin2 (hsub2.trans hA) hfuel2 s₂
      exact ⟨s₃, quickSort_returned hp h hg hq1 hq2, Leaves.compose hs hr hr1 hr2 hl1 hl2⟩

/-! ### The ranges of an array -/

/-- A range inside an array keeps away from the ends of the `int32_t` range, or is empty. -/
theorem inner_of_array {n : ℕ} (hn : n < 2 ^ 31) (h0 : 0 ≤ lo) (hi' : hi.toInt < n) :
    Inner lo hi := by
  have h0 := Int32.le_iff_toInt_le.1 h0
  rw [Int32.toInt_zero] at h0
  exact ⟨by omega, by omega⟩

theorem range_subset_array {n : ℕ} (h0 : 0 ≤ lo) (hi' : hi.toInt < n) :
    range lo hi ⊆ {k | 0 ≤ k ∧ k.toInt < n} := by
  intro k hk
  have hk2 := Int32.le_iff_toInt_le.1 hk.2
  exact ⟨h0.trans hk.1, by omega⟩

/-- **`quick_sort` sorts each range of an array** `p[0..n-1]` that fits into the address space:
it returns 0, permutes the values of the range into non-increasing order, keeps every other
element and every byte outside the range, and accesses nothing outside the range. -/
theorem quickSort_sorts {n : ℕ} (hw : 32 ≤ w) (hn : 4 * n ≤ 2 ^ w) (hmax : w = 32 ∨ n < 2 ^ 31)
    (hp : p ≠ NULL) (h : hi ≤ lo ∨ (0 ≤ lo ∧ hi.toInt < n)) (s : Kernel w) (fuel : ℕ)
    (hfuel : (hi.toInt - lo.toInt + 1).toNat < fuel) :
    ∃ s', quickSort fuel p lo hi s = (some 0, s') ∧
      (s'.between p lo hi).Perm (s.between p lo hi) ∧
      (∀ i j, lo ≤ i → i < j → j ≤ hi → s'.elem p j ≤ s'.elem p i) ∧
      (∀ k : Int32, 0 ≤ k → k.toInt < n → ¬ (lo ≤ k ∧ k ≤ hi) → s'.elem p k = s.elem p k) ∧
      (∀ x, ¬ InElems p (range lo hi) x → s'.mem x = s.mem x) ∧
      ∃ t, s'.touched = t ++ s.touched ∧ ∀ a ∈ t, a.ptr = p ∧ lo ≤ a.idx ∧ a.idx ≤ hi := by
  have hn31 : n < 2 ^ 31 := by
    rcases hmax with rfl | hmax
    · omega
    · exact hmax
  rcases le_or_gt hi lo with hle | hlt
  · -- an empty range or one element: nothing happens
    cases fuel with
    | zero => omega
    | succ fuel =>
      refine ⟨s, quickSort_done hp hle s, .refl _, ?_, fun _ _ _ _ => rfl, fun _ _ => rfl, [], rfl, ?_⟩
      · intro i j h1 h2 h3
        exact absurd (h1.trans_lt (h2.trans_le h3)) hle.not_gt
      · exact fun a ha => absurd ha List.not_mem_nil
  · obtain ⟨h0, hhi⟩ := h.resolve_left hlt.not_ge
    have hin : Inner lo hi := inner_of_array hn31 h0 hhi
    have hA : range lo hi ⊆ {k | 0 ≤ k ∧ k.toInt < n} := range_subset_array h0 hhi
    obtain ⟨s', hq, hl⟩ := quickSort_leaves hw (apart_array hn) hp fuel hin hA hfuel s
    have hwithin := quickSort_within hp hin fuel s
    rw [hq] at hwithin
    refine ⟨s', hq, (hl.between hA).1, ?_, ?_, hwithin.frame, hwithin.touched⟩
    · intro i j h1 h2 h3
      have hsorted := hl.sorted i j h1 h2 h3
      rwa [window_of_mem (hA ⟨h1, (h2.trans_le h3).le⟩),
        window_of_mem (hA ⟨(h1.trans_lt h2).le, h3⟩)] at hsorted
    · intro k hk0 hkn hk
      have hkA : k ∈ {k : Int32 | 0 ≤ k ∧ k.toInt < n} := ⟨hk0, hkn⟩
      have hframe := hl.rearr.frame hk
      rwa [window_of_mem hkA, window_of_mem hkA] at hframe

theorem quickSort_sorts_fourValues :
    ∃ s', quickSort 4 0x1000 0 2 fourValues = (some 0, s') ∧
      (s'.between 0x1000 0 2).Perm [3, 7, 3] ∧
      (∀ i j, 0 ≤ i → i < j → j ≤ 2 → s'.elem 0x1000 j ≤ s'.elem 0x1000 i) ∧
      s'.elem 0x1000 3 = 5 := by
  have hn : 4 * 4 ≤ 2 ^ 32 := by norm_num
  have hp : (0x1000 : Addr 32) ≠ NULL := by decide
  have hlast : (0 : Int32) ≤ 0 ∧ (2 : Int32).toInt < (4 : ℕ) := by decide
  obtain ⟨s', hq, hperm, hsorted, hframe, -⟩ :=
    quickSort_sorts le_rfl hn (.inl rfl) hp (.inr hlast) fourValues 4 (by decide)
  exact ⟨s', hq, hperm, hsorted, hframe 3 (by decide) (by decide) (by decide)⟩

end Aesd
