import Aesd.Syscall.QuickSort

/-!
# Which memory the sort helpers touch as system calls of their own

`quick_sort` and `get_partition_index` have numbers in `syscall.tbl`, so a program can
call them with any pointer and any two indices. Nothing checks the pointer against the
address space of the caller: an access outside it is simply made.

* `getPartitionIndex_user_iff`: the elements touched are `lo..hi` together with `lo` and
  `hi`, and through a null pointer the element `hi` is still read.
* `quickSort_user_iff`: for `lo < hi` the elements touched are `lo..hi`, and, for a range
  at an end of the `int32_t` range, possibly all `2^32` of them, because
  `partition_index - 1` or `partition_index + 1` wraps. A range whose elements are not all
  different cells covers every one of them already (`elemIn_of_range`).
-/

namespace Aesd

open ByteMem Rearrange

variable {w : ℕ} {p : Addr w} {lo hi m : Int32} {s s₁ s₂ : Kernel w} {U : Set (Addr w)}
  {A : Set Int32}

/-- All four bytes of `p[i]` lie in `U`. -/
def ElemIn (U : Set (Addr w)) (p : Addr w) (i : Int32) : Prop :=
  ∀ k : ℤ, 0 ≤ k → k < 4 → off p (4 * i.toInt + k) ∈ U

/-- The access goes through a non-null pointer to an element in `U`. -/
def InUser (U : Set (Addr w)) (a : Access w) : Prop := a.ptr ≠ NULL ∧ ElemIn U a.ptr a.idx

/-- A kernel with nothing recorded yet. -/
def enter (mem : Mem w) (live : Finset (Addr w)) : Kernel w := ⟨mem, live, []⟩

/-! ### `get_partition_index` -/

theorem getPartitionIndex_null (s : Kernel w) :
    getPartitionIndex NULL lo hi s = (negEFAULT, (s.read NULL hi).2) := by
  simp only [getPartitionIndex, Kernel.read, ne_eq, not_true_eq_false, if_false]

theorem cut_of_le (h : hi ≤ lo) (s : Kernel w) : cut p lo hi s = (lo, (s.read p hi).2) := by
  unfold cut
  rw [partitionLoop, if_neg h.not_gt]

/-- The elements `get_partition_index` touches. -/
theorem getPartitionIndex_touched_iff (hp : p ≠ NULL) (h0 : s.touched = []) (a : Access w) :
    a ∈ (getPartitionIndex p lo hi s).2.touched ↔
      a.ptr = p ∧ ((lo ≤ a.idx ∧ a.idx ≤ hi) ∨ a.idx = lo ∨ a.idx = hi) := by
  obtain ⟨q, k⟩ := a
  rcases le_or_gt lo hi with h | h
  · obtain ⟨m, s', hg, -, -, hw⟩ := getPartitionIndex_within hp h s
    obtain ⟨-, ht, hth⟩ := getPartitionIndex_touches hp lo hi s
    constructor
    · intro ha
      rw [hg] at ha
      obtain ⟨h1, h2⟩ := hw.touched_mem h0 ha
      exact ⟨h1, .inl h2⟩
    · rintro ⟨rfl, hk⟩
      have hk : lo ≤ k ∧ k ≤ hi := by
        rcases hk with hk | rfl | rfl
        · exact hk
        · exact ⟨le_rfl, h⟩
        · exact ⟨h, le_rfl⟩
      rcases eq_or_lt_of_le hk.2 with rfl | hlt
      · exact hth
      · exact ht k hk.1 hlt
  · -- with `hi < lo` the loop does not run, but `lo` and `hi` are still exchanged
    rw [getPartitionIndex_eq hp, cut_of_le h.le]
    simp only [exchange_touched, read_touched, h0, List.mem_cons, List.not_mem_nil, or_false,
      Access.mk.injEq]
    constructor
    · rintro (⟨h1, h2⟩ | ⟨h1, h2⟩ | ⟨h1, h2⟩ | ⟨h1, h2⟩ | ⟨h1, h2⟩) <;> simp [h1, h2]
    · rintro ⟨h1, h2 | h2 | h2⟩
      · exact absurd (h2.1.trans h2.2) h.not_ge
      · simp [h1, h2]
      · simp [h1, h2]

theorem getPartitionIndex_user_iff (mem : Mem w) (live : Finset (Addr w)) :
    (∀ a ∈ (getPartitionIndex p lo hi (enter mem live)).2.touched, InUser U a) ↔
      p ≠ NULL ∧ ∀ k, (lo ≤ k ∧ k ≤ hi) ∨ k = lo ∨ k = hi → ElemIn U p k := by
  by_cases hp : p = NULL
  · -- the pivot is read before the null check
    subst hp
    rw [getPartitionIndex_null]
    refine iff_of_false ?_ (fun h => h.1 rfl)
    intro h
    exact (h ⟨NULL, hi⟩ (by simp)).1 rfl
  · have ht : ∀ a, a ∈ (getPartitionIndex p lo hi (enter mem live)).2.touched ↔ _ :=
      getPartitionIndex_touched_iff hp rfl
    constructor
    · intro h
      exact ⟨hp, fun k hk => (h ⟨p, k⟩ ((ht _).2 ⟨rfl, hk⟩)).2⟩
    · intro h a ha
      obtain ⟨h1, h2⟩ := (ht a).1 ha
      exact ⟨h1 ▸ hp, h1 ▸ h.2 _ h2⟩

/-! ### `quick_sort` -/

/-- Whatever the bounds, every access goes through the pointer passed in. -/
theorem quickSort_ptr (hp : p ≠ NULL) (fuel : ℕ) (s : Kernel w) :
    Within p Set.univ s (quickSort fuel p lo hi s).2 :=
  quickSort_reach hp (fun _ _ => True) (fun _ => Set.subset_univ _) (fun _ _ _ => ⟨trivial, trivial⟩)
    fuel trivial s

theorem quickSort_quiet (h : p = NULL ∨ hi ≤ lo) (fuel : ℕ) (s : Kernel w) :
    (quickSort fuel p lo hi s).2 = s := by
  cases fuel with
  | zero => rfl
  | succ fuel =>
    by_cases hp : p = NULL
    · rw [quickSort, if_neg (not_not.2 hp)]
    · rw [quickSort_done hp (h.resolve_left hp)]

/-- What the partition step and the first recursive call have accessed stays recorded. -/
theorem quickSort_step_left (hp : p ≠ NULL) (h : lo < hi) {fuel : ℕ}
    (hg : getPartitionIndex p lo hi s = (m.toInt, s₁)) {a : Access w}
    (ha : a ∈ (quickSort fuel p lo (m - 1) s₁).2.touched) :
    a ∈ (quickSort (fuel + 1) p lo hi s).2.touched := by
  rcases quickSort_cases hp h fuel hg with ⟨s₂, hq1, hq⟩ | ⟨r, s₂, r', s₃, hq1, hq2, hq⟩
  · rw [hq1] at ha
    rw [hq]
    exact ha
  · rw [hq1] at ha
    have ha2 : a ∈ (quickSort fuel p (m + 1) hi s₂).2.touched :=
      (quickSort_ptr hp fuel s₂).touched_mono ha
    rw [hq2] at ha2
    rw [hq]
    exact ha2

/-- The second recursive call runs on the state the first one leaves. -/
theorem quickSort_step_right (hp : p ≠ NULL) (h : lo < hi) {fuel : ℕ} {r : ℤ}
    (hg : getPartitionIndex p lo hi s = (m.toInt, s₁))
    (hq : quickSort fuel p lo (m - 1) s₁ = (some r, s₂)) :
    (quickSort (fuel + 1) p lo hi s).2 = (quickSort fuel p (m + 1) hi s₂).2 := by
  rw [quickSort_step hp h hg, hq]
  simp only
  rcases quickSort fuel p (m + 1) hi s₂ with ⟨r2, s₃⟩
  cases r2 <;> rfl

/-- The first partition step of a call touches the whole range. -/
theorem quickSort_touches (hp : p ≠ NULL) (h : lo < hi) (fuel : ℕ) (s : Kernel w) :
    ∀ k ∈ range lo hi, (⟨p, k⟩ : Access w) ∈ (quickSort (fuel + 1) p lo hi s).2.touched := by
  intro k hk
  obtain ⟨m, s', hg, -⟩ := getPartitionIndex_within hp h.le s
  obtain ⟨-, ht, hth⟩ := getPartitionIndex_touches hp lo hi s
  refine quickSort_step_left hp h hg ((quickSort_ptr hp fuel s').touched_mono ?_)
  rw [hg] at ht hth
  rcases eq_or_lt_of_le hk.2 with rfl | hlt
  · exact hth
  · exact ht k hk.1 hlt

theorem mem_range_full (k : Int32) : k ∈ range Int32.minValue Int32.maxValue :=
  ⟨Int32.minValue_le k, Int32.le_maxValue k⟩

/-- A range that starts at the least index: if its last element is the only largest one, the
first recursive call runs over all of memory. -/
theorem quickSort_wraps_left (hw : 32 ≤ w) (hAp : Apart w A) (hA : range lo hi ⊆ A) (hp : p ≠ NULL)
    (hlo : lo = Int32.minValue) (h : lo < hi)
    (hbig : ∀ k, k ≠ hi → s.window A p k < s.window A p hi) (k : Int32) :
    (⟨p, k⟩ : Access w) ∈ (quickSort 2 p lo hi s).2.touched := by
  obtain ⟨m, s', hg, hlm, -, -⟩ := getPartitionIndex_within hp h.le s
  obtain ⟨hs, -, hm, hr⟩ := getPartitionIndex_split hw hAp hA hp h.le hg
  -- the only largest element comes first, so the pivot ends at `lo`
  have hmlo : m = lo := by
    by_contra hne
    have hlt : lo < m := lt_of_le_of_ne hlm (Ne.symm hne)
    obtain ⟨σ, -, hσ⟩ := hr
    have h1 := hs.left lo le_rfl hlt
    rw [hm, hσ, Function.comp_apply] at h1
    have h2 : σ lo = hi := by
      by_contra hc
      exact (hbig _ hc).not_ge h1
    have h3 : σ m = hi := by
      by_contra hc
      have := hbig _ hc
      rw [← hm, hσ, Function.comp_apply] at this
      exact lt_irrefl _ this
    exact hne (σ.injective (h3.trans h2.symm))
  refine quickSort_step_left hp h hg ?_
  have hm1 : m - 1 = Int32.maxValue := by rw [hmlo, hlo]; rfl
  rw [hm1, hlo]
  exact quickSort_touches hp (by decide) 0 s' k (mem_range_full k)

/-- A range that ends at the greatest index: if its last element is a least one, the second
recursive call runs over all of memory. -/
theorem quickSort_wraps_right (hw : 32 ≤ w) (hAp : Apart w A) (hA : range lo hi ⊆ A) (hp : p ≠ NULL)
    (hhi : hi = Int32.maxValue) (h : lo < hi) (hlo : -2 ^ 31 < lo.toInt)
    (hsmall : ∀ k, s.window A p hi ≤ s.window A p k) (k : Int32) :
    ∃ fuel, (⟨p, k⟩ : Access w) ∈ (quickSort fuel p lo hi s).2.touched := by
  obtain ⟨m, s', hg, hlm, hmh, -⟩ := getPartitionIndex_within hp h.le s
  obtain ⟨-, hgt, hm, hr⟩ := getPartitionIndex_split hw hAp hA hp h.le hg
  -- nothing is below a least element, so the pivot stays at `hi`
  have hmhi : m = hi := by
    by_contra hne
    have hlt := hgt hi (lt_of_le_of_ne hmh hne) le_rfl
    obtain ⟨σ, -, hσ⟩ := hr
    rw [hm, hσ, Function.comp_apply] at hlt
    exact (hsmall _).not_gt hlt
  have hfuel : ((m - 1).toInt - lo.toInt + 1).toNat < 2 ^ 32 + 1 := by
    have hmin := lo.le_toInt
    have hmax := (m - 1).toInt_lt
    omega
  obtain ⟨s₂, hq⟩ := quickSort_returns hp (2 ^ 32 + 1) (inner_left hlo hlm) hfuel s'
  refine ⟨2 ^ 32 + 1 + 1, ?_⟩
  rw [quickSort_step_right hp h hg hq]
  have hm2 : m + 1 = Int32.minValue := by rw [hmhi, hhi]; rfl
  rw [hm2, hhi]
  exact quickSort_touches hp (by decide) _ s₂ k (mem_range_full k)

/-- Memory of zeros. -/
theorem window_zeros (live : Finset (Addr w)) (k : Int32) :
    (enter (fun _ => 0) live).window A p k = 0 := by
  have hzero : (enter (fun _ => 0) live).elem p k = 0 := by
    show (⟨⟨(0#8 ++ 0#8 ++ 0#8 ++ 0#8 : BitVec 32)⟩⟩ : Int32) = 0
    decide
  unfold Kernel.window
  split
  · exact hzero
  · rfl

/-- **At an end of the `int32_t` range** there are contents of memory for which every element
is touched, if the elements of the range are different cells. -/
theorem quickSort_wraps (hw : 32 ≤ w) (hAp : Apart w (range lo hi)) (hp : p ≠ NULL) (h : lo < hi)
    (hin : ¬ Inner lo hi) (live : Finset (Addr w)) (k : Int32) :
    ∃ mem fuel, (⟨p, k⟩ : Access w) ∈ (quickSort fuel p lo hi (enter mem live)).2.touched := by
  -- zeros, with a 1 at `hi` when the range starts at the least index
  by_cases hlo : lo = Int32.minValue
  · refine ⟨((enter (fun _ => 0) live).write p hi 1).mem, 2, ?_⟩
    have hhi : hi ∈ range lo hi := ⟨h.le, le_rfl⟩
    have he : (enter ((enter (fun _ => 0) live).write p hi 1).mem live).window (range lo hi) p =
        Function.update ((enter (fun _ => 0) live).window (range lo hi) p) hi 1 := by
      rw [← window_write hAp hw hhi]
      rfl
    refine quickSort_wraps_left hw hAp subset_rfl hp hlo h ?_ k
    intro i hi'
    rw [he, Function.update_self, Function.update_of_ne hi', window_zeros]
    decide
  · have hlo' : -2 ^ 31 < lo.toInt := by
      have hne : lo.toInt ≠ -2 ^ 31 := fun he => hlo (Int32.toInt_inj.1 he)
      have := lo.le_toInt
      omega
    have hhi : hi = Int32.maxValue := by
      by_contra hc
      have hne : hi.toInt ≠ 2 ^ 31 - 1 := fun he => hc (Int32.toInt_inj.1 he)
      have := hi.toInt_lt
      exact hin ⟨hlo', by omega⟩
    obtain ⟨fuel, hf⟩ := quickSort_wraps_right hw hAp subset_rfl hp hhi h hlo'
      (fun i => by rw [window_zeros, window_zeros]) k
    exact ⟨_, fuel, hf⟩

theorem apart_range (h : 4 * (hi.toInt - lo.toInt) + 4 ≤ 2 ^ w) : Apart w (range lo hi) := by
  refine apart_of_lt (n := hi.toInt - lo.toInt + 1) (by omega) ?_
  intro i hi' j hj
  have h1 := Int32.le_iff_toInt_le.1 hi'.2
  have h2 := Int32.le_iff_toInt_le.1 hj.1
  omega

/-- A range whose elements are not all different cells covers every element. -/
theorem elemIn_of_range (hw : 32 ≤ w) (h : lo < hi)
    (hlong : 2 ^ w < 4 * (hi.toInt - lo.toInt) + 4) (hU : ∀ k, lo ≤ k → k ≤ hi → ElemIn U p k)
    (k : Int32) : ElemIn U p k := by
  obtain ⟨n, rfl⟩ : ∃ n, w = n + 2 := ⟨w - 2, by omega⟩
  have hpow : (2 : ℤ) ^ (n + 2) = 4 * 2 ^ n := by ring
  have hpos : (0 : ℤ) < 2 ^ n := by positivity
  have hlo := lo.le_toInt
  have hhi := hi.toInt_lt
  have hlt := Int32.lt_iff_toInt_lt.1 h
  -- the element of the range in the same cell
  have hrem := Int.emod_nonneg (k.toInt - lo.toInt) hpos.ne'
  have hlast := Int.emod_lt_of_pos (k.toInt - lo.toInt) hpos
  have hj : (Int32.ofInt (lo.toInt + (k.toInt - lo.toInt) % 2 ^ n)).toInt =
      lo.toInt + (k.toInt - lo.toInt) % 2 ^ n := Int32.toInt_ofInt_of_le (by omega) (by omega)
  have hmem := hU (Int32.ofInt (lo.toInt + (k.toInt - lo.toInt) % 2 ^ n))
    (by rw [Int32.le_iff_toInt_le, hj]; omega) (by rw [Int32.le_iff_toInt_le, hj]; omega)
  intro l hl0 hl4
  have hin := hmem l hl0 hl4
  rw [hj] at hin
  have hsame : off p (4 * (lo.toInt + (k.toInt - lo.toInt) % 2 ^ n) + l) =
      off p (4 * k.toInt + l) := by
    have hdiv := Int.mul_ediv_add_emod (k.toInt - lo.toInt) (2 ^ n)
    refine off_congr p ⟨-((k.toInt - lo.toInt) / 2 ^ n), ?_⟩
    rw [hpow]
    linear_combination 4 * hdiv
  rwa [hsame] at hin

/-- **Away from the ends of the `int32_t` range**, for each memory. -/
theorem quickSort_user_inner (hin : Inner lo hi) (mem : Mem w) (live : Finset (Addr w)) :
    (∀ fuel, ∀ a ∈ (quickSort fuel p lo hi (enter mem live)).2.touched, InUser U a) ↔
      p = NULL ∨ hi ≤ lo ∨ ∀ k, lo ≤ k → k ≤ hi → ElemIn U p k := by
  by_cases hq : p = NULL ∨ hi ≤ lo
  · refine iff_of_true ?_ (by tauto)
    intro fuel a ha
    rw [quickSort_quiet hq] at ha
    exact absurd ha List.not_mem_nil
  · rw [← or_assoc, or_iff_right hq]
    push Not at hq
    constructor
    · intro h k h1 h2
      exact (h 1 _ (quickSort_touches hq.1 hq.2 0 _ k ⟨h1, h2⟩)).2
    · intro h fuel a ha
      obtain ⟨h1, h2⟩ := (quickSort_within hq.1 hin fuel (enter mem live)).touched_mem rfl ha
      exact ⟨h1 ▸ hq.1, h1 ▸ h _ h2.1 h2.2⟩

theorem quickSort_user_iff (hw : 32 ≤ w) (live : Finset (Addr w)) :
    (∀ mem fuel, ∀ a ∈ (quickSort fuel p lo hi (enter mem live)).2.touched, InUser U a) ↔
      p = NULL ∨ hi ≤ lo ∨ ((∀ k, lo ≤ k → k ≤ hi → ElemIn U p k) ∧
        (Inner lo hi ∨ ∀ k, ElemIn U p k)) := by
  by_cases hin : Inner lo hi
  · constructor
    · intro h
      have := (quickSort_user_inner hin (fun _ => 0) live).1 (h _)
      tauto
    · intro h mem
      refine (quickSort_user_inner hin mem live).2 ?_
      tauto
  · by_cases hq : p = NULL ∨ hi ≤ lo
    · refine iff_of_true ?_ (by tauto)
      intro mem fuel a ha
      rw [quickSort_quiet hq] at ha
      exact absurd ha List.not_mem_nil
    · rw [← or_assoc, or_iff_right hq]
      push Not at hq
      constructor
      · intro h
        have hrange : ∀ k, lo ≤ k → k ≤ hi → ElemIn U p k := fun k h1 h2 =>
          (h (fun _ => 0) 1 _ (quickSort_touches hq.1 hq.2 0 _ k ⟨h1, h2⟩)).2
        have hall : ∀ k, ElemIn U p k := by
          rcases lt_or_ge (2 ^ w) (4 * (hi.toInt - lo.toInt) + 4) with hlong | hshort
          · exact elemIn_of_range hw hq.2 hlong hrange
          · intro k
            obtain ⟨mem, fuel, hk⟩ := quickSort_wraps hw (apart_range hshort) hq.1 hq.2 hin live k
            exact (h mem fuel _ hk).2
        exact ⟨fun k _ _ => hall k, .inr hall⟩
      · rintro ⟨-, hall⟩ mem fuel a ha
        obtain ⟨h1, -⟩ := (quickSort_ptr hq.1 fuel (enter mem live)).touched_mem rfl ha
        exact ⟨h1 ▸ hq.1, h1 ▸ hall.resolve_left hin _⟩

/-! ### The system calls -/

/-- **When the sort helpers stay in the caller's address space** `U`, for every pointer and
every two indices. -/
theorem helpers_user_iff (hw : 32 ≤ w) (U : Set (Addr w)) (p : Addr w) (lo hi : Int32) (live : Finset (Addr w)) :
    (∀ mem, (∀ a ∈ (getPartitionIndex p lo hi (enter mem live)).2.touched, InUser U a) ↔
      p ≠ NULL ∧ ∀ k, (lo ≤ k ∧ k ≤ hi) ∨ k = lo ∨ k = hi → ElemIn U p k) ∧
    ((∀ mem fuel, ∀ a ∈ (quickSort fuel p lo hi (enter mem live)).2.touched, InUser U a) ↔
      p = NULL ∨ hi ≤ lo ∨ ((∀ k, lo ≤ k → k ≤ hi → ElemIn U p k) ∧
        ((-2 ^ 31 < lo.toInt ∧ hi.toInt < 2 ^ 31 - 1) ∨ ∀ k, ElemIn U p k))) ∧
    (-2 ^ 31 < lo.toInt → hi.toInt < 2 ^ 31 - 1 → ∀ mem,
      ((∀ fuel, ∀ a ∈ (quickSort fuel p lo hi (enter mem live)).2.touched, InUser U a) ↔
        p = NULL ∨ hi ≤ lo ∨ ∀ k, lo ≤ k → k ≤ hi → ElemIn U p k)) := by
  refine ⟨fun mem => getPartitionIndex_user_iff mem live, ?_, ?_⟩
  · rw [quickSort_user_iff hw live]
    have : Inner lo hi ↔ -2 ^ 31 < lo.toInt ∧ hi.toInt < 2 ^ 31 - 1 :=
      ⟨fun h => ⟨h.lo, h.hi⟩, fun h => ⟨h.1, h.2⟩⟩
    rw [this]
  · intro h1 h2 mem
    exact quickSort_user_inner ⟨h1, h2⟩ mem live

theorem helpers_user_iff_kernel_pointer :
    (∀ fuel, ∀ a ∈ (quickSort fuel 0xc0008000 0 1 (enter (fun _ => 0) ∅)).2.touched,
        InUser userSpace a) ↔
      (0xc0008000 : Addr 32) = NULL ∨ (1 : Int32) ≤ 0 ∨
        ∀ k : Int32, 0 ≤ k → k ≤ 1 → ElemIn userSpace 0xc0008000 k :=
  (helpers_user_iff le_rfl userSpace 0xc0008000 0 1 ∅).2.2 (by decide) (by decide) _

/-- The pointer is one of the kernel's: the two elements at it are read and exchanged. -/
theorem helpers_leave_user_space :
    ¬ ∀ (U : Set (Addr 32)) (p : Addr 32) (lo hi : Int32) (mem : Mem 32) (live : Finset (Addr 32)),
      (∀ a ∈ (getPartitionIndex p lo hi (enter mem live)).2.touched, InUser U a) ∧
      ∀ fuel, ∀ a ∈ (quickSort fuel p lo hi (enter mem live)).2.touched, InUser U a := by
  intro h
  have hq := (h userSpace 0xc0008000 0 1 (fun _ => 0) ∅).2
  rw [quickSort_user_inner ⟨by decide, by decide⟩] at hq
  have hin : ElemIn userSpace 0xc0008000 0 := by
    refine (hq.resolve_left (by decide)).resolve_left (by decide) 0 (by decide) (by decide)
  have := hin 0 le_rfl (by norm_num)
  revert this
  unfold userSpace
  decide

end Aesd
