import Aesd.Syscall.Sorting

/-!
# Which calls of `sorting` give their buffer back

The buffer is freed on the last line before `return 0` only, so a call whose copy in or
copy out fails keeps it (`sorting_live_iff`). Over a sequence of calls the set of live
allocations is the same after each call as before it exactly when no call of the
sequence fails in one of its copies with a buffer in hand (`calls_balanced_iff`).
-/

namespace Aesd

variable {w : ℕ} {c : SortingCall w} {s : Kernel w}

/-- `kmalloc` does not hand out memory that is still allocated. -/
def Fresh (c : SortingCall w) (s : Kernel w) : Prop := c.kmalloc ∉ s.live

/-- The kernel answers each call of the sequence with fresh memory. -/
def Served : Kernel w → List (SortingCall w) → Prop
  | _, [] => True
  | s, c :: cs => Fresh c s ∧ Served (sorting c s).2 cs

/-- **After each call the live allocations are those before it.** -/
def Balanced : Kernel w → List (SortingCall w) → Prop
  | _, [] => True
  | s, c :: cs => (sorting c s).2.live = s.live ∧ Balanced (sorting c s).2 cs

/-- The call is refused, has no buffer, or both its copies go through. -/
def GivesBack (c : SortingCall w) : Prop :=
  c.unsorted = NULL ∨ c.sorted = NULL ∨ c.size.toInt ≤ 0 ∨ c.kmalloc = NULL ∨
    c.size.toInt = 2 ^ 30 ∨ (c.from_left = 0 ∧ c.to_left = 0)

/-- Only 0 is passed as a `size_t` of 0. -/
theorem sizeT_eq_zero (hw : 32 ≤ w) (x : Int32) : (sizeT w x).toNat = 0 ↔ x.toInt = 0 := by
  have hpow : (2 : ℤ) ^ 32 ≤ 2 ^ w := pow_le_pow_right₀ (by norm_num) hw
  have h1 := x.toInt_lt
  have h2 := x.le_toInt
  rw [← Int.natCast_eq_zero, sizeT_eq]
  constructor
  · intro h
    refine Int.eq_zero_of_abs_lt_dvd (Int.dvd_of_emod_eq_zero h) ?_
    rw [abs_lt]
    omega
  · intro h
    rw [h, Int.zero_emod]

theorem givesBack_iff (hw : 32 ≤ w) (h : Checked c) (hk : c.kmalloc ≠ NULL) :
    GivesBack c ↔ c.bytes = 0 ∨ (c.from_left = 0 ∧ c.to_left = 0) := by
  have h0 := h.size
  rw [Int32.lt_iff_toInt_lt, Int32.toInt_zero] at h0
  have hlt := c.size.toInt_lt
  have hb : c.bytes = 0 ↔ c.size.toInt = 2 ^ 30 := by
    unfold SortingCall.bytes
    rw [sizeT_eq_zero hw, toInt_sizeOfVar hw, Int.bmod_def]
    split <;> omega
  unfold GivesBack
  rw [or_iff_right h.unsorted, or_iff_right h.sorted, or_iff_right (not_le.2 h0), or_iff_right hk, hb]

theorem live_kmalloc (s : Kernel w) (hk : c.kmalloc ≠ NULL) :
    (s.kmalloc c.kmalloc c.bytes).live = if c.bytes = 0 then s.live else insert c.kmalloc s.live := by
  unfold Kernel.kmalloc
  by_cases h : c.bytes = 0
  · rw [if_pos (.inr h), if_pos h]
  · rw [if_neg (not_or.2 ⟨hk, h⟩), if_neg h]

theorem live_copiedOut (s : Kernel w) (h : Checked c) (hk : c.kmalloc ≠ NULL) :
    (copiedOut c s).live = (s.kmalloc c.kmalloc c.bytes).live :=
  (sortedBuffer_within (c := c) hk h.size s).1.live

theorem insert_live_ne (hf : Fresh c s) : insert c.kmalloc s.live ≠ s.live := by
  intro he
  exact hf (he ▸ Finset.mem_insert_self _ _)

/-- An allocation shows, unless it was of no bytes. -/
theorem kmalloc_live_eq (hf : Fresh c s) (hk : c.kmalloc ≠ NULL) :
    (s.kmalloc c.kmalloc c.bytes).live = s.live ↔ c.bytes = 0 := by
  rw [live_kmalloc s hk]
  by_cases hb : c.bytes = 0
  · rw [if_pos hb]
    exact iff_of_true rfl hb
  · rw [if_neg hb]
    exact iff_of_false (insert_live_ne hf) hb

/-- **One call**: the buffer is given back exactly when the call `GivesBack`. -/
theorem sorting_live_iff (hw : 32 ≤ w) (hf : Fresh c s) : (sorting c s).2.live = s.live ↔ GivesBack c := by
  rcases sorting_cases c s with h | h | h | h | h
  · obtain ⟨hc, he⟩ := h
    rw [he]
    refine iff_of_true rfl ?_
    by_contra hg
    unfold GivesBack at hg
    push Not at hg
    refine hc ⟨hg.2.1, hg.1, ?_⟩
    rw [Int32.lt_iff_toInt_lt, Int32.toInt_zero]
    exact hg.2.2.1
  · obtain ⟨-, hk, he⟩ := h
    rw [he]
    exact iff_of_true rfl (.inr (.inr (.inr (.inl hk))))
  · obtain ⟨hc, hk, hfl, he⟩ := h
    -- the early return after `copy_from_user` skips `kfree`
    rw [he, givesBack_iff hw hc hk, or_iff_left fun h => hfl h.1]
    exact kmalloc_live_eq hf hk
  · obtain ⟨hc, hk, -, htl, he⟩ := h
    -- so does the one after `copy_to_user`
    rw [he, givesBack_iff hw hc hk, or_iff_left fun h => htl h.2, live_copiedOut s hc hk]
    exact kmalloc_live_eq hf hk
  · obtain ⟨hc, hk, hfl, htl, he⟩ := h
    rw [he, givesBack_iff hw hc hk]
    refine iff_of_true ?_ (.inr ⟨hfl, htl⟩)
    change (copiedOut c s).live.erase c.kmalloc = s.live
    rw [live_copiedOut s hc hk, live_kmalloc s hk]
    split
    · exact Finset.erase_eq_of_notMem hf
    · exact Finset.erase_insert hf

/-- **Every sequence of calls**: each call leaves the live allocations as they were, exactly
when each call is refused, gets no buffer, or has both its copies go through. -/
theorem calls_balanced_iff (hw : 32 ≤ w) (calls : List (SortingCall w)) (s : Kernel w) (h : Served s calls) :
    Balanced s calls ↔
      ∀ c ∈ calls, c.unsorted = NULL ∨ c.sorted = NULL ∨ c.size.toInt ≤ 0 ∨ c.kmalloc = NULL ∨
        c.size.toInt = 2 ^ 30 ∨ (c.from_left = 0 ∧ c.to_left = 0) := by
  induction calls generalizing s with
  | nil => exact iff_of_true trivial (by simp)
  | cons c cs ih =>
    rw [List.forall_mem_cons]
    exact and_congr (sorting_live_iff hw h.1) (ih _ h.2)

/-- A call whose `copy_from_user` fails after `kmalloc` has succeeded. -/
def failingCopy : SortingCall 32 := { overlapCall with from_left := 8 }

theorem calls_balanced_iff_failing :
    Balanced freshKernel [failingCopy] ↔
      ∀ c ∈ [failingCopy], c.unsorted = NULL ∨ c.sorted = NULL ∨ c.size.toInt ≤ 0 ∨
        c.kmalloc = NULL ∨ c.size.toInt = 2 ^ 30 ∨ (c.from_left = 0 ∧ c.to_left = 0) :=
  calls_balanced_iff le_rfl [failingCopy] freshKernel ⟨Finset.notMem_empty _, trivial⟩

/-- One failing copy leaks the buffer. -/
theorem calls_unbalanced : ¬ ∀ (calls : List (SortingCall 32)) (s : Kernel 32), Served s calls →
    Balanced s calls := by
  intro h
  have hf : Fresh failingCopy freshKernel := Finset.notMem_empty _
  have hb := (h [failingCopy] freshKernel ⟨hf, trivial⟩).1
  rw [sorting_live_iff le_rfl hf] at hb
  revert hb
  unfold GivesBack
  decide

end Aesd
