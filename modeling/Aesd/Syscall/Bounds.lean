import Aesd.Syscall.Sorting

/-!
# Which sizes stay inside the kernel buffer

`sorting` computes the size of its buffer in an `int32_t`, where `size*4` wraps, and
then runs its loops over `size` elements. From `2^29` up to `2^30` elements the byte count
is negative, and as a `size_t` it is a large number: on the 32-bit kernel the `4*size` bytes
themselves. From `2^30` on it has lost `2^32`. On the 32-bit kernel no size from there on has
a buffer that holds all elements; a wider `size_t` makes the negative counts, from
`2^30 + 2^29` on, large again (`size_le_capacity`).
-/

namespace Aesd

variable {w : ℕ} {c : SortingCall w} {s : Kernel w}

/-- The whole `int32_t` elements in the bytes `sorting` asks `kmalloc` for. -/
def SortingCall.capacity (c : SortingCall w) : ℕ := c.bytes / 4

/-- The sizes whose byte count wraps to a smaller one. -/
def Wraps (w : ℕ) (size : Int32) : Prop :=
  2 ^ 30 ≤ size.toInt ∧ (w = 32 ∨ size.toInt < 2 ^ 30 + 2 ^ 29)

theorem size_le_capacity (hw : 32 ≤ w) (h : 0 < c.size) :
    c.size.toInt ≤ c.capacity ↔ ¬ Wraps w c.size := by
  rw [Int32.lt_iff_toInt_lt, Int32.toInt_zero] at h
  have hlt := c.size.toInt_lt
  unfold SortingCall.capacity SortingCall.bytes Wraps
  rw [Int.natCast_div, sizeT_eq, toInt_sizeOfVar hw, Int.bmod_def]
  rcases Nat.eq_or_lt_of_le hw with rfl | hw
  · split <;> omega
  · -- a `size_t` wider than an `int32_t` turns a negative count into one above all sizes
    have hpow : (2 : ℤ) ^ 33 ≤ 2 ^ w := pow_le_pow_right₀ (by norm_num) hw
    split
    · rw [Int.emod_eq_of_lt (by omega) (by omega)]
      omega
    · rw [← Int.add_emod_right, Int.emod_eq_of_lt (by omega) (by omega)]
      omega

/-- Past its checks, with a buffer and a successful copy in, `sorting` accesses exactly the
elements `0..size-1`. -/
theorem sorting_touched (hc : Checked c) (hk : c.kmalloc ≠ NULL) (hf : c.from_left = 0)
    (h0 : s.touched = []) (a : Access w) :
    a ∈ (sorting c s).2.touched ↔ a.ptr = c.kmalloc ∧ 0 ≤ a.idx.toInt ∧ a.idx.toInt < c.size.toInt := by
  obtain ⟨hw, ht⟩ := sortedBuffer_within (c := c) hk hc.size s
  obtain ⟨-, -, hr⟩ := inner_size hc.size
  have hrun : (sorting c s).2.touched = (sortedBuffer c s).touched := by
    rcases sorting_cases c s with h | h | h | h | h
    · exact absurd hc h.1
    · exact absurd h.2.1 hk
    · exact absurd hf h.2.2.1
    · rw [h.2.2.2.2]; rfl
    · rw [h.2.2.2.2]; rfl
  have hin : (copiedIn c s).touched = [] := by
    unfold copiedIn Kernel.copyUser Kernel.kmalloc
    split <;> exact h0
  have hmem : ∀ k : Int32, k ∈ range 0 (c.size - 1) ↔ 0 ≤ k.toInt ∧ k.toInt < c.size.toInt := by
    intro k
    rw [hr, Set.mem_ofPred_eq, Int32.le_iff_toInt_le, Int32.lt_iff_toInt_lt, Int32.toInt_zero]
  rw [hrun]
  constructor
  · intro ha
    obtain ⟨hp, hi⟩ := hw.touched_mem hin ha
    exact ⟨hp, (hmem _).1 hi⟩
  · rintro ⟨hp, hi⟩
    have := ht a.idx ((hmem _).2 hi)
    rwa [← hp] at this

/-- A call that stops before its loops accesses nothing. -/
theorem sorting_untouched (h : c.kmalloc = NULL ∨ c.from_left ≠ 0) (h0 : s.touched = []) :
    (sorting c s).2.touched = [] := by
  rcases sorting_cases c s with h' | h' | h' | h' | h'
  · rw [h'.2]; exact h0
  · rw [h'.2.2]; exact h0
  · rw [h'.2.2.2]
    unfold copiedIn Kernel.copyUser Kernel.kmalloc
    split <;> exact h0
  · exact absurd h (not_or.2 ⟨h'.2.1, not_not.2 h'.2.2.1⟩)
  · exact absurd h (not_or.2 ⟨h'.2.1, not_not.2 h'.2.2.1⟩)

/-- **Every element index is inside the buffer, exactly when** the loops are not reached or
the byte count does not wrap to a smaller one. -/
theorem sorting_in_buffer_iff (hw : 32 ≤ w) (c : SortingCall w) (s : Kernel w) (hu : c.unsorted ≠ NULL)
    (hs : c.sorted ≠ NULL) (h1 : 0 < c.size.toInt) (h0 : s.touched = []) :
    (∀ a ∈ (sorting c s).2.touched, 0 ≤ a.idx.toInt ∧ a.idx.toInt < c.capacity) ↔
      c.kmalloc = NULL ∨ c.from_left ≠ 0 ∨
        ¬ (2 ^ 30 ≤ c.size.toInt ∧ (w = 32 ∨ c.size.toInt < 2 ^ 30 + 2 ^ 29)) := by
  have hsz : 0 < c.size := by rw [Int32.lt_iff_toInt_lt, Int32.toInt_zero]; exact h1
  by_cases hk : c.kmalloc = NULL
  · rw [sorting_untouched (.inl hk) h0]
    simp [hk]
  by_cases hf : c.from_left = 0
  swap
  · rw [sorting_untouched (.inr hf) h0]
    simp [hf]
  have ht := sorting_touched (s := s) ⟨hs, hu, hsz⟩ hk hf h0
  rw [or_iff_right hk, or_iff_right (not_not.2 hf)]
  change _ ↔ ¬ Wraps w c.size
  rw [← size_le_capacity hw hsz]
  constructor
  · intro h
    -- the last element is accessed
    obtain ⟨-, hl, -⟩ := inner_size hsz
    have hlast : (⟨c.kmalloc, c.size - 1⟩ : Access w) ∈ (sorting c s).2.touched := by
      refine (ht _).2 ⟨rfl, ?_, ?_⟩
      · show 0 ≤ (c.size - 1).toInt; omega
      · show (c.size - 1).toInt < c.size.toInt; omega
    have hcap : (c.size - 1).toInt < c.capacity := (h _ hlast).2
    omega
  · intro h a ha
    obtain ⟨-, h2, h3⟩ := (ht a).1 ha
    exact ⟨h2, by omega⟩

theorem sorting_in_buffer_iff_overlap :
    (∀ a ∈ (sorting overlapCall freshKernel).2.touched,
      0 ≤ a.idx.toInt ∧ a.idx.toInt < overlapCall.capacity) ↔
      overlapCall.kmalloc = NULL ∨ overlapCall.from_left ≠ 0 ∨
        ¬ (2 ^ 30 ≤ overlapCall.size.toInt ∧
          (32 = 32 ∨ overlapCall.size.toInt < 2 ^ 30 + 2 ^ 29)) :=
  sorting_in_buffer_iff le_rfl overlapCall freshKernel (by decide) (by decide) (by decide) rfl

/-- `2^30` elements need `2^32` bytes, which is 0 in an `int32_t`: `kmalloc(0)` succeeds. -/
def wrappedCall : SortingCall 32 where
  unsorted := 0x1000
  sorted := 0x1000
  size := 0x40000000
  kmalloc := 16
  from_left := 0
  to_left := 0

/-- Some call that passes the checks accesses an element outside its buffer. -/
theorem sorting_leaves_buffer :
    ¬ ∀ (c : SortingCall 32) (s : Kernel 32), c.unsorted ≠ NULL → c.sorted ≠ NULL → 0 < c.size.toInt →
      s.touched = [] →
      ∀ a ∈ (sorting c s).2.touched, 0 ≤ a.idx.toInt ∧ a.idx.toInt < c.capacity := by
  intro h
  have hsz : (0 : Int32) < wrappedCall.size := by decide
  have ht := sorting_touched (c := wrappedCall) (s := freshKernel) ⟨by decide, by decide, hsz⟩
    (by decide) rfl rfl ⟨wrappedCall.kmalloc, 0⟩
  have := h wrappedCall freshKernel (by decide) (by decide) (by decide) rfl _
    (ht.2 ⟨rfl, by decide, by decide⟩)
  exact absurd this (by decide)

end Aesd
