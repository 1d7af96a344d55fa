import Aesd.Pthread.Report

/-!
# The list `child1_funct` builds

Behind the first node, which is never filled in, `add_new_member` links a node for each run of
a letter that is shorter than 100. The counting loop does this for any buffer; that the bytes
are sorted is not used.

`countLoop_members_iff`: from `head` on the list has exactly these runs, with `report` at its
last node, unless the loop variable overflows.
-/

namespace Aesd.Pthread

open CString RunLength

/-- The nodes `ps` that follow one another through `next` up to a `NULL`, and what is in them. -/
inductive Linked (heap : List Reporting) : Option ℕ → List ℕ → List (Byte × ℕ) → Prop
  | null : Linked heap none [] []
  | node {p : ℕ} {e : Byte × ℕ} {next : Option ℕ} {ps : List ℕ} {es : List (Byte × ℕ)} :
      heap[p]? = some ⟨e.1, e.2, next⟩ → Linked heap next ps es →
      Linked heap (some p) (p :: ps) (e :: es)

/-- The list at `head` has the members `es`, and `report` points to its last node. An empty
list has `report` at the first node. -/
structure Members (s : Counting) (es : List (Byte × ℕ)) : Prop where
  list : ∃ ps, Linked s.heap s.head ps es ∧ s.report = some (ps.getLastD 0)
  head : s.head = none ↔ es = []

theorem linked_nodes (pre : List Reporting) (e : Byte × ℕ) (es : List (Byte × ℕ)) :
    Linked (pre ++ nodes pre.length (e :: es)) (some pre.length)
      (List.range' pre.length (es.length + 1)) (e :: es) := by
  induction es generalizing pre e with
  | nil =>
    refine .node ?_ .null
    rw [List.getElem?_append_right le_rfl, Nat.sub_self]
    rfl
  | cons e' es ih =>
    have hih := ih (pre ++ [⟨e.1, e.2, some (pre.length + 1)⟩]) e'
    rw [List.length_append, List.length_singleton, List.append_assoc, List.singleton_append] at hih
    have hnodes : nodes pre.length (e :: e' :: es) =
        ⟨e.1, e.2, some (pre.length + 1)⟩ :: nodes (pre.length + 1) (e' :: es) := by
      simp [nodes]
    rw [hnodes, List.length_cons, List.range'_succ]
    refine .node ?_ hih
    rw [List.getElem?_append_right le_rfl, Nat.sub_self]
    rfl

/-- **What has been built is a list** with these members. -/
theorem Holds.members {s : Counting} {es : List (Byte × ℕ)} (h : Holds s es) : Members s es := by
  obtain ⟨⟨first, hheap⟩, hreport, hhead, -⟩ := h
  cases es with
  | nil => exact ⟨⟨[], by rw [hhead]; exact .null, hreport⟩, by rw [hhead]; simp⟩
  | cons e es =>
    rw [if_neg (List.cons_ne_nil e es)] at hhead
    refine ⟨⟨List.range' 1 (es.length + 1), ?_, ?_⟩, by rw [hhead]; simp⟩
    · have hlinked := linked_nodes [first] e es
      rw [hheap, hhead]
      exact hlinked
    · rw [hreport, List.length_cons, List.range'_concat, List.getLastD_concat, one_mul, add_comm]

/-- The letters `a` to `z` have runs worth a report below a length of 100. -/
def Short (r : Byte × ℕ) : Prop := (97 ≤ r.1.toInt ∧ r.1.toInt ≤ 122) ∧ r.2 < 100

instance : DecidablePred Short := fun _ => inferInstanceAs (Decidable (_ ∧ _))

/-- In a longer buffer the loop variable overflows, if the loop comes that far. -/
theorem countLoop_overflow {length : ℕ} (h : 2 ^ 31 ≤ length) (data : List Byte) (s : Counting) :
    ∃ e, countLoop length data s = .error e := by
  obtain ⟨n, rfl⟩ := Nat.exists_eq_add_of_le' (show 1 ≤ length by omega)
  unfold countLoop
  rw [List.range_succ]
  exact foldlM_overflow (countLetter data) (List.range n) h s

/-- **The counting loop builds the list of the short runs**, whatever the buffer is, exactly if
its length is an `int`. -/
theorem countLoop_members_iff (first : Reporting) (data : List Byte) :
    (∃ rs s, MaximalRuns rs data ∧
      countLoop data.length (data ++ [0]) ⟨[first], some 0, none, false, 1⟩ = .ok s ∧
      Members s (rs.filter Short)) ↔ data.length < 2 ^ 31 := by
  constructor
  · rintro ⟨rs, s, -, hrun, -⟩
    by_contra hlen
    obtain ⟨e, he⟩ := countLoop_overflow (not_lt.1 hlen) (data ++ [0])
      ⟨[first], some 0, none, false, 1⟩
    rw [he] at hrun
    simp at hrun
  · intro hlen
    obtain ⟨s, hs, hrun⟩ := countLoop_holds first hlen
    rw [scan_runs] at hs
    exact ⟨encode data, s, maximal_encode data, hrun, hs.members⟩

/-- A buffer of `2^31` letters. -/
theorem countLoop_overflows :
    ¬ ∀ (first : Reporting) (data : List Byte), ∃ rs s, MaximalRuns rs data ∧
      countLoop data.length (data ++ [0]) ⟨[first], some 0, none, false, 1⟩ = .ok s ∧
      Members s (rs.filter Short) := by
  intro h
  obtain ⟨rs, s, -, hrun, -⟩ := h ⟨0, 0, none⟩ (List.replicate (2 ^ 31) 0x61)
  rw [List.length_replicate] at hrun
  obtain ⟨e, he⟩ := countLoop_overflow le_rfl (List.replicate (2 ^ 31) 0x61 ++ [0])
    ⟨[⟨0, 0, none⟩], some 0, none, false, 1⟩
  rw [he] at hrun
  simp at hrun

end Aesd.Pthread
