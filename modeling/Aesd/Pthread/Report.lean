import Aesd.Lib.RunLength
import Aesd.Pthread.Sort

/-!
# The report of `child1_funct`

On the sorted bytes the counting loop is a `scan`: the runs of the letters that are shorter
than 100, in order, linked up in the heap (`nodes`). `print_list` follows `head`, which is
still `NULL` when there is no such run.

* `countLoop_holds`: what the counting loop builds, for any bytes whose number is an `int`.
* `lines_expected_iff`: the thread prints the report exactly if there is something in it, the
  length is an `int`, and the file is not a single capital, which the sort never looks at.
-/

namespace Aesd.Pthread

open CString RunLength

/-! ### The list in the heap -/

/-- The nodes of a list, the first one with number `k`. -/
def nodes : ℕ → List (Byte × ℕ) → List Reporting
  | _, [] => []
  | k, (b, c) :: es => ⟨b, c, if es = [] then none else some (k + 1)⟩ :: nodes (k + 1) es

/-- The list `es` has been built behind the first node. -/
structure Holds (s : Counting) (es : List (Byte × ℕ)) : Prop where
  heap : ∃ first, s.heap = first :: nodes 1 es
  report : s.report = some es.length
  head : s.head = if es = [] then none else some 1
  first_time : s.first_time = decide (es ≠ [])

variable {s : Counting} {es : List (Byte × ℕ)}

theorem length_nodes (k : ℕ) (es : List (Byte × ℕ)) : (nodes k es).length = es.length := by
  induction es generalizing k with
  | nil => rfl
  | cons e es ih => rw [nodes, List.length_cons, List.length_cons, ih]

/-- The last node is linked to a new one. -/
theorem nodes_append (k : ℕ) (x e : Byte × ℕ) (es : List (Byte × ℕ)) :
    (nodes k (x :: es) ++ [Reporting.mk e.1 e.2 none]).modify es.length
        (fun node => { node with next := some (k + es.length + 1) }) =
      nodes k (x :: es ++ [e]) := by
  induction es generalizing k x with
  | nil => simp [nodes]
  | cons y es ih =>
    have hih := ih (k + 1) y
    rw [nodes, List.cons_append, List.length_cons, List.modify_succ_cons]
    rw [show k + (es.length + 1) + 1 = k + 1 + es.length + 1 by omega, hih]
    simp [nodes]

/-- **`add_new_member` appends to the list.** -/
theorem addNewMember_holds (h : Holds s es) (b : Byte) (c : ℕ) :
    ∃ s', addNewMember s b c = .ok s' ∧ (∃ first, s'.heap = first :: nodes 1 (es ++ [(b, c)])) ∧
      s'.report = some (es.length + 1) ∧ s'.head = s.head ∧ s'.first_time = s.first_time := by
  obtain ⟨⟨first, hheap⟩, hreport, -, -⟩ := h
  have hlen : s.heap.length = es.length + 1 := by
    rw [hheap, List.length_cons, length_nodes]
  unfold addNewMember
  rw [hreport, hlen]
  refine ⟨_, rfl, ?_, rfl, rfl, rfl⟩
  simp only
  rw [hheap]
  cases es with
  | nil => exact ⟨{ first with next := some 1 }, rfl⟩
  | cons e es =>
    refine ⟨first, ?_⟩
    have happ := nodes_append 1 e (b, c) es
    rw [List.cons_append, List.length_cons, List.modify_succ_cons, ← happ]
    congr 3
    funext node
    congr 2
    omega

/-- **`print_list` prints the list**, given enough steps. -/
theorem printList_nodes (pre : List Reporting) (e : Byte × ℕ) (es : List (Byte × ℕ)) (fuel : ℕ) :
    printList (pre ++ nodes pre.length (e :: es)) fuel (some pre.length) =
      if es.length < fuel then .ok (e :: es) else .error .fuel := by
  induction es generalizing pre e fuel with
  | nil =>
    cases fuel with
    | zero => rfl
    | succ fuel => simp [printList, nodes]
  | cons e' es ih =>
    cases fuel with
    | zero => rfl
    | succ fuel =>
      have hih := ih (pre ++ [⟨e.1, e.2, some (pre.length + 1)⟩]) e' fuel
      rw [List.length_append, List.length_singleton, List.append_assoc, List.singleton_append] at hih
      have hnodes : nodes pre.length (e :: e' :: es) =
          ⟨e.1, e.2, some (pre.length + 1)⟩ :: nodes (pre.length + 1) (e' :: es) := by
        simp [nodes]
      rw [hnodes, printList, Option.bind_some, List.getElem?_append_right le_rfl, Nat.sub_self,
        List.getElem?_cons_zero]
      simp only
      rw [hih, List.length_cons]
      by_cases hfuel : es.length < fuel
      · rw [if_pos hfuel, if_pos (by omega)]
        rfl
      · rw [if_neg hfuel, if_neg (by omega)]
        rfl

/-- A list with no node at `head`: a `NULL` pointer is followed. -/
theorem printList_none (heap : List Reporting) (fuel : ℕ) : ∃ e, printList heap fuel none = .error e := by
  cases fuel with
  | zero => exact ⟨_, rfl⟩
  | succ fuel => exact ⟨_, rfl⟩

/-- **What comes out of the list**: its members, unless it is empty. -/
theorem Holds.printed_iff (h : Holds s es) (lines : List (Byte × ℕ)) :
    (∃ fuel, printList s.heap fuel s.head = .ok lines) ↔ es ≠ [] ∧ lines = es := by
  obtain ⟨⟨first, hheap⟩, -, hhead, -⟩ := h
  rw [hheap, hhead]
  cases es with
  | nil =>
    -- `head` is still `NULL`
    rw [if_pos rfl]
    refine iff_of_false ?_ (fun h => h.1 rfl)
    rintro ⟨fuel, h⟩
    obtain ⟨e, he⟩ := printList_none (first :: nodes 1 []) fuel
    rw [he] at h
    simp at h
  | cons e es =>
    rw [if_neg (List.cons_ne_nil e es), and_iff_right (List.cons_ne_nil e es)]
    have hprint := printList_nodes [first] e es
    rw [List.length_singleton, List.singleton_append] at hprint
    constructor
    · rintro ⟨fuel, h⟩
      rw [hprint] at h
      split at h
      · exact (Except.ok.inj h).symm
      · simp at h
    · rintro rfl
      exact ⟨es.length + 1, by rw [hprint, if_pos (Nat.lt_succ_self _)]⟩

/-! ### The counting loop -/

/-- What the counting loop adds to the list, with `count` letters of the current run seen. -/
def scan : List Byte → ℕ → List (Byte × ℕ)
  | [], _ => []
  | b :: rest, count =>
    if 97 ≤ b.toInt ∧ b.toInt ≤ 122 then
      if b = rest.headD 0 then scan rest (count + 1)
      else if count < 100 then (b, count) :: scan rest 1
      else scan rest 1
    else scan rest count

theorem endRun_scan (h : Holds s es) (b : Byte) :
    ∃ s', endRun s b = .ok s' ∧ Holds s' (es ++ if s.count < 100 then [(b, s.count)] else []) := by
  unfold endRun
  by_cases hcount : s.count < 100
  · obtain ⟨s', hadd, hheap, hreport, hhead, hfirst⟩ := addNewMember_holds h b s.count
    have hlen : (es ++ [(b, s.count)]).length = es.length + 1 := by simp
    rw [if_pos hcount, if_pos hcount, if_pos hcount, hadd]
    by_cases hes : es = []
    · -- the first letter of the report
      have hft : s.first_time = false := by simp [h.first_time, hes]
      rw [if_pos hft]
      refine ⟨_, rfl, hheap, ?_, ?_, ?_⟩
      · rw [hlen]
        exact hreport
      · simp [hreport, hes]
      · simp
    · have hft : s.first_time = true := by simp [h.first_time, hes]
      rw [if_neg (by simp [hft])]
      refine ⟨s', rfl, hheap, ?_, ?_, ?_⟩
      · rw [hlen]
        exact hreport
      · simp [hhead, h.head, hes]
      · simp [hfirst, hft]
  · rw [if_neg hcount, if_neg hcount, if_neg hcount, ite_self, List.append_nil]
    exact ⟨s, rfl, h⟩

theorem countLetter_scan (h : Holds s es) (pre rest : List Byte) (b : Byte)
    (hb : s.count + (b :: rest).length ≤ 2 ^ 31) (hlen : (b :: rest).length < 2 ^ 31) :
    ∃ s' new, countLetter (pre ++ b :: (rest ++ [0])) s pre.length = .ok s' ∧
      Holds s' (es ++ new) ∧ scan (b :: rest) s.count = new ++ scan rest s'.count ∧
      s'.count + rest.length ≤ 2 ^ 31 := by
  rw [List.length_cons] at hb hlen
  have hnextb : (pre ++ b :: (rest ++ [0])).getD (pre.length + 1) 0 = rest.headD 0 := by
    cases rest <;> simp [List.getD]
  unfold countLetter
  rw [getD_at, hnextb, scan]
  by_cases hletter : 97 ≤ b.toInt ∧ b.toInt ≤ 122
  · rw [if_pos hletter, if_pos hletter]
    by_cases heq : b = rest.headD 0
    · -- one more of the run; the rest is not empty, a letter is no NUL
      have hne : rest ≠ [] := by
        rintro rfl
        rw [heq] at hletter
        revert hletter
        decide
      have hpos := List.length_pos_iff.2 hne
      rw [if_pos heq, if_pos heq, next_ok (by omega)]
      refine ⟨_, [], rfl, ?_, rfl, by simp only; omega⟩
      rw [List.append_nil]
      exact ⟨h.heap, h.report, h.head, h.first_time⟩
    · obtain ⟨s', hend, h'⟩ := endRun_scan h b
      rw [if_neg heq, if_neg heq, hend]
      refine ⟨_, _, rfl, ⟨h'.heap, h'.report, h'.head, h'.first_time⟩, ?_, by simp only; omega⟩
      by_cases hcount : s.count < 100
      · rw [if_pos hcount, if_pos hcount]
        rfl
      · rw [if_neg hcount, if_neg hcount]
        rfl
  · rw [if_neg hletter, if_neg hletter]
    refine ⟨s, [], rfl, ?_, rfl, by omega⟩
    rw [List.append_nil]
    exact h

/-- **The counting loop scans the bytes.** -/
theorem countLoop_from (h : Holds s es) (pre rest : List Byte)
    (hb : s.count + rest.length ≤ 2 ^ 31) (hlen : pre.length + rest.length < 2 ^ 31) :
    ∃ s', Holds s' (es ++ scan rest s.count) ∧
      (List.range' pre.length rest.length).foldlM
        (fun s i => do
          let s ← countLetter (pre ++ (rest ++ [0])) s i
          let _ ← next i
          return s) s = (.ok s' : Except Stop Counting) := by
  induction rest generalizing pre s es with
  | nil =>
    refine ⟨s, ?_, rfl⟩
    rw [scan, List.append_nil]
    exact h
  | cons b rest ih =>
    have hrest : (b :: rest).length < 2 ^ 31 := by omega
    obtain ⟨s₁, new, hstep, h₁, hscan, hb₁⟩ := countLetter_scan h pre rest b hb hrest
    have hpre : (pre ++ [b]).length = pre.length + 1 := by
      rw [List.length_append, List.length_singleton]
    rw [List.length_cons] at hlen
    obtain ⟨s', h', hrun⟩ := ih h₁ (pre ++ [b]) hb₁ (by omega)
    refine ⟨s', ?_, ?_⟩
    · rw [hscan, ← List.append_assoc]
      exact h'
    · rw [hpre, List.append_assoc, List.singleton_append] at hrun
      rw [List.length_cons, List.range'_succ, List.foldlM_cons, List.cons_append, hstep,
        next_ok (by omega)]
      exact hrun

/-- The loop of `child1_funct` over a buffer, from the empty list on. -/
theorem countLoop_holds (first : Reporting) {data : List Byte} (hlen : data.length < 2 ^ 31) :
    ∃ s, Holds s (scan data 1) ∧
      countLoop data.length (data ++ [0]) ⟨[first], some 0, none, false, 1⟩ = .ok s := by
  have h0 : Holds ⟨[first], some 0, none, false, 1⟩ [] := ⟨⟨first, rfl⟩, rfl, rfl, rfl⟩
  have hcount : 1 + data.length ≤ 2 ^ 31 := by omega
  have hstart : ([] : List Byte).length + data.length < 2 ^ 31 := by
    rw [List.length_nil]
    omega
  obtain ⟨s, hs, hrun⟩ := countLoop_from h0 [] data hcount hstart
  refine ⟨s, hs, ?_⟩
  unfold countLoop
  rw [List.range_eq_range']
  exact hrun

/-- The scan finds the short runs of the letters. -/
theorem scan_encode (b : Byte) (rest : List Byte) (k : ℕ)
    (hk : k = 0 ∨ 97 ≤ b.toInt ∧ b.toInt ≤ 122) :
    scan (b :: rest) (k + 1) =
      ((encode (b :: rest)).modifyHead fun r => (r.1, r.2 + k)).filter
        fun r => (97 ≤ r.1.toInt ∧ r.1.toInt ≤ 122) ∧ r.2 < 100 := by
  induction rest generalizing b k with
  | nil =>
    rw [scan, scan, scan]
    by_cases hletter : 97 ≤ b.toInt ∧ b.toInt ≤ 122
    · have hne : b ≠ 0 := by
        rintro rfl
        revert hletter
        decide
      have hadd : 1 + k = k + 1 := add_comm 1 k
      rw [if_pos hletter, List.headD_nil, if_neg hne]
      by_cases hcount : k + 1 < 100
      · simp [encode, hletter, hcount, hadd]
      · simp [encode, hcount, hadd]
    · rw [if_neg hletter]
      simp [encode, hletter, scan]
  | cons b' rest ih =>
    obtain ⟨n, rs, he⟩ := encode_cons b' rest
    have hih := ih b' 0 (.inl rfl)
    rw [he, List.modifyHead_cons, add_zero, zero_add] at hih
    rw [scan, List.headD_cons, encode_cons_cons]
    by_cases hletter : 97 ≤ b.toInt ∧ b.toInt ≤ 122
    · rw [if_pos hletter]
      by_cases heq : b = b'
      · subst heq
        have hadd : n + 1 + (k + 1) = n + 1 + 1 + k := by omega
        rw [if_pos rfl, if_pos rfl, ih b (k + 1) (.inr hletter), he, List.modifyHead_cons,
          List.modifyHead_cons, List.modifyHead_cons, hadd]
      · have hadd : 1 + k = k + 1 := add_comm 1 k
        rw [if_neg heq, if_neg heq, hih, he, List.modifyHead_cons]
        by_cases hcount : k + 1 < 100
        · simp [hletter, hcount, hadd]
        · simp [hcount, hadd]
    · obtain rfl : k = 0 := hk.resolve_right hletter
      rw [if_neg hletter, hih, he]
      by_cases heq : b = b'
      · subst heq
        simp [hletter]
      · simp [hletter, heq]

/-- **The scan keeps the short runs of letters.** -/
theorem scan_runs (data : List Byte) :
    scan data 1 =
      (encode data).filter fun r => (97 ≤ r.1.toInt ∧ r.1.toInt ≤ 122) ∧ r.2 < 100 := by
  cases data with
  | nil => rfl
  | cons b rest =>
    obtain ⟨n, rs, he⟩ := encode_cons b rest
    rw [← zero_add 1, scan_encode b rest 0 (.inl rfl), he]
    rfl

/-! ### The report -/

theorem mem_letters_iff (b : Byte) : b ∈ letters ↔ 97 ≤ b.toInt ∧ b.toInt ≤ 122 := by
  have hint := BitVec.toInt_eq_toNat_cond b
  have hlt := b.isLt
  unfold letters
  rw [List.mem_map]
  constructor
  · rintro ⟨k, hk, rfl⟩
    have hk := List.mem_range.1 hk
    rw [BitVec.toNat_ofNat, Nat.mod_eq_of_lt (by omega), if_pos (by omega)] at hint
    omega
  · rintro ⟨hlo, hhi⟩
    refine ⟨b.toNat - 97, List.mem_range.2 ?_, ?_⟩
    · split at hint <;> omega
    · have hnat : 97 + (b.toNat - 97) = b.toNat := by split at hint <;> omega
      rw [hnat, BitVec.ofNat_toNat, BitVec.setWidth_eq]

theorem letters_sorted : letters.Pairwise (· < ·) := by decide +kernel

theorem capital_of_letter {c : Byte} (hc : c ∈ letters) :
    65 ≤ (c - 32).toInt ∧ (c - 32).toInt ≤ 90 := by
  obtain ⟨hlo, hhi⟩ := (mem_letters_iff c).1 hc
  have hint := BitVec.toInt_eq_toNat_cond c
  have hcap := BitVec.toInt_eq_toNat_cond (c - 32)
  bv_omega

theorem lower_eq_iff {c : Byte} (hc : c ∈ letters) (b : Byte) : lower b = c ↔ b = c ∨ b = c - 32 := by
  have hsmall := (mem_letters_iff c).1 hc
  have hcap := capital_of_letter hc
  unfold lower
  by_cases hb : 65 ≤ b.toInt ∧ b.toInt ≤ 90
  · have hne : b ≠ c := by
      rintro rfl
      omega
    rw [if_pos hb, or_iff_right hne, eq_sub_iff_add_eq]
  · have hne : b ≠ c - 32 := by
      rintro rfl
      exact hb hcap
    rw [if_neg hb, or_iff_left hne]

/-- Counting without regard to case. -/
theorem count_lower (file : List Byte) {c : Byte} (hc : c ∈ letters) :
    (file.map lower).count c = occurrences file c := by
  unfold occurrences List.count
  rw [List.countP_map]
  apply List.countP_congr
  intro b _
  simp only [Function.comp_apply, beq_iff_eq, decide_eq_true_eq]
  exact lower_eq_iff hc b

/-- **The scan of the sorted bytes is the report.** -/
theorem scan_expected {S file : List Byte} (hsort : S.Pairwise (· ≤ ·))
    (hperm : S.Perm (file.map lower)) : scan S 1 = expected file := by
  -- both lists are in increasing order of the letters
  have hruns : (encode S).Pairwise (fun r r' => r.1 < r'.1) :=
    List.pairwise_map.1 (runs_encode hsort).strict
  have hletters : (letters.map fun c => (c, occurrences file c)).Pairwise
      (fun r r' => r.1 < r'.1) := by
    rw [List.pairwise_map]
    exact letters_sorted
  have : Std.Antisymm (fun r r' : Byte × ℕ => r.1 < r'.1) :=
    ⟨fun _ _ h h' => absurd h' (lt_asymm h)⟩
  have : Std.Irrefl (fun r r' : Byte × ℕ => r.1 < r'.1) := ⟨fun _ => lt_irrefl _⟩
  rw [scan_runs]
  unfold expected
  refine (hruns.filter _).eq_of_mem_iff (hletters.filter _) ?_
  intro r
  obtain ⟨c, n⟩ := r
  simp only [List.mem_filter, decide_eq_true_eq, mem_encode hsort, List.mem_map, Prod.mk.injEq,
    ← mem_letters_iff]
  constructor
  · rintro ⟨⟨hcount, hn⟩, hc, hlt⟩
    rw [hperm.count_eq, count_lower file hc] at hcount
    exact ⟨⟨c, hc, rfl, hcount⟩, hn, hlt⟩
  · rintro ⟨⟨c', hc', rfl, hocc⟩, hn, hlt⟩
    rw [hperm.count_eq, count_lower file hc']
    exact ⟨⟨hocc, hn⟩, hc', hlt⟩

/-- What the thread prints, in terms of the sorted bytes. -/
theorem child1Funct_eq_iff (first : Reporting) {file : List Byte} (hlen : file.length < 2 ^ 31) :
    ∃ S, S.Pairwise (· ≤ ·) ∧ (file.length < 2 → S = file) ∧
      (2 ≤ file.length → S.Perm (file.map lower)) ∧
      ∀ lines, (∃ fuel, child1Funct fuel first file = .ok lines) ↔
        scan S 1 ≠ [] ∧ lines = scan S 1 := by
  obtain ⟨S, hS, hsort, hshort, hperm⟩ := outerLoop_sorts hlen
  have hSlen : S.length = file.length := by
    rcases Nat.lt_or_ge file.length 2 with h | h
    · rw [hshort h]
    · rw [(hperm h).length_eq, List.length_map]
  have hSlt : S.length < 2 ^ 31 := by omega
  obtain ⟨s, hs, hrun⟩ := countLoop_holds first hSlt
  have hchild : ∀ fuel, child1Funct fuel first file = printList s.heap fuel s.head := by
    intro fuel
    unfold child1Funct
    rw [hS, ← hSlen]
    simp only [bind, Except.bind]
    rw [hrun]
  refine ⟨S, hsort, hshort, hperm, ?_⟩
  intro lines
  simp only [hchild]
  exact hs.printed_iff lines

theorem expected_ne_nil_iff (file : List Byte) :
    expected file ≠ [] ↔
      ∃ c ∈ letters, 1 ≤ occurrences file c ∧ occurrences file c < 100 := by
  unfold expected
  rw [ne_eq, List.filter_eq_nil_iff]
  simp only [List.mem_map, decide_eq_true_eq]
  push Not
  constructor
  · rintro ⟨r, ⟨c, hc, rfl⟩, h⟩
    exact ⟨c, hc, h⟩
  · rintro ⟨c, hc, h⟩
    exact ⟨_, ⟨c, hc, rfl⟩, h⟩

/-- **`child1_funct` comes to its exit with the report printed** exactly if the length of the
file is an `int`, some letter occurs less than a hundred times, and the file is not one capital. -/
theorem lines_expected_iff (first : Reporting) (file : List Byte) :
    (∃ fuel, child1Funct fuel first file = .ok (expected file)) ↔
      file.length < 2 ^ 31 ∧
      (∃ c ∈ letters, 1 ≤ occurrences file c ∧ occurrences file c < 100) ∧
      ¬ ∃ b : Byte, file = [b] ∧ 65 ≤ b.toInt ∧ b.toInt ≤ 90 := by
  rcases Nat.lt_or_ge file.length (2 ^ 31) with hlen | hlen
  · obtain ⟨S, hsort, hshort, hperm, hiff⟩ := child1Funct_eq_iff first hlen
    rw [hiff, and_iff_right hlen, ← expected_ne_nil_iff]
    by_cases hcap : ∃ b : Byte, file = [b] ∧ 65 ≤ b.toInt ∧ b.toInt ≤ 90
    · -- the capital is neither turned small nor counted
      obtain ⟨b, rfl, hb⟩ := hcap
      have hscan : scan S 1 = [] := by
        rw [hshort (by simp), scan, if_neg (by omega)]
        rfl
      exact iff_of_false (fun h => h.1 hscan) (fun h => h.2 ⟨b, rfl, hb⟩)
    · have hsmall : S.Perm (file.map lower) := by
        rcases Nat.lt_or_ge file.length 2 with h | h
        · rw [hshort h]
          match file, h with
          | [], _ => exact List.Perm.refl _
          | [b], _ =>
            have hb : lower b = b := if_neg fun hb => hcap ⟨b, rfl, hb⟩
            rw [List.map_singleton, hb]
        · exact hperm h
      rw [scan_expected hsort hsmall, and_iff_left rfl, and_iff_left hcap]
  · refine iff_of_false ?_ (fun h => absurd h.1 (by omega))
    rintro ⟨fuel, h⟩
    obtain ⟨e, he⟩ := outerLoop_overflow hlen (file ++ [0])
    unfold child1Funct at h
    rw [he] at h
    simp [bind, Except.bind] at h

/-- An empty file: `print_list` follows a `NULL` pointer. -/
theorem empty_file_stops :
    ¬ ∀ (first : Reporting) (file : List Byte),
      ∃ fuel, child1Funct fuel first file = .ok (expected file) := by
  intro h
  obtain ⟨fuel, h⟩ := h ⟨0, 0, none⟩ []
  cases fuel with
  | zero => simp [child1Funct, outerLoop, countLoop, printList, bind, Except.bind, pure, Except.pure] at h
  | succ fuel => simp [child1Funct, outerLoop, countLoop, printList, bind, Except.bind, pure, Except.pure] at h

end Aesd.Pthread
