import Mathlib.Tactic

/-!
# Run lengths of a list

`MaximalRuns rs xs`: the pairs `rs` of a value and a length spell out `xs`, neighbours with
different values; `encode` finds them.

On a sorted list they are more. `Runs rs xs`: the pairs spell out `xs` with the values in
strictly increasing order. A scan keeps it by making the last run longer (`more`) or by
starting a new one (`next`); then the lengths are the numbers of occurrences (`count`).
-/

namespace RunLength

variable {α : Type*} [LinearOrder α]

structure Runs (rs : List (α × ℕ)) (xs : List α) : Prop where
  spelled : rs.flatMap (fun r => List.replicate r.2 r.1) = xs
  pos : ∀ r ∈ rs, 0 < r.2
  strict : (rs.map Prod.fst).Pairwise (· < ·)

namespace Runs

variable {rs : List (α × ℕ)} {xs : List α} {a b : α} {c : ℕ}

theorem single (a : α) : Runs [(a, 1)] [a] := by
  refine ⟨rfl, ?_, List.pairwise_singleton _ _⟩
  intro r hr
  rw [List.mem_singleton.1 hr]
  exact one_pos

/-- One more element of the last run. -/
theorem more (h : Runs (rs ++ [(a, c)]) xs) : Runs (rs ++ [(a, c + 1)]) (xs ++ [a]) := by
  refine ⟨?_, ?_, ?_⟩
  · have hs := h.spelled
    rw [List.flatMap_append, List.flatMap_singleton] at hs ⊢
    rw [← hs, List.replicate_succ', List.append_assoc]
  · intro r hr
    rcases List.mem_append.1 hr with hr | hr
    · exact h.pos r (List.mem_append_left _ hr)
    · rw [List.mem_singleton.1 hr]
      exact Nat.succ_pos c
  · have hs := h.strict
    rwa [List.map_append, List.map_singleton] at hs ⊢

/-- A new run behind the last one. -/
theorem next (h : Runs (rs ++ [(a, c)]) xs) (hab : a < b) :
    Runs (rs ++ [(a, c)] ++ [(b, 1)]) (xs ++ [b]) := by
  refine ⟨?_, ?_, ?_⟩
  · rw [List.flatMap_append, h.spelled]
    rfl
  · intro r hr
    rcases List.mem_append.1 hr with hr | hr
    · exact h.pos r hr
    · rw [List.mem_singleton.1 hr]
      exact one_pos
  · have hs := h.strict
    rw [List.map_append, List.pairwise_append]
    refine ⟨hs, List.pairwise_singleton _ _, ?_⟩
    intro x hx y hy
    obtain rfl : y = b := by simpa using hy
    rw [List.map_append, List.pairwise_append] at hs
    rw [List.map_append, List.mem_append] at hx
    -- the earlier values are below `a`, the last one is `a`
    rcases hx with hx | hx
    · exact (hs.2.2 x hx a (by simp)).trans hab
    · obtain rfl : x = a := by simpa using hx
      exact hab

theorem mem_iff (h : Runs rs xs) (a : α) : a ∈ rs.map Prod.fst ↔ a ∈ xs := by
  rw [← h.spelled, List.mem_flatMap, List.mem_map]
  constructor
  · rintro ⟨r, hr, rfl⟩
    exact ⟨r, hr, List.mem_replicate.2 ⟨(h.pos r hr).ne', rfl⟩⟩
  · rintro ⟨r, hr, ha⟩
    exact ⟨r, hr, (List.mem_replicate.1 ha).2.symm⟩

theorem length_sum (h : Runs rs xs) : (rs.map Prod.snd).sum = xs.length := by
  rw [← h.spelled, List.length_flatMap]
  simp only [List.length_replicate]

theorem length_le (h : Runs rs xs) : rs.length ≤ xs.length := by
  rw [← h.length_sum]
  have hpos := h.pos
  clear h
  induction rs with
  | nil => exact le_rfl
  | cons r rs ih =>
    have h1 := hpos r List.mem_cons_self
    have h2 := ih fun r hr => hpos r (List.mem_cons_of_mem _ hr)
    rw [List.map_cons, List.sum_cons, List.length_cons]
    omega

/-- **The length of a run is the number of occurrences of its value.** -/
theorem count (h : Runs rs xs) (ha : (a, c) ∈ rs) : xs.count a = c := by
  induction rs generalizing xs with
  | nil => exact absurd ha List.not_mem_nil
  | cons r rs ih =>
    obtain ⟨hs, hpos, hstrict⟩ := h
    rw [List.map_cons, List.pairwise_cons] at hstrict
    have hrest : Runs rs (rs.flatMap fun r => List.replicate r.2 r.1) :=
      ⟨rfl, fun r hr => hpos r (List.mem_cons_of_mem _ hr), hstrict.2⟩
    rw [← hs, List.flatMap_cons, List.count_append]
    rcases List.mem_cons.1 ha with rfl | ha
    · -- the head's value is not among the later ones
      have hnot : a ∉ rs.flatMap fun r => List.replicate r.2 r.1 := fun hm =>
        lt_irrefl a (hstrict.1 a ((hrest.mem_iff a).2 hm))
      rw [List.count_replicate_self, List.count_eq_zero_of_not_mem hnot, add_zero]
    · have hne : r.1 ≠ a := (hstrict.1 a (List.mem_map_of_mem ha)).ne
      rw [ih hrest ha, List.count_replicate, if_neg (by simpa using hne), zero_add]

end Runs

/-- The runs of a list. -/
def encode : List α → List (α × ℕ)
  | [] => []
  | a :: xs =>
    match encode xs with
    | [] => [(a, 1)]
    | (b, n) :: rs => if a = b then (b, n + 1) :: rs else (a, 1) :: (b, n) :: rs

/-- The first run is one of the first element. -/
theorem encode_cons (a : α) (xs : List α) : ∃ n rs, encode (a :: xs) = (a, n + 1) :: rs := by
  rw [encode]
  cases encode xs with
  | nil => exact ⟨0, [], rfl⟩
  | cons r rs =>
    obtain ⟨b, n⟩ := r
    simp only
    by_cases h : a = b
    · rw [if_pos h, h]
      exact ⟨n, rs, rfl⟩
    · rw [if_neg h]
      exact ⟨0, _, rfl⟩

theorem encode_cons_cons (a b : α) (xs : List α) :
    encode (a :: b :: xs) = if a = b then
      (encode (b :: xs)).modifyHead (fun r => (r.1, r.2 + 1)) else (a, 1) :: encode (b :: xs) := by
  obtain ⟨n, rs, h⟩ := encode_cons b xs
  rw [encode, h]
  rfl

/-- **The runs cut a list** where its elements change. -/
structure MaximalRuns (rs : List (α × ℕ)) (xs : List α) : Prop where
  spelled : rs.flatMap (fun r => List.replicate r.2 r.1) = xs
  pos : ∀ r ∈ rs, 0 < r.2
  differ : (rs.map Prod.fst).IsChain (· ≠ ·)

theorem maximal_encode (xs : List α) : MaximalRuns (encode xs) xs := by
  induction xs with
  | nil => exact ⟨rfl, fun r hr => absurd hr List.not_mem_nil, List.IsChain.nil⟩
  | cons a xs ih =>
    obtain ⟨hs, hpos, hdiffer⟩ := ih
    cases xs with
    | nil =>
      refine ⟨rfl, ?_, List.isChain_singleton _⟩
      intro r hr
      rw [List.mem_singleton.1 hr]
      exact one_pos
    | cons b ys =>
      obtain ⟨n, rs, he⟩ := encode_cons b ys
      rw [encode_cons_cons]
      rw [he] at hs hpos hdiffer ⊢
      by_cases hab : a = b
      · -- one more of the first run
        subst hab
        rw [if_pos rfl, List.modifyHead_cons]
        refine ⟨?_, ?_, hdiffer⟩
        · rw [List.flatMap_cons] at hs ⊢
          rw [List.replicate_succ, List.cons_append, hs]
        · intro r hr
          rcases List.mem_cons.1 hr with rfl | hr
          · exact Nat.succ_pos _
          · exact hpos r (List.mem_cons_of_mem _ hr)
      · rw [if_neg hab]
        refine ⟨?_, ?_, ?_⟩
        · rw [List.flatMap_cons, hs]
          rfl
        · intro r hr
          rcases List.mem_cons.1 hr with rfl | hr
          · exact one_pos
          · exact hpos r hr
        · rw [List.map_cons] at hdiffer ⊢
          exact List.isChain_cons_cons.2 ⟨hab, hdiffer⟩

/-- Cut out of a sorted list, the values are in strictly increasing order. -/
theorem MaximalRuns.runs {rs : List (α × ℕ)} {xs : List α} (h : MaximalRuns rs xs)
    (hsort : xs.Pairwise (· ≤ ·)) : Runs rs xs := by
  refine ⟨h.spelled, h.pos, ?_⟩
  obtain ⟨rfl, hpos, hdiffer⟩ := h
  induction rs with
  | nil => exact List.Pairwise.nil
  | cons r rs ih =>
    rw [List.flatMap_cons, List.pairwise_append] at hsort
    rw [List.map_cons] at hdiffer ⊢
    have hih := ih (fun r hr => hpos r (List.mem_cons_of_mem _ hr)) hdiffer.tail hsort.2.1
    have hmem : ∀ r' ∈ rs, r'.1 ∈ rs.flatMap fun r => List.replicate r.2 r.1 := by
      intro r' hr'
      have hn := hpos r' (List.mem_cons_of_mem _ hr')
      exact List.mem_flatMap.2 ⟨r', hr', List.mem_replicate.2 ⟨hn.ne', rfl⟩⟩
    have hle : ∀ a ∈ rs.map Prod.fst, r.1 ≤ a := by
      intro a ha
      obtain ⟨r', hr', rfl⟩ := List.mem_map.1 ha
      have hn := hpos r List.mem_cons_self
      exact hsort.2.2 _ (List.mem_replicate.2 ⟨hn.ne', rfl⟩) _ (hmem r' hr')
    refine List.pairwise_cons.2 ⟨?_, hih⟩
    -- the next value is another one, and the others are above it
    cases hrs : rs.map Prod.fst with
    | nil => exact fun a ha => absurd ha List.not_mem_nil
    | cons b bs =>
      rw [hrs] at hdiffer hih hle
      have hlt : r.1 < b := lt_of_le_of_ne (hle b List.mem_cons_self) hdiffer.rel
      intro a ha
      rcases List.mem_cons.1 ha with rfl | ha
      · exact hlt
      · exact hlt.trans ((List.pairwise_cons.1 hih).1 a ha)

theorem runs_encode {xs : List α} (h : xs.Pairwise (· ≤ ·)) : Runs (encode xs) xs :=
  (maximal_encode xs).runs h

/-- **The runs of a sorted list** are its values, each with its number of occurrences. -/
theorem mem_encode {xs : List α} (h : xs.Pairwise (· ≤ ·)) (a : α) (n : ℕ) :
    (a, n) ∈ encode xs ↔ xs.count a = n ∧ 0 < n := by
  have hr := runs_encode h
  constructor
  · intro ha
    exact ⟨hr.count ha, hr.pos _ ha⟩
  · rintro ⟨hcount, hn⟩
    have hmem : a ∈ xs := List.count_pos_iff.1 (hcount ▸ hn)
    obtain ⟨⟨b, m⟩, hb, hab⟩ := List.mem_map.1 ((hr.mem_iff a).2 hmem)
    obtain rfl : b = a := hab
    rw [← hcount, hr.count hb]
    exact hb

end RunLength
