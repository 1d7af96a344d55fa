import Mathlib.Data.List.Basic
import Mathlib.Tactic

/-!
# Lines of a stream

A stream is cut into lines at marks, two of which, `cr` and `lf`, are taken for one when they
come together. Whether a `lf` is passed over is told by a flag that the characters before it
have set: `paired` looks at the last one, `sticky` at whether there has been a `cr` since the
last `lf`.

* `lines_eq_iff`: when the two cut a stream in the same way.
-/

namespace Lines

variable {α : Type*} [DecidableEq α]

/-- The marks at which lines end. -/
structure Marks (α : Type*) where
  cr : α
  lf : α
  ends : α → Bool
  ends_lf : ends lf = true
  cr_ne_lf : cr ≠ lf

variable (M : Marks α)

/-- The lines that end in a stream, from a flag and the characters of the line so far. -/
def lines (next : Bool → α → Bool) : Bool → List α → List α → List (List α)
  | _, _, [] => []
  | flag, line, c :: s =>
    if c = M.lf ∧ flag then lines next (next flag c) line s
    else if M.ends c then line :: lines next (next flag c) [] s
    else lines next (next flag c) (line ++ [c]) s

/-- The last character has been a `cr`. -/
def paired (_ : Bool) (c : α) : Bool := c = M.cr

/-- There has been a `cr` since the last `lf`. -/
def sticky (flag : Bool) (c : α) : Bool := c = M.cr || (flag && c ≠ M.lf)

/-- The next of `cr` and `lf` is a `lf`. -/
def Follows (s : List α) : Prop := ∃ b d, s = b ++ M.lf :: d ∧ M.cr ∉ b ∧ M.lf ∉ b

/-- There is a `cr` with another character after it, and then the next of `cr` and `lf` is a
`lf`. -/
def Stray (s : List α) : Prop :=
  ∃ a x d, s = a ++ M.cr :: x :: d ∧ x ≠ M.cr ∧ x ≠ M.lf ∧ Follows M d

/-- Another character, and then a `lf` as the next of `cr` and `lf`. -/
def Late (s : List α) : Prop := ∃ x d, s = x :: d ∧ x ≠ M.cr ∧ x ≠ M.lf ∧ Follows M d

/-- The two flags tell different things at some `lf`. -/
def Differ : Bool → Bool → List α → Prop
  | _, _, [] => False
  | f, g, c :: s => (c = M.lf ∧ f ≠ g) ∨ Differ (sticky M f c) (paired M g c) s

variable {M} {s : List α} {c : α}

omit [DecidableEq α] in
theorem follows_nil : ¬ Follows M [] := by
  rintro ⟨b, d, h, -⟩
  exact absurd (List.append_eq_nil_iff.1 h.symm).2 (List.cons_ne_nil _ _)

omit [DecidableEq α] in
theorem follows_lf : Follows M (M.lf :: s) :=
  ⟨[], s, rfl, List.not_mem_nil, List.not_mem_nil⟩

omit [DecidableEq α] in
theorem not_follows_cr : ¬ Follows M (M.cr :: s) := by
  rintro ⟨b, d, h, hcr, -⟩
  cases b with
  | nil => exact M.cr_ne_lf (List.cons.inj h).1
  | cons x b => exact hcr ((List.cons.inj h).1 ▸ List.mem_cons_self ..)

omit [DecidableEq α] in
theorem follows_cons (hcr : c ≠ M.cr) (hlf : c ≠ M.lf) : Follows M (c :: s) ↔ Follows M s := by
  refine ⟨?_, ?_⟩
  · rintro ⟨b, d, h, hb⟩
    cases b with
    | nil => exact absurd (List.cons.inj h).1 hlf
    | cons x b =>
      exact ⟨b, d, (List.cons.inj h).2, fun hmem => hb.1 (List.mem_cons_of_mem _ hmem),
        fun hmem => hb.2 (List.mem_cons_of_mem _ hmem)⟩
  · rintro ⟨b, d, rfl, hb⟩
    refine ⟨c :: b, d, rfl, ?_, ?_⟩
    · rw [List.mem_cons, not_or]
      exact ⟨hcr.symm, hb.1⟩
    · rw [List.mem_cons, not_or]
      exact ⟨hlf.symm, hb.2⟩

omit [DecidableEq α] in
theorem late_cons : Late M (c :: s) ↔ c ≠ M.cr ∧ c ≠ M.lf ∧ Follows M s := by
  refine ⟨?_, fun h => ⟨c, s, rfl, h⟩⟩
  rintro ⟨x, d, h, hx⟩
  obtain ⟨rfl, rfl⟩ := List.cons.inj h
  exact hx

omit [DecidableEq α] in
theorem stray_cons : Stray M (c :: s) ↔ (c = M.cr ∧ Late M s) ∨ Stray M s := by
  refine ⟨?_, ?_⟩
  · rintro ⟨a, x, d, h, hx⟩
    cases a with
    | nil =>
      obtain ⟨rfl, rfl⟩ := List.cons.inj h
      exact .inl ⟨rfl, x, d, rfl, hx⟩
    | cons y a => exact .inr ⟨a, x, d, (List.cons.inj h).2, hx⟩
  · rintro (⟨rfl, x, d, rfl, hx⟩ | ⟨a, x, d, rfl, hx⟩)
    · exact ⟨[], x, d, rfl, hx⟩
    · exact ⟨c :: a, x, d, rfl, hx⟩

/-- **Where the flags differ**: after a stray `cr`, or one that the flags know of already. -/
theorem differ_iff (s : List α) :
    (Differ M false false s ↔ Stray M s) ∧ (Differ M true false s ↔ Follows M s ∨ Stray M s) ∧
      (Differ M true true s ↔ Late M s ∨ Stray M s) := by
  induction s with
  | nil =>
    have hstray : ¬ Stray M [] := by
      rintro ⟨a, x, d, h, -⟩
      exact absurd (List.append_eq_nil_iff.1 h.symm).2 (List.cons_ne_nil _ _)
    have hlate : ¬ Late M [] := by
      rintro ⟨x, d, h, -⟩
      cases h
    exact ⟨iff_of_false id hstray, iff_of_false id (not_or.2 ⟨follows_nil, hstray⟩),
      iff_of_false id (not_or.2 ⟨hlate, hstray⟩)⟩
  | cons c s ih =>
    obtain ⟨ihnone, ihsticky, ihboth⟩ := ih
    rw [stray_cons, late_cons]
    by_cases hcr : c = M.cr
    · simp [Differ, sticky, paired, hcr, M.cr_ne_lf, ihboth, not_follows_cr]
    · by_cases hlf : c = M.lf
      · have hne : M.lf ≠ M.cr := M.cr_ne_lf.symm
        simp [Differ, sticky, paired, hlf, hne, ihnone, follows_lf]
      · simp [Differ, sticky, paired, hcr, hlf, ihnone, ihsticky, follows_cons hcr hlf]

theorem lines_of_not_differ {f g : Bool} (h : ¬ Differ M f g s) (line : List α) :
    lines M (sticky M) f line s = lines M (paired M) g line s := by
  induction s generalizing f g line with
  | nil => rfl
  | cons c s ih =>
    rw [Differ, not_or, not_and, not_not] at h
    obtain ⟨hflag, hrest⟩ := h
    have hcond : (c = M.lf ∧ f = true) ↔ (c = M.lf ∧ g = true) :=
      and_congr_right fun hc => by rw [hflag hc]
    rw [lines, lines, ih hrest, ih hrest, ih hrest]
    exact if_congr hcond rfl rfl

/-- A `lf` that only the sticky flag passes over is a line less. -/
theorem length_lines {f g : Bool} (hfg : g = true → f = true) (line line' : List α) :
    (lines M (sticky M) f line s).length ≤ (lines M (paired M) g line' s).length ∧
      (Differ M f g s →
        (lines M (sticky M) f line s).length < (lines M (paired M) g line' s).length) := by
  induction s generalizing f g line line' with
  | nil => exact ⟨le_refl _, fun h => h.elim⟩
  | cons c s ih =>
    have hnext : paired M g c = true → sticky M f c = true := by
      intro h
      unfold paired at h
      unfold sticky
      rw [h, Bool.true_or]
    rw [lines, lines, Differ]
    by_cases hlf : c = M.lf
    · have hends : M.ends c = true := hlf ▸ M.ends_lf
      have hmore := ih hnext [] []
      cases f with
      | false =>
        have hg : g = false := Bool.eq_false_iff.2 fun h => Bool.false_ne_true (hfg h)
        rw [hg] at hmore ⊢
        rw [if_neg (by simp), if_pos hends, if_neg (by simp), if_pos hends, List.length_cons,
          List.length_cons]
        refine ⟨Nat.succ_le_succ hmore.1, ?_⟩
        rintro (⟨-, hne⟩ | hdiffer)
        · exact absurd rfl hne
        · exact Nat.succ_lt_succ (hmore.2 hdiffer)
      | true =>
        rw [if_pos ⟨hlf, rfl⟩]
        cases g with
        | false =>
          have hmore := (ih hnext line []).1
          rw [if_neg (by simp), if_pos hends, List.length_cons]
          exact ⟨by omega, fun _ => by omega⟩
        | true =>
          rw [if_pos ⟨hlf, rfl⟩]
          refine ⟨(ih hnext line line').1, ?_⟩
          rintro (⟨-, hne⟩ | hdiffer)
          · exact absurd rfl hne
          · exact (ih hnext line line').2 hdiffer
    · have hf : ¬ (c = M.lf ∧ f = true) := fun h => hlf h.1
      have hg : ¬ (c = M.lf ∧ g = true) := fun h => hlf h.1
      rw [if_neg hf, if_neg hg]
      by_cases hends : M.ends c = true
      · rw [if_pos hends, if_pos hends, List.length_cons, List.length_cons]
        refine ⟨Nat.succ_le_succ (ih hnext [] []).1, ?_⟩
        rintro (⟨hc, -⟩ | hdiffer)
        · exact absurd hc hlf
        · exact Nat.succ_lt_succ ((ih hnext [] []).2 hdiffer)
      · rw [if_neg hends, if_neg hends]
        refine ⟨(ih hnext _ _).1, ?_⟩
        rintro (⟨hc, -⟩ | hdiffer)
        · exact absurd hc hlf
        · exact (ih hnext _ _).2 hdiffer

/-- **When the two cut alike**: exactly when there is no stray `cr`. -/
theorem lines_eq_iff :
    lines M (sticky M) false [] s = lines M (paired M) false [] s ↔ ¬ Stray M s := by
  rw [← (differ_iff s).1]
  refine ⟨?_, fun h => lines_of_not_differ h []⟩
  intro heq hdiffer
  have hlt := (length_lines (fun h => h) [] []).2 hdiffer
  rw [heq] at hlt
  exact lt_irrefl _ hlt

end Lines
