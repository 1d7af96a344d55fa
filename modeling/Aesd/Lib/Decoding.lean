import Mathlib.Tactic
import Mathlib.Data.List.Forall2

/-!
# Codes that can be taken apart again

`Decodes P enc same`: from the code of an `a` with `P a`, whatever follows it, one can tell
`a` up to `same`, and where its code ends. A stream of such codes then tells all its items
(`Decodes.stream`). Codes that end with a delimiter are of this kind (`split_delimiter`).
-/

namespace Decoding

variable {α β : Type*}

/-- The code can be told from the start of a stream. -/
def Decodes (P : α → Prop) (enc : α → List β) (same : α → α → Prop) : Prop :=
  ∀ {a a' : α} {rest rest' : List β}, P a → P a' → enc a ++ rest = enc a' ++ rest' →
    same a a' ∧ rest = rest'

/-- The first delimiter ends the part before it. -/
theorem split_delimiter {c : β} {x x' rest rest' : List β} (hx : c ∉ x) (hx' : c ∉ x')
    (h : x ++ c :: rest = x' ++ c :: rest') : x = x' ∧ rest = rest' := by
  induction x generalizing x' with
  | nil =>
    cases x' with
    | nil => exact ⟨rfl, (List.cons_eq_cons.1 h).2⟩
    | cons b x' => exact absurd (List.cons_eq_cons.1 h).1 (List.ne_of_not_mem_cons hx')
  | cons b x ih =>
    cases x' with
    | nil => exact absurd (List.cons_eq_cons.1 h).1.symm (List.ne_of_not_mem_cons hx)
    | cons b' x' =>
      obtain ⟨rfl, htail⟩ := List.cons_eq_cons.1 h
      obtain ⟨rfl, hrest⟩ := ih (List.not_mem_of_not_mem_cons hx)
        (List.not_mem_of_not_mem_cons hx') htail
      exact ⟨rfl, hrest⟩

/-- **A stream of codes tells its items.** -/
theorem Decodes.stream {P : α → Prop} {enc : α → List β} {same : α → α → Prop}
    (h : Decodes P enc same) (hne : ∀ a, enc a ≠ []) {as as' : List α} (hP : ∀ a ∈ as, P a)
    (hP' : ∀ a ∈ as', P a) (heq : as.flatMap enc = as'.flatMap enc) : List.Forall₂ same as as' := by
  induction as generalizing as' with
  | nil =>
    cases as' with
    | nil => exact .nil
    | cons a' as' =>
      rw [List.flatMap_cons] at heq
      exact absurd (List.append_eq_nil_iff.1 heq.symm).1 (hne a')
  | cons a as ih =>
    cases as' with
    | nil =>
      rw [List.flatMap_cons] at heq
      exact absurd (List.append_eq_nil_iff.1 heq).1 (hne a)
    | cons a' as' =>
      rw [List.flatMap_cons, List.flatMap_cons] at heq
      obtain ⟨hsame, hrest⟩ := h (hP a (List.mem_cons_self ..)) (hP' a' (List.mem_cons_self ..)) heq
      exact .cons hsame (ih (fun b hb => hP b (List.mem_cons_of_mem _ hb))
        (fun b hb => hP' b (List.mem_cons_of_mem _ hb)) hrest)

end Decoding
