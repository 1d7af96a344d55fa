import Mathlib.Logic.Relation
import Mathlib.Tactic

/-!
# Runs of a labelled transition system

A run is a list of labelled steps from an initial state; every prefix of a run is a run,
so a statement about the last state of every run is one about every state reached.

* `Run.invariant`: what the first state has and each step keeps, every state has.
* `Run.simulate`: a forward simulation carries runs to runs of an abstract system,
  which may take no step or several for one concrete step.
* `Run.project`: a run as one component sees it, with the labels that concern it.
* `exec_run`, `exec_guarded_run`: executing a step function gives a run.

`When C step` keeps the steps that meet a condition on the label and the state before the step.
`Run.when_or`: a run keeps to the condition, or has gone wrong for good.
-/

namespace Lts

variable {σ τ α : Type*}

/-- `Run step s₀ as s`: the steps `as` lead from `s₀` to `s`. -/
inductive Run (step : σ → α → σ → Prop) (s₀ : σ) : List α → σ → Prop
  | nil : Run step s₀ [] s₀
  | snoc {as : List α} {s s' : σ} {a : α} (run : Run step s₀ as s) (next : step s a s') :
      Run step s₀ (as ++ [a]) s'

/-- The steps that meet the condition `C`. -/
def When (C : σ → α → Prop) (step : σ → α → σ → Prop) : σ → α → σ → Prop :=
  fun s a s' => step s a s' ∧ C s a

/-- The steps of a partial step function. -/
def Steps (step : σ → α → Option σ) : σ → α → σ → Prop := fun s a s' => step s a = some s'

variable {step : σ → α → σ → Prop} {s₀ s : σ} {as : List α}

/-- **Invariant rule.** -/
theorem Run.invariant {I : σ → Prop} (h0 : I s₀) (hs : ∀ {s a s'}, I s → step s a s' → I s')
    (hr : Run step s₀ as s) : I s := by
  induction hr with
  | nil => exact h0
  | snoc _ next ih => exact hs ih next

/-- **Simulation rule**: related to an abstract state, a run stays related to one that the
abstract system reaches. -/
theorem Run.simulate {astep : τ → τ → Prop} {R : σ → τ → Prop} {t₀ : τ} (h0 : R s₀ t₀)
    (hs : ∀ {s a s' t}, R s t → step s a s' → ∃ t', Relation.ReflTransGen astep t t' ∧ R s' t')
    (hr : Run step s₀ as s) : ∃ t, Relation.ReflTransGen astep t₀ t ∧ R s t := by
  induction hr with
  | nil => exact ⟨t₀, .refl, h0⟩
  | snoc _ next ih =>
    obtain ⟨t, ht, hR⟩ := ih
    obtain ⟨t', ht', hR'⟩ := hs hR next
    exact ⟨t', ht.trans ht', hR'⟩

/-- **Projection rule**: `f` keeps the labels that concern the component `v`; the steps with
other labels leave it alone. -/
theorem Run.project {β : Type*} {vstep : τ → β → τ → Prop} (f : α → Option β) (v : σ → τ)
    (hs : ∀ {s a s'}, step s a s' →
      (f a = none ∧ v s' = v s) ∨ ∃ b, f a = some b ∧ vstep (v s) b (v s'))
    (hr : Run step s₀ as s) : Run vstep (v s₀) (as.filterMap f) (v s) := by
  induction hr with
  | nil => exact .nil
  | @snoc as s s' a _ next ih =>
    rw [List.filterMap_append]
    rcases hs next with ⟨hf, hv⟩ | ⟨b, hf, hv⟩
    · rw [hv]
      simpa [hf] using ih
    · simpa [hf] using ih.snoc hv

/-- A step that breaks the condition leads to a state that is `bad`, and no step leads away
from those: a run keeps to the condition or ends in a `bad` state. -/
theorem Run.when_or {C : σ → α → Prop} {bad : σ → Prop}
    (hC : ∀ {s a s'}, step s a s' → ¬ C s a → bad s')
    (hbad : ∀ {s a s'}, bad s → step s a s' → bad s') (hr : Run step s₀ as s) :
    Run (When C step) s₀ as s ∨ bad s := by
  induction hr with
  | nil => exact .inl .nil
  | @snoc as s s' a _ next ih =>
    rcases ih with ih | ih
    · by_cases hc : C s a
      · exact .inl (ih.snoc ⟨next, hc⟩)
      · exact .inr (hC next hc)
    · exact .inr (hbad ih next)

/-- A run can be cut anywhere. -/
theorem Run.split {bs : List α} (hr : Run step s₀ (as ++ bs) s) :
    ∃ m, Run step s₀ as m ∧ Run step m bs s := by
  generalize hl : as ++ bs = l at hr
  induction hr generalizing bs with
  | nil =>
    obtain ⟨rfl, rfl⟩ := List.append_eq_nil_iff.1 hl
    exact ⟨s₀, .nil, .nil⟩
  | @snoc l s s' a run next ih =>
    rcases List.eq_nil_or_concat bs with rfl | ⟨bs, b, rfl⟩
    · rw [List.append_nil] at hl
      exact ⟨s', hl ▸ run.snoc next, .nil⟩
    · rw [List.concat_eq_append, ← List.append_assoc] at hl
      obtain ⟨hbs, hb⟩ := List.append_inj' hl rfl
      obtain rfl := List.singleton_inj.1 hb
      obtain ⟨m, h1, h2⟩ := ih hbs
      rw [List.concat_eq_append]
      exact ⟨m, h1, h2.snoc next⟩

theorem Run.nil_inv (hr : Run step s₀ [] s) : s = s₀ := by
  generalize hl : ([] : List α) = l at hr
  cases hr with
  | nil => rfl
  | snoc => simp at hl

/-- The last step of a run. -/
theorem Run.snoc_inv {a : α} (hr : Run step s₀ (as ++ [a]) s) : ∃ m, Run step s₀ as m ∧ step m a s := by
  generalize hl : as ++ [a] = l at hr
  cases hr with
  | nil => simp at hl
  | @snoc l m _ b run next =>
    obtain ⟨rfl, hb⟩ := List.append_inj' hl rfl
    obtain rfl := List.singleton_inj.1 hb
    exact ⟨m, run, next⟩

/-- The first step of a run. -/
theorem Run.cons_inv {a : α} (hr : Run step s₀ (a :: as) s) : ∃ m, step s₀ a m ∧ Run step m as s := by
  obtain ⟨m, h1, h2⟩ := Run.split (List.singleton_append ▸ hr : Run step s₀ ([a] ++ as) s)
  rw [← List.nil_append [a]] at h1
  obtain ⟨m₀, h0, next⟩ := h1.snoc_inv
  rw [h0.nil_inv] at next
  exact ⟨m, next, h2⟩

/-- Execute a list of labels with a partial step function. -/
def exec (step : σ → α → Option σ) : σ → List α → Option σ
  | s, [] => some s
  | s, a :: as => (step s a).bind fun s' => exec step s' as

theorem Run.append {bs : List α} {s' : σ} (h₁ : Run step s₀ as s) (h₂ : Run step s bs s') :
    Run step s₀ (as ++ bs) s' := by
  induction h₂ with
  | nil => rw [List.append_nil]; exact h₁
  | snoc _ next ih => rw [← List.append_assoc]; exact ih.snoc next

theorem exec_run (step : σ → α → Option σ) (as : List α) :
    ∀ {s₀ s : σ}, exec step s₀ as = some s → Run (Steps step) s₀ as s := by
  induction as with
  | nil =>
    intro s₀ s h
    obtain rfl := Option.some.inj h
    exact .nil
  | cons a as ih =>
    intro s₀ s h
    obtain ⟨s₁, h₁, h₂⟩ := Option.bind_eq_some_iff.1 h
    exact (Run.snoc (a := a) .nil h₁).append (ih h₂)

theorem Run.mono {step' : σ → α → σ → Prop} (h : ∀ {s a s'}, step s a s' → step' s a s')
    (hr : Run step s₀ as s) : Run step' s₀ as s := by
  induction hr with
  | nil => exact .nil
  | snoc _ next ih => exact ih.snoc (h next)

/-- A step function with its condition as a guard. -/
def guarded (C : σ → α → Prop) [∀ s a, Decidable (C s a)] (step : σ → α → Option σ) (s : σ)
    (a : α) : Option σ :=
  if C s a then step s a else none

theorem exec_guarded_run {C : σ → α → Prop} [∀ s a, Decidable (C s a)] {step : σ → α → Option σ}
    (h : exec (guarded C step) s₀ as = some s) : Run (When C (Steps step)) s₀ as s := by
  refine (exec_run _ _ h).mono (fun {s a s'} hs => ?_)
  rw [Steps, guarded, Option.ite_none_right_eq_some] at hs
  exact ⟨hs.2, hs.1⟩

end Lts
