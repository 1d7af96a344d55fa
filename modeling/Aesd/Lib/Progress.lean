import Aesd.Lib.Runs

/-!
# Runs that come to an end

A system whose steps all raise a count that is bounded cannot run for ever, and each of its
runs extends to one that ends in a `Stuck` state (`Run.extend`). When the bound is met in
every stuck state, all runs that end are equally long, whatever the order of their
steps (`Run.ends`).

`tally` counts the steps of a run that meet a condition on the label and the state before.
-/

namespace Lts

variable {σ α : Type*}

/-- No step leads away from the state. -/
def Stuck (step : σ → α → σ → Prop) (s : σ) : Prop := ∀ a s', ¬ step s a s'

/-- After `k` steps the state is `s`: the end comes with the `N`-th step and not before, it
can still be reached, and there `Q` holds. -/
structure Ends (step : σ → α → σ → Prop) (N : ℕ) (Q : σ → Prop) (k : ℕ) (s : σ) : Prop where
  length_le : k ≤ N
  stuck_iff : Stuck step s ↔ k = N
  final : k = N → Q s
  reachable : ∃ bs s', Run step s bs s' ∧ k + bs.length = N

section Count

variable {step : σ → α → σ → Prop} {s₀ s : σ} {as : List α} {I : σ → Prop} {c : σ → ℕ} {N : ℕ}

/-- What every step raises bounds the length of a run. -/
theorem Run.length_add_le (h0 : I s₀) (hI : ∀ {s a s'}, I s → step s a s' → I s')
    (hc : ∀ {s a s'}, I s → step s a s' → c s < c s') (hr : Run step s₀ as s) :
    as.length + c s₀ ≤ c s := by
  induction hr with
  | nil => simp
  | @snoc as s s' a run next ih =>
    have hlt := hc (run.invariant h0 hI) next
    rw [List.length_append, List.length_singleton]
    omega

/-- What every step raises by one is the length of the run. -/
theorem Run.length_add_eq (h0 : I s₀) (hI : ∀ {s a s'}, I s → step s a s' → I s')
    (hc : ∀ {s a s'}, I s → step s a s' → c s' = c s + 1) (hr : Run step s₀ as s) :
    as.length + c s₀ = c s := by
  induction hr with
  | nil => simp
  | @snoc as s s' a run next ih =>
    have heq := hc (run.invariant h0 hI) next
    rw [List.length_append, List.length_singleton]
    omega

/-- **Termination rule**: when the count is bounded, every state has a run to the end. -/
theorem extend (hI : ∀ {s a s'}, I s → step s a s' → I s')
    (hc : ∀ {s a s'}, I s → step s a s' → c s < c s') (hN : ∀ {s}, I s → c s ≤ N) (h : I s) :
    ∃ bs s', Run step s bs s' ∧ Stuck step s' := by
  induction hk : N - c s using Nat.strong_induction_on generalizing s with
  | _ k ih =>
    by_cases hs : Stuck step s
    · exact ⟨[], s, .nil, hs⟩
    · -- one more step leaves less to go
      obtain ⟨a, s₁, next⟩ : ∃ a s', step s a s' := by
        by_contra hn
        exact hs fun a s' next => hn ⟨a, s', next⟩
      have h1 := hI h next
      have hlt := hc h next
      have hle := hN h1
      obtain ⟨bs, s', hr, hstuck⟩ := ih (N - c s₁) (by omega) h1 rfl
      exact ⟨a :: bs, s', (Run.snoc (a := a) .nil next).append hr, hstuck⟩

/-- **Rule for systems that end on the `N`-th step.** -/
theorem Run.ends {Q : σ → Prop} (h0 : I s₀) (hc0 : c s₀ = 0)
    (hI : ∀ {s a s'}, I s → step s a s' → I s')
    (hc : ∀ {s a s'}, I s → step s a s' → c s' = c s + 1) (hN : ∀ {s}, I s → c s ≤ N)
    (hstuck : ∀ {s}, I s → Stuck step s → c s = N) (hQ : ∀ {s}, I s → c s = N → Q s)
    (hr : Run step s₀ as s) : Ends step N Q as.length s := by
  have h := hr.invariant h0 hI
  have hlen := hr.length_add_eq h0 hI hc
  rw [hc0, Nat.add_zero] at hlen
  rw [hlen]
  refine ⟨hN h, ⟨hstuck h, ?_⟩, hQ h, ?_⟩
  · intro hend a s' next
    have heq := hc h next
    have hle := hN (hI h next)
    omega
  · have hlt : ∀ {s a s'}, I s → step s a s' → c s < c s' := by
      intro s a s' h next
      rw [hc h next]
      exact Nat.lt_succ_self _
    have hext : ∃ bs s', Run step s bs s' ∧ Stuck step s' := extend hI hlt hN h
    obtain ⟨bs, s', hr', hs'⟩ := hext
    have hlen' := hr'.length_add_eq h hI hc
    have hend := hstuck (hr'.invariant h hI) hs'
    exact ⟨bs, s', hr', by omega⟩

end Count

theorem Stuck.eq_none {step : σ → α → Option σ} {s : σ} (h : Stuck (Steps step) s) (a : α) :
    step s a = none := by
  cases hs : step s a with
  | none => rfl
  | some s' => exact absurd hs (h a s')

section Tally

variable (step : σ → α → Option σ) (P : σ → α → Prop) [∀ s a, Decidable (P s a)]

/-- The number of steps that meet `P`. -/
def tally : σ → List α → ℕ
  | _, [] => 0
  | s, a :: as =>
    (if P s a then 1 else 0) + (step s a).elim 0 fun s' => tally s' as

variable {step} {P} {s₀ s : σ} {as : List α}

theorem tally_snoc (hr : Run (Steps step) s₀ as s) (a : α) :
    tally step P s₀ (as ++ [a]) = tally step P s₀ as + if P s a then 1 else 0 := by
  induction as generalizing s₀ with
  | nil =>
    obtain rfl := hr.nil_inv
    have hnil : (step s a).elim 0 (fun s' => tally step P s' []) = 0 := by
      cases step s a <;> rfl
    rw [List.nil_append, tally, tally, hnil, Nat.add_comm]
  | cons b as ih =>
    obtain ⟨m, next, hr'⟩ := hr.cons_inv
    rw [Steps] at next
    rw [List.cons_append, tally, tally, next, Option.elim_some, Option.elim_some, ih hr',
      Nat.add_assoc]

end Tally

end Lts
