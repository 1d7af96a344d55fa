import Aesd.Lib.Runs

/-!
# A latch: a flag set by one party and taken up by another

One party sets a flag, any number of times. The other watches it; having seen it set, it
clears it some steps later, does its work and `send`s the result before it watches again. Sets
that come before the flag is cleared are taken up together; one that comes after is taken up
in the next round, even when it comes before the `send` of this one.

`set_between`: between the clearings for two successive results there is a set.
`count_send_le`: there are no more results than sets.
-/

namespace Latch

inductive Pc
  | watch
  | seen
  | taken
deriving DecidableEq

structure State where
  flag : Bool
  pc : Pc
deriving DecidableEq

inductive Event
  | set
  | see
  | clear
  | send (passed : Bool)
deriving DecidableEq

def start : State := ⟨false, .watch⟩

def step (s : State) : Event → Option State
  | .set => some { s with flag := true }
  | .see => if s.pc = .watch ∧ s.flag = true then some { s with pc := .seen } else none
  | .clear => if s.pc = .seen then some ⟨false, .taken⟩ else none
  | .send _ => if s.pc = .taken then some { s with pc := .watch } else none

/-- What the events since `s₀` say about a state: a flag that is set, or was seen set, was
set in `s₀` or since; what has been taken up was cleared, and a flag that is set was set
after that. -/
structure Since (s₀ : State) (es : List Event) (s : State) : Prop where
  flag : s.flag = true → s₀.flag = true ∨ .set ∈ es
  seen : s.pc = .seen → s₀.flag = true ∨ .set ∈ es
  taken : s.pc = .taken → ∃ us vs, es = us ++ .clear :: vs ∧ .clear ∉ vs ∧
    (s.flag = true → .set ∈ vs) ∧ (s₀.flag = true ∨ .set ∈ us)

variable {s₀ s s' : State} {es : List Event} {e : Event}

theorem Since.step (h : Since s₀ es s) (hs : step s e = some s') : Since s₀ (es ++ [e]) s' := by
  obtain ⟨hflag, hseen, htaken⟩ := h
  cases e with
  | set =>
    obtain rfl := Option.some.inj hs
    refine ⟨fun _ => .inr (by simp), fun _ => .inr (by simp), ?_⟩
    intro hp
    obtain ⟨us, vs, rfl, hvs, -, hus⟩ := htaken hp
    exact ⟨us, vs ++ [.set], by simp, by simpa using hvs, by simp, hus⟩
  | see =>
    simp only [Latch.step, Option.ite_none_right_eq_some, Option.some.injEq] at hs
    obtain ⟨⟨-, hf⟩, rfl⟩ := hs
    have hset : s₀.flag = true ∨ .set ∈ es ++ [.see] := by simpa using hflag hf
    exact ⟨fun _ => hset, fun _ => hset, by simp⟩
  | clear =>
    simp only [Latch.step, Option.ite_none_right_eq_some, Option.some.injEq] at hs
    obtain ⟨hp, rfl⟩ := hs
    refine ⟨by simp, by simp, ?_⟩
    intro _
    exact ⟨es, [], rfl, List.not_mem_nil, by simp, hseen hp⟩
  | send passed =>
    simp only [Latch.step, Option.ite_none_right_eq_some, Option.some.injEq] at hs
    obtain ⟨hp, rfl⟩ := hs
    refine ⟨?_, by simp, by simp⟩
    intro hf
    simpa using hflag hf

theorem since_run (hp : s₀.pc = .watch) (hr : Lts.Run (Lts.Steps step) s₀ es s) : Since s₀ es s := by
  induction hr with
  | nil => exact ⟨.inl, by simp [hp], by simp [hp]⟩
  | snoc _ next ih => exact ih.step next

/-- **Between the clearings for two results there is a set.** -/
theorem set_between {us ws zs : List Event} {p q : Bool}
    (hr : Lts.Run (Lts.Steps step) start (us ++ .send p :: ws ++ .send q :: zs) s) :
    ∃ us' vs ws' ws'', us = us' ++ .clear :: vs ∧ .clear ∉ vs ∧ ws = ws' ++ .clear :: ws'' ∧
      .clear ∉ ws'' ∧ .set ∈ vs ++ ws' := by
  rw [List.append_assoc] at hr
  obtain ⟨m₁, h1, hr⟩ := hr.split
  obtain ⟨m₂, hsend, hr⟩ := Lts.Run.cons_inv (List.cons_append ▸ hr)
  obtain ⟨m₃, h2, hr⟩ := hr.split
  obtain ⟨m₄, hsend', -⟩ := hr.cons_inv
  simp only [Lts.Steps, step, Option.ite_none_right_eq_some, Option.some.injEq] at hsend hsend'
  obtain ⟨hp1, rfl⟩ := hsend
  obtain ⟨us', vs, rfl, hvs, hflag, -⟩ := (since_run rfl h1).taken hp1
  obtain ⟨ws', ws'', rfl, hws, -, hset⟩ := (since_run rfl h2).taken hsend'.1
  refine ⟨us', vs, ws', ws'', rfl, hvs, rfl, hws, ?_⟩
  rw [List.mem_append]
  -- the flag seen in the second round was set before the first `send` or after it
  exact hset.imp hflag id

/-- Each clearing uses up a set, each `send` a clearing. -/
structure Paid (es : List Event) (s : State) : Prop where
  seen : s.pc = .seen → s.flag = true
  paid : ∀ p, es.count (.send p) + s.flag.toNat + (if s.pc = .taken then 1 else 0) ≤ es.count .set

theorem Paid.step (h : Paid es s) (hs : step s e = some s') : Paid (es ++ [e]) s' := by
  obtain ⟨hseen, hpaid⟩ := h
  cases e with
  | set =>
    obtain rfl := Option.some.inj hs
    refine ⟨fun _ => rfl, ?_⟩
    intro p
    have := hpaid p
    simp [List.count_append]
    omega
  | see =>
    simp only [Latch.step, Option.ite_none_right_eq_some, Option.some.injEq] at hs
    obtain ⟨⟨-, hf⟩, rfl⟩ := hs
    refine ⟨fun _ => hf, ?_⟩
    intro p
    have := hpaid p
    simp [List.count_append]
    omega
  | clear =>
    simp only [Latch.step, Option.ite_none_right_eq_some, Option.some.injEq] at hs
    obtain ⟨hp, rfl⟩ := hs
    refine ⟨by simp, ?_⟩
    intro p
    have := hpaid p
    rw [hseen hp] at this
    simp [List.count_append] at this ⊢
    omega
  | send passed =>
    simp only [Latch.step, Option.ite_none_right_eq_some, Option.some.injEq] at hs
    obtain ⟨hp, rfl⟩ := hs
    refine ⟨by simp, ?_⟩
    intro p
    have := hpaid p
    simp [List.count_append, List.count_singleton, hp] at this ⊢
    split <;> omega

/-- **No more results than sets.** -/
theorem count_send_le (hr : Lts.Run (Lts.Steps step) start es s) (p : Bool) :
    es.count (.send p) ≤ es.count .set := by
  have hpaid : Paid es s := by
    induction hr with
    | nil => exact ⟨by simp [start], by simp [start]⟩
    | snoc _ next ih => exact ih.step next
  have := hpaid.paid p
  omega

end Latch
