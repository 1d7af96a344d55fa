import Aesd.Lib.Exchange

/-!
# The rounds of an exchange

Client and server run `n` rounds each. `Counted` ties their loop counters to the history:
how many rounds each has behind it, and whether it is in the middle of one. The history
then has at most `4 * n` events, and exactly that many when both are through
(`Counted.size_eq_iff`); a sound history is then complete (`Sound.complete`).

`Matches R reply s`: the state `s` of a program belongs to a turn of the exchange, with a
history that fits the turn. A simulation keeps it (`Matches.step`).
-/

namespace Exchange

variable {α β : Type*}

/-- The number of events. -/
def Log.size (l : Log α β) : ℕ :=
  l.sent.length + l.got.length + l.replied.length + l.reported.length

@[simp] theorem Log.size_ask (l : Log α β) (q : α) : (l.ask q).size = l.size + 1 := by
  simp only [Log.size, Log.ask, List.length_append, List.length_singleton]
  omega

@[simp] theorem Log.size_take (l : Log α β) (q : α) : (l.take q).size = l.size + 1 := by
  simp only [Log.size, Log.take, List.length_append, List.length_singleton]
  omega

@[simp] theorem Log.size_answer (l : Log α β) (r : β) : (l.answer r).size = l.size + 1 := by
  simp only [Log.size, Log.answer, List.length_append, List.length_singleton]
  omega

@[simp] theorem Log.size_report (l : Log α β) (r : β) : (l.report r).size = l.size + 1 := by
  simp only [Log.size, Log.report, List.length_append, List.length_singleton]
  omega

/-- The client has `i` rounds behind it and the server `j`; `asked` and `serving` say
whether they are in the middle of the next one. -/
structure Counted (n : ℕ) (l : Log α β) (i j : ℕ) (asked serving : Bool) : Prop where
  sent : l.sent.length = i + asked.toNat
  reported : l.reported.length = i
  got : l.got.length = j + serving.toNat
  replied : l.replied.length = j
  client_le : i + asked.toNat ≤ n
  server_le : j + serving.toNat ≤ n

/-- The state is related to a turn whose history fits it. -/
def Matches {σ : Type*} (R : σ → State α β → Prop) (reply : α → β → Prop) (s : σ) : Prop :=
  ∃ t, R s t ∧ Inv reply t

theorem inv_steps {reply : α → β → Prop} {t t' : State α β} (h : Inv reply t)
    (hs : Relation.ReflTransGen (Step reply) t t') : Inv reply t' := by
  induction hs with
  | refl => exact h
  | tail _ next ih => exact inv_step ih next

theorem Matches.step {σ ι : Type*} {R : σ → State α β → Prop} {reply : α → β → Prop}
    {step : σ → ι → σ → Prop} {s s' : σ} {a : ι} (h : Matches R reply s)
    (hs : ∀ {t}, R s t → step s a s' → ∃ t', Relation.ReflTransGen (Step reply) t t' ∧ R s' t')
    (next : step s a s') : Matches R reply s' := by
  obtain ⟨t, hR, hinv⟩ := h
  obtain ⟨t', hsteps, hR'⟩ := hs hR next
  exact ⟨t', hR', inv_steps hinv hsteps⟩

/-- All `n` requests are answered, and the client has every answer. -/
structure Complete (reply : α → β → Prop) (n : ℕ) (l : Log α β) : Prop where
  rounds : l.sent.length = n
  received : l.got = l.sent
  paired : List.Forall₂ reply l.sent l.replied
  reported : l.reported = l.replied

namespace Counted

variable {n i j : ℕ} {l : Log α β} {asked serving : Bool}

theorem start (n : ℕ) : Counted n (.empty : Log α β) 0 0 false false :=
  ⟨rfl, rfl, rfl, rfl, Nat.zero_le n, Nat.zero_le n⟩

theorem ask (h : Counted n l i j false serving) (hi : i < n) (q : α) :
    Counted n (l.ask q) i j true serving := by
  refine ⟨?_, h.reported, h.got, h.replied, hi, h.server_le⟩
  rw [Log.ask, List.length_append, h.sent]
  rfl

theorem take (h : Counted n l i j asked false) (hj : j < n) (q : α) :
    Counted n (l.take q) i j asked true := by
  refine ⟨h.sent, h.reported, ?_, h.replied, h.client_le, hj⟩
  rw [Log.take, List.length_append, h.got]
  rfl

theorem answer (h : Counted n l i j asked true) (r : β) :
    Counted n (l.answer r) i (j + 1) asked false := by
  refine ⟨h.sent, h.reported, h.got, ?_, h.client_le, h.server_le⟩
  rw [Log.answer, List.length_append, h.replied]
  rfl

theorem report (h : Counted n l i j true serving) (r : β) :
    Counted n (l.report r) (i + 1) j false serving := by
  refine ⟨h.sent, ?_, h.got, h.replied, h.client_le, h.server_le⟩
  rw [Log.report, List.length_append, h.reported]
  rfl

theorem size_le (h : Counted n l i j asked serving) : l.size ≤ 4 * n := by
  have hi := h.client_le
  have hj := h.server_le
  rw [Log.size, h.sent, h.got, h.replied, h.reported]
  omega

/-- The last event is that both are through. -/
theorem size_eq_iff (h : Counted n l i j asked serving) : l.size = 4 * n ↔ i = n ∧ j = n := by
  have hi := h.client_le
  have hj := h.server_le
  rw [Log.size, h.sent, h.got, h.replied, h.reported]
  omega

theorem size_lt (h : Counted n l i j asked serving) (hlt : i < n ∨ j < n) : l.size < 4 * n := by
  refine lt_of_le_of_ne h.size_le ?_
  rw [Ne, h.size_eq_iff]
  omega

end Counted

theorem eq_of_getElem? {l₁ l₂ : List α} (hlen : l₁.length = l₂.length)
    (h : ∀ (i : ℕ) (x : α), l₁[i]? = some x → l₂[i]? = some x) : l₁ = l₂ := by
  refine List.ext_getElem hlen ?_
  intro i h1 h2
  have hi := h i l₁[i] (List.getElem?_eq_getElem h1)
  exact (List.getElem_eq_iff h2).2 hi |>.symm

/-- **A sound history of `n` rounds on both sides is complete.** -/
theorem Sound.complete {reply : α → β → Prop} {n : ℕ} {l : Log α β} {asked serving : Bool}
    (h : Sound reply l) (hc : Counted n l n n asked serving) : Complete reply n l := by
  have hasked : asked.toNat = 0 := by
    have := hc.client_le
    omega
  have hserving : serving.toNat = 0 := by
    have := hc.server_le
    omega
  have hsent : l.sent.length = n := by rw [hc.sent, hasked, Nat.add_zero]
  have hgot : l.got.length = n := by rw [hc.got, hserving, Nat.add_zero]
  have hreceived : l.got = l.sent := eq_of_getElem? (hgot.trans hsent.symm) h.received
  refine ⟨hsent, hreceived, ?_,
    eq_of_getElem? (hc.reported.trans hc.replied.symm) h.reported⟩
  rw [List.forall₂_iff_get]
  refine ⟨hsent.trans hc.replied.symm, ?_⟩
  intro i h1 h2
  obtain ⟨q, hq, hrep⟩ := h.served i l.replied[i] (List.getElem?_eq_getElem h2)
  rw [hreceived, List.getElem?_eq_getElem h1] at hq
  obtain rfl := Option.some.inj hq
  exact hrep

end Exchange
