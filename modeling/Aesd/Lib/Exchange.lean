import Aesd.Lib.Runs
import Mathlib.Data.List.Forall2

/-!
# Request and reply in turns

A client and a server exchange messages strictly in turns: the client asks, the server
takes the request, answers it, and the client reports the answer before it asks again.
`Log` records the four kinds of events, each in order, and `Sound` is what the exchange
is for: the server takes the requests that were sent, in order, and the client's `i`-th
answer is a reply to its `i`-th request. Which answers are replies to a request is a
parameter (`reply`), so the server may be nondeterministic.

A program whose steps this system simulates, with its own log as the log of the abstract
state, gets `Sound` for free: `sound_of_run`.
-/

namespace Exchange

variable {α β : Type*}

/-- The history of an exchange. -/
structure Log (α β : Type*) where
  /-- requests the client sent -/
  sent : List α
  /-- requests the server took -/
  got : List α
  /-- answers the server sent -/
  replied : List β
  /-- answers the client took -/
  reported : List β
deriving DecidableEq

namespace Log

def empty : Log α β := ⟨[], [], [], []⟩

def ask (l : Log α β) (q : α) : Log α β := { l with sent := l.sent ++ [q] }

def take (l : Log α β) (q : α) : Log α β := { l with got := l.got ++ [q] }

def answer (l : Log α β) (r : β) : Log α β := { l with replied := l.replied ++ [r] }

def report (l : Log α β) (r : β) : Log α β := { l with reported := l.reported ++ [r] }

end Log

/-- Whose turn it is, with the message on its way. -/
inductive Phase (α β : Type*)
  | idle
  | asked (q : α)
  | serving (q : α)
  | answered (r : β)

structure State (α β : Type*) where
  phase : Phase α β
  log : Log α β

variable (reply : α → β → Prop)

inductive Step : State α β → State α β → Prop
  | ask (q : α) (l : Log α β) : Step ⟨.idle, l⟩ ⟨.asked q, l.ask q⟩
  | take (q : α) (l : Log α β) : Step ⟨.asked q, l⟩ ⟨.serving q, l.take q⟩
  | answer (q : α) (r : β) (l : Log α β) (h : reply q r) :
      Step ⟨.serving q, l⟩ ⟨.answered r, l.answer r⟩
  | report (r : β) (l : Log α β) : Step ⟨.answered r, l⟩ ⟨.idle, l.report r⟩

/-- **What an exchange is for.** -/
structure Sound (l : Log α β) : Prop where
  /-- the `i`-th request the server takes is the `i`-th request sent -/
  received : ∀ (i : ℕ) (q : α), l.got[i]? = some q → l.sent[i]? = some q
  /-- the `i`-th answer is a reply to the `i`-th request taken -/
  served : ∀ (i : ℕ) (r : β), l.replied[i]? = some r → ∃ q, l.got[i]? = some q ∧ reply q r
  /-- the `i`-th answer the client takes is the `i`-th answer sent -/
  reported : ∀ (i : ℕ) (r : β), l.reported[i]? = some r → l.replied[i]? = some r

variable {reply}

/-- The client's `i`-th answer is a reply to its `i`-th request. -/
theorem Sound.paired {l : Log α β} (h : Sound reply l) {i : ℕ} {r : β}
    (hr : l.reported[i]? = some r) : ∃ q, l.sent[i]? = some q ∧ reply q r := by
  obtain ⟨q, hq, hrep⟩ := h.served i r (h.reported i r hr)
  exact ⟨q, h.received i q hq, hrep⟩

/-- The server takes requests of the client only. -/
theorem Sound.mem_sent {l : Log α β} (h : Sound reply l) {q : α} (hq : q ∈ l.got) : q ∈ l.sent := by
  obtain ⟨i, hi⟩ := List.mem_iff_getElem?.1 hq
  exact List.mem_of_getElem? (h.received i q hi)

/-- The histories that fit a phase; `done` are the requests already answered. -/
def Inv (reply : α → β → Prop) : State α β → Prop
  | ⟨.idle, l⟩ => l.got = l.sent ∧ l.reported = l.replied ∧ List.Forall₂ reply l.got l.replied
  | ⟨.asked q, l⟩ =>
    l.sent = l.got ++ [q] ∧ l.reported = l.replied ∧ List.Forall₂ reply l.got l.replied
  | ⟨.serving q, l⟩ =>
    ∃ done, l.got = done ++ [q] ∧ l.got = l.sent ∧ l.reported = l.replied ∧
      List.Forall₂ reply done l.replied
  | ⟨.answered r, l⟩ =>
    l.got = l.sent ∧ l.replied = l.reported ++ [r] ∧ List.Forall₂ reply l.got l.replied

theorem inv_step {s s' : State α β} (h : Inv reply s) (hs : Step reply s s') : Inv reply s' := by
  cases hs with
  | ask q l =>
    obtain ⟨h1, h2, h3⟩ := h
    exact ⟨by show l.sent ++ [q] = l.got ++ [q]; rw [h1], h2, h3⟩
  | take q l =>
    obtain ⟨h1, h2, h3⟩ := h
    exact ⟨l.got, rfl, h1.symm, h2, h3⟩
  | answer q r l hr =>
    obtain ⟨done, h1, h2, h3, h4⟩ := h
    refine ⟨h2, by show l.replied ++ [r] = l.reported ++ [r]; rw [h3], ?_⟩
    change List.Forall₂ reply l.got (l.replied ++ [r])
    -- the answer is paired with the request taken last
    rw [h1]
    exact List.rel_append h4 (.cons hr .nil)
  | report r l =>
    obtain ⟨h1, h2, h3⟩ := h
    exact ⟨h1, h2.symm, h3⟩

theorem forall₂_getElem? {l₁ : List α} {l₂ : List β} (h : List.Forall₂ reply l₁ l₂) {i : ℕ} {r : β}
    (hr : l₂[i]? = some r) : ∃ q, l₁[i]? = some q ∧ reply q r := by
  induction h generalizing i with
  | nil => simp at hr
  | cons hab _ ih =>
    cases i with
    | zero =>
      obtain rfl := Option.some.inj hr
      exact ⟨_, rfl, hab⟩
    | succ i => exact ih hr

theorem getElem?_append_left' {l l' : List α} {i : ℕ} {q : α} (h : l[i]? = some q) :
    (l ++ l')[i]? = some q := by
  obtain ⟨hlt, he⟩ := List.getElem?_eq_some_iff.1 h
  rw [List.getElem?_append_left hlt, h]

theorem Inv.sound {s : State α β} (h : Inv reply s) : Sound reply s.log := by
  obtain ⟨phase, l⟩ := s
  cases phase with
  | idle =>
    obtain ⟨h1, h2, h3⟩ := h
    exact ⟨fun i q hq => h1 ▸ hq, fun i r hr => forall₂_getElem? h3 hr, fun i r hr => h2 ▸ hr⟩
  | asked q =>
    obtain ⟨h1, h2, h3⟩ := h
    refine ⟨?_, fun i r hr => forall₂_getElem? h3 hr, fun i r hr => h2 ▸ hr⟩
    intro i q' hq
    change l.sent[i]? = _
    rw [h1]
    exact getElem?_append_left' hq
  | serving q =>
    obtain ⟨done, h1, h2, h3, h4⟩ := h
    refine ⟨fun i q' hq => h2 ▸ hq, ?_, fun i r hr => h3 ▸ hr⟩
    intro i r hr
    obtain ⟨q', hq', hrep⟩ := forall₂_getElem? h4 hr
    refine ⟨q', ?_, hrep⟩
    change l.got[i]? = _
    rw [h1]
    exact getElem?_append_left' hq'
  | answered r =>
    obtain ⟨h1, h2, h3⟩ := h
    refine ⟨fun i q hq => h1 ▸ hq, fun i r hr => forall₂_getElem? h3 hr, ?_⟩
    intro i r' hr
    change l.replied[i]? = _
    rw [h2]
    exact getElem?_append_left' hr

/-- The state before the first request. -/
def start : State α β := ⟨.idle, .empty⟩

/-- **Every history of an exchange in turns is sound.** -/
theorem sound_of_reaches {s : State α β} (h : Relation.ReflTransGen (Step reply) start s) :
    Sound reply s.log := by
  refine Inv.sound ?_
  induction h with
  | refl => exact ⟨rfl, rfl, .nil⟩
  | tail _ hs ih => exact inv_step ih hs

/-- **Simulation rule for exchanges**: a program whose steps are simulated is, after every
run, in a turn with a sound history. -/
theorem sound_of_run {σ ι : Type*} {step : σ → ι → σ → Prop} {R : σ → State α β → Prop} {s₀ s : σ}
    {as : List ι} (h0 : R s₀ start)
    (hs : ∀ {s a s' t}, R s t → step s a s' →
      ∃ t', Relation.ReflTransGen (Step reply) t t' ∧ R s' t')
    (hr : Lts.Run step s₀ as s) : ∃ t, R s t ∧ Sound reply t.log := by
  obtain ⟨t, ht, h⟩ := hr.simulate h0 hs
  exact ⟨t, h, sound_of_reaches ht⟩

end Exchange
