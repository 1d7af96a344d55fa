import Aesd.Lib.Runs
import Mathlib.Data.Prod.Lex

/-!
# Stamps put together from two reads of a clock

A clock shows a pair `stamp t`, high part first, that grows with `t` in lexicographic order. A
stamp whose high part is read at `t₁` and whose low part at `t₂` is `torn`: it is never late
(`torn_le`), and it is not early exactly when the low part has not wrapped in between
(`torn_between_iff`).

`Step` is a writer that stamps its messages so and sends them. While its low parts do not
wrap the stamps it sends never decrease: `sorted_of_run`.
-/

namespace TornStamp

variable {T α β : Type*} [LinearOrder α] [LinearOrder β] (stamp : T → α ×ₗ β)

/-- The low part of the clock. -/
def low (t : T) : β := (ofLex (stamp t)).2

/-- High part at `t₁`, low part at `t₂`. -/
def torn (t₁ t₂ : T) : α ×ₗ β := toLex ((ofLex (stamp t₁)).1, low stamp t₂)

variable {stamp} {t₁ t₂ : T}

theorem le_torn_iff : stamp t₁ ≤ torn stamp t₁ t₂ ↔ low stamp t₁ ≤ low stamp t₂ := by
  unfold torn low
  rw [Prod.Lex.le_iff]
  simp

variable [Preorder T]

/-- The high part has not fallen since, and the low part is that of the later read. -/
theorem torn_le (hm : Monotone stamp) (h : t₁ ≤ t₂) : torn stamp t₁ t₂ ≤ stamp t₂ := by
  have hle := hm h
  unfold torn low
  rw [Prod.Lex.le_iff] at hle ⊢
  rcases hle with hlt | ⟨heq, -⟩
  · exact .inl hlt
  · exact .inr ⟨heq, le_rfl⟩

/-- **A torn stamp lies between its two reads** exactly when the low part has not wrapped. -/
theorem torn_between_iff (hm : Monotone stamp) (h : t₁ ≤ t₂) :
    stamp t₁ ≤ torn stamp t₁ t₂ ∧ torn stamp t₁ t₂ ≤ stamp t₂ ↔ low stamp t₁ ≤ low stamp t₂ := by
  rw [le_torn_iff]
  exact and_iff_left (torn_le hm h)

/-! ### A writer of stamped messages -/

inductive Phase (T α β : Type*)
  | idle
  /-- the high part has been read at this time -/
  | half (t : T)
  | whole (x : α ×ₗ β)

structure State (T α β : Type*) where
  now : T
  phase : Phase T α β
  /-- the stamps of the messages sent -/
  sent : List (α ×ₗ β)

variable (stamp) in
inductive Step : State T α β → State T α β → Prop
  | advance (s : State T α β) (t : T) (h : s.now ≤ t) : Step s { s with now := t }
  | first (t : T) (xs : List (α ×ₗ β)) : Step ⟨t, .idle, xs⟩ ⟨t, .half t, xs⟩
  | second (t t₁ : T) (xs : List (α ×ₗ β)) (h : low stamp t₁ ≤ low stamp t) :
      Step ⟨t, .half t₁, xs⟩ ⟨t, .whole (torn stamp t₁ t), xs⟩
  | send (t : T) (x : α ×ₗ β) (xs : List (α ×ₗ β)) :
      Step ⟨t, .whole x, xs⟩ ⟨t, .idle, xs ++ [x]⟩
  | drop (t : T) (x : α ×ₗ β) (xs : List (α ×ₗ β)) : Step ⟨t, .whole x, xs⟩ ⟨t, .idle, xs⟩

/-- What the next stamp will not be below. -/
def Phase.Above (xs : List (α ×ₗ β)) (now : T) : Phase T α β → (T → α ×ₗ β) → Prop
  | .idle, stamp => ∀ x ∈ xs, x ≤ stamp now
  | .half t₁, stamp => t₁ ≤ now ∧ ∀ x ∈ xs, x ≤ stamp t₁
  | .whole y, stamp => y ≤ stamp now ∧ ∀ x ∈ xs, x ≤ y

variable (stamp) in
structure Inv (s : State T α β) : Prop where
  sorted : s.sent.Pairwise (· ≤ ·)
  above : s.phase.Above s.sent s.now stamp

theorem inv_step (hm : Monotone stamp) {s s' : State T α β} (hi : Inv stamp s)
    (hs : Step stamp s s') : Inv stamp s' := by
  obtain ⟨hsorted, habove⟩ := hi
  cases hs with
  | advance _ t h =>
    refine ⟨hsorted, ?_⟩
    obtain ⟨now, phase, xs⟩ := s
    -- what was below the clock stays below it
    cases phase with
    | idle => exact fun x hx => (habove x hx).trans (hm h)
    | half t₁ => exact ⟨habove.1.trans h, habove.2⟩
    | whole y => exact ⟨habove.1.trans (hm h), habove.2⟩
  | first t xs => exact ⟨hsorted, le_rfl, habove⟩
  | second t t₁ xs h =>
    obtain ⟨hle, hxs⟩ := habove
    refine ⟨hsorted, torn_le hm hle, ?_⟩
    intro x hx
    exact (hxs x hx).trans (le_torn_iff.2 h)
  | send t x xs =>
    obtain ⟨hx, hxs⟩ := habove
    refine ⟨?_, ?_⟩
    · rw [List.pairwise_append]
      refine ⟨hsorted, List.pairwise_singleton _ _, ?_⟩
      intro y hy z hz
      rw [List.mem_singleton.1 hz]
      exact hxs y hy
    · intro y hy
      rcases List.mem_append.1 hy with hy | hy
      · exact (hxs y hy).trans hx
      · rw [List.mem_singleton.1 hy]
        exact hx
  | drop t x xs =>
    obtain ⟨hx, hxs⟩ := habove
    exact ⟨hsorted, fun y hy => (hxs y hy).trans hx⟩

/-- **A program whose steps are simulated sends stamps that never decrease.** -/
theorem sorted_of_run (hm : Monotone stamp) {σ ι : Type*} {step : σ → ι → σ → Prop}
    {R : σ → State T α β → Prop} {s₀ s : σ} {now : T} {as : List ι} (h0 : R s₀ ⟨now, .idle, []⟩)
    (hs : ∀ {s a s' t}, R s t → step s a s' →
      ∃ t', Relation.ReflTransGen (Step stamp) t t' ∧ R s' t')
    (hr : Lts.Run step s₀ as s) : ∃ t, R s t ∧ t.sent.Pairwise (· ≤ ·) := by
  obtain ⟨t, ht, hR⟩ := hr.simulate h0 hs
  refine ⟨t, hR, ?_⟩
  have hinv : Inv stamp t := by
    clear hR
    induction ht with
    | refl => exact ⟨List.Pairwise.nil, fun x hx => absurd hx List.not_mem_nil⟩
    | tail _ hstep ih => exact inv_step hm ih hstep
  exact hinv.sorted

end TornStamp
