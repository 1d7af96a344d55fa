import Aesd.Lib.Runs

/-!
# A shared stream handle

Several users open streams through one variable, which holds the stream opened last, and write
to and close whatever stream it holds. A stream that has been replaced is never reached again,
so the handle is open exactly when the last `opened`, `failed` or `closed` was an `opened`:
`isOpen_iff`. Writing or closing through a handle that is not open is misuse (`misused_apply`).
-/

namespace SharedHandle

inductive Event
  | opened
  /-- an open that fails clears the handle -/
  | failed
  | closed
  | used
deriving DecidableEq

structure State where
  handle : Option ℕ
  /-- which of the streams are open -/
  streams : List Bool
  misused : Bool

/-- The handle holds an open stream. -/
def State.isOpen (s : State) : Bool := (s.handle.bind fun k => s.streams[k]?).getD false

def State.apply (s : State) : Event → State
  | .opened => { s with handle := some s.streams.length, streams := s.streams ++ [true] }
  | .failed => { s with handle := none }
  | .closed =>
    { s with streams := match s.handle with
                        | none => s.streams
                        | some k => s.streams.set k false,
             misused := s.misused || !s.isOpen }
  | .used => { s with misused := s.misused || !s.isOpen }

/-- The event before which the handle has to be open. -/
def Event.Needs (e : Event) : Prop := e = .used ∨ e = .closed

/-- The last event that changes whether the handle is open. -/
def last (es : List Event) : Option Event := (es.filter fun e => e ≠ .used).getLast?

/-- The last attempt to open a stream. -/
def lastOpen (es : List Event) : Option Event :=
  (es.filter fun e => e = .opened ∨ e = .failed).getLast?

def start : State := ⟨none, [], false⟩

variable {s : State} {e : Event} {es : List Event}

theorem last_snoc (es : List Event) (e : Event) :
    last (es ++ [e]) = if e = .used then last es else some e := by
  unfold last
  rw [List.filter_append]
  by_cases h : e = .used
  · simp [h]
  · simp [h]

theorem lastOpen_snoc (es : List Event) (e : Event) :
    lastOpen (es ++ [e]) = if e = .opened ∨ e = .failed then some e else lastOpen es := by
  unfold lastOpen
  rw [List.filter_append]
  by_cases h : e = .opened ∨ e = .failed
  · simp [h]
  · simp [h]

/-- With nothing closed since, the last attempt to open decides. -/
theorem lastOpen_of_last (h : last es ≠ some .closed) : lastOpen es = last es := by
  induction es using List.reverseRecOn with
  | nil => rfl
  | append_singleton es e ih =>
    rw [last_snoc] at h ⊢
    rw [lastOpen_snoc]
    cases e with
    | opened | failed => rfl
    | closed => exact absurd rfl h
    | used => exact ih h

theorem isOpen_apply (s : State) (e : Event) :
    (s.apply e).isOpen = if e = .used then s.isOpen else decide (e = .opened) := by
  obtain ⟨handle, streams, misused⟩ := s
  unfold State.apply State.isOpen
  cases e with
  | opened | failed | used => simp
  | closed =>
    cases handle with
    | none => simp
    | some k => by_cases h : k < streams.length <;> simp [List.getElem?_set, h]

/-- **The handle is open** exactly when the last event other than a use was an open. -/
theorem isOpen_iff (hr : Lts.Run (fun s e s' => s' = State.apply s e) start es s) :
    s.isOpen = true ↔ last es = some .opened := by
  induction hr with
  | nil => exact iff_of_false Bool.false_ne_true (by simp [last])
  | @snoc es s s' e run next ih =>
    subst next
    rw [isOpen_apply, last_snoc]
    by_cases h : e = .used
    · rw [if_pos h, if_pos h]
      exact ih
    · rw [if_neg h, if_neg h]
      simp

/-- **Misuse** is an event that needs an open handle and does not find it. -/
theorem misused_apply (s : State) (e : Event) :
    (s.apply e).misused = false ↔ s.misused = false ∧ (e.Needs → s.isOpen = true) := by
  unfold State.apply Event.Needs
  cases e <;> simp

end SharedHandle
