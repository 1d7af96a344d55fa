import Aesd.Lib.Runs

/-!
# The periodic timer of `HW3/Related Files/first_kernel_module.c`

`hello_init` arms `period_timer`. The kernel disarms it when it fires and runs
`print_name_timer_fired`, which counts, prints, computes the next `expires` and arms the timer
again with `mod_timer`. `hello_exit` calls `del_timer`, which disarms an armed timer and does
not wait for a callback that is running.

So a callback that `del_timer` finds running arms the timer after it. From then on the timer
is armed or its callback is running, for ever (`busy_step`). `quiet_after_exit_iff`: the
module is left quiet exactly when no callback was running at `del_timer`.
-/

namespace Aesd.FirstKernelModule

/-- The statement of `print_name_timer_fired` to be executed next. -/
inductive CallbackPc
  | idle
  | count
  | print
  | expires
  | modTimer
deriving DecidableEq

/-- Where `hello_exit` stands. -/
inductive ExitPc
  | notCalled
  | print
  | delTimer
  | ret
  | returned
deriving DecidableEq

structure State where
  /-- `period_timer` is in the kernel's timer wheel -/
  armed : Bool
  expires : BitVec 64
  no_of_times_fired : BitVec 16
  callback : CallbackPc
  exit : ExitPc
  /-- the counts the callback has printed -/
  printed : List (BitVec 16)

/-- The kernel's clock conversion and the parameter of the module. -/
structure Env where
  msecsToJiffies : BitVec 32 → BitVec 64
  period : BitVec 64

/-- `jiffies + msecs_to_jiffies(period)`; the argument is an `unsigned int`. -/
def Env.nextExpiry (e : Env) (jiffies : BitVec 64) : BitVec 64 :=
  jiffies + e.msecsToJiffies (e.period.setWidth 32)

def helloInit (e : Env) (jiffies : BitVec 64) : State where
  armed := true
  expires := e.nextExpiry jiffies
  no_of_times_fired := 0
  callback := .idle
  exit := .notCalled
  printed := []

inductive Act
  /-- the kernel fires the timer -/
  | fire
  | count
  | print
  | expires (jiffies : BitVec 64)
  | modTimer
  /-- the module is unloaded -/
  | helloExit
  | bye
  | delTimer
  | ret
deriving DecidableEq

/-- One step of the callback, of `hello_exit` or of the kernel. When an armed timer fires is
left open. -/
def step (e : Env) (s : State) : Act → Option State
  | .fire =>
    if s.armed ∧ s.callback = .idle then some { s with armed := false, callback := .count }
    else none
  | .count =>
    if s.callback = .count then
      some { s with callback := .print, no_of_times_fired := s.no_of_times_fired + 1 }
    else none
  | .print =>
    if s.callback = .print then
      some { s with callback := .expires, printed := s.printed ++ [s.no_of_times_fired] }
    else none
  | .expires jiffies =>
    if s.callback = .expires then
      some { s with callback := .modTimer, expires := e.nextExpiry jiffies }
    else none
  | .modTimer =>
    if s.callback = .modTimer then some { s with callback := .idle, armed := true } else none
  | .helloExit => if s.exit = .notCalled then some { s with exit := .print } else none
  | .bye => if s.exit = .print then some { s with exit := .delTimer } else none
  | .delTimer => if s.exit = .delTimer then some { s with exit := .ret, armed := false } else none
  | .ret => if s.exit = .ret then some { s with exit := .returned } else none

/-- Nothing of the module is left to run. -/
def Quiet (s : State) : Prop := s.armed = false ∧ s.callback = .idle

/-- `del_timer` has been executed. -/
def Deleted (s : State) : Prop := s.exit = .ret ∨ s.exit = .returned

/-- `del_timer` has been executed, and something of the module is left to run. -/
def Busy (s : State) : Prop := Deleted s ∧ ¬ Quiet s

/-- `del_timer` finds no callback running. -/
def NotRunning (s : State) : Act → Prop
  | .delTimer => s.callback = .idle
  | _ => True

variable {e : Env} {s s' : State} {a : Act}

/-- **After `del_timer` each step is one of the callback**, and only `mod_timer` arms the
timer. -/
theorem step_deleted (hd : Deleted s) (hs : step e s a = some s') :
    Deleted s' ∧ (s'.armed = s.armed ∧ s'.callback = s.callback ∨
      s.armed = true ∧ s'.callback ≠ .idle ∨
      s.callback ≠ .idle ∧ (s'.callback ≠ .idle ∨ s'.armed = true)) := by
  unfold Deleted at hd ⊢
  cases a with
  | fire =>
    simp only [step, Option.ite_none_right_eq_some, Option.some.injEq] at hs
    obtain ⟨⟨harm, -⟩, rfl⟩ := hs
    simp [hd, harm]
  | count | print | expires _ | modTimer =>
    simp only [step, Option.ite_none_right_eq_some, Option.some.injEq] at hs
    obtain ⟨hc, rfl⟩ := hs
    simp [hd, hc]
  | helloExit | bye | delTimer =>
    -- these are over
    simp only [step, Option.ite_none_right_eq_some] at hs
    rcases hd with hd | hd <;> simp [hd] at hs
  | ret =>
    simp only [step, Option.ite_none_right_eq_some, Option.some.injEq] at hs
    obtain ⟨-, rfl⟩ := hs
    simp

/-- Once quiet, quiet for ever. -/
theorem quiet_step (h : Deleted s ∧ Quiet s) (hs : step e s a = some s') :
    Deleted s' ∧ Quiet s' := by
  obtain ⟨hd, harm, hidle⟩ := h
  obtain ⟨hd', ⟨h1, h2⟩ | ⟨h1, -⟩ | ⟨h1, -⟩⟩ := step_deleted hd hs
  · exact ⟨hd', h1.trans harm, h2.trans hidle⟩
  · simp [harm] at h1
  · exact absurd hidle h1

/-- Once busy, busy for ever. -/
theorem busy_step (h : Busy s) (hs : step e s a = some s') : Busy s' := by
  unfold Busy at h ⊢
  obtain ⟨hd, hq⟩ := h
  obtain ⟨hd', h⟩ := step_deleted hd hs
  refine ⟨hd', ?_⟩
  intro hq'
  obtain ⟨harm, hidle⟩ := hq'
  rcases h with ⟨h1, h2⟩ | ⟨-, h2⟩ | ⟨-, h2 | h2⟩
  · exact hq ⟨h1.symm.trans harm, h2.symm.trans hidle⟩
  · exact h2 hidle
  · exact h2 hidle
  · simp [harm] at h2

/-- `del_timer` disarms the timer and leaves the callback alone. -/
theorem step_delTimer (hs : step e s .delTimer = some s') :
    Deleted s' ∧ (Quiet s' ↔ s.callback = .idle) := by
  simp only [step, Option.ite_none_right_eq_some, Option.some.injEq] at hs
  obtain ⟨-, rfl⟩ := hs
  simp [Deleted, Quiet]

/-- Before `del_timer` a step other than it does not delete the timer. -/
theorem step_not_deleted (hd : ¬ Deleted s) (ha : a ≠ .delTimer) (hs : step e s a = some s') :
    ¬ Deleted s' := by
  unfold Deleted at hd ⊢
  cases a with
  | delTimer => exact absurd rfl ha
  | fire | count | print | expires _ | modTimer | helloExit | bye | ret =>
    simp only [step, Option.ite_none_right_eq_some, Option.some.injEq] at hs
    obtain ⟨h, rfl⟩ := hs
    simp_all

/-- In a run that keeps to the condition the deleted timer is quiet. -/
theorem quiet_of_notRunning {jiffies : BitVec 64} {as : List Act}
    (hr : Lts.Run (Lts.When NotRunning (Lts.Steps (step e))) (helloInit e jiffies) as s) :
    Deleted s → Quiet s := by
  refine hr.invariant (I := fun s => Deleted s → Quiet s) ?_ ?_
  · intro hd
    simp [Deleted, helloInit] at hd
  · intro s a s' ih hs hd'
    obtain ⟨hs, hc⟩ := hs
    by_cases hd : Deleted s
    · exact (quiet_step ⟨hd, ih hd⟩ hs).2
    · by_cases ha : a = .delTimer
      · subst ha
        exact (step_delTimer hs).2.2 hc
      · exact absurd hd' (step_not_deleted hd ha hs)

/-- **After `hello_exit` has returned**, in every run of the timer and the module's exit: the
timer is not armed and no callback is running exactly if none was running at `del_timer`. -/
theorem quiet_after_exit_iff (e : Env) (jiffies : BitVec 64) {as : List Act} {s : State}
    (hr : Lts.Run (Lts.Steps (step e)) (helloInit e jiffies) as s) (hx : s.exit = .returned) :
    s.armed = false ∧ s.callback = .idle ↔
      Lts.Run (Lts.When NotRunning (Lts.Steps (step e))) (helloInit e jiffies) as s := by
  constructor
  · intro hq
    have hor : Lts.Run (Lts.When NotRunning (Lts.Steps (step e))) (helloInit e jiffies) as s ∨
        Busy s := by
      apply hr.when_or
      · intro s a s' hs hc
        cases a with
        | delTimer =>
          obtain ⟨hd, hiff⟩ := step_delTimer hs
          exact ⟨hd, fun h => hc (hiff.1 h)⟩
        | fire | count | print | expires _ | modTimer | helloExit | bye | ret =>
          exact absurd trivial hc
      · intro s a s' h hs
        exact busy_step h hs
    exact hor.resolve_right fun h => h.2 hq
  · intro h
    exact quiet_of_notRunning h (.inr hx)

/-- A period of half a second with a jiffy of a millisecond. -/
def env : Env := ⟨fun m => m.setWidth 64, 500⟩

/-- The timer fires once before the module is unloaded. -/
def firedOnce : List Act :=
  [.fire, .count, .print, .expires 500, .modTimer, .helloExit, .bye, .delTimer, .ret]

theorem quiet_after_exit_firedOnce :
    ∃ s, Lts.exec (step env) (helloInit env 0) firedOnce = some s ∧
      (s.armed = false ∧ s.callback = .idle ↔
        Lts.Run (Lts.When NotRunning (Lts.Steps (step env))) (helloInit env 0) firedOnce s) := by
  refine ⟨_, rfl, ?_⟩
  exact quiet_after_exit_iff env 0 (Lts.exec_run (step env) firedOnce rfl) rfl

/-- `del_timer` between the start of the callback and its `mod_timer`. -/
def firedDuringExit : List Act :=
  [.helloExit, .bye, .fire, .delTimer, .ret, .count, .print, .expires 500, .modTimer]

/-- The timer is armed after the module is gone. -/
theorem armed_after_exit :
    ¬ ∀ (e : Env) (jiffies : BitVec 64) (as : List Act) (s : State),
      Lts.Run (Lts.Steps (step e)) (helloInit e jiffies) as s → s.exit = .returned →
        s.armed = false ∧ s.callback = .idle := by
  intro h
  have harm := (h env 0 firedDuringExit _ (Lts.exec_run (step env) firedDuringExit rfl) rfl).1
  simp at harm

end Aesd.FirstKernelModule
