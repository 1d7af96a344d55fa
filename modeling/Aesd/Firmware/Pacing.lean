import Aesd.Firmware.Tasks
import Aesd.Lib.Latch

/-!
# Messages and timer callbacks

Each of `LEDTask`, `TemperatureTask` and `AlertTask` takes up the flag of its own timer the
way of a `Latch`: `view` is the latch of a task, `Act.event` the event a step is for it. The
flag is cleared before the message is filled in and sent, so a callback that runs in between
starts the next message at once.

* `messages_paced`: a callback between the clearings for two successive messages, no more
  messages than callbacks, and alerts only when `edge` was read as 0x01.
* `sends_without_callback`: two messages sent with no callback between the sends.
-/

namespace Aesd.Firmware

open CString

/-- The callback of the task's own timer. -/
def Task.callback : Task → Act
  | .led => .timer1Callback
  | .temperature => .timer2Callback
  | .alert => .timer3Callback

/-- The statement that clears the task's flag. -/
def Task.clearing : Task → Act
  | .led => .led .clear
  | .temperature => .temperature .clear
  | .alert => .alert .clear

/-- The statement that reads the task's flag as `true`. -/
def Task.seeing : Task → Act
  | .led => .led (.test true)
  | .temperature => .temperature (.test true)
  | .alert => .alert (.testFlag true)

/-- What a step is for the latch of a task. -/
def Act.event (t : Task) (a : Act) : Option Latch.Event :=
  if a = t.callback then some .set
  else if a = t.seeing then some .see
  else if a = t.clearing then some .clear
  else if a = .send t true then some (.send true)
  else if a = .send t false then some (.send false)
  else none

def LedPc.latch : LedPc → Latch.Pc
  | .setup | .test | .count => .watch
  | .timestamp | .fill | .clear => .seen
  | .send => .taken

def TemperaturePc.latch : TemperaturePc → Latch.Pc
  | .setup | .test => .watch
  | .clear => .seen
  | .measure | .sec | .msec | .send => .taken

def AlertPc.latch : AlertPc → Latch.Pc
  | .enable | .setup | .testEdge | .testFlag => .watch
  | .clear => .seen
  | .sec | .msec | .send => .taken

def Led.latch (l : Led) : Latch.State := ⟨l.send_message, l.pc.latch⟩

def Temperature.latch (t : Temperature) : Latch.State := ⟨t.measureTemperature, t.pc.latch⟩

def Alert.latch (x : Alert) : Latch.State := ⟨x.sendAlert, x.pc.latch⟩

/-- The latch of a task. -/
def view : Task → State → Latch.State
  | .led, s => s.led.latch
  | .temperature, s => s.temperature.latch
  | .alert, s => s.alert.latch

variable {s s' : State} {a : Act} {t : Task}

theorem event_callback (t : Task) : t.callback.event t = some .set := by
  cases t <;> decide

theorem event_send (t : Task) (passed : Bool) :
    (Act.send t passed).event t = some (.send passed) := by
  cases t <;> cases passed <;> decide

/-- A step that is no task's own is nothing for its latch. -/
theorem event_other (h : a.task ≠ some t) : a.event t = none := by
  unfold Act.event
  cases t <;> cases a <;> simp_all [Act.task, Task.callback, Task.seeing, Task.clearing]

theorem event_eq_set {b : Act} (h : b.event t = some .set) : b = t.callback := by
  unfold Act.event at h
  split_ifs at h with h1 <;> simp_all

theorem event_eq_send {b : Act} {p : Bool} (h : b.event t = some (.send p)) : b = .send t p := by
  unfold Act.event at h
  split_ifs at h with h1 h2 h3 h4 h5 <;> simp_all

/-! ### The statements of the tasks -/

theorem led_latch {l l' : Led} {ticks : ℕ} {b : LedAct} (hs : l.step ticks b = some l') :
    (Act.led b).event .led = none ∧ l'.latch = l.latch ∨
      ∃ e, (Act.led b).event .led = some e ∧ Latch.step l.latch e = some l'.latch := by
  unfold Led.latch
  cases Led.effect hs with
  | setup hpc | timestamp hpc | fill hpc | count hpc =>
    exact .inl ⟨rfl, by simp [hpc, LedPc.latch]⟩
  | test read hpc hread =>
    cases read with
    | true => exact .inr ⟨.see, rfl, by simp [hpc, ← hread, LedPc.latch, Latch.step]⟩
    | false => exact .inl ⟨rfl, by simp [hpc, LedPc.latch]⟩
  | clear hpc => exact .inr ⟨.clear, rfl, by simp [hpc, LedPc.latch, Latch.step]⟩

theorem temperature_latch {t t' : Temperature} {ticks : ℕ} {b : TemperatureAct}
    (hs : t.step ticks b = some t') :
    (Act.temperature b).event .temperature = none ∧ t'.latch = t.latch ∨
      ∃ e, (Act.temperature b).event .temperature = some e ∧
        Latch.step t.latch e = some t'.latch := by
  unfold Temperature.latch
  cases Temperature.effect hs with
  | setup hpc | measure _ hpc | sec hpc | msec hpc =>
    exact .inl ⟨rfl, by simp [hpc, TemperaturePc.latch]⟩
  | test read hpc hread =>
    cases read with
    | true => exact .inr ⟨.see, rfl, by simp [hpc, ← hread, TemperaturePc.latch, Latch.step]⟩
    | false => exact .inl ⟨rfl, by simp [hpc, TemperaturePc.latch]⟩
  | clear hpc => exact .inr ⟨.clear, rfl, by simp [hpc, TemperaturePc.latch, Latch.step]⟩

theorem alert_latch {x x' : Alert} {ticks : ℕ} {edge : Byte} {b : AlertAct}
    (hs : x.step ticks edge b = some x') :
    (Act.alert b).event .alert = none ∧ x'.latch = x.latch ∨
      ∃ e, (Act.alert b).event .alert = some e ∧ Latch.step x.latch e = some x'.latch := by
  unfold Alert.latch
  cases Alert.effect hs with
  | setup hpc | sec hpc | msec hpc => exact .inl ⟨rfl, by simp [hpc, AlertPc.latch]⟩
  | testEdge hpc =>
    refine .inl ⟨by simp [Act.event, Task.callback, Task.seeing, Task.clearing], ?_⟩
    simp only [hpc]
    split <;> rfl
  | testFlag read hpc hread =>
    cases read with
    | true => exact .inr ⟨.see, rfl, by simp [hpc, ← hread, AlertPc.latch, Latch.step]⟩
    | false => exact .inl ⟨rfl, by simp [hpc, AlertPc.latch]⟩
  | clear hpc => exact .inr ⟨.clear, rfl, by simp [hpc, AlertPc.latch, Latch.step]⟩

theorem view_led (hs : step s a = some s') :
    a.event .led = none ∧ s'.led.latch = s.led.latch ∨
      ∃ e, a.event .led = some e ∧ Latch.step s.led.latch e = some s'.led.latch := by
  rcases step_led hs with ⟨hne, h⟩ | ⟨rfl, h⟩ | ⟨b, rfl, h⟩ | ⟨passed, rfl, hpc, h⟩
  · exact .inl ⟨event_other hne, by rw [h]⟩
  · refine .inr ⟨.set, event_callback .led, ?_⟩
    simp [Led.latch, h, Latch.step, Led.timer1Callback]
  · exact led_latch h
  · refine .inr ⟨.send passed, event_send .led passed, ?_⟩
    simp [Led.latch, h, hpc, LedPc.latch, Latch.step]

theorem view_temperature (hs : step s a = some s') :
    a.event .temperature = none ∧ s'.temperature.latch = s.temperature.latch ∨
      ∃ e, a.event .temperature = some e ∧
        Latch.step s.temperature.latch e = some s'.temperature.latch := by
  rcases step_temperature hs with ⟨hne, h⟩ | ⟨rfl, h⟩ | ⟨b, rfl, h⟩ | ⟨passed, rfl, hpc, h⟩
  · exact .inl ⟨event_other hne, by rw [h]⟩
  · refine .inr ⟨.set, event_callback .temperature, ?_⟩
    simp [Temperature.latch, h, Latch.step, Temperature.timer2Callback]
  · exact temperature_latch h
  · refine .inr ⟨.send passed, event_send .temperature passed, ?_⟩
    simp [Temperature.latch, h, hpc, TemperaturePc.latch, Latch.step]

theorem view_alert (hs : step s a = some s') :
    a.event .alert = none ∧ s'.alert.latch = s.alert.latch ∨
      ∃ e, a.event .alert = some e ∧ Latch.step s.alert.latch e = some s'.alert.latch := by
  rcases step_alert hs with ⟨hne, h⟩ | ⟨rfl, h⟩ | ⟨rfl, hpc, h⟩ | ⟨b, rfl, h⟩ | ⟨passed, rfl, hpc, h⟩
  · exact .inl ⟨event_other hne, by rw [h]⟩
  · refine .inr ⟨.set, event_callback .alert, ?_⟩
    simp [Alert.latch, h, Latch.step, Alert.timer3Callback]
  · exact .inl ⟨rfl, by simp [Alert.latch, h, hpc, AlertPc.latch]⟩
  · exact alert_latch h
  · refine .inr ⟨.send passed, event_send .alert passed, ?_⟩
    simp [Alert.latch, h, hpc, AlertPc.latch, Latch.step]

/-- **Each task takes up its flag the way of a latch.** -/
theorem view_step (t : Task) (hs : step s a = some s') :
    a.event t = none ∧ view t s' = view t s ∨
      ∃ e, a.event t = some e ∧ Latch.step (view t s) e = some (view t s') := by
  cases t with
  | led => exact view_led hs
  | temperature => exact view_temperature hs
  | alert => exact view_alert hs

theorem view_start (d₁ d₂ d₃ : LoggerStruct) (pin : Bool) (t : Task) :
    view t (start d₁ d₂ d₃ pin) = Latch.start := by
  cases t <;> rfl

/-- A run as the latch of a task sees it. -/
theorem view_run {d₁ d₂ d₃ : LoggerStruct} {pin : Bool} {as : List Act}
    (hr : Lts.Run (Lts.Steps step) (start d₁ d₂ d₃ pin) as s) (t : Task) :
    Lts.Run (Lts.Steps Latch.step) Latch.start (as.filterMap (Act.event t)) (view t s) := by
  have h : Lts.Run (Lts.Steps Latch.step) _ _ _ :=
    hr.project (Act.event t) (view t) fun hs => view_step t hs
  rwa [view_start] at h

theorem count_event (t : Task) (b : Act) (e : Latch.Event) (hb : ∀ a : Act, a.event t = some e ↔ a = b)
    (as : List Act) : (as.filterMap (Act.event t)).count e = as.count b := by
  induction as with
  | nil => rfl
  | cons a as ih =>
    by_cases ha : a = b
    · rw [List.filterMap_cons_some ((hb a).2 ha), List.count_cons, List.count_cons, ih]
      simp [ha]
    · have hne : a.event t ≠ some e := fun h => ha ((hb a).1 h)
      cases hf : a.event t with
      | none =>
        rw [List.filterMap_cons_none hf, ih, List.count_cons]
        simp [ha]
      | some e' =>
        rw [List.filterMap_cons_some hf, List.count_cons, ih, List.count_cons]
        rw [hf] at hne
        simp_all

/-! ### The reading of `edge` -/

/-- `AlertTask` is in an iteration that has read `edge` as 0x01. -/
def AlertPc.Alarmed : AlertPc → Prop
  | .testFlag | .clear | .sec | .msec | .send => True
  | .enable | .setup | .testEdge => False

/-- The last reading of `edge` in a run was 0x01. -/
def ReadOne (as : List Act) : Prop :=
  ∃ xs ys, as = xs ++ .alert (.testEdge 0x01) :: ys ∧ ∀ v, .alert (.testEdge v) ∉ ys

theorem ReadOne.snoc {as : List Act} (h : ReadOne as) (ha : ∀ v, a ≠ .alert (.testEdge v)) :
    ReadOne (as ++ [a]) := by
  obtain ⟨xs, ys, rfl, hys⟩ := h
  refine ⟨xs, ys ++ [a], by simp, ?_⟩
  intro v hv
  rcases List.mem_append.1 hv with hv | hv
  · exact hys v hv
  · exact ha v (List.mem_singleton.1 hv).symm

/-- An iteration goes on after `edge` has been read as 0x01. -/
theorem alarmed_step {x x' : Alert} {ticks : ℕ} {edge : Byte} {b : AlertAct}
    (hs : x.step ticks edge b = some x') (h : x'.pc.Alarmed) :
    b = .testEdge 0x01 ∧ edge = 0x01 ∨ (∀ v, b ≠ .testEdge v) ∧ x.pc.Alarmed := by
  cases Alert.effect hs with
  | testEdge hpc =>
    by_cases hedge : edge = 0x01
    · exact .inl ⟨by rw [hedge], hedge⟩
    · simp only [if_neg hedge] at h
      exact h.elim
  | testFlag read hpc _ | clear hpc | sec hpc | msec hpc =>
    exact .inr ⟨by simp, by simp [hpc, AlertPc.Alarmed]⟩
  | setup hpc => exact h.elim

theorem readOne_of_alarmed {d₁ d₂ d₃ : LoggerStruct} {pin : Bool} {as : List Act}
    (hr : Lts.Run (Lts.Steps step) (start d₁ d₂ d₃ pin) as s) :
    s.alert.pc.Alarmed → ReadOne as := by
  induction hr with
  | nil => exact False.elim
  | @snoc as s s' a _ next ih =>
    intro hpc
    rcases step_alert next with ⟨hne, h⟩ | ⟨rfl, h⟩ | ⟨-, -, h⟩ | ⟨b, rfl, h⟩ | ⟨passed, -, -, h⟩
    · rw [h] at hpc
      exact (ih hpc).snoc fun v hv => hne (by rw [hv]; rfl)
    · rw [h] at hpc
      exact (ih hpc).snoc (by simp)
    · rw [h] at hpc
      exact hpc.elim
    · rcases alarmed_step h hpc with ⟨rfl, -⟩ | ⟨hb, hal⟩
      · exact ⟨as, [], rfl, fun v => List.not_mem_nil⟩
      · exact (ih hal).snoc (by simpa using hb)
    · rw [h] at hpc
      exact hpc.elim

/-! ### The pace of the messages -/

/-- **Messages keep pace with the timers**, in every run of the board. Each message of a task
has its own clearing of the flag, between the clearings for two successive messages its
timer's callback has run, each alert is sent after `edge` was last read as 0x01, and no task
has sent more messages than its timer has fired. -/
theorem messages_paced (d₁ d₂ d₃ : LoggerStruct) (pin : Bool) {as : List Act} {s : State}
    (hr : Lts.Run (Lts.Steps step) (start d₁ d₂ d₃ pin) as s) :
    (∀ (t : Task) (us ws zs : List Latch.Event) (p q : Bool),
      as.filterMap (Act.event t) = us ++ .send p :: ws ++ .send q :: zs →
      ∃ us' vs ws' ws'', us = us' ++ .clear :: vs ∧ .clear ∉ vs ∧ ws = ws' ++ .clear :: ws'' ∧
        .clear ∉ ws'' ∧ .set ∈ vs ++ ws') ∧
    (∀ (xs zs : List Act) (p : Bool), as = xs ++ .send .alert p :: zs → ReadOne xs) ∧
    ∀ t : Task, as.count (.send t true) ≤ as.count t.callback := by
  refine ⟨?_, ?_, ?_⟩
  · intro t us ws zs p q he
    have h := view_run hr t
    rw [he] at h
    exact Latch.set_between h
  · intro xs zs p he
    subst he
    obtain ⟨m, h1, h2⟩ := hr.split
    obtain ⟨m', hsend, -⟩ := h2.cons_inv
    refine readOne_of_alarmed h1 ?_
    -- the task stands at its send
    rcases step_alert hsend with ⟨hne, -⟩ | ⟨he, -⟩ | ⟨he, -⟩ | ⟨b, he, -⟩ | ⟨passed, -, hpc, -⟩
    · exact absurd rfl hne
    · exact Act.noConfusion he
    · exact Act.noConfusion he
    · exact Act.noConfusion he
    · simp [hpc, AlertPc.Alarmed]
  · intro t
    have h := Latch.count_send_le (view_run hr t) true
    rwa [count_event t (.send t true) _ fun a => ⟨event_eq_send, fun ha => ha ▸ event_send t true⟩,
      count_event t t.callback _ fun a => ⟨event_eq_set, fun ha => ha ▸ event_callback t⟩] at h

/-- The temperature task sends two messages; the second callback comes before the first is
sent. -/
def twoMessages : List Act :=
  [.temperature .setup, .timer2Callback, .temperature (.test true), .temperature .clear,
    .timer2Callback, .temperature (.measure 0), .temperature .sec, .temperature .msec,
    .send .temperature true, .temperature (.test true), .temperature .clear,
    .temperature (.measure 0), .temperature .sec, .temperature .msec, .send .temperature true]

theorem messages_paced_twoMessages :
    ∃ s, Lts.exec step (start .zero .zero .zero true) twoMessages = some s ∧
      (∀ (t : Task) (us ws zs : List Latch.Event) (p q : Bool),
        twoMessages.filterMap (Act.event t) = us ++ .send p :: ws ++ .send q :: zs →
        ∃ us' vs ws' ws'', us = us' ++ .clear :: vs ∧ .clear ∉ vs ∧ ws = ws' ++ .clear :: ws'' ∧
          .clear ∉ ws'' ∧ .set ∈ vs ++ ws') ∧
      ∀ t : Task, twoMessages.count (.send t true) ≤ twoMessages.count t.callback := by
  refine ⟨_, rfl, ?_⟩
  have h := messages_paced .zero .zero .zero true (Lts.exec_run step twoMessages rfl)
  exact ⟨h.1, h.2.2⟩

/-- No callback runs between the two sends of that run. -/
theorem sends_without_callback :
    ¬ ∀ (d₁ d₂ d₃ : LoggerStruct) (pin : Bool) (as : List Act) (s : State),
      Lts.Run (Lts.Steps step) (start d₁ d₂ d₃ pin) as s →
        ∀ (t : Task) (us ws zs : List Act),
          as = us ++ .send t true :: ws ++ .send t true :: zs → t.callback ∈ ws := by
  intro h
  have hmem := h .zero .zero .zero true twoMessages _ (Lts.exec_run step twoMessages rfl)
    .temperature (twoMessages.take 8) ((twoMessages.drop 9).take 5) [] rfl
  revert hmem
  decide

end Aesd.Firmware
