import Aesd.Firmware.LoggerStruct
import Aesd.Lib.Runs

/-!
# The tasks of the board (`HW5/Related Files/freertos`)

`LEDTask`, `TemperatureTask` and `AlertTask` each wait for a flag that a timer callback sets,
clear it, fill in their `logger_struct` and put it in `loggerQueue`, which `LoggerTask` empties.
`PortEHandler` keeps in `edge` what it last read from the pin of the temperature signal.

Each task, and the port, is a component with its own statements; `step` runs one of them, a
callback or a queue operation. Statements of different tasks interleave in any order and the
timers fire at any time. `xQueueSend` puts the message in the queue while it has fewer than
`queueLength` messages, and may time out while it has that many.

Ghost state: what `strcpy` has written (`stored`), which toggles of the LED a message reports,
the tick at which a task took the seconds of its stamp, and the history of the queue.
-/

namespace Aesd.Firmware

open CString CRecord

/-! ### The LED task -/

/-- The statement to be executed next. -/
inductive LedPc
  | setup
  | test
  | timestamp
  | fill
  | clear
  | send
  | count
deriving DecidableEq

structure Led where
  pc : LedPc
  send_message : Bool
  /-- which of the two LEDs is on -/
  LEDState : Bool
  time : Timer
  count : BitVec (8 * 4)
  logStruct : LoggerStruct
  stored : List Stored
  /-- how often the LED has been toggled -/
  toggles : ℕ
  /-- the toggles since `send_message` was last cleared -/
  waiting : List ℕ
  /-- the toggles the message under way reports -/
  reporting : List ℕ

/-- Toggling comes second, but nothing runs in between. -/
def Led.timer1Callback (l : Led) : Led :=
  { l with send_message := true, LEDState := !l.LEDState, toggles := l.toggles + 1,
           waiting := l.waiting ++ [l.toggles + 1] }

inductive LedAct
  | setup
  /-- `if(send_message == true)`, with what was read -/
  | test (read : Bool)
  | timestamp
  | fill
  | clear
  | count
deriving DecidableEq

def Led.step (ticks : ℕ) (l : Led) : LedAct → Option Led
  | .setup =>
    if l.pc = .setup then
      some { l with pc := .test,
                    logStruct := name.store nachiket (source.store Task.led.tag l.logStruct),
                    stored := l.stored ++ source.stored Task.led.tag ++ name.stored nachiket }
    else none
  | .test read =>
    if l.pc = .test ∧ read = l.send_message then
      some { l with pc := if read then .timestamp else .test }
    else none
  | .timestamp =>
    if l.pc = .timestamp then
      some { l with pc := .fill, time := Firmware.timestamp (BitVec.ofNat 32 ticks) }
    else none
  | .fill =>
    if l.pc = .fill then
      some { l with pc := .clear,
                    logStruct := ((l.logStruct.setField timeStampsec 4 l.time.sec).setField
                      timeStampmsec 4 l.time.msec).setField toggleCount 4 l.count }
    else none
  | .clear =>
    if l.pc = .clear then
      some { l with pc := .send, send_message := false, reporting := l.waiting, waiting := [] }
    else none
  | .count => if l.pc = .count then some { l with pc := .test, count := l.count + 1 } else none

/-! ### The temperature task -/

inductive TemperaturePc
  | setup
  | test
  | clear
  | measure
  | sec
  | msec
  | send
deriving DecidableEq

structure Temperature where
  pc : TemperaturePc
  measureTemperature : Bool
  logStruct : LoggerStruct
  stored : List Stored
  /-- the tick at which the seconds were taken -/
  secTick : ℕ

def Temperature.timer2Callback (t : Temperature) : Temperature :=
  { t with measureTemperature := true }

inductive TemperatureAct
  | setup
  | test (read : Bool)
  | clear
  /-- the critical section, with the value the sensor gives -/
  | measure (value : BitVec (8 * 4))
  | sec
  | msec
deriving DecidableEq

def Temperature.step (ticks : ℕ) (t : Temperature) : TemperatureAct → Option Temperature
  | .setup =>
    if t.pc = .setup then
      some { t with pc := .test, logStruct := source.store Task.temperature.tag t.logStruct,
                    stored := t.stored ++ source.stored Task.temperature.tag }
    else none
  | .test read =>
    if t.pc = .test ∧ read = t.measureTemperature then
      some { t with pc := if read then .clear else .test }
    else none
  | .clear => if t.pc = .clear then some { t with pc := .measure, measureTemperature := false } else none
  | .measure value =>
    if t.pc = .measure then
      some { t with pc := .sec, logStruct := t.logStruct.setField temperature 4 value }
    else none
  | .sec =>
    if t.pc = .sec then
      some { t with pc := .msec, secTick := ticks,
                    logStruct := t.logStruct.setField timeStampsec 4
                      (timestamp (BitVec.ofNat 32 ticks)).sec }
    else none
  | .msec =>
    if t.pc = .msec then
      some { t with pc := .send,
                    logStruct := t.logStruct.setField timeStampmsec 4
                      (timestamp (BitVec.ofNat 32 ticks)).msec }
    else none

/-! ### The alert task -/

inductive AlertPc
  | enable
  | setup
  | testEdge
  | testFlag
  | clear
  | sec
  | msec
  | send
deriving DecidableEq

structure Alert where
  pc : AlertPc
  sendAlert : Bool
  logStruct : LoggerStruct
  stored : List Stored
  secTick : ℕ

def Alert.timer3Callback (a : Alert) : Alert := { a with sendAlert := true }

/-- `edge == 0x01 && sendAlert == true` reads two variables one after the other. -/
inductive AlertAct
  | setup
  | testEdge (read : Byte)
  | testFlag (read : Bool)
  | clear
  | sec
  | msec
deriving DecidableEq

def Alert.step (ticks : ℕ) (edge : Byte) (a : Alert) : AlertAct → Option Alert
  | .setup =>
    if a.pc = .setup then
      some { a with pc := .testEdge,
                    logStruct := message.store aboveThreshold (source.store Task.alert.tag a.logStruct),
                    stored := a.stored ++ source.stored Task.alert.tag ++ message.stored aboveThreshold }
    else none
  | .testEdge read =>
    if a.pc = .testEdge ∧ read = edge then
      some { a with pc := if read = 0x01 then .testFlag else .testEdge }
    else none
  | .testFlag read =>
    if a.pc = .testFlag ∧ read = a.sendAlert then
      some { a with pc := if read then .clear else .testEdge }
    else none
  | .clear => if a.pc = .clear then some { a with pc := .sec, sendAlert := false } else none
  | .sec =>
    if a.pc = .sec then
      some { a with pc := .msec, secTick := ticks,
                    logStruct := a.logStruct.setField timeStampsec 4
                      (timestamp (BitVec.ofNat 32 ticks)).sec }
    else none
  | .msec =>
    if a.pc = .msec then
      some { a with pc := .send,
                    logStruct := a.logStruct.setField timeStampmsec 4
                      (timestamp (BitVec.ofNat 32 ticks)).msec }
    else none

/-! ### Port E -/

/-- The statement of `PortEHandler` to be executed next, with `read_val`. -/
inductive HandlerPc
  | idle
  | read
  | set (read_val : BitVec 32)
deriving DecidableEq

structure PortE where
  /-- the level of pin 0 -/
  pin : Bool
  enabled : Bool
  pending : Bool
  handler : HandlerPc
  edge : Byte
  /-- the level when the interrupt was enabled -/
  atEnable : Bool
  /-- the level has changed since -/
  changed : Bool

def PortE.enable (p : PortE) : PortE := { p with enabled := true, atEnable := p.pin }

inductive PortAct
  /-- the level of the pin changes -/
  | change
  /-- the handler is entered and clears the interrupt -/
  | clear
  | read
  | set
deriving DecidableEq

/-- A change of level makes an enabled interrupt pending. -/
def PortE.step (p : PortE) : PortAct → Option PortE
  | .change =>
    some { p with pin := !p.pin, pending := p.pending || p.enabled, changed := p.changed || p.enabled }
  | .clear =>
    if p.pending ∧ p.handler = .idle then some { p with pending := false, handler := .read } else none
  | .read =>
    if p.handler = .read then some { p with handler := .set (if p.pin then 1 else 0) } else none
  | .set =>
    match p.handler with
    | .set read_val =>
      some { p with handler := .idle,
                    edge := if read_val = 0 then 0x01 else if read_val = 1 then 0x02 else p.edge }
    | _ => none

/-! ### The board -/

/-- A message in `loggerQueue`, with its sender and the toggles it reports. -/
structure Entry where
  sender : Task
  data : LoggerStruct
  reports : List ℕ

structure State where
  ticks : ℕ
  led : Led
  temperature : Temperature
  alert : Alert
  portE : PortE
  loggerQueue : List Entry
  /-- what `LoggerTask` has received and not printed yet -/
  data_received : Option Entry
  enqueued : List Entry
  /-- the messages `Logger_printf` has handled, with what it printed -/
  handled : List (Entry × Printed)

def queueLength : ℕ := 10

/-- Before the tasks run: the local structures are uninitialised, the pin has any level. -/
def start (d₁ d₂ d₃ : LoggerStruct) (pin : Bool) : State where
  ticks := 0
  led := ⟨.setup, false, true, ⟨0, 0⟩, 0, d₁, [], 0, [], []⟩
  temperature := ⟨.setup, false, d₂, [], 0⟩
  alert := ⟨.enable, false, d₃, [], 0⟩
  portE := ⟨pin, false, false, .idle, 0x00, false, false⟩
  loggerQueue := []
  data_received := none
  enqueued := []
  handled := []

namespace State

/-- The task stands at its `xQueueSend`. -/
def AtSend (s : State) : Task → Prop
  | .led => s.led.pc = .send
  | .temperature => s.temperature.pc = .send
  | .alert => s.alert.pc = .send

instance (s : State) : ∀ t, Decidable (s.AtSend t)
  | .led => inferInstanceAs (Decidable (s.led.pc = .send))
  | .temperature => inferInstanceAs (Decidable (s.temperature.pc = .send))
  | .alert => inferInstanceAs (Decidable (s.alert.pc = .send))

/-- The message the task sends. -/
def outgoing (s : State) : Task → Entry
  | .led => ⟨.led, s.led.logStruct, s.led.reporting⟩
  | .temperature => ⟨.temperature, s.temperature.logStruct, []⟩
  | .alert => ⟨.alert, s.alert.logStruct, []⟩

/-- The task goes on behind its `xQueueSend`, whose result it does not look at. -/
def afterSend (s : State) : Task → State
  | .led => { s with led := { s.led with pc := .count, reporting := [] } }
  | .temperature => { s with temperature := { s.temperature with pc := .test } }
  | .alert => { s with alert := { s.alert with pc := .testEdge } }

def enqueue (s : State) (e : Entry) : State :=
  { s with loggerQueue := s.loggerQueue ++ [e], enqueued := s.enqueued ++ [e] }

/-- The messages of a task, in the order it put them in the queue. -/
def messages (s : State) (t : Task) : List Entry := s.enqueued.filter fun e => e.sender = t

def xQueueSend (s : State) (t : Task) (passed : Bool) : Option State :=
  if s.AtSend t then
    if passed then
      if s.loggerQueue.length < queueLength then some ((s.enqueue (s.outgoing t)).afterSend t)
      else none
    else if queueLength ≤ s.loggerQueue.length then some (s.afterSend t)
    else none
  else none

end State

inductive Act
  | tick
  | timer1Callback
  | timer2Callback
  | timer3Callback
  | led (a : LedAct)
  | temperature (a : TemperatureAct)
  /-- `AlertTask` enables the interrupt of the pin -/
  | enable
  | alert (a : AlertAct)
  | send (t : Task) (passed : Bool)
  | portE (a : PortAct)
  | receive
  | printf
deriving DecidableEq

/-- The task whose flag, local variables or queue operation a step is about. -/
def Act.task : Act → Option Task
  | .timer1Callback | .led _ => some .led
  | .timer2Callback | .temperature _ => some .temperature
  | .timer3Callback | .enable | .alert _ => some .alert
  | .send t _ => some t
  | .tick | .portE _ | .receive | .printf => none

def step (s : State) : Act → Option State
  | .tick => some { s with ticks := s.ticks + 1 }
  | .timer1Callback => some { s with led := s.led.timer1Callback }
  | .timer2Callback => some { s with temperature := s.temperature.timer2Callback }
  | .timer3Callback => some { s with alert := s.alert.timer3Callback }
  | .led a => (s.led.step s.ticks a).map fun led => { s with led := led }
  | .temperature a =>
    (s.temperature.step s.ticks a).map fun temperature => { s with temperature := temperature }
  | .enable =>
    if s.alert.pc = .enable then
      some { s with alert := { s.alert with pc := .setup }, portE := s.portE.enable }
    else none
  | .alert a => (s.alert.step s.ticks s.portE.edge a).map fun alert => { s with alert := alert }
  | .send t passed => s.xQueueSend t passed
  | .portE a => (s.portE.step a).map fun portE => { s with portE := portE }
  | .receive =>
    match s.loggerQueue, s.data_received with
    | e :: rest, none => some { s with loggerQueue := rest, data_received := some e }
    | _, _ => none
  | .printf =>
    match s.data_received with
    | some e =>
      some { s with data_received := none, handled := s.handled ++ [(e, loggerPrintf e.data)] }
    | none => none

/-! ### What a statement of a task does -/

inductive Led.Effect (ticks : ℕ) (l : Led) : LedAct → Led → Prop
  | setup (h : l.pc = .setup) :
      Led.Effect ticks l .setup
        { l with pc := .test,
                 logStruct := name.store nachiket (source.store Task.led.tag l.logStruct),
                 stored := l.stored ++ source.stored Task.led.tag ++ name.stored nachiket }
  | test (read : Bool) (h : l.pc = .test) (hread : read = l.send_message) :
      Led.Effect ticks l (.test read) { l with pc := if read then .timestamp else .test }
  | timestamp (h : l.pc = .timestamp) :
      Led.Effect ticks l .timestamp
        { l with pc := .fill, time := Firmware.timestamp (BitVec.ofNat 32 ticks) }
  | fill (h : l.pc = .fill) :
      Led.Effect ticks l .fill
        { l with pc := .clear,
                 logStruct := ((l.logStruct.setField timeStampsec 4 l.time.sec).setField
                   timeStampmsec 4 l.time.msec).setField toggleCount 4 l.count }
  | clear (h : l.pc = .clear) :
      Led.Effect ticks l .clear
        { l with pc := .send, send_message := false, reporting := l.waiting, waiting := [] }
  | count (h : l.pc = .count) :
      Led.Effect ticks l .count { l with pc := .test, count := l.count + 1 }

inductive Temperature.Effect (ticks : ℕ) (t : Temperature) : TemperatureAct → Temperature → Prop
  | setup (h : t.pc = .setup) :
      Temperature.Effect ticks t .setup
        { t with pc := .test, logStruct := source.store Task.temperature.tag t.logStruct,
                 stored := t.stored ++ source.stored Task.temperature.tag }
  | test (read : Bool) (h : t.pc = .test) (hread : read = t.measureTemperature) :
      Temperature.Effect ticks t (.test read) { t with pc := if read then .clear else .test }
  | clear (h : t.pc = .clear) :
      Temperature.Effect ticks t .clear { t with pc := .measure, measureTemperature := false }
  | measure (value : BitVec (8 * 4)) (h : t.pc = .measure) :
      Temperature.Effect ticks t (.measure value)
        { t with pc := .sec, logStruct := t.logStruct.setField temperature 4 value }
  | sec (h : t.pc = .sec) :
      Temperature.Effect ticks t .sec
        { t with pc := .msec, secTick := ticks,
                 logStruct := t.logStruct.setField timeStampsec 4
                   (timestamp (BitVec.ofNat 32 ticks)).sec }
  | msec (h : t.pc = .msec) :
      Temperature.Effect ticks t .msec
        { t with pc := .send,
                 logStruct := t.logStruct.setField timeStampmsec 4
                   (timestamp (BitVec.ofNat 32 ticks)).msec }

inductive Alert.Effect (ticks : ℕ) (edge : Byte) (a : Alert) : AlertAct → Alert → Prop
  | setup (h : a.pc = .setup) :
      Alert.Effect ticks edge a .setup
        { a with pc := .testEdge,
                 logStruct := message.store aboveThreshold (source.store Task.alert.tag a.logStruct),
                 stored := a.stored ++ source.stored Task.alert.tag ++ message.stored aboveThreshold }
  | testEdge (h : a.pc = .testEdge) :
      Alert.Effect ticks edge a (.testEdge edge)
        { a with pc := if edge = 0x01 then .testFlag else .testEdge }
  | testFlag (read : Bool) (h : a.pc = .testFlag) (hread : read = a.sendAlert) :
      Alert.Effect ticks edge a (.testFlag read) { a with pc := if read then .clear else .testEdge }
  | clear (h : a.pc = .clear) :
      Alert.Effect ticks edge a .clear { a with pc := .sec, sendAlert := false }
  | sec (h : a.pc = .sec) :
      Alert.Effect ticks edge a .sec
        { a with pc := .msec, secTick := ticks,
                 logStruct := a.logStruct.setField timeStampsec 4
                   (timestamp (BitVec.ofNat 32 ticks)).sec }
  | msec (h : a.pc = .msec) :
      Alert.Effect ticks edge a .msec
        { a with pc := .send,
                 logStruct := a.logStruct.setField timeStampmsec 4
                   (timestamp (BitVec.ofNat 32 ticks)).msec }

theorem Led.effect {l l' : Led} {ticks : ℕ} {b : LedAct} (hs : l.step ticks b = some l') :
    l.Effect ticks b l' := by
  unfold Led.step at hs
  cases b with
  | setup | timestamp | fill | clear | count =>
    simp only [Option.ite_none_right_eq_some, Option.some.injEq] at hs
    obtain ⟨hpc, rfl⟩ := hs
    constructor
    exact hpc
  | test read =>
    simp only [Option.ite_none_right_eq_some, Option.some.injEq] at hs
    obtain ⟨⟨hpc, hread⟩, rfl⟩ := hs
    exact .test read hpc hread

theorem Temperature.effect {t t' : Temperature} {ticks : ℕ} {b : TemperatureAct}
    (hs : t.step ticks b = some t') : t.Effect ticks b t' := by
  unfold Temperature.step at hs
  cases b with
  | setup | clear | measure _ | sec | msec =>
    simp only [Option.ite_none_right_eq_some, Option.some.injEq] at hs
    obtain ⟨hpc, rfl⟩ := hs
    constructor
    exact hpc
  | test read =>
    simp only [Option.ite_none_right_eq_some, Option.some.injEq] at hs
    obtain ⟨⟨hpc, hread⟩, rfl⟩ := hs
    exact .test read hpc hread

theorem Alert.effect {x x' : Alert} {ticks : ℕ} {edge : Byte} {b : AlertAct}
    (hs : x.step ticks edge b = some x') : x.Effect ticks edge b x' := by
  unfold Alert.step at hs
  cases b with
  | setup | clear | sec | msec =>
    simp only [Option.ite_none_right_eq_some, Option.some.injEq] at hs
    obtain ⟨hpc, rfl⟩ := hs
    constructor
    exact hpc
  | testEdge read =>
    simp only [Option.ite_none_right_eq_some, Option.some.injEq] at hs
    obtain ⟨⟨hpc, rfl⟩, rfl⟩ := hs
    exact .testEdge hpc
  | testFlag read =>
    simp only [Option.ite_none_right_eq_some, Option.some.injEq] at hs
    obtain ⟨⟨hpc, hread⟩, rfl⟩ := hs
    exact .testFlag read hpc hread

/-! ### What a step does -/

/-- The effect of each step that is enabled. -/
inductive Effect (s : State) : Act → State → Prop
  | tick : Effect s .tick { s with ticks := s.ticks + 1 }
  | timer1Callback : Effect s .timer1Callback { s with led := s.led.timer1Callback }
  | timer2Callback :
      Effect s .timer2Callback { s with temperature := s.temperature.timer2Callback }
  | timer3Callback : Effect s .timer3Callback { s with alert := s.alert.timer3Callback }
  | led {b : LedAct} {l : Led} (h : s.led.step s.ticks b = some l) :
      Effect s (.led b) { s with led := l }
  | temperature {b : TemperatureAct} {t : Temperature}
      (h : s.temperature.step s.ticks b = some t) :
      Effect s (.temperature b) { s with temperature := t }
  | alert {b : AlertAct} {x : Alert} (h : s.alert.step s.ticks s.portE.edge b = some x) :
      Effect s (.alert b) { s with alert := x }
  | enable (h : s.alert.pc = .enable) :
      Effect s .enable { s with alert := { s.alert with pc := .setup }, portE := s.portE.enable }
  | sent (t : Task) (h : s.AtSend t) (hlt : s.loggerQueue.length < queueLength) :
      Effect s (.send t true) ((s.enqueue (s.outgoing t)).afterSend t)
  | timedOut (t : Task) (h : s.AtSend t) : Effect s (.send t false) (s.afterSend t)
  | portE {b : PortAct} {p : PortE} (h : s.portE.step b = some p) :
      Effect s (.portE b) { s with portE := p }
  | receive {e : Entry} {rest : List Entry} (hq : s.loggerQueue = e :: rest)
      (hd : s.data_received = none) :
      Effect s .receive { s with loggerQueue := rest, data_received := some e }
  | printf {e : Entry} (hd : s.data_received = some e) :
      Effect s .printf
        { s with data_received := none, handled := s.handled ++ [(e, loggerPrintf e.data)] }

variable {s s' : State} {a : Act} {t : Task}

theorem effect (hs : step s a = some s') : Effect s a s' := by
  cases a with
  | tick | timer1Callback | timer2Callback | timer3Callback =>
    simp only [step, Option.some.injEq] at hs
    subst hs
    constructor
  | led b | temperature b | alert b | portE b =>
    obtain ⟨x, hx, rfl⟩ := Option.map_eq_some_iff.1 hs
    constructor
    exact hx
  | enable =>
    simp only [step, Option.ite_none_right_eq_some, Option.some.injEq] at hs
    obtain ⟨hpc, rfl⟩ := hs
    exact .enable hpc
  | send t passed =>
    unfold step State.xQueueSend at hs
    cases passed with
    | true =>
      simp only [if_true, Option.ite_none_right_eq_some, Option.some.injEq] at hs
      obtain ⟨hat, hlt, rfl⟩ := hs
      exact .sent t hat hlt
    | false =>
      simp only [Bool.false_eq_true, if_false, Option.ite_none_right_eq_some,
        Option.some.injEq] at hs
      obtain ⟨hat, -, rfl⟩ := hs
      exact .timedOut t hat
  | receive =>
    simp only [step] at hs
    split at hs
    · rename_i e rest hq hd
      obtain rfl := Option.some.inj hs
      exact .receive hq hd
    · simp at hs
  | printf =>
    simp only [step] at hs
    split at hs
    · rename_i e hd
      obtain rfl := Option.some.inj hs
      exact .printf hd
    · simp at hs

/-! ### What a step does to each component -/

theorem step_led (hs : step s a = some s') :
    a.task ≠ some .led ∧ s'.led = s.led ∨
      a = .timer1Callback ∧ s'.led = s.led.timer1Callback ∨
      (∃ b, a = .led b ∧ s.led.step s.ticks b = some s'.led) ∨
      ∃ passed, a = .send .led passed ∧ s.led.pc = .send ∧
        s'.led = { s.led with pc := .count, reporting := [] } := by
  cases effect hs with
  | timer1Callback => exact .inr (.inl ⟨rfl, rfl⟩)
  | led h => exact .inr (.inr (.inl ⟨_, rfl, h⟩))
  | sent t h | timedOut t h =>
    cases t with
    | led => exact .inr (.inr (.inr ⟨_, rfl, h, rfl⟩))
    | temperature | alert => exact .inl ⟨by simp [Act.task], rfl⟩
  | _ => exact .inl ⟨by simp [Act.task], rfl⟩

theorem step_temperature (hs : step s a = some s') :
    a.task ≠ some .temperature ∧ s'.temperature = s.temperature ∨
      a = .timer2Callback ∧ s'.temperature = s.temperature.timer2Callback ∨
      (∃ b, a = .temperature b ∧ s.temperature.step s.ticks b = some s'.temperature) ∨
      ∃ passed, a = .send .temperature passed ∧ s.temperature.pc = .send ∧
        s'.temperature = { s.temperature with pc := .test } := by
  cases effect hs with
  | timer2Callback => exact .inr (.inl ⟨rfl, rfl⟩)
  | temperature h => exact .inr (.inr (.inl ⟨_, rfl, h⟩))
  | sent t h | timedOut t h =>
    cases t with
    | temperature => exact .inr (.inr (.inr ⟨_, rfl, h, rfl⟩))
    | led | alert => exact .inl ⟨by simp [Act.task], rfl⟩
  | _ => exact .inl ⟨by simp [Act.task], rfl⟩

theorem step_alert (hs : step s a = some s') :
    a.task ≠ some .alert ∧ s'.alert = s.alert ∨
      a = .timer3Callback ∧ s'.alert = s.alert.timer3Callback ∨
      (a = .enable ∧ s.alert.pc = .enable ∧ s'.alert = { s.alert with pc := .setup }) ∨
      (∃ b, a = .alert b ∧ s.alert.step s.ticks s.portE.edge b = some s'.alert) ∨
      ∃ passed, a = .send .alert passed ∧ s.alert.pc = .send ∧
        s'.alert = { s.alert with pc := .testEdge } := by
  cases effect hs with
  | timer3Callback => exact .inr (.inl ⟨rfl, rfl⟩)
  | enable h => exact .inr (.inr (.inl ⟨rfl, h, rfl⟩))
  | alert h => exact .inr (.inr (.inr (.inl ⟨_, rfl, h⟩)))
  | sent t h | timedOut t h =>
    cases t with
    | alert => exact .inr (.inr (.inr (.inr ⟨_, rfl, h, rfl⟩)))
    | led | temperature => exact .inl ⟨by simp [Act.task], rfl⟩
  | _ => exact .inl ⟨by simp [Act.task], rfl⟩

theorem step_portE (hs : step s a = some s') :
    s'.portE = s.portE ∨
      a = .enable ∧ s.alert.pc = .enable ∧ s'.portE = s.portE.enable ∨
      ∃ b, a = .portE b ∧ s.portE.step b = some s'.portE := by
  cases effect hs with
  | enable h => exact .inr (.inl ⟨rfl, h, rfl⟩)
  | portE h => exact .inr (.inr ⟨_, rfl, h⟩)
  | sent t | timedOut t => cases t <;> exact .inl rfl
  | _ => exact .inl rfl

/-- What a step adds to the history of the queue. -/
theorem step_enqueued (hs : step s a = some s') :
    (∀ t, a ≠ .send t true) ∧ s'.enqueued = s.enqueued ∨
      ∃ t, a = .send t true ∧ s'.enqueued = s.enqueued ++ [s.outgoing t] := by
  cases effect hs with
  | sent t => cases t <;> exact .inr ⟨_, rfl, rfl⟩
  | timedOut t => cases t <;> exact .inl ⟨by simp, rfl⟩
  | _ => exact .inl ⟨by simp, rfl⟩

theorem sender_outgoing (s : State) (t : Task) : (s.outgoing t).sender = t := by
  cases t <;> rfl

theorem step_messages (hs : step s a = some s') (t : Task) :
    a ≠ .send t true ∧ s'.messages t = s.messages t ∨
      a = .send t true ∧ s'.messages t = s.messages t ++ [s.outgoing t] := by
  unfold State.messages
  rcases step_enqueued hs with ⟨hne, h⟩ | ⟨t', rfl, h⟩
  · rw [h]
    exact .inl ⟨hne t, rfl⟩
  · rw [h, List.filter_append]
    by_cases ht : t' = t
    · subst ht
      exact .inr ⟨rfl, by simp [sender_outgoing]⟩
    · exact .inl ⟨by simp [ht], by simp [sender_outgoing, ht]⟩

theorem step_ticks (hs : step s a = some s') :
    a = .tick ∧ s'.ticks = s.ticks + 1 ∨ a ≠ .tick ∧ s'.ticks = s.ticks := by
  cases effect hs with
  | tick => exact .inl ⟨rfl, rfl⟩
  | sent t | timedOut t => cases t <;> exact .inr ⟨by simp, rfl⟩
  | _ => exact .inr ⟨by simp, rfl⟩

end Aesd.Firmware
