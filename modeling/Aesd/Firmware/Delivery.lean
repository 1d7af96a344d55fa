import Aesd.Firmware.Tasks

/-!
# From the tasks to `Logger_printf`

The queue hands on what the tasks put in: `Logger_printf` handles the messages in the order in
which they were enqueued and takes the branch of the task that sent each (`Handled`).

The strings in the messages do not all fit. `temperature` needs 12 bytes of `source[10]`, and
`Temperature is above threshold` 31 of `message[30]`; what is too much lands in the padding
behind the arrays, where `strcmp` and `%s` still find it. `delivery_iff`: every string is inside
its array exactly as long as neither `TemperatureTask` nor `AlertTask` has stored its own.
-/

namespace Aesd.Firmware

open CString CRecord

/-- What the logger is for. -/
structure Handled (s : State) : Prop where
  in_order : s.handled.map Prod.fst <+: s.enqueued
  of_task : ∀ t : Task,
    (s.handled.map Prod.fst).filter (fun e => e.sender = t) <+: s.messages t
  branch : ∀ x ∈ s.handled, x.2 = loggerPrintf x.1.data ∧ x.2.line.task = some x.1.sender

/-- The string with this byte ends inside its array. -/
def Stored.Ends (x : Stored) (r : LoggerStruct) : Prop :=
  (0 : Byte) ∈ r.slice x.array.offset x.array.room

/-- Every string a task has stored is in its array, with its NUL. -/
structure StringsInside (s : State) : Prop where
  inside : ∀ x ∈ s.led.stored ++ s.temperature.stored ++ s.alert.stored, x.Inside
  led : ∀ x ∈ s.led.stored, x.Ends s.led.logStruct
  temperature : ∀ x ∈ s.temperature.stored, x.Ends s.temperature.logStruct
  alert : ∀ x ∈ s.alert.stored, x.Ends s.alert.logStruct

/-- Neither of the two tasks stores its strings in this step. -/
def NoLongText (_ : State) (a : Act) : Prop := a ≠ .temperature .setup ∧ a ≠ .alert .setup

variable {s s' : State} {a : Act}

/-! ### The strings of each task -/

/-- The words are behind a source of less than 12 bytes. -/
theorem text_word {r : LoggerStruct} {o : ℕ} {ct : List Byte} (h : r.text 0 = ct)
    (hct : ct.length < 12) (ho : 12 ≤ o) (ho' : o + 4 ≤ 80) (v : BitVec (8 * 4)) :
    (r.setField o 4 v).text 0 = ct := by
  have hbefore : 0 + (r.text 0).length < o := by
    rw [h]
    omega
  rw [text_setField ho' v (.inl hbefore), h]

/-- The words are before the name. -/
theorem name_word {r : LoggerStruct} {o : ℕ} {ct : List Byte} (h : r.text 28 = ct)
    (ho : o + 4 ≤ 28) (v : BitVec (8 * 4)) : (r.setField o 4 v).text 28 = ct := by
  rw [text_setField (by omega) v (.inr ho), h]

/-- What the LED task has stored. -/
def LedStrings (l : Led) : Prop :=
  l.pc = .setup ∧ l.stored = [] ∨
    l.pc ≠ .setup ∧ l.stored = source.stored Task.led.tag ++ name.stored nachiket ∧
      l.logStruct.text 0 = Task.led.tag ∧ l.logStruct.text 28 = nachiket

theorem ledStrings_step {l l' : Led} {ticks : ℕ} {b : LedAct} (h : LedStrings l)
    (hs : l.step ticks b = some l') : LedStrings l' := by
  cases Led.effect hs with
  | setup hpc =>
    rcases h with ⟨-, hst⟩ | ⟨hne, -⟩
    · refine .inr ⟨by simp, by simp [hst], ?_, text_store (by decide) (by decide) _⟩
      have hsrc : (source.store Task.led.tag l.logStruct).text 0 = Task.led.tag :=
        text_store (by decide) (by decide) _
      rw [text_store_behind (by decide) (by rw [hsrc]; decide), hsrc]
    · exact absurd hpc hne
  | timestamp hpc | clear hpc | count hpc =>
    rcases h with ⟨hpc', -⟩ | ⟨-, h⟩
    · simp [hpc] at hpc'
    · exact .inr ⟨by simp, h⟩
  | test read hpc _ =>
    rcases h with ⟨hpc', -⟩ | ⟨-, h⟩
    · simp [hpc] at hpc'
    · exact .inr ⟨by cases read <;> simp, h⟩
  | fill hpc =>
    rcases h with ⟨hpc', -⟩ | ⟨-, hst, hsrc, hname⟩
    · simp [hpc] at hpc'
    · have hlt : Task.led.tag.length < 12 := by decide
      refine .inr ⟨by simp, hst, ?_, ?_⟩
      · refine text_word (text_word (text_word hsrc hlt ?_ ?_ _) hlt ?_ ?_ _) hlt ?_ ?_ _ <;> decide
      · refine name_word (name_word (name_word hname ?_ _) ?_ _) ?_ _ <;> decide

/-- What the temperature task has stored. -/
def TemperatureStrings (t : Temperature) : Prop :=
  t.pc = .setup ∧ t.stored = [] ∨
    t.pc ≠ .setup ∧ t.stored = source.stored Task.temperature.tag ∧
      t.logStruct.text 0 = Task.temperature.tag

theorem temperatureStrings_step {t t' : Temperature} {ticks : ℕ} {b : TemperatureAct}
    (h : TemperatureStrings t) (hs : t.step ticks b = some t') : TemperatureStrings t' := by
  cases Temperature.effect hs with
  | setup hpc =>
    rcases h with ⟨-, hst⟩ | ⟨hne, -⟩
    · exact .inr ⟨by simp, by simp [hst], text_store (by decide) (by decide) _⟩
    · exact absurd hpc hne
  | clear hpc =>
    rcases h with ⟨hpc', -⟩ | ⟨-, h⟩
    · simp [hpc] at hpc'
    · exact .inr ⟨by simp, h⟩
  | test read hpc _ =>
    rcases h with ⟨hpc', -⟩ | ⟨-, h⟩
    · simp [hpc] at hpc'
    · exact .inr ⟨by cases read <;> simp, h⟩
  | measure _ hpc | sec hpc | msec hpc =>
    rcases h with ⟨hpc', -⟩ | ⟨-, hst, hsrc⟩
    · simp [hpc] at hpc'
    · exact .inr ⟨by simp, hst, text_word hsrc (by decide) (by decide) (by decide) _⟩

/-- `AlertTask` has not come to its strings yet. -/
def AlertPc.Before (pc : AlertPc) : Prop := pc = .enable ∨ pc = .setup

/-- What the alert task has stored. -/
def AlertStrings (x : Alert) : Prop :=
  x.pc.Before ∧ x.stored = [] ∨
    ¬ x.pc.Before ∧ x.stored = source.stored Task.alert.tag ++ message.stored aboveThreshold ∧
      x.logStruct.text 0 = Task.alert.tag

theorem alertStrings_step {x x' : Alert} {ticks : ℕ} {edge : Byte} {b : AlertAct}
    (h : AlertStrings x) (hs : x.step ticks edge b = some x') : AlertStrings x' := by
  unfold AlertStrings AlertPc.Before at h ⊢
  cases Alert.effect hs with
  | setup hpc =>
    rcases h with ⟨-, hst⟩ | ⟨hne, -⟩
    · refine .inr ⟨by simp, by simp [hst], ?_⟩
      have hsrc : (source.store Task.alert.tag x.logStruct).text 0 = Task.alert.tag :=
        text_store (by decide) (by decide) _
      rw [text_store_behind (by decide) (by rw [hsrc]; decide), hsrc]
    · exact absurd (.inr hpc) hne
  | clear hpc =>
    rcases h with ⟨hpc', -⟩ | ⟨-, h⟩
    · simp [hpc] at hpc'
    · exact .inr ⟨by simp, h⟩
  | testEdge hpc =>
    rcases h with ⟨hpc', -⟩ | ⟨-, h⟩
    · simp [hpc] at hpc'
    · exact .inr ⟨by simp only; split <;> simp, h⟩
  | testFlag read hpc _ =>
    rcases h with ⟨hpc', -⟩ | ⟨-, h⟩
    · simp [hpc] at hpc'
    · exact .inr ⟨by cases read <;> simp, h⟩
  | sec hpc | msec hpc =>
    rcases h with ⟨hpc', -⟩ | ⟨-, hst, hsrc⟩
    · simp [hpc] at hpc'
    · exact .inr ⟨by simp, hst, text_word hsrc (by decide) (by decide) (by decide) _⟩

/-- The strings of all tasks. -/
structure Strings (s : State) : Prop where
  led : LedStrings s.led
  temperature : TemperatureStrings s.temperature
  alert : AlertStrings s.alert

theorem strings_start (d₁ d₂ d₃ : LoggerStruct) (pin : Bool) : Strings (start d₁ d₂ d₃ pin) :=
  ⟨.inl ⟨rfl, rfl⟩, .inl ⟨rfl, rfl⟩, .inl ⟨.inl rfl, rfl⟩⟩

theorem strings_step (h : Strings s) (hs : step s a = some s') : Strings s' := by
  obtain ⟨hled, htemp, halert⟩ := h
  refine ⟨?_, ?_, ?_⟩
  · rcases step_led hs with ⟨-, hl⟩ | ⟨-, hl⟩ | ⟨b, -, hl⟩ | ⟨passed, -, hpc, hl⟩
    · rwa [hl]
    · rw [hl]
      exact hled
    · exact ledStrings_step hled hl
    · rw [hl]
      rcases hled with ⟨hpc', -⟩ | ⟨-, h⟩
      · simp [hpc] at hpc'
      · exact .inr ⟨by simp, h⟩
  · rcases step_temperature hs with ⟨-, ht⟩ | ⟨-, ht⟩ | ⟨b, -, ht⟩ | ⟨passed, -, hpc, ht⟩
    · rwa [ht]
    · rw [ht]
      exact htemp
    · exact temperatureStrings_step htemp ht
    · rw [ht]
      rcases htemp with ⟨hpc', -⟩ | ⟨-, h⟩
      · simp [hpc] at hpc'
      · exact .inr ⟨by simp, h⟩
  · rcases step_alert hs with ⟨-, hx⟩ | ⟨-, hx⟩ | ⟨-, hpc, hx⟩ | ⟨b, -, hx⟩ | ⟨passed, -, hpc, hx⟩
    · rwa [hx]
    · rw [hx]
      exact halert
    · rw [hx]
      rcases halert with ⟨-, h⟩ | ⟨hne, -⟩
      · exact .inl ⟨.inr rfl, h⟩
      · exact absurd (.inl hpc) hne
    · exact alertStrings_step halert hx
    · rw [hx]
      rcases halert with ⟨hpc', -⟩ | ⟨-, h⟩
      · simp [AlertPc.Before, hpc] at hpc'
      · exact .inr ⟨by simp [AlertPc.Before], h⟩

/-! ### The queue -/

/-- What has been put in the queue is printed, received or still in the queue, in that order. -/
structure Queued (s : State) : Prop where
  history : s.enqueued = s.handled.map Prod.fst ++ s.data_received.toList ++ s.loggerQueue
  tags : ∀ e ∈ s.enqueued, e.data.text 0 = e.sender.tag
  printed : ∀ x ∈ s.handled, x.2 = loggerPrintf x.1.data

/-- A task that sends has stored its tag. -/
theorem Strings.outgoing {t : Task} (h : Strings s) (hat : s.AtSend t) :
    (s.outgoing t).data.text 0 = t.tag := by
  obtain ⟨hled, htemp, halert⟩ := h
  unfold State.AtSend at hat
  cases t with
  | led =>
    rcases hled with ⟨hpc, -⟩ | ⟨-, -, hsrc, -⟩
    · simp [hat] at hpc
    · exact hsrc
  | temperature =>
    rcases htemp with ⟨hpc, -⟩ | ⟨-, -, hsrc⟩
    · simp [hat] at hpc
    · exact hsrc
  | alert =>
    rcases halert with ⟨hpc, -⟩ | ⟨-, -, hsrc⟩
    · simp [AlertPc.Before, hat] at hpc
    · exact hsrc

theorem queued_start (d₁ d₂ d₃ : LoggerStruct) (pin : Bool) : Queued (start d₁ d₂ d₃ pin) :=
  ⟨rfl, by simp [start], by simp [start]⟩

theorem queued_step (hstr : Strings s) (h : Queued s) (hs : step s a = some s') : Queued s' := by
  obtain ⟨hhist, htags, hprinted⟩ := h
  cases effect hs with
  | sent t hat =>
    have hout := hstr.outgoing hat
    have htags' : ∀ e ∈ s.enqueued ++ [s.outgoing t], e.data.text 0 = e.sender.tag := by
      intro e he
      rcases List.mem_append.1 he with he | he
      · exact htags e he
      · rw [List.mem_singleton.1 he, hout, sender_outgoing]
    have hhist' : s.enqueued ++ [s.outgoing t] =
        s.handled.map Prod.fst ++ s.data_received.toList ++ (s.loggerQueue ++ [s.outgoing t]) := by
      rw [hhist, List.append_assoc]
    cases t <;> exact ⟨hhist', htags', hprinted⟩
  | timedOut t => cases t <;> exact ⟨hhist, htags, hprinted⟩
  | receive hq hd =>
    refine ⟨?_, htags, hprinted⟩
    rw [hhist, hq, hd]
    simp
  | printf hd =>
    refine ⟨?_, htags, ?_⟩
    · rw [hhist, hd]
      simp
    · intro x hx
      rcases List.mem_append.1 hx with hx | hx
      · exact hprinted x hx
      · rw [List.mem_singleton.1 hx]
  | _ => exact ⟨hhist, htags, hprinted⟩

theorem Queued.handled (h : Queued s) : Handled s := by
  obtain ⟨hhist, htags, hprinted⟩ := h
  have hpre : s.handled.map Prod.fst <+: s.enqueued := by
    rw [hhist, List.append_assoc]
    apply List.prefix_append
  refine ⟨hpre, fun t => hpre.filter _, ?_⟩
  intro x hx
  have hx2 := hprinted x hx
  refine ⟨hx2, ?_⟩
  rw [hx2]
  apply task_loggerPrintf
  apply htags
  exact hpre.subset (List.mem_map_of_mem hx)

theorem run_strings_queued {d₁ d₂ d₃ : LoggerStruct} {pin : Bool} {as : List Act}
    (hr : Lts.Run (Lts.Steps step) (start d₁ d₂ d₃ pin) as s) : Strings s ∧ Queued s := by
  refine hr.invariant (I := fun s => Strings s ∧ Queued s) ?_ ?_
  · exact ⟨strings_start .., queued_start ..⟩
  · intro s a s' h hs
    exact ⟨strings_step h.1 hs, queued_step h.1 h.2 hs⟩

/-! ### The arrays -/

theorem temperature_setup_iff {t t' : Temperature} {ticks : ℕ} {b : TemperatureAct}
    (hb : b ≠ .setup) (hs : t.step ticks b = some t') : t'.pc = .setup ↔ t.pc = .setup := by
  cases Temperature.effect hs with
  | setup _ => exact absurd rfl hb
  | clear hpc | measure _ hpc | sec hpc | msec hpc => simp [hpc]
  | test read hpc _ => cases read <;> simp [hpc]

theorem alert_before_iff {x x' : Alert} {ticks : ℕ} {edge : Byte} {b : AlertAct} (hb : b ≠ .setup)
    (hs : x.step ticks edge b = some x') : x'.pc.Before ↔ x.pc.Before := by
  unfold AlertPc.Before
  cases Alert.effect hs with
  | setup _ => exact absurd rfl hb
  | clear hpc | sec hpc | msec hpc => simp [hpc]
  | testEdge hpc =>
    simp only [hpc]
    split <;> simp
  | testFlag read hpc _ => cases read <;> simp [hpc]

/-- A task with a text that is too long has stored its strings. -/
def LongText (s : State) : Prop := s.temperature.pc ≠ .setup ∨ ¬ s.alert.pc.Before

theorem stored_of_mem {c : CharArray} {ct : List Byte} {x : Stored} {r : LoggerStruct}
    (hx : x ∈ c.stored ct) (hr : r.text c.offset = ct) (hc : c.offset + c.room ≤ 80)
    (hlen : ct.length < c.room) : x.Inside ∧ x.Ends r := by
  obtain ⟨harr, -⟩ := mem_stored.1 hx
  refine ⟨(stored_inside_iff c ct).2 hlen x hx, ?_⟩
  unfold Stored.Ends
  rw [harr]
  exact r.nul_mem_slice hc (by rwa [hr])

/-- The strings of the LED task fit. -/
theorem LedStrings.inside {l : Led} (h : LedStrings l) :
    ∀ x ∈ l.stored, x.Inside ∧ x.Ends l.logStruct := by
  intro x hx
  rcases h with ⟨-, hst⟩ | ⟨-, hst, hsrc, hname⟩
  · simp [hst] at hx
  · rw [hst] at hx
    rcases List.mem_append.1 hx with hx | hx
    · exact stored_of_mem hx hsrc (by decide) (by decide)
    · exact stored_of_mem hx hname (by decide) (by decide)

/-- **The strings are inside their arrays** until one of the two tasks stores its own. -/
theorem Strings.inside_iff (h : Strings s) : StringsInside s ↔ ¬ LongText s := by
  obtain ⟨hled, htemp, halert⟩ := h
  unfold LongText
  constructor
  · rintro ⟨hin, -, -, -⟩ (hpc | hpc)
    · rcases htemp with ⟨hpc', -⟩ | ⟨-, hst, -⟩
      · exact hpc hpc'
      · have := (stored_inside_iff source Task.temperature.tag).1 fun x hx => hin x (by simp [hst, hx])
        revert this
        decide
    · rcases halert with ⟨hpc', -⟩ | ⟨-, hst, -⟩
      · exact hpc hpc'
      · have := (stored_inside_iff message aboveThreshold).1 fun x hx => hin x (by simp [hst, hx])
        revert this
        decide
  · intro hlong
    rw [not_or, not_not, not_not] at hlong
    obtain ⟨htpc, hapc⟩ := hlong
    have ht : s.temperature.stored = [] := by
      rcases htemp with ⟨-, hst⟩ | ⟨hpc, -⟩
      · exact hst
      · exact absurd htpc hpc
    have hx : s.alert.stored = [] := by
      rcases halert with ⟨-, hst⟩ | ⟨hpc, -⟩
      · exact hst
      · exact absurd hapc hpc
    refine ⟨?_, fun x hmem => (hled.inside x hmem).2, ?_, ?_⟩
    · intro x hmem
      rw [ht, hx, List.append_nil, List.append_nil] at hmem
      exact (hled.inside x hmem).1
    · simp [ht]
    · simp [hx]

/-- Storing a long text leaves the set-up of the task behind. -/
theorem longText_setup (ha : ¬ NoLongText s a) (hs : step s a = some s') : LongText s' := by
  unfold NoLongText at ha
  rw [not_and_or, not_not, not_not] at ha
  unfold LongText
  rcases ha with rfl | rfl
  · cases effect hs with
    | temperature h =>
      cases Temperature.effect h with
      | setup _ => exact .inl (by simp)
  · cases effect hs with
    | alert h =>
      cases Alert.effect h with
      | setup _ => exact .inr (by simp [AlertPc.Before])

/-- No other step does that, and none undoes it. -/
theorem longText_other (ha : NoLongText s a) (hs : step s a = some s') :
    LongText s' ↔ LongText s := by
  obtain ⟨hne, hne'⟩ := ha
  have htemp : s'.temperature.pc = .setup ↔ s.temperature.pc = .setup := by
    rcases step_temperature hs with ⟨-, ht⟩ | ⟨-, ht⟩ | ⟨b, rfl, ht⟩ | ⟨passed, -, hpc, ht⟩
    · rw [ht]
    · rw [ht, Temperature.timer2Callback]
    · have hb : b ≠ .setup := fun hb => hne (by rw [hb])
      exact temperature_setup_iff hb ht
    · rw [ht, hpc]
      simp
  have halert : s'.alert.pc.Before ↔ s.alert.pc.Before := by
    rcases step_alert hs with ⟨-, hx⟩ | ⟨-, hx⟩ | ⟨-, hpc, hx⟩ | ⟨b, rfl, hx⟩ | ⟨passed, -, hpc, hx⟩
    · rw [hx]
    · rw [hx, Alert.timer3Callback]
    · rw [hx, hpc]
      simp [AlertPc.Before]
    · have hb : b ≠ .setup := fun hb => hne' (by rw [hb])
      exact alert_before_iff hb hx
    · rw [hx, hpc]
      simp [AlertPc.Before]
  unfold LongText
  rw [ne_eq, ne_eq, htemp, halert]

/-- **The messages of the tasks at `Logger_printf`**, in every run: each was put in the queue
by one task, they are handled once and in order, and each by the branch of its task. Every
string is inside its array exactly if neither `TemperatureTask` nor `AlertTask` has stored its
own. -/
theorem delivery_iff (d₁ d₂ d₃ : LoggerStruct) (pin : Bool) {as : List Act} {s : State}
    (hr : Lts.Run (Lts.Steps step) (start d₁ d₂ d₃ pin) as s) :
    Handled s ∧ (Handled s ∧ StringsInside s ↔
      Lts.Run (Lts.When NoLongText (Lts.Steps step)) (start d₁ d₂ d₃ pin) as s) := by
  obtain ⟨hstr, hqueue⟩ := run_strings_queued hr
  have hh := hqueue.handled
  refine ⟨hh, ?_⟩
  rw [and_iff_right hh, hstr.inside_iff]
  constructor
  · intro hlong
    have hor : Lts.Run (Lts.When NoLongText (Lts.Steps step)) (start d₁ d₂ d₃ pin) as s ∨
        LongText s := by
      apply hr.when_or
      · exact fun hs hc => longText_setup hc hs
      · intro s a s' h hs
        by_cases hc : NoLongText s a
        · exact (longText_other hc hs).2 h
        · exact longText_setup hc hs
    exact hor.resolve_right hlong
  · intro hwhen
    refine hwhen.invariant (I := fun s => ¬ LongText s) ?_ ?_
    · simp [LongText, start, AlertPc.Before]
    · intro s a s' h hs
      rwa [longText_other hs.2 hs.1]

/-- A message of the LED task on its way to the print. -/
def ledMessage : List Act :=
  [.led .setup, .timer1Callback, .led (.test true), .led .timestamp, .led .fill, .led .clear,
    .send .led true, .receive, .printf]

theorem ledMessage_exec :
    (Lts.exec step (start .zero .zero .zero true) ledMessage).map
      (fun s => s.handled.map fun x => x.2.line) = some [.gpio 0 nachiket] := by
  decide +kernel

theorem delivery_iff_ledMessage :
    ∃ s, Lts.exec step (start .zero .zero .zero true) ledMessage = some s ∧
      s.handled.map (fun x => x.2.line) = [.gpio 0 nachiket] ∧
      Handled s ∧ (Handled s ∧ StringsInside s ↔
        Lts.Run (Lts.When NoLongText (Lts.Steps step)) (start .zero .zero .zero true) ledMessage s) := by
  obtain ⟨s, hs, he⟩ := Option.map_eq_some_iff.1 ledMessage_exec
  exact ⟨s, hs, he, delivery_iff .zero .zero .zero true (Lts.exec_run step ledMessage hs)⟩

/-- `TemperatureTask` writes behind `source` before it has sent anything. -/
theorem temperature_outside :
    ¬ ∀ (d₁ d₂ d₃ : LoggerStruct) (pin : Bool) (as : List Act) (s : State),
      Lts.Run (Lts.Steps step) (start d₁ d₂ d₃ pin) as s → Handled s ∧ StringsInside s := by
  intro h
  have hrun : Lts.exec step (start .zero .zero .zero true) [.temperature .setup] =
      some _ := rfl
  have hin := (h .zero .zero .zero true _ _ (Lts.exec_run step _ hrun)).2.inside ⟨source, 10⟩
    (by simp [mem_stored, source, Task.tag, ascii])
  exact absurd hin.2 (by decide)

end Aesd.Firmware
