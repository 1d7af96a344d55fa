import Aesd.Firmware.Delivery
import Aesd.Firmware.UartPrintf
import Aesd.Lib.Decoding

/-!
# What the logger sends (`HW5/Related Files/freertos/Logger.c`)

`Logger_printf` prints one message with two or more calls of `UARTprintf`. `consoleLine` is
what reaches the terminal; `sprintf` of the temperature is a parameter, since it is the
library's. The tasks share the terminal: the lines that LEDTask.c, Temperature.c and Logger.c
print when a task starts, and those about a wrong register, are not modelled.

* `logger_sends`: the calls print in full, with the text of `consoleLine`.
* `decodes_line`: a line tells its message and where it ends.
* `console_tells`: the bytes of a run tell every message that was logged.
-/

namespace Aesd.Firmware

open CString

/-- The calls of `UARTprintf` in the branches of `Logger_printf`. -/
def Line.calls (sprintf : BitVec 32 → List Byte) : Line → List (List Byte × List Arg)
  | .alert message => [(ascii "%s\n\r", [.string message])]
  | .temperature value => [(ascii "%s\n\r", [.string (sprintf value)])]
  | .gpio toggleCount name =>
    [(ascii "Toggle count is %d", [.value toggleCount]),
      (ascii "    Your name is %s\n\r", [.string name])]
  | .nothing => []

/-- All calls for one message. -/
def loggerCalls (sprintf : BitVec 32 → List Byte) (p : Printed) : List (List Byte × List Arg) :=
  (ascii "[%d sec %03d msec]", [.value p.sec, .value p.msec]) ::
    (ascii "[%s]", [.string p.source]) :: p.line.calls sprintf

/-- What a sequence of calls sends. -/
def sends : List (List Byte × List Arg) → Except Fault (List Byte)
  | [] => .ok []
  | call :: calls => (uartPrintf call.1 call.2).bind fun out => (sends calls).map (out ++ ·)

/-- `%d` -/
def dec (v : BitVec 32) : List Byte :=
  padded (numeral 10 v.toInt.natAbs) 0 (v.toInt < 0) (chr ' ')

/-- `%03d` -/
def dec03 (v : BitVec 32) : List Byte :=
  padded (numeral 10 v.toInt.natAbs) 3 (v.toInt < 0) (chr '0')

/-- What a message says behind its stamp and source. -/
def Line.said (sprintf : BitVec 32 → List Byte) : Line → List Byte
  | .alert message => uartWrite (text message)
  | .temperature value => uartWrite (text (sprintf value))
  | .gpio toggleCount name =>
    ascii "Toggle count is " ++ dec toggleCount ++ ascii "    Your name is " ++ uartWrite (text name)
  | .nothing => []

/-- The end of a line, as `UARTwrite` sends it. -/
def Line.ending : Line → List Byte
  | .nothing => []
  | _ => [13, 10, 13]

/-- The bytes of one message. -/
def consoleLine (sprintf : BitVec 32 → List Byte) (p : Printed) : List Byte :=
  ascii "[" ++ dec p.sec ++ ascii " sec " ++ dec03 p.msec ++ ascii " msec][" ++
    uartWrite (text p.source) ++ ascii "]" ++ p.line.said sprintf ++ p.line.ending

/-! ### The calls -/

theorem uartWrite_append (l l' : List Byte) : uartWrite (l ++ l') = uartWrite l ++ uartWrite l' :=
  List.flatMap_append

theorem printAll_cons {p : Piece} {ps : List Piece} {args rest : List Arg} {out out' : List Byte}
    (h : p.print args = .ok (out, rest)) (h' : printAll ps rest = .ok out') :
    printAll (p :: ps) args = .ok (out ++ out') := by
  rw [printAll, h]
  exact congrArg (Except.map (out ++ ·)) h'

/-- The text in a format. -/
theorem printAll_text {l : List Byte} {ps : List Piece} {args : List Arg} {out : List Byte}
    (h : printAll ps args = .ok out) :
    printAll (l.map .text ++ ps) args = .ok (uartWrite l ++ out) := by
  induction l with
  | nil => exact h
  | cons c l ih =>
    rw [List.map_cons, List.cons_append, printAll_cons rfl ih, ← List.append_assoc,
      ← uartWrite_append]
    rfl

theorem stamp_sent (sec msec : BitVec 32) :
    uartPrintf (ascii "[%d sec %03d msec]") [.value sec, .value msec] =
      .ok (ascii "[" ++ (dec sec ++ (ascii " sec " ++ (dec03 msec ++ ascii " msec]")))) := by
  have hps : pieces none (text (ascii "[%d sec %03d msec]")) =
      some ((ascii "[").map .text ++ .directive 0 false (chr 'd') :: ((ascii " sec ").map .text ++
        .directive 3 true (chr 'd') :: ((ascii " msec]").map .text ++ []))) := by
    decide
  rw [uartPrintf_pieces hps (by decide)]
  exact printAll_text (printAll_cons rfl (printAll_text (printAll_cons rfl (printAll_text rfl))))

theorem print_string (s : List Byte) (args : List Arg) :
    (Piece.directive 0 false (chr 's')).print (.string s :: args) =
      .ok (uartWrite (text s), args) := by
  have hpad : List.replicate (0 - (text s).length) (fillOf false) = [] := by
    rw [Nat.zero_sub]
    rfl
  change Except.ok (uartWrite (text s) ++ _, args) = _
  rw [hpad, List.append_nil]

theorem source_sent (source : List Byte) :
    uartPrintf (ascii "[%s]") [.string source] =
      .ok (ascii "[" ++ (uartWrite (text source) ++ ascii "]")) := by
  have hps : pieces none (text (ascii "[%s]")) =
      some ((ascii "[").map .text ++ .directive 0 false (chr 's') :: ((ascii "]").map .text ++ [])) := by
    decide
  rw [uartPrintf_pieces hps (by decide)]
  exact printAll_text (printAll_cons (print_string source []) (printAll_text rfl))

theorem string_line_sent (s : List Byte) :
    uartPrintf (ascii "%s\n\r") [.string s] = .ok (uartWrite (text s) ++ [13, 10, 13]) := by
  have hps : pieces none (text (ascii "%s\n\r")) =
      some (.directive 0 false (chr 's') :: ((ascii "\n\r").map .text ++ [])) := by
    decide
  rw [uartPrintf_pieces hps (by decide)]
  exact printAll_cons (print_string s []) (printAll_text rfl)

theorem toggles_sent (n : BitVec 32) :
    uartPrintf (ascii "Toggle count is %d") [.value n] =
      .ok (ascii "Toggle count is " ++ (dec n ++ [])) := by
  have hps : pieces none (text (ascii "Toggle count is %d")) =
      some ((ascii "Toggle count is ").map .text ++ [.directive 0 false (chr 'd')]) := by
    decide
  rw [uartPrintf_pieces hps (by decide)]
  exact printAll_text (printAll_cons rfl rfl)

theorem name_sent (name : List Byte) :
    uartPrintf (ascii "    Your name is %s\n\r") [.string name] =
      .ok (ascii "    Your name is " ++ (uartWrite (text name) ++ [13, 10, 13])) := by
  have hps : pieces none (text (ascii "    Your name is %s\n\r")) =
      some ((ascii "    Your name is ").map .text ++
        .directive 0 false (chr 's') :: ((ascii "\n\r").map .text ++ [])) := by
    decide
  rw [uartPrintf_pieces hps (by decide)]
  exact printAll_text (printAll_cons (print_string name []) (printAll_text rfl))

theorem sends_cons {call : List Byte × List Arg} {calls : List (List Byte × List Arg)}
    {out out' : List Byte} (h : uartPrintf call.1 call.2 = .ok out) (h' : sends calls = .ok out') :
    sends (call :: calls) = .ok (out ++ out') := by
  rw [sends, h]
  exact congrArg (Except.map (out ++ ·)) h'

theorem line_sent (sprintf : BitVec 32 → List Byte) (line : Line) :
    sends (line.calls sprintf) = .ok (line.said sprintf ++ line.ending) := by
  cases line with
  | alert message =>
    rw [Line.calls, sends_cons (string_line_sent message) rfl, List.append_nil]
    rfl
  | temperature value =>
    rw [Line.calls, sends_cons (string_line_sent (sprintf value)) rfl, List.append_nil]
    rfl
  | gpio toggleCount name =>
    rw [Line.calls, sends_cons (toggles_sent toggleCount) (sends_cons (name_sent name) rfl)]
    simp only [Line.said, Line.ending, List.append_assoc, List.append_nil]
  | nothing => rfl

/-- **The calls of `Logger_printf` print in full**, whatever the message holds. -/
theorem logger_sends (sprintf : BitVec 32 → List Byte) (p : Printed) :
    sends (loggerCalls sprintf p) = .ok (consoleLine sprintf p) := by
  have hjoin : ascii " msec]" ++ ascii "[" = ascii " msec][" := rfl
  rw [loggerCalls, sends_cons (stamp_sent p.sec p.msec)
    (sends_cons (source_sent p.source) (line_sent sprintf p.line)), consoleLine]
  simp only [← hjoin, List.append_assoc]

/-! ### The messages of the tasks -/

/-- A message of a task: its stamp and the number it carries. -/
structure Message where
  task : Task
  sec : BitVec (8 * 4)
  msec : BitVec (8 * 4)
  /-- the toggle count or the temperature -/
  value : BitVec (8 * 4)
deriving DecidableEq

def Message.line (m : Message) : Line :=
  match m.task with
  | .led => .gpio m.value nachiket
  | .temperature => .temperature m.value
  | .alert => .alert aboveThreshold

/-- What `Logger_printf` makes of it. -/
def Message.printed (m : Message) : Printed := ⟨m.sec, m.msec, m.task.tag, m.line⟩

/-- Two messages that say the same: a temperature counts as its text. -/
structure Message.Same (sprintf : BitVec 32 → List Byte) (m m' : Message) : Prop where
  task : m.task = m'.task
  sec : m.sec = m'.sec
  msec : m.msec = m'.msec
  toggles : m.task = .led → m.value = m'.value
  reading : m.task = .temperature → text (sprintf m.value) = text (sprintf m'.value)

/-- The characters of a number. -/
theorem mem_padded {digits : List Byte} {width : ℕ} {neg : Bool} {fill c : Byte}
    (hc : c ∈ padded digits width neg fill) : c = chr '-' ∨ c = fill ∨ c ∈ digits := by
  have hsign : c ∈ (if neg then [chr '-'] else []) → c = chr '-' := by
    cases neg with
    | false => exact fun h => absurd h List.not_mem_nil
    | true => exact List.mem_singleton.1
  unfold padded at hc
  dsimp only at hc
  by_cases hfill : fill = chr '0'
  · rw [if_pos hfill, List.mem_append, List.mem_append] at hc
    rcases hc with (hc | hc) | hc
    · exact .inl (hsign hc)
    · exact .inr (.inl (List.eq_of_mem_replicate hc))
    · exact .inr (.inr hc)
  · rw [if_neg hfill, List.mem_append, List.mem_append] at hc
    rcases hc with (hc | hc) | hc
    · exact .inr (.inl (List.eq_of_mem_replicate hc))
    · exact .inl (hsign hc)
    · exact .inr (.inr hc)

theorem numeral_printable {n : ℕ} {c : Byte} (hc : c ∈ numeral 10 n) : c ≠ chr ' ' ∧ c ≠ 13 := by
  rw [numeral_eq (by decide)] at hc
  obtain ⟨d, hd, rfl⟩ := List.mem_map.1 hc
  have hlt := Numeral.places_lt (by decide) d hd
  have hne : ∀ d < 10, chr (Nat.digitChar d) ≠ chr ' ' ∧ chr (Nat.digitChar d) ≠ 13 := by decide
  exact hne d hlt

/-- Without a width there is no padding. -/
theorem dec_eq (v : BitVec 32) :
    dec v = (if decide (v.toInt < 0) then [chr '-'] else []) ++ numeral 10 v.toInt.natAbs := by
  unfold dec padded
  dsimp only
  rw [Nat.zero_sub, if_neg (by decide)]
  rfl

theorem dec_printable {v : BitVec 32} {c : Byte} (hc : c ∈ dec v) : c ≠ chr ' ' ∧ c ≠ 13 := by
  rw [dec_eq, List.mem_append] at hc
  rcases hc with hc | hc
  · split_ifs at hc
    · rw [List.mem_singleton.1 hc]
      decide
    · exact absurd hc List.not_mem_nil
  · exact numeral_printable hc

theorem dec03_printable {v : BitVec 32} {c : Byte} (hc : c ∈ dec03 v) : c ≠ chr ' ' ∧ c ≠ 13 := by
  rcases mem_padded hc with rfl | rfl | hc
  · decide
  · decide
  · exact numeral_printable hc

theorem dec_injective : Function.Injective dec := by
  intro v v' h
  have hread := congrArg readInt h
  rw [dec, dec, readInt_padded _ _ (.inr rfl), readInt_padded _ _ (.inr rfl)] at hread
  exact BitVec.eq_of_toInt_eq hread

theorem dec03_injective : Function.Injective dec03 := by
  intro v v' h
  have hread := congrArg readInt h
  rw [dec03, dec03, readInt_padded _ _ (.inl rfl), readInt_padded _ _ (.inl rfl)] at hread
  exact BitVec.eq_of_toInt_eq hread

/-- A line, divided where a reader divides it. -/
theorem consoleLine_printed (sprintf : BitVec 32 → List Byte) (m : Message) (rest : List Byte) :
    consoleLine sprintf m.printed ++ rest =
      chr '[' :: (dec m.sec ++ chr ' ' :: (ascii "sec " ++ (dec03 m.msec ++ chr ' ' ::
        (ascii "msec][" ++ (m.task.tag ++ chr ']' :: (m.line.said sprintf ++ 13 ::
          ([10, 13] ++ rest))))))) := by
  have hending : m.line.ending = [13, 10, 13] := by
    unfold Message.line
    cases m.task <;> rfl
  have htag : uartWrite (text m.task.tag) = m.task.tag := by
    cases m.task <;> decide
  unfold consoleLine Message.printed
  dsimp only
  rw [hending, htag]
  have hsec : ascii " sec " = chr ' ' :: ascii "sec " := rfl
  have hmsec : ascii " msec][" = chr ' ' :: ascii "msec][" := rfl
  have hopen : ascii "[" = [chr '['] := rfl
  have hclose : ascii "]" = [chr ']'] := rfl
  rw [hsec, hmsec, hopen, hclose]
  simp only [List.append_assoc, List.cons_append, List.nil_append]

/-- What a message says has no CR in it. -/
theorem said_no_cr {sprintf : BitVec 32 → List Byte}
    (hsprintf : ∀ v, (10 : Byte) ∉ text (sprintf v) ∧ (13 : Byte) ∉ text (sprintf v)) (m : Message) :
    (13 : Byte) ∉ m.line.said sprintf := by
  unfold Message.line
  cases m.task with
  | led =>
    simp only [Line.said, List.mem_append, not_or]
    refine ⟨⟨⟨by decide, ?_⟩, by decide⟩, by decide⟩
    exact fun hc => (dec_printable hc).2 rfl
  | temperature =>
    rw [Line.said, uartWrite_eq_self (hsprintf m.value).1]
    exact (hsprintf m.value).2
  | alert =>
    have h : (13 : Byte) ∉ uartWrite (text aboveThreshold) := by decide
    exact h

/-- **A line of the console tells its message**, and where it ends. -/
theorem decodes_line {sprintf : BitVec 32 → List Byte}
    (hsprintf : ∀ v, (10 : Byte) ∉ text (sprintf v) ∧ (13 : Byte) ∉ text (sprintf v)) :
    Decoding.Decodes (fun _ => True) (fun m : Message => consoleLine sprintf m.printed)
      (Message.Same sprintf) := by
  intro m m' rest rest' _ _ h
  dsimp only at h
  rw [consoleLine_printed, consoleLine_printed] at h
  have hspace : ∀ v, chr ' ' ∉ dec v := fun v hc => (dec_printable hc).1 rfl
  have hspace03 : ∀ v, chr ' ' ∉ dec03 v := fun v hc => (dec03_printable hc).1 rfl
  have htag : ∀ t : Task, chr ']' ∉ t.tag := by
    intro t
    cases t <;> decide
  -- stamp, source and text one after the other
  obtain ⟨hsec, h⟩ := Decoding.split_delimiter (hspace _) (hspace _) (List.cons_eq_cons.1 h).2
  obtain ⟨hmsec, h⟩ :=
    Decoding.split_delimiter (hspace03 _) (hspace03 _) (List.append_cancel_left h)
  obtain ⟨hsource, h⟩ :=
    Decoding.split_delimiter (htag _) (htag _) (List.append_cancel_left h)
  obtain ⟨hsaid, h⟩ := Decoding.split_delimiter (said_no_cr hsprintf m) (said_no_cr hsprintf m') h
  have htask : m.task = m'.task := by
    revert hsource
    cases m.task <;> cases m'.task <;> decide
  refine ⟨⟨htask, dec_injective hsec, dec03_injective hmsec, ?_, ?_⟩, List.append_cancel_left h⟩
  · intro hled
    unfold Message.line at hsaid
    rw [← htask, hled] at hsaid
    have hname : ascii "    Your name is " = chr ' ' :: ascii "   Your name is " := rfl
    simp only [Line.said, hname, List.append_assoc, List.cons_append] at hsaid
    have hcount := List.append_cancel_left hsaid
    exact dec_injective (Decoding.split_delimiter (hspace _) (hspace _) hcount).1
  · intro htemp
    unfold Message.line at hsaid
    rw [← htask, htemp] at hsaid
    have hlf := fun v => (hsprintf v).1
    simpa only [Line.said, uartWrite_eq_self (hlf _)] using hsaid

/-! ### The console of a run -/

/-- The message in an entry of the queue. -/
def Entry.message (e : Entry) : Message where
  task := e.sender
  sec := e.data.field timeStampsec 4
  msec := e.data.field timeStampmsec 4
  value :=
    match e.sender with
    | .led => e.data.field toggleCount 4
    | .temperature => e.data.field temperature 4
    | .alert => 0

/-- The texts of an entry are those of its task. -/
structure Entry.Spoken (e : Entry) : Prop where
  tag : e.data.text 0 = e.sender.tag
  led : e.sender = .led → e.data.text 28 = nachiket
  alert : e.sender = .alert → e.data.text 48 = aboveThreshold

/-- `Logger_printf` prints the message of its task. -/
theorem loggerPrintf_spoken {e : Entry} (h : e.Spoken) :
    loggerPrintf e.data = e.message.printed := by
  have halert := strcmp_eq_iff e.data (ascii "alert") (by decide)
  have htemp := strcmp_eq_iff e.data (ascii "temperature") (by decide)
  have hgpio := strcmp_eq_iff e.data (ascii "gpio") (by decide)
  have htag := h.tag
  obtain ⟨sender, data, reports⟩ := e
  rw [htag] at halert htemp hgpio
  unfold loggerPrintf source Message.printed Entry.message Message.line
  dsimp only at htag halert htemp hgpio ⊢
  rw [htag]
  cases sender with
  | alert =>
    rw [if_pos (halert.2 rfl)]
    have hmessage : data.text message.offset = aboveThreshold := h.alert rfl
    rw [hmessage]
  | temperature =>
    rw [if_neg (fun hc => absurd (halert.1 hc) (by decide)), if_pos (htemp.2 rfl)]
  | led =>
    rw [if_neg (fun hc => absurd (halert.1 hc) (by decide)),
      if_neg (fun hc => absurd (htemp.1 hc) (by decide)), if_pos (hgpio.2 rfl)]
    have hname : data.text name.offset = nachiket := h.led rfl
    rw [hname]

/-- The text of an alert, once `AlertTask` has stored it. -/
def AlertText (x : Alert) : Prop := x.pc.Before ∨ x.logStruct.text 48 = aboveThreshold

theorem alertText_step {x x' : Alert} {ticks : ℕ} {edge : Byte} {b : AlertAct}
    (h : AlertText x) (hs : x.step ticks edge b = some x') : AlertText x' := by
  unfold AlertText AlertPc.Before at h ⊢
  cases Alert.effect hs with
  | setup hpc => exact .inr (text_store (by decide) (by decide) _)
  | clear hpc | testEdge hpc | testFlag read hpc _ =>
    refine .inr (h.resolve_left ?_)
    simp [hpc]
  | sec hpc | msec hpc =>
    have htext := h.resolve_left (by simp [hpc])
    refine .inr ?_
    rw [text_setField (by decide) _ (.inr (by decide))]
    exact htext

variable {s s' : State} {a : Act}

theorem alertText_run_step (h : AlertText s.alert) (hs : step s a = some s') :
    AlertText s'.alert := by
  rcases step_alert hs with ⟨-, hx⟩ | ⟨-, hx⟩ | ⟨-, hpc, hx⟩ | ⟨b, -, hx⟩ | ⟨passed, -, hpc, hx⟩
  · rwa [hx]
  · rw [hx]
    exact h
  · rw [hx]
    exact .inl (.inr rfl)
  · exact alertText_step h hx
  · rw [hx]
    unfold AlertText AlertPc.Before at h
    exact .inr (h.resolve_left (by simp [hpc]))

/-- A task that sends has stored its texts. -/
theorem spoken_outgoing {t : Task} (h : Strings s) (hx : AlertText s.alert) (hat : s.AtSend t) :
    (s.outgoing t).Spoken := by
  have hsend := hat
  unfold State.AtSend at hat
  refine ⟨by rw [sender_outgoing]; exact h.outgoing hsend, ?_, ?_⟩
  · intro hsender
    rw [sender_outgoing] at hsender
    subst hsender
    rcases h.led with ⟨hpc, -⟩ | ⟨-, -, -, hname⟩
    · simp [hat] at hpc
    · exact hname
  · intro hsender
    rw [sender_outgoing] at hsender
    subst hsender
    refine hx.resolve_left ?_
    simp [AlertPc.Before, hat]

/-- Every message in the queue speaks for its task. -/
structure Speaking (s : State) : Prop where
  strings : Strings s
  alert : AlertText s.alert
  spoken : ∀ e ∈ s.enqueued, e.Spoken

theorem speaking_step (h : Speaking s) (hs : step s a = some s') : Speaking s' := by
  obtain ⟨hstr, hx, hspoken⟩ := h
  refine ⟨strings_step hstr hs, alertText_run_step hx hs, ?_⟩
  cases effect hs with
  | sent t hat =>
    have hout := spoken_outgoing hstr hx hat
    have hall : ∀ e ∈ s.enqueued ++ [s.outgoing t], e.Spoken := by
      intro e he
      rcases List.mem_append.1 he with he | he
      · exact hspoken e he
      · rw [List.mem_singleton.1 he]
        exact hout
    cases t <;> exact hall
  | timedOut t => cases t <;> exact hspoken
  | _ => exact hspoken

/-- The messages that `LoggerTask` has handled. -/
def State.logged (s : State) : List Message := s.handled.map fun x => x.1.message

/-- What the terminal has received from `Logger_printf`. -/
def State.console (sprintf : BitVec 32 → List Byte) (s : State) : Except Fault (List Byte) :=
  sends (s.handled.flatMap fun x => loggerCalls sprintf x.2)

theorem sends_append {calls calls' : List (List Byte × List Arg)} {out out' : List Byte}
    (h : sends calls = .ok out) (h' : sends calls' = .ok out') :
    sends (calls ++ calls') = .ok (out ++ out') := by
  induction calls generalizing out with
  | nil =>
    obtain rfl := Except.ok.inj h
    exact h'
  | cons call calls ih =>
    rw [sends] at h
    cases hcall : uartPrintf call.1 call.2 with
    | error e =>
      rw [hcall] at h
      cases h
    | ok first =>
      cases hrest : sends calls with
      | error e =>
        rw [hcall, hrest] at h
        cases h
      | ok rest =>
        rw [hcall, hrest] at h
        obtain rfl := Except.ok.inj h
        rw [List.cons_append, sends_cons hcall (ih hrest), List.append_assoc]

theorem sends_flatMap {α : Type*} {calls : α → List (List Byte × List Arg)} {line : α → List Byte}
    {l : List α} (h : ∀ x ∈ l, sends (calls x) = .ok (line x)) :
    sends (l.flatMap calls) = .ok (l.flatMap line) := by
  induction l with
  | nil => rfl
  | cons x l ih =>
    rw [List.flatMap_cons, List.flatMap_cons]
    exact sends_append (h x (List.mem_cons_self ..))
      (ih fun y hy => h y (List.mem_cons_of_mem _ hy))

/-- One line for each message handled, in order, with the text of the task that sent it. -/
theorem console_eq (sprintf : BitVec 32 → List Byte) {d₁ d₂ d₃ : LoggerStruct} {pin : Bool}
    {as : List Act} (hr : Lts.Run (Lts.Steps step) (start d₁ d₂ d₃ pin) as s) :
    s.console sprintf = .ok (s.logged.flatMap fun m => consoleLine sprintf m.printed) := by
  have h0 : Speaking (start d₁ d₂ d₃ pin) := ⟨strings_start .., .inl (.inl rfl), by simp [start]⟩
  have hspeaking := hr.invariant h0 speaking_step
  have hqueued := (run_strings_queued hr).2
  have hhandled := hqueued.handled
  unfold State.console State.logged
  rw [List.flatMap_map]
  refine sends_flatMap ?_
  intro x hx
  have hmem : x.1 ∈ s.enqueued := hhandled.in_order.subset (List.mem_map_of_mem hx)
  rw [logger_sends, hqueued.printed x hx, loggerPrintf_spoken (hspeaking.spoken x.1 hmem)]

/-- **The console tells the messages.** In every run the terminal gets one line for each
message handled; and two runs with the same bytes on the terminal have logged the same
messages, task by task, with the same stamps, counts and temperature texts. -/
theorem console_tells {sprintf : BitVec 32 → List Byte}
    (hsprintf : ∀ v, (10 : Byte) ∉ text (sprintf v) ∧ (13 : Byte) ∉ text (sprintf v))
    {d₁ d₂ d₃ e₁ e₂ e₃ : LoggerStruct} {pin pin' : Bool} {as bs : List Act}
    (hr : Lts.Run (Lts.Steps step) (start d₁ d₂ d₃ pin) as s)
    (hr' : Lts.Run (Lts.Steps step) (start e₁ e₂ e₃ pin') bs s') :
    s.console sprintf = .ok (s.logged.flatMap fun m => consoleLine sprintf m.printed) ∧
      (s.console sprintf = s'.console sprintf →
        List.Forall₂ (Message.Same sprintf) s.logged s'.logged) := by
  refine ⟨console_eq sprintf hr, ?_⟩
  intro heq
  rw [console_eq sprintf hr, console_eq sprintf hr'] at heq
  refine Decoding.Decodes.stream (decodes_line hsprintf) ?_ (fun _ _ => trivial)
    (fun _ _ => trivial) (Except.ok.inj heq)
  intro m hnil
  have hline := consoleLine_printed sprintf m []
  dsimp only at hnil
  rw [hnil] at hline
  cases hline

theorem console_tells_ledMessage :
    ∃ s, Lts.exec step (start .zero .zero .zero true) ledMessage = some s ∧
      s.console (fun _ => ascii "Temperature is 25.000000") =
        .ok (s.logged.flatMap fun m =>
          consoleLine (fun _ => ascii "Temperature is 25.000000") m.printed) ∧
      List.Forall₂ (Message.Same fun _ => ascii "Temperature is 25.000000") s.logged s.logged := by
  obtain ⟨s, hs, -⟩ := Option.map_eq_some_iff.1 ledMessage_exec
  have hrun := Lts.exec_run step ledMessage hs
  have htext : (10 : Byte) ∉ text (ascii "Temperature is 25.000000") ∧
      (13 : Byte) ∉ text (ascii "Temperature is 25.000000") := by decide
  have hall : ∀ v : BitVec 32, (10 : Byte) ∉ text ((fun _ => ascii "Temperature is 25.000000") v) ∧
      (13 : Byte) ∉ text ((fun _ => ascii "Temperature is 25.000000") v) := fun _ => htext
  obtain ⟨hconsole, htells⟩ := console_tells hall hrun hrun
  exact ⟨s, hs, hconsole, htells rfl⟩

end Aesd.Firmware
