import Aesd.Lib.Record

/-!
# `status_update` and the records it works on

The message queue, shared memory and socket programs of `HW4/Related Files` exchange one
record type each: `int is_command` at offset 0 and a `char` array at offset 4. Their
`status_update` is the same text but for the size of the array and the greeting, so it is
one definition over a `Format`. The reply is built in an uninitialised local variable: its
bytes behind the NUL are whatever was there (`response1`).

* `statusUpdate_spec`: when the reply fits the array, `status_update` returns, and what.
* `Reply`: one record is a `status_update` of another.
* `statusUpdate_buffer`: the servers call it on a buffer that starts with the record.
-/

namespace Aesd

open CString CRecord

abbrev CInt := BitVec (8 * 4)

/-- The clients choose among five messages. -/
instance neZero_messages : NeZero 5 := ⟨by decide⟩

theorem greeting_no_nul : (0 : Byte) ∉ ascii "You sent message:" := by
  decide

theorem hello_no_nul : (0 : Byte) ∉ ascii "Hello" := by
  decide

theorem led_on_no_nul : (0 : Byte) ∉ ascii "LED ON" := by
  decide

theorem led_off_no_nul : (0 : Byte) ∉ ascii "LED OFF" := by
  decide

theorem good_morning_no_nul : (0 : Byte) ∉ ascii "Good morning" := by
  decide

theorem bye_no_nul : (0 : Byte) ∉ ascii "Bye bye" := by
  decide

/-- The record of one pair of programs. -/
structure Format where
  /-- `sizeof` the structure -/
  size : ℕ
  /-- the length of its `char` array -/
  room : ℕ
  greeting : List Byte
  room_le : 4 + room ≤ size
  led_lt : 14 < room
  no_nul : (0 : Byte) ∉ greeting

namespace Format

variable (F : Format)

/-- `status_update(command, msg)`, `none` when a string copy runs out of its array. -/
def statusUpdate (response1 : Rec F.size) (command : CInt) (msg : List Byte) :
    Option (Rec F.size) :=
  if command = 1 then
    if strcmp msg (ascii "LED ON") = 0 then
      (response1.setField 0 4 1).strcpy 4 F.room (ascii "LED is now ON")
    else
      (response1.setField 0 4 1).strcpy 4 F.room (ascii "LED is now OFF")
  else
    ((response1.setField 0 4 0).strcpy 4 F.room F.greeting).bind fun response1 =>
      response1.strcat 4 F.room msg

/-- A client fills its record with a command and a message. -/
def fill (data_send : Rec F.size) (is_command : CInt) (message : CStr) : Option (Rec F.size) :=
  (data_send.setField 0 4 is_command).strcpy 4 F.room message.bytes

/-- `r` is a `status_update` of the record `q`. -/
def Reply (q r : Rec F.size) : Prop :=
  ∃ response1, F.statusUpdate response1 (q.field 0 4) (q.bytes.drop 4) = some r

/-- The request and the reply to it fit the array. -/
def Fits (is_command : CInt) (message : CStr) : Prop :=
  message.bytes.length < F.room ∧
    (is_command = 1 ∨ F.greeting.length + message.bytes.length < F.room)

instance (is_command : CInt) (message : CStr) : Decidable (F.Fits is_command message) :=
  inferInstanceAs (Decidable (_ ∧ _))

/-- A record with a string in it whose reply fits the array. -/
structure Ready (q : Rec F.size) : Prop where
  ends : 4 + (q.text 4).length < F.size
  reply_fits : q.field 0 4 = 1 ∨ F.greeting.length + (q.text 4).length < F.room

/-- The `is_command` of a reply. -/
def replyCommand (command : CInt) : CInt := if command = 1 then 1 else 0

/-- The text of a reply. -/
def replyText (command : CInt) (s : List Byte) : List Byte :=
  if command = 1 then
    if s = ascii "LED ON" then ascii "LED is now ON" else ascii "LED is now OFF"
  else F.greeting ++ s

variable {F}

theorem text_strcpy_setField (r : Rec F.size) (v : CInt) {ct : List Byte}
    (h : (CString.text ct).length < F.room) :
    ∃ r', (r.setField 0 4 v).strcpy 4 F.room ct = some r' ∧ r'.field 0 4 = v ∧
      r'.text 4 = CString.text ct := by
  have hF := F.room_le
  obtain ⟨r', hr, ht, hf⟩ := Rec.text_strcpy (r.setField 0 4 v) hF h
  exact ⟨r', hr, by rw [hf 0 4 le_rfl, Rec.field_put r (by omega)], ht⟩

theorem fill_spec (r : Rec F.size) {c : CInt} {m : CStr} (h : F.Fits c m) :
    ∃ q, F.fill r c m = some q ∧ F.Ready q ∧ q.field 0 4 = c ∧ q.text 4 = m.bytes := by
  have hm : CString.text m.bytes = m.bytes := text_eq_self m.no_nul
  have hlt : (CString.text m.bytes).length < F.room := by rw [hm]; exact h.1
  obtain ⟨q, hq, hc, ht⟩ := text_strcpy_setField r c hlt
  rw [hm] at ht
  refine ⟨q, hq, ⟨?_, ?_⟩, hc, ht⟩
  · have hF := F.room_le
    have h1 := h.1
    rw [ht]
    omega
  · rw [hc, ht]
    exact h.2

/-- **What `status_update` returns.** -/
theorem statusUpdate_spec (response1 : Rec F.size) {c : CInt} {msg : List Byte}
    (h : c = 1 ∨ F.greeting.length + (CString.text msg).length < F.room) :
    ∃ r, F.statusUpdate response1 c msg = some r ∧ r.field 0 4 = replyCommand c ∧
      r.text 4 = F.replyText c (CString.text msg) := by
  have hled := F.led_lt
  by_cases hc : c = 1
  · -- a command: one of the two literals, which fit every array
    rw [statusUpdate, if_pos hc, replyCommand, if_pos hc, replyText, if_pos hc]
    have hon : CString.text (ascii "LED ON") = ascii "LED ON" := by decide
    by_cases hs : strcmp msg (ascii "LED ON") = 0
    · have hm : CString.text msg = ascii "LED ON" := by rw [(strcmp_eq_zero _ _).1 hs, hon]
      rw [if_pos hs, if_pos hm]
      have hl : (CString.text (ascii "LED is now ON")).length = 13 := by decide
      exact text_strcpy_setField response1 1 (by omega)
    · have hm : CString.text msg ≠ ascii "LED ON" := by
        intro hm
        exact hs ((strcmp_eq_zero _ _).2 (hm.trans hon.symm))
      rw [if_neg hs, if_neg hm]
      have hl : (CString.text (ascii "LED is now OFF")).length = 14 := by decide
      exact text_strcpy_setField response1 1 (by omega)
  · -- a message: the greeting, then the message behind it
    rw [statusUpdate, if_neg hc, replyCommand, if_neg hc, replyText, if_neg hc]
    have hfit := h.resolve_left hc
    have hg : CString.text F.greeting = F.greeting := text_eq_self F.no_nul
    have hlt : (CString.text F.greeting).length < F.room := by rw [hg]; omega
    obtain ⟨r, hr, hi, ht⟩ := text_strcpy_setField response1 0 hlt
    rw [hg] at ht
    rw [← ht] at hfit
    obtain ⟨r', hr', ht', hf⟩ := Rec.text_strcat r F.room_le hfit
    refine ⟨r', by rw [hr]; exact hr', ?_, ?_⟩
    · rw [hf 0 4 le_rfl, hi]
    · rw [ht', ht]

/-- `status_update` depends on the text of its message only. -/
theorem statusUpdate_congr (response1 : Rec F.size) (c : CInt) {msg msg' : List Byte}
    (h : CString.text msg = CString.text msg') :
    F.statusUpdate response1 c msg = F.statusUpdate response1 c msg' := by
  have hs : strcmp msg (ascii "LED ON") = 0 ↔ strcmp msg' (ascii "LED ON") = 0 := by
    rw [strcmp_eq_zero, strcmp_eq_zero, h]
  simp only [statusUpdate, hs, Rec.strcat, h]

/-- The servers read the record into a larger buffer and work on that. -/
theorem statusUpdate_buffer {M : ℕ} (buffer : Rec M) (hM : F.size ≤ M) {q : Rec F.size}
    (hq : F.Ready q) (response1 : Rec F.size) :
    F.statusUpdate response1 ((buffer.put 0 q.bytes).field 0 4)
        ((buffer.put 0 q.bytes).bytes.drop 4) =
      F.statusUpdate response1 (q.field 0 4) (q.bytes.drop 4) := by
  have hF := F.room_le
  rw [Rec.field_put_prefix q buffer hM (by omega)]
  exact statusUpdate_congr response1 _ (Rec.text_put_prefix q buffer hM hq.ends)

theorem Ready.reply {q : Rec F.size} (hq : F.Ready q) (response1 : Rec F.size) :
    ∃ r, F.statusUpdate response1 (q.field 0 4) (q.bytes.drop 4) = some r ∧ F.Reply q r := by
  obtain ⟨r, hr, -⟩ := statusUpdate_spec response1 hq.reply_fits
  exact ⟨r, hr, response1, hr⟩

/-- What a reply says. -/
theorem Reply.spec {q r : Rec F.size} (hq : F.Ready q) (h : F.Reply q r) :
    r.field 0 4 = replyCommand (q.field 0 4) ∧
      r.text 4 = F.replyText (q.field 0 4) (q.text 4) := by
  obtain ⟨response1, hr⟩ := h
  obtain ⟨r', hr', hc, ht⟩ := statusUpdate_spec response1 hq.reply_fits
  obtain rfl := Option.some.inj (hr.symm.trans hr')
  exact ⟨hc, ht⟩

/-- A message that is no command is not the reply to itself. -/
theorem not_reply_self {q : Rec F.size} (hq : F.Ready q) (hg : F.greeting ≠ [])
    (hc : q.field 0 4 ≠ 1) : ¬ F.Reply q q := by
  intro h
  have ht := (h.spec hq).2
  rw [replyText, if_neg hc] at ht
  have hl := congrArg List.length ht
  rw [List.length_append] at hl
  have := List.length_pos_of_ne_nil hg
  omega

end Format

end Aesd
