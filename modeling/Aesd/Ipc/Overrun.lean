import Aesd.Ipc.Queue
import Aesd.Ipc.Shmem
import Aesd.Ipc.Socket

/-!
# When `status_update` stays in its array

A reply to a message is the greeting and the message behind it, copied by `strcpy` and
`strcat` into an array no larger than the one the message came in. Neither copy is given
the size of the array, so a message that fits the request need not fit the reply.

* `Format.stays_iff`: the reply stays in the array exactly when greeting, message and NUL
  fit it. A command stays whatever its text is.
* `statusUpdate_stays_iff`: the bounds of the three programs.
-/

namespace Aesd

open CString CRecord

namespace Format

variable {F : Format}

/-- The reply is written inside the array: the call returns, with a NUL in the array and
nothing changed behind it. -/
def Stays (F : Format) (response1 : Rec F.size) (command : CInt) (msg : List Byte) : Prop :=
  ∃ r, F.statusUpdate response1 command msg = some r ∧ (0 : Byte) ∈ r.slice 4 F.room ∧
    r.bytes.drop (4 + F.room) = response1.bytes.drop (4 + F.room)

theorem drop_setField (r : Rec F.size) (v : CInt) :
    (r.setField 0 4 v).bytes.drop (4 + F.room) = r.bytes.drop (4 + F.room) := by
  have hF := F.room_le
  refine Rec.drop_put_after r ?_ ?_ <;> rw [length_toLe] <;> omega

/-- What is copied to the array changes nothing behind it. -/
theorem drop_statusUpdate {response1 r : Rec F.size} {command : CInt} {msg : List Byte}
    (h : F.statusUpdate response1 command msg = some r) :
    r.bytes.drop (4 + F.room) = response1.bytes.drop (4 + F.room) := by
  have hF := F.room_le
  unfold statusUpdate at h
  split_ifs at h with hc hs
  · rw [Rec.drop_strcpy _ hF h, drop_setField]
  · rw [Rec.drop_strcpy _ hF h, drop_setField]
  · obtain ⟨r₁, h1, h2⟩ := Option.bind_eq_some_iff.1 h
    rw [Rec.drop_strcat _ hF h2, Rec.drop_strcpy _ hF h1, drop_setField]

/-- A message that does not fit behind the greeting. -/
theorem statusUpdate_overrun (response1 : Rec F.size) {command : CInt} {msg : List Byte}
    (hc : command ≠ 1) (h : F.room ≤ F.greeting.length + (CString.text msg).length) :
    F.statusUpdate response1 command msg = none := by
  rw [statusUpdate, if_neg hc]
  have hg : CString.text F.greeting = F.greeting := text_eq_self F.no_nul
  by_cases hlt : (CString.text F.greeting).length < F.room
  · -- `strcpy` of the greeting returns, and `strcat` runs out of the array
    obtain ⟨r, hr, -, ht⟩ := text_strcpy_setField response1 0 hlt
    rw [hg] at ht
    rw [hr]
    refine if_neg ?_
    rw [ht]
    omega
  · rw [Rec.strcpy, if_neg hlt]
    rfl

/-- **The reply stays in its array** exactly when it fits. -/
theorem stays_iff (response1 : Rec F.size) (command : CInt) (msg : List Byte) :
    F.Stays response1 command msg ↔
      command = 1 ∨ F.greeting.length + (CString.text msg).length < F.room := by
  constructor
  · rintro ⟨r, hr, -⟩
    by_contra hn
    rw [not_or, not_lt] at hn
    rw [statusUpdate_overrun response1 hn.1 hn.2] at hr
    exact absurd hr (Option.some_ne_none r).symm
  · intro h
    have hF := F.room_le
    have hled := F.led_lt
    obtain ⟨r, hr, -, ht⟩ := statusUpdate_spec response1 h
    refine ⟨r, hr, r.nul_mem_slice hF ?_, drop_statusUpdate hr⟩
    -- the text of the reply is shorter than the array
    rw [ht, replyText]
    split_ifs with hc hs
    · exact lt_trans (by decide) hled
    · exact lt_of_le_of_lt (by decide) hled
    · rw [List.length_append]
      exact h.resolve_left hc

end Format

/-- **When the three `status_update`s stay in their arrays**, for every command and every
message, whatever the local variable held before. -/
theorem statusUpdate_stays_iff (command : CInt) (msg : List Byte) :
    (∀ response1, Queue.format.Stays response1 command msg ↔
      command = 1 ∨ (CString.text msg).length ≤ 12) ∧
    (∀ response1, Shmem.format.Stays response1 command msg ↔
      command = 1 ∨ (CString.text msg).length ≤ 22) ∧
    ∀ response1, Socket.format.Stays response1 command msg ↔
      command = 1 ∨ (CString.text msg).length ≤ 26 := by
  have hlong : (ascii "You sent message:").length = 17 := by decide
  have hlonger : (ascii "You sent the message - ").length = 23 := by decide
  refine ⟨?_, ?_, ?_⟩
  · intro response1
    have hroom : Queue.format.room = 30 := rfl
    rw [Format.stays_iff, hlong, hroom]
    exact or_congr_right (by omega)
  · intro response1
    have hroom : Shmem.format.room = 40 := rfl
    rw [Format.stays_iff, hlong, hroom]
    exact or_congr_right (by omega)
  · intro response1
    have hroom : Socket.format.room = 50 := rfl
    rw [Format.stays_iff, hlonger, hroom]
    exact or_congr_right (by omega)

/-- A message of 13 characters, which the 30 bytes of a request have room for. -/
theorem statusUpdate_leaves_array :
    ¬ ∀ (response1 : Rec 36) (command : CInt) (msg : CStr), msg.bytes.length ≤ 29 →
      Queue.format.Stays response1 command msg.bytes := by
  intro h
  have hs := h Rec.zero 0 ⟨ascii "a new message", by decide⟩ (by decide)
  rw [Format.stays_iff] at hs
  revert hs
  decide

end Aesd
