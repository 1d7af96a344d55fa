import Aesd.Firmware.Timestamp
import Aesd.Lib.Record

/-!
# `logger_struct` and `Logger_printf` (`HW5/Related Files/freertos/Logger.h`, `Logger.c`)

The structure has 80 bytes on the board: `source[10]` at 0, the four words
`timeStampsec`, `timeStampmsec`, `toggleCount`, `temperature` at 12, 16, 20, 24, `name[20]` at
28 and `message[30]` at 48, with padding at 10, 11 and 78, 79.

`strcpy` does not know how long its array is (`store`); `stored` lists the bytes it writes.
`loggerPrintf` decides by the text in `source` how to print a message.
-/

namespace Aesd.Firmware

open CString CRecord

abbrev LoggerStruct := Rec 80

/-- A `char` array of the structure. -/
structure CharArray where
  offset : ℕ
  room : ℕ
deriving DecidableEq

def source : CharArray := ⟨0, 10⟩
def name : CharArray := ⟨28, 20⟩
def message : CharArray := ⟨48, 30⟩

/-- The offsets of the words. -/
def timeStampsec : ℕ := 12
def timeStampmsec : ℕ := 16
def toggleCount : ℕ := 20
def temperature : ℕ := 24

/-- A byte of the structure written by `strcpy` into an array. -/
structure Stored where
  array : CharArray
  offset : ℕ
deriving DecidableEq

/-- The byte is one of the array it was meant for. -/
def Stored.Inside (x : Stored) : Prop :=
  x.array.offset ≤ x.offset ∧ x.offset < x.array.offset + x.array.room

/-- `strcpy(logStruct.array, ct)`: the text and its NUL, wherever the array ends. -/
def CharArray.store (a : CharArray) (ct : List Byte) (r : LoggerStruct) : LoggerStruct :=
  r.put a.offset (ct ++ [0])

/-- The bytes that the same `strcpy` writes. -/
def CharArray.stored (a : CharArray) (ct : List Byte) : List Stored :=
  (List.range' a.offset (ct.length + 1)).map (Stored.mk a)

/-- The tasks that put messages in `loggerQueue`. -/
inductive Task
  | led
  | temperature
  | alert
deriving DecidableEq

/-- The text each task stores in `source`. -/
def Task.tag : Task → List Byte
  | .led => ascii "gpio"
  | .temperature => ascii "temperature"
  | .alert => ascii "alert"

def nachiket : List Byte := ascii "nachiket"
def aboveThreshold : List Byte := ascii "Temperature is above threshold"

/-- What `Logger_printf` prints behind the stamp and the source. -/
inductive Line
  | alert (message : List Byte)
  | temperature (value : BitVec (8 * 4))
  | gpio (toggleCount : BitVec (8 * 4)) (name : List Byte)
  | nothing
deriving DecidableEq

structure Printed where
  sec : BitVec (8 * 4)
  msec : BitVec (8 * 4)
  source : List Byte
  line : Line
deriving DecidableEq

def loggerPrintf (logStruct : LoggerStruct) : Printed where
  sec := logStruct.field timeStampsec 4
  msec := logStruct.field timeStampmsec 4
  source := logStruct.text source.offset
  line :=
    if strcmp (logStruct.bytes.drop source.offset) (ascii "alert") = 0 then
      .alert (logStruct.text message.offset)
    else if strcmp (logStruct.bytes.drop source.offset) (ascii "temperature") = 0 then
      .temperature (logStruct.field temperature 4)
    else if strcmp (logStruct.bytes.drop source.offset) (ascii "gpio") = 0 then
      .gpio (logStruct.field toggleCount 4) (logStruct.text name.offset)
    else .nothing

/-- The task whose branch of `Logger_printf` the line is. -/
def Line.task : Line → Option Task
  | .alert _ => some .alert
  | .temperature _ => some .temperature
  | .gpio _ _ => some .led
  | .nothing => none

/-! ### Strings in the structure -/

theorem mem_stored {a : CharArray} {ct : List Byte} {x : Stored} :
    x ∈ a.stored ct ↔ x.array = a ∧ a.offset ≤ x.offset ∧ x.offset ≤ a.offset + ct.length := by
  unfold CharArray.stored
  rw [List.mem_map]
  constructor
  · rintro ⟨o, ho, rfl⟩
    rw [List.mem_range'_1] at ho
    exact ⟨rfl, ho.1, Nat.le_of_lt_succ ho.2⟩
  · rintro ⟨rfl, h1, h2⟩
    exact ⟨x.offset, by rw [List.mem_range'_1]; omega, rfl⟩

/-- **A text is stored inside its array** exactly when it is shorter than the array. -/
theorem stored_inside_iff (a : CharArray) (ct : List Byte) :
    (∀ x ∈ a.stored ct, x.Inside) ↔ ct.length < a.room := by
  constructor
  · intro h
    -- its NUL is the last byte written
    have hlast := (h ⟨a, a.offset + ct.length⟩ (mem_stored.2 ⟨rfl, by simp, le_rfl⟩)).2
    simpa using hlast
  · intro h x hx
    obtain ⟨rfl, h1, h2⟩ := mem_stored.1 hx
    exact ⟨h1, by omega⟩

theorem text_store {a : CharArray} {ct : List Byte} (h0 : (0 : Byte) ∉ ct)
    (h : a.offset + ct.length < 80) (r : LoggerStruct) : (a.store ct r).text a.offset = ct := by
  unfold CharArray.store
  exact r.text_put h0 h

/-- Storing into a later array leaves a text alone that ends before it. -/
theorem text_store_behind {a : CharArray} {ct : List Byte} {r : LoggerStruct} {o : ℕ}
    (h : a.offset + ct.length < 80) (ho : o + (r.text o).length < a.offset) :
    (a.store ct r).text o = r.text o := by
  unfold CharArray.store
  refine r.text_put_behind ?_ ho
  rw [List.length_append, List.length_singleton]
  omega

/-- Setting a word leaves the arrays before and behind it alone. -/
theorem text_setField {r : LoggerStruct} {o o' : ℕ} (h : o + 4 ≤ 80) (v : BitVec (8 * 4))
    (ho : o' + (r.text o').length < o ∨ o + 4 ≤ o') : (r.setField o 4 v).text o' = r.text o' := by
  unfold Rec.setField
  have hlen : (toLe 4 v.toNat).length = 4 := length_toLe 4 v.toNat
  have hfit : o + (toLe 4 v.toNat).length ≤ 80 := by
    rw [hlen]
    exact h
  rcases ho with ho | ho
  · exact r.text_put_behind hfit ho
  · refine r.text_put_after hfit ?_
    rw [hlen]
    exact ho

theorem strcmp_eq_iff (r : LoggerStruct) (ct : List Byte) (h : text ct = ct) :
    strcmp (r.bytes.drop 0) ct = 0 ↔ r.text 0 = ct := by
  rw [strcmp_eq_zero, h]
  rfl

/-- **`Logger_printf` takes the branch of the task whose tag it finds.** -/
theorem task_loggerPrintf {r : LoggerStruct} {t : Task} (h : r.text 0 = t.tag) :
    (loggerPrintf r).line.task = some t := by
  have halert := strcmp_eq_iff r (ascii "alert") (by decide)
  have htemp := strcmp_eq_iff r (ascii "temperature") (by decide)
  have hgpio := strcmp_eq_iff r (ascii "gpio") (by decide)
  rw [h] at halert htemp hgpio
  unfold loggerPrintf source
  simp only
  cases t with
  | alert =>
    rw [if_pos (halert.2 rfl)]
    rfl
  | temperature =>
    rw [if_neg (fun hc => absurd (halert.1 hc) (by decide)), if_pos (htemp.2 rfl)]
    rfl
  | led =>
    rw [if_neg (fun hc => absurd (halert.1 hc) (by decide)),
      if_neg (fun hc => absurd (htemp.1 hc) (by decide)), if_pos (hgpio.2 rfl)]
    rfl

end Aesd.Firmware
