import Aesd.Firmware.Tasks

/-!
# Toggles of the LED and the messages that report them (`LEDTask.c`)

`Timer1Callback` toggles the LED and raises one flag; `LEDTask` counts its own messages. The
count keeps up with the LED (`Reported`) as long as each callback finds the flag cleared and
each message gets into the queue: `toggles_reported`. A callback that finds the flag raised
adds a toggle that no message reports (`toggles_merge`).
-/

namespace Aesd.Firmware

open CString CRecord

/-- Each message of the LED task reports one toggle and counts the toggles before it, and each
toggle is reported by one message, or its message is under way. -/
def Reported (s : State) : Prop :=
  (∀ e ∈ s.messages .led,
    ∃ k, e.reports = [k] ∧ (e.data.field toggleCount 4).toNat = k - 1 ∧ 1 ≤ k) ∧
  (s.messages .led).flatMap Entry.reports ++ s.led.reporting ++ s.led.waiting =
    List.range' 1 s.led.toggles

/-- The callback finds the last toggle taken up, the counter of the messages does not wrap, and
the message gets into the queue. -/
def KeepsUp (s : State) : Act → Prop
  | .timer1Callback => s.led.send_message = false ∧ s.led.toggles < 2 ^ 32
  | .send .led passed => passed = true
  | _ => True

instance (s : State) : ∀ a, Decidable (KeepsUp s a)
  | .timer1Callback =>
    inferInstanceAs (Decidable (s.led.send_message = false ∧ s.led.toggles < 2 ^ 32))
  | .send .led passed => inferInstanceAs (Decidable (passed = true))
  | .send .temperature _ | .send .alert _ | .tick | .timer2Callback | .timer3Callback | .led _
  | .temperature _ | .enable | .alert _ | .portE _ | .receive | .printf =>
    inferInstanceAs (Decidable True)

/-- The LED task keeps up with the LED; `ms` are its messages. -/
structure InStep (l : Led) (ms : List Entry) : Prop where
  single : ∀ e ∈ ms, ∃ k, e.reports = [k] ∧ (e.data.field toggleCount 4).toNat = k - 1 ∧ 1 ≤ k
  reported : ms.flatMap Entry.reports = List.range' 1 ms.length
  reporting : l.reporting = if l.pc = .send then [ms.length + 1] else []
  waiting : l.waiting = if l.send_message then [l.toggles] else []
  toggles : l.toggles = ms.length + (if l.pc = .send then 1 else 0) + l.send_message.toNat
  bound : l.toggles ≤ 2 ^ 32
  /-- a flag that was seen stays raised -/
  seen : l.pc = .timestamp ∨ l.pc = .fill ∨ l.pc = .clear → l.send_message = true
  count : (if l.pc = .count then l.count + 1 else l.count) = BitVec.ofNat (8 * 4) ms.length
  filled : l.pc = .clear ∨ l.pc = .send → l.logStruct.field toggleCount 4 = l.count

variable {s s' : State} {a : Act} {l l' : Led} {ms : List Entry}

theorem InStep.callback (h : InStep l ms) (hflag : l.send_message = false)
    (hlt : l.toggles < 2 ^ 32) : InStep l.timer1Callback ms := by
  have hwait := h.waiting
  have htog := h.toggles
  rw [hflag] at hwait htog
  unfold Led.timer1Callback
  refine ⟨h.single, h.reported, h.reporting, ?_, ?_, hlt, fun _ => rfl, h.count, h.filled⟩
  · simp [hwait]
  · simpa using htog

theorem InStep.statement {ticks : ℕ} {b : LedAct} (h : InStep l ms)
    (hs : l.step ticks b = some l') : InStep l' ms := by
  obtain ⟨hsingle, hrep, hreporting, hwaiting, htoggles, hbound, hseen, hcount, hfilled⟩ := h
  cases Led.effect hs with
  | setup hpc =>
    simp only [hpc] at hreporting htoggles hcount
    exact ⟨hsingle, hrep, by simpa using hreporting, hwaiting, by simpa using htoggles, hbound,
      by simp, by simpa using hcount, by simp⟩
  | timestamp hpc =>
    simp only [hpc] at hreporting htoggles hcount hseen
    exact ⟨hsingle, hrep, by simpa using hreporting, hwaiting, by simpa using htoggles, hbound,
      fun _ => hseen (by simp), by simpa using hcount, by simp⟩
  | test read hpc hread =>
    simp only [hpc] at hreporting htoggles hcount
    -- the flag is seen raised, or nothing happens
    cases read with
    | true =>
      exact ⟨hsingle, hrep, by simpa using hreporting, hwaiting, by simpa using htoggles, hbound,
        fun _ => hread.symm, by simpa using hcount, by simp⟩
    | false =>
      exact ⟨hsingle, hrep, by simpa using hreporting, hwaiting, by simpa using htoggles, hbound,
        by simp, by simpa using hcount, by simp⟩
  | fill hpc =>
    simp only [hpc] at hreporting htoggles hcount hseen
    refine ⟨hsingle, hrep, by simpa using hreporting, hwaiting, by simpa using htoggles, hbound,
      fun _ => hseen (by simp), by simpa using hcount, ?_⟩
    intro _
    exact Rec.field_put _ (by decide) l.count
  | clear hpc =>
    have hflag := hseen (by simp [hpc])
    -- one toggle is waiting, the one after those reported
    simp only [hpc, hflag] at hreporting hwaiting htoggles hcount
    simp only [if_true, Bool.toNat_true] at hwaiting htoggles
    have hlast : l.toggles = ms.length + 1 := by simpa using htoggles
    rw [hlast] at hwaiting
    exact ⟨hsingle, hrep, by simpa using hwaiting, by simp, by simpa using hlast, hbound,
      by simp, by simpa using hcount, fun _ => hfilled (.inl hpc)⟩
  | count hpc =>
    simp only [hpc] at hreporting htoggles hcount
    exact ⟨hsingle, hrep, by simpa using hreporting, hwaiting, by simpa using htoggles, hbound,
      by simp, by simpa using hcount, by simp⟩

theorem InStep.send (h : InStep l ms) (hpc : l.pc = .send) :
    InStep { l with pc := .count, reporting := [] } (ms ++ [⟨.led, l.logStruct, l.reporting⟩]) := by
  obtain ⟨hsingle, hrep, hreporting, hwaiting, htoggles, hbound, hseen, hcount, hfilled⟩ := h
  have hfield := hfilled (.inr hpc)
  simp only [hpc] at hreporting htoggles hcount
  simp only [if_true] at hreporting htoggles
  have hlt : ms.length < 2 ^ 32 := by omega
  have hnat : (l.logStruct.field toggleCount 4).toNat = ms.length := by
    rw [hfield]
    simp at hcount
    rw [hcount, BitVec.toNat_ofNat]
    exact Nat.mod_eq_of_lt hlt
  refine ⟨?_, ?_, by simp, hwaiting, ?_, hbound, by simp, ?_, by simp⟩
  · intro e he
    rcases List.mem_append.1 he with he | he
    · exact hsingle e he
    · rw [List.mem_singleton.1 he]
      exact ⟨ms.length + 1, hreporting, by simpa using hnat, by omega⟩
  · rw [List.flatMap_append, hrep, List.flatMap_singleton, List.length_append, hreporting,
      List.length_singleton, List.range'_concat]
    simp [add_comm]
  · simp [htoggles]
  · simp at hcount
    simp [hcount, BitVec.ofNat_add]

/-- A step that is no send of the LED task leaves its messages as they are. -/
theorem messages_led (hs : step s a = some s') (ha : a ≠ .send .led true) :
    s'.messages .led = s.messages .led := by
  rcases step_messages hs .led with ⟨-, h⟩ | ⟨h, -⟩
  · exact h
  · exact absurd h ha

theorem inStep_step (h : InStep s.led (s.messages .led))
    (hs : Lts.When KeepsUp (Lts.Steps step) s a s') : InStep s'.led (s'.messages .led) := by
  obtain ⟨hs, hkeeps⟩ := hs
  rcases step_led hs with ⟨hne, hl⟩ | ⟨rfl, hl⟩ | ⟨b, rfl, hl⟩ | ⟨passed, rfl, hpc, hl⟩
  · rw [hl, messages_led hs fun he => hne (by rw [he]; rfl)]
    exact h
  · rw [hl, messages_led hs (by simp)]
    exact h.callback hkeeps.1 hkeeps.2
  · rw [messages_led hs (by simp)]
    exact h.statement hl
  · obtain rfl : passed = true := hkeeps
    rcases step_messages hs .led with ⟨hne, -⟩ | ⟨-, hms⟩
    · exact absurd rfl hne
    · rw [hl, hms]
      exact h.send hpc

theorem InStep.range (h : InStep l ms) :
    ms.flatMap Entry.reports ++ l.reporting ++ l.waiting = List.range' 1 l.toggles := by
  have hconcat : ∀ n, List.range' 1 n ++ [n + 1] = List.range' 1 (n + 1) := by
    intro n
    rw [List.range'_1_concat, add_comm]
  have htog := h.toggles
  -- the toggle under way comes right behind what has been reported
  have hunder : List.range' 1 ms.length ++ (if l.pc = .send then [ms.length + 1] else []) =
      List.range' 1 (ms.length + if l.pc = .send then 1 else 0) := by
    by_cases hpc : l.pc = .send
    · rw [if_pos hpc, if_pos hpc, hconcat]
    · rw [if_neg hpc, if_neg hpc, List.append_nil, add_zero]
  rw [h.reported, h.reporting, h.waiting, hunder]
  cases hflag : l.send_message with
  | false =>
    rw [hflag, Bool.toNat_false, add_zero] at htog
    rw [htog]
    simp
  | true =>
    -- and the one that waits behind that
    rw [hflag, Bool.toNat_true] at htog
    rw [if_pos rfl, htog, hconcat]

/-- **The messages of the LED task keep up with the LED** in every run in which each callback
of its timer finds the last toggle taken up and each message gets into the queue. -/
theorem toggles_reported (d₁ d₂ d₃ : LoggerStruct) (pin : Bool) {as : List Act} {s : State}
    (hr : Lts.Run (Lts.When KeepsUp (Lts.Steps step)) (start d₁ d₂ d₃ pin) as s) :
    Reported s := by
  have h0 : InStep (start d₁ d₂ d₃ pin).led ((start d₁ d₂ d₃ pin).messages .led) := by
    constructor <;> simp [start, State.messages]
  have h : InStep s.led (s.messages .led) :=
    hr.invariant (I := fun s => InStep s.led (s.messages .led)) h0
      fun h hs => inStep_step h hs
  exact ⟨h.single, h.range⟩

/-- The statements of the LED task for one message. -/
def report : List Act :=
  [.led (.test true), .led .timestamp, .led .fill, .led .clear, .send .led true, .led .count]

/-- Two toggles, each with its own message. -/
def twoToggles : List Act := [.led .setup, .timer1Callback] ++ report ++ [.timer1Callback] ++ report

theorem twoToggles_exec :
    (Lts.exec (Lts.guarded KeepsUp step) (start .zero .zero .zero true) twoToggles).map
      (fun s => (s.messages .led).map fun e => e.data.field toggleCount 4) = some [0, 1] := by
  decide +kernel

theorem toggles_reported_twoToggles :
    ∃ s, Lts.exec (Lts.guarded KeepsUp step) (start .zero .zero .zero true) twoToggles = some s ∧
      (s.messages .led).map (fun e => e.data.field toggleCount 4) = [0, 1] ∧ Reported s := by
  obtain ⟨s, hs, he⟩ := Option.map_eq_some_iff.1 twoToggles_exec
  exact ⟨s, hs, he, toggles_reported .zero .zero .zero true (Lts.exec_guarded_run hs)⟩

/-- Two toggles before the task looks at the flag. -/
def mergedToggles : List Act := [.led .setup, .timer1Callback, .timer1Callback] ++ report

theorem mergedToggles_exec :
    (Lts.exec step (start .zero .zero .zero true) mergedToggles).map
      (fun s => (s.messages .led).map Entry.reports) = some [[1, 2]] := by
  decide +kernel

/-- One message reports them both. -/
theorem toggles_merge :
    ¬ ∀ (d₁ d₂ d₃ : LoggerStruct) (pin : Bool) (as : List Act) (s : State),
      Lts.Run (Lts.Steps step) (start d₁ d₂ d₃ pin) as s → Reported s := by
  intro h
  obtain ⟨s, hs, he⟩ := Option.map_eq_some_iff.1 mergedToggles_exec
  obtain ⟨e, hms, hrep⟩ := List.map_eq_singleton_iff.1 he
  obtain ⟨k, hk, -⟩ := (h .zero .zero .zero true mergedToggles s (Lts.exec_run _ _ hs)).1 e
    (by rw [hms]; exact List.mem_singleton_self e)
  rw [hrep] at hk
  simp at hk

end Aesd.Firmware
