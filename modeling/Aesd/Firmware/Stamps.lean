import Aesd.Firmware.Tasks

/-!
# The stamps of `TemperatureTask` and `AlertTask`

Both tasks call `timestamp()` for the seconds and again for the milliseconds of one message, so
their stamps are torn (`TornStamp`). With ticks `t₁ ≤ t₂` at the two calls the stamp is never
after `t₂`, and it is before `t₁` exactly when a second has begun in between and its
milliseconds have not come up to those of `t₁`: `stamps_iff`.

Each of the two tasks is a `TornStamp` writer (`writer`); while no stamp is torn so, the stamps
of its messages never decrease.
-/

namespace Aesd.Firmware

open CString CRecord

/-- The stamp in a message. -/
def stamp (r : LoggerStruct) : ℕ ×ₗ ℕ :=
  toLex ((r.field timeStampsec 4).toNat, (r.field timeStampmsec 4).toNat)

/-- What `timestamp()` returns at a tick. -/
def stampAt (t : ℕ) : ℕ ×ₗ ℕ := (timestamp (BitVec.ofNat 32 t)).pair

/-- The tick count stays below the bound, and the milliseconds of a stamp are read in the second
of its seconds, or as late in a later one. -/
def InOrder (s : State) : Act → Prop
  | .tick => s.ticks < 4294967
  | .temperature .msec => s.temperature.secTick % 1000 ≤ s.ticks % 1000
  | .alert .msec => s.alert.secTick % 1000 ≤ s.ticks % 1000
  | _ => True

/-- The stamps of a task's messages, in the order it sent them. -/
def stamps (s : State) (t : Task) : List (ℕ ×ₗ ℕ) := (s.messages t).map fun e => stamp e.data

variable {s s' : State} {a : Act} {r : LoggerStruct} {t₁ t₂ : ℕ}

/-! ### One stamp -/

/-- The seconds in the record are those of tick `t`. -/
def SecAt (r : LoggerStruct) (t : ℕ) : Prop :=
  r.field timeStampsec 4 = (timestamp (BitVec.ofNat 32 t)).sec

theorem secAt_setField (r : LoggerStruct) (t : ℕ) :
    SecAt (r.setField timeStampsec 4 (timestamp (BitVec.ofNat 32 t)).sec) t := by
  unfold SecAt
  apply Rec.field_put
  decide

/-- **Seconds of one tick and milliseconds of another** are a torn stamp. -/
theorem stamp_torn (h : SecAt r t₁) (h₁ : t₁ ≤ tickBound) (h₂ : t₂ ≤ tickBound) :
    stamp (r.setField timeStampmsec 4 (timestamp (BitVec.ofNat 32 t₂)).msec) =
      TornStamp.torn clock t₁ t₂ := by
  have hsec : (r.setField timeStampmsec 4 (timestamp (BitVec.ofNat 32 t₂)).msec).field
      timeStampsec 4 = (timestamp (BitVec.ofNat 32 t₁)).sec := by
    have hfit : timeStampmsec + (toLe 4 (timestamp (BitVec.ofNat 32 t₂)).msec.toNat).length ≤ 80 := by
      rw [length_toLe]
      decide
    rw [Rec.setField, Rec.field_put_before _ hfit (by decide), h]
  have hmsec : (r.setField timeStampmsec 4 (timestamp (BitVec.ofNat 32 t₂)).msec).field
      timeStampmsec 4 = (timestamp (BitVec.ofNat 32 t₂)).msec := by
    apply Rec.field_put
    decide
  have hpair₁ := pair_timestamp_ofNat h₁
  have hpair₂ := pair_timestamp_ofNat h₂
  unfold Timer.pair clock at hpair₁ hpair₂
  rw [toLex_inj, Prod.mk.injEq] at hpair₁ hpair₂
  unfold stamp TornStamp.torn TornStamp.low clock
  rw [hsec, hmsec, hpair₁.1, hpair₂.2]
  rfl

theorem stamp_between_iff (h : SecAt r t₁) (h₁₂ : t₁ ≤ t₂) (h₂ : t₂ ≤ tickBound) :
    stampAt t₁ ≤ stamp (r.setField timeStampmsec 4 (timestamp (BitVec.ofNat 32 t₂)).msec) ∧
        stamp (r.setField timeStampmsec 4 (timestamp (BitVec.ofNat 32 t₂)).msec) ≤ stampAt t₂ ↔
      t₁ % 1000 ≤ t₂ % 1000 := by
  have h₁ : t₁ ≤ tickBound := h₁₂.trans h₂
  unfold stampAt
  rw [stamp_torn h h₁ h₂, pair_timestamp_ofNat h₁, pair_timestamp_ofNat h₂,
    TornStamp.torn_between_iff clock_mono h₁₂]
  rfl

/-! ### The tasks as writers -/

/-- Between the two calls: the record has the seconds of an earlier tick. -/
def Temperature.Half (t : Temperature) (ticks : ℕ) : Prop :=
  t.pc = .msec → SecAt t.logStruct t.secTick ∧ t.secTick ≤ ticks

def Alert.Half (x : Alert) (ticks : ℕ) : Prop :=
  x.pc = .msec → SecAt x.logStruct x.secTick ∧ x.secTick ≤ ticks

def Temperature.phase (t : Temperature) : TornStamp.Phase ℕ ℕ ℕ :=
  match t.pc with
  | .msec => .half t.secTick
  | .send => .whole (stamp t.logStruct)
  | _ => .idle

def Alert.phase (x : Alert) : TornStamp.Phase ℕ ℕ ℕ :=
  match x.pc with
  | .msec => .half x.secTick
  | .send => .whole (stamp x.logStruct)
  | _ => .idle

theorem temperature_half {t t' : Temperature} {ticks : ℕ} {b : TemperatureAct}
    (hs : t.step ticks b = some t') : t'.Half ticks := by
  intro hpc'
  cases Temperature.effect hs with
  | sec _ => exact ⟨secAt_setField _ _, le_rfl⟩
  | test read _ _ => cases read <;> simp at hpc'
  | setup _ | clear _ | measure _ _ | msec _ => simp at hpc'

theorem alert_half {x x' : Alert} {ticks : ℕ} {edge : Byte} {b : AlertAct}
    (hs : x.step ticks edge b = some x') : x'.Half ticks := by
  intro hpc'
  cases Alert.effect hs with
  | sec _ => exact ⟨secAt_setField _ _, le_rfl⟩
  | testEdge _ =>
    simp only at hpc'
    split at hpc' <;> simp at hpc'
  | testFlag read _ _ => cases read <;> simp at hpc'
  | setup _ | clear _ | msec _ => simp at hpc'

/-- What a task has taken of the clock is from an earlier tick. -/
def Halves (s : State) : Prop := s.temperature.Half s.ticks ∧ s.alert.Half s.ticks

theorem ticks_le (hs : step s a = some s') : s.ticks ≤ s'.ticks := by
  rcases step_ticks hs with ⟨-, h⟩ | ⟨-, h⟩ <;> omega

theorem halves_step (h : Halves s) (hs : step s a = some s') : Halves s' := by
  have hle := ticks_le hs
  refine ⟨?_, ?_⟩
  · rcases step_temperature hs with ⟨-, ht⟩ | ⟨-, ht⟩ | ⟨b, rfl, ht⟩ | ⟨passed, -, -, ht⟩
    · intro hpc
      rw [ht] at hpc ⊢
      exact ⟨(h.1 hpc).1, (h.1 hpc).2.trans hle⟩
    · intro hpc
      rw [ht] at hpc ⊢
      exact ⟨(h.1 hpc).1, (h.1 hpc).2.trans hle⟩
    · intro hpc
      have hhalf := temperature_half ht hpc
      exact ⟨hhalf.1, hhalf.2.trans hle⟩
    · intro hpc
      rw [ht] at hpc
      simp at hpc
  · rcases step_alert hs with ⟨-, hx⟩ | ⟨-, hx⟩ | ⟨-, -, hx⟩ | ⟨b, rfl, hx⟩ | ⟨passed, -, -, hx⟩
    · intro hpc
      rw [hx] at hpc ⊢
      exact ⟨(h.2 hpc).1, (h.2 hpc).2.trans hle⟩
    · intro hpc
      rw [hx] at hpc ⊢
      exact ⟨(h.2 hpc).1, (h.2 hpc).2.trans hle⟩
    · intro hpc
      rw [hx] at hpc
      simp at hpc
    · intro hpc
      have hhalf := alert_half hx hpc
      exact ⟨hhalf.1, hhalf.2.trans hle⟩
    · intro hpc
      rw [hx] at hpc
      simp at hpc

theorem temperature_phase {t t' : Temperature} {ticks : ℕ} {b : TemperatureAct}
    (h : t.Half ticks) (hb : ticks ≤ tickBound)
    (hw : b = .msec → t.secTick % 1000 ≤ ticks % 1000) (hs : t.step ticks b = some t') :
    t'.phase = t.phase ∨
      ∀ xs, TornStamp.Step clock ⟨ticks, t.phase, xs⟩ ⟨ticks, t'.phase, xs⟩ := by
  unfold Temperature.phase
  cases Temperature.effect hs with
  | sec hpc =>
    simp only [hpc]
    exact .inr fun xs => .first ticks xs
  | msec hpc =>
    obtain ⟨hsec, hle⟩ := h hpc
    simp only [hpc]
    rw [stamp_torn hsec (hle.trans hb) hb]
    exact .inr fun xs => .second ticks _ xs (hw rfl)
  | test read hpc _ =>
    simp only [hpc]
    cases read <;> exact .inl rfl
  | setup hpc | clear hpc | measure _ hpc => simp [hpc]

theorem alert_phase {x x' : Alert} {ticks : ℕ} {edge : Byte} {b : AlertAct}
    (h : x.Half ticks) (hb : ticks ≤ tickBound)
    (hw : b = .msec → x.secTick % 1000 ≤ ticks % 1000) (hs : x.step ticks edge b = some x') :
    x'.phase = x.phase ∨
      ∀ xs, TornStamp.Step clock ⟨ticks, x.phase, xs⟩ ⟨ticks, x'.phase, xs⟩ := by
  unfold Alert.phase
  cases Alert.effect hs with
  | sec hpc =>
    simp only [hpc]
    exact .inr fun xs => .first ticks xs
  | msec hpc =>
    obtain ⟨hsec, hle⟩ := h hpc
    simp only [hpc]
    rw [stamp_torn hsec (hle.trans hb) hb]
    exact .inr fun xs => .second ticks _ xs (hw rfl)
  | testEdge hpc =>
    left
    simp only [hpc]
    by_cases hedge : edge = 0x01
    · rw [if_pos hedge]
    · rw [if_neg hedge]
  | testFlag read hpc _ =>
    simp only [hpc]
    cases read <;> exact .inl rfl
  | setup hpc | clear hpc => simp [hpc]

/-- A task in this phase, with the stamps of its messages, as a writer. -/
def writer (s : State) (t : Task) (p : TornStamp.Phase ℕ ℕ ℕ) : TornStamp.State ℕ ℕ ℕ :=
  ⟨s.ticks, p, stamps s t⟩

/-- A step in which the task does not send: time passes or the phase makes a step. -/
theorem writer_step {t : Task} {p p' : TornStamp.Phase ℕ ℕ ℕ} (hs : step s a = some s')
    (ha : ∀ passed, a ≠ .send t passed)
    (hp : p' = p ∨ a ≠ .tick ∧ ∀ xs, TornStamp.Step clock ⟨s.ticks, p, xs⟩ ⟨s.ticks, p', xs⟩) :
    TornStamp.Step clock (writer s t p) (writer s' t p') := by
  have hms : stamps s' t = stamps s t := by
    unfold stamps
    rcases step_messages hs t with ⟨-, h⟩ | ⟨h, -⟩
    · rw [h]
    · exact absurd h (ha true)
  unfold writer
  rw [hms]
  rcases hp with rfl | ⟨hne, hp⟩
  · exact .advance ⟨s.ticks, p', stamps s t⟩ s'.ticks (ticks_le hs)
  · rcases step_ticks hs with ⟨h, -⟩ | ⟨-, h⟩
    · exact absurd h hne
    · rw [h]
      exact hp _

/-- A send of the task. -/
theorem writer_send {t : Task} {passed : Bool} (hs : step s (.send t passed) = some s') :
    TornStamp.Step clock (writer s t (.whole (stamp (s.outgoing t).data))) (writer s' t .idle) := by
  have hticks : s'.ticks = s.ticks := by
    rcases step_ticks hs with ⟨h, -⟩ | ⟨-, h⟩
    · simp at h
    · exact h
  unfold writer stamps
  rw [hticks]
  rcases step_messages hs t with ⟨-, h⟩ | ⟨-, h⟩
  · rw [h]
    exact .drop ..
  · rw [h, List.map_append, List.map_singleton]
    exact .send ..

theorem temperature_writer (h : s.temperature.Half s.ticks) (hb : s.ticks ≤ tickBound)
    (hw : InOrder s a) (hs : step s a = some s') :
    TornStamp.Step clock (writer s .temperature s.temperature.phase)
      (writer s' .temperature s'.temperature.phase) := by
  rcases step_temperature hs with ⟨hne, ht⟩ | ⟨rfl, ht⟩ | ⟨b, rfl, ht⟩ | ⟨passed, rfl, hpc, ht⟩
  · refine writer_step hs (fun passed ha => hne ?_) (.inl (by rw [ht]))
    rw [ha, Act.task]
  · exact writer_step hs (by simp) (.inl (by rw [ht]; rfl))
  · refine writer_step hs (by simp) ?_
    have hp := temperature_phase h hb (fun hbm => ?_) ht
    · exact hp.imp_right fun hp => ⟨by simp, hp⟩
    · subst hbm
      exact hw
  · have hsend := writer_send hs
    unfold Temperature.phase
    rw [ht]
    simp only [hpc]
    exact hsend

theorem alert_writer (h : s.alert.Half s.ticks) (hb : s.ticks ≤ tickBound)
    (hw : InOrder s a) (hs : step s a = some s') :
    TornStamp.Step clock (writer s .alert s.alert.phase) (writer s' .alert s'.alert.phase) := by
  rcases step_alert hs with ⟨hne, hx⟩ | ⟨rfl, hx⟩ | ⟨rfl, hpc, hx⟩ | ⟨b, rfl, hx⟩ |
    ⟨passed, rfl, hpc, hx⟩
  · refine writer_step hs (fun passed ha => hne ?_) (.inl (by rw [hx]))
    rw [ha, Act.task]
  · exact writer_step hs (by simp) (.inl (by rw [hx]; rfl))
  · refine writer_step hs (by simp) (.inl ?_)
    unfold Alert.phase
    rw [hx]
    simp only [hpc]
  · refine writer_step hs (by simp) ?_
    have hp := alert_phase h hb (fun hbm => ?_) hx
    · exact hp.imp_right fun hp => ⟨by simp, hp⟩
    · subst hbm
      exact hw
  · have hsend := writer_send hs
    unfold Alert.phase
    rw [hx]
    simp only [hpc]
    exact hsend

/-! ### Runs -/

variable {d₁ d₂ d₃ : LoggerStruct} {pin : Bool} {as : List Act}

theorem halves_run (hr : Lts.Run (Lts.Steps step) (start d₁ d₂ d₃ pin) as s) : Halves s := by
  refine hr.invariant ?_ (fun h hs => halves_step h hs)
  constructor <;> intro h <;> simp [start] at h

/-- The bound on the ticks holds at every step. -/
theorem ticks_step (hb : s.ticks ≤ tickBound) (hw : InOrder s a) (hs : step s a = some s') :
    s'.ticks ≤ tickBound := by
  rcases step_ticks hs with ⟨rfl, h⟩ | ⟨-, h⟩
  · have hlt : s.ticks < 4294967 := hw
    unfold tickBound
    omega
  · rw [h]
    exact hb

/-- The task is where the writer is. -/
def Writes (t : Task) (phase : State → TornStamp.Phase ℕ ℕ ℕ) (s : State)
    (w : TornStamp.State ℕ ℕ ℕ) : Prop :=
  w = writer s t (phase s) ∧ Halves s ∧ s.ticks ≤ tickBound

/-- A task whose steps are those of a writer sends stamps that never decrease. -/
theorem stamps_sorted {t : Task} (phase : State → TornStamp.Phase ℕ ℕ ℕ)
    (h0 : phase (start d₁ d₂ d₃ pin) = .idle)
    (hstep : ∀ {s a s'}, Halves s → s.ticks ≤ tickBound → InOrder s a → step s a = some s' →
      TornStamp.Step clock (writer s t (phase s)) (writer s' t (phase s')))
    (hr : Lts.Run (Lts.When InOrder (Lts.Steps step)) (start d₁ d₂ d₃ pin) as s) :
    (stamps s t).Pairwise (· ≤ ·) := by
  have hstart : Writes t phase (start d₁ d₂ d₃ pin) ⟨0, .idle, []⟩ :=
    ⟨by rw [h0]; rfl, halves_run .nil, Nat.zero_le _⟩
  have hsim : ∀ {s a s' w}, Writes t phase s w → Lts.When InOrder (Lts.Steps step) s a s' →
      ∃ w', Relation.ReflTransGen (TornStamp.Step clock) w w' ∧ Writes t phase s' w' := by
    intro s a s' w hw hs
    obtain ⟨rfl, hh, hb⟩ := hw
    obtain ⟨hs, hc⟩ := hs
    exact ⟨_, .single (hstep hh hb hc hs), rfl, halves_step hh hs, ticks_step hb hc hs⟩
  obtain ⟨w, ⟨hw, -⟩, hsorted⟩ := TornStamp.sorted_of_run clock_mono hstart hsim hr
  rw [hw] at hsorted
  exact hsorted

/-- **The stamps of the two tasks**, in every run. With ticks `t₁ ≤ t₂` within the bound at the
two calls, the stamp lies between those of `t₁` and `t₂` exactly when the milliseconds of `t₂`
have not fallen below those of `t₁`, and in a run in which they never have the stamps of a
task's messages never decrease. -/
theorem stamps_iff (d₁ d₂ d₃ : LoggerStruct) (pin : Bool) {as : List Act} {s : State}
    (hr : Lts.Run (Lts.Steps step) (start d₁ d₂ d₃ pin) as s) :
    (s.ticks ≤ 4294967 →
      (∀ s', step s (.temperature .msec) = some s' →
        ((stampAt s.temperature.secTick ≤ stamp s'.temperature.logStruct ∧
            stamp s'.temperature.logStruct ≤ stampAt s.ticks) ↔
          s.temperature.secTick % 1000 ≤ s.ticks % 1000)) ∧
      ∀ s', step s (.alert .msec) = some s' →
        ((stampAt s.alert.secTick ≤ stamp s'.alert.logStruct ∧
            stamp s'.alert.logStruct ≤ stampAt s.ticks) ↔
          s.alert.secTick % 1000 ≤ s.ticks % 1000)) ∧
    (Lts.Run (Lts.When InOrder (Lts.Steps step)) (start d₁ d₂ d₃ pin) as s →
      (stamps s .temperature).Pairwise (· ≤ ·) ∧ (stamps s .alert).Pairwise (· ≤ ·)) := by
  obtain ⟨htemp, halert⟩ := halves_run hr
  refine ⟨fun hb => ⟨?_, ?_⟩, fun hwhen => ⟨?_, ?_⟩⟩
  · intro s' hs
    obtain ⟨t, ht, rfl⟩ := Option.map_eq_some_iff.1 hs
    simp only [Temperature.step, Option.ite_none_right_eq_some, Option.some.injEq] at ht
    obtain ⟨hpc, rfl⟩ := ht
    obtain ⟨hsec, hle⟩ := htemp hpc
    exact stamp_between_iff hsec hle hb
  · intro s' hs
    obtain ⟨x, hx, rfl⟩ := Option.map_eq_some_iff.1 hs
    simp only [Alert.step, Option.ite_none_right_eq_some, Option.some.injEq] at hx
    obtain ⟨hpc, rfl⟩ := hx
    obtain ⟨hsec, hle⟩ := halert hpc
    exact stamp_between_iff hsec hle hb
  · apply stamps_sorted (fun s => s.temperature.phase) rfl _ hwhen
    intro s a s' hh hb hw hs
    exact temperature_writer hh.1 hb hw hs
  · apply stamps_sorted (fun s => s.alert.phase) rfl _ hwhen
    intro s a s' hh hb hw hs
    exact alert_writer hh.2 hb hw hs

instance (s : State) : ∀ a, Decidable (InOrder s a)
  | .tick => inferInstanceAs (Decidable (s.ticks < 4294967))
  | .temperature .msec =>
    inferInstanceAs (Decidable (s.temperature.secTick % 1000 ≤ s.ticks % 1000))
  | .alert .msec => inferInstanceAs (Decidable (s.alert.secTick % 1000 ≤ s.ticks % 1000))
  | .temperature .setup | .temperature (.test _) | .temperature .clear | .temperature (.measure _)
  | .temperature .sec | .alert .setup | .alert (.testEdge _) | .alert (.testFlag _) | .alert .clear
  | .alert .sec | .timer1Callback | .timer2Callback | .timer3Callback | .led _ | .enable
  | .send _ _ | .portE _ | .receive | .printf => inferInstanceAs (Decidable True)

/-- The statements of the temperature task up to the seconds of its stamp. -/
def halfMessage : List Act :=
  [.timer2Callback, .temperature (.test true), .temperature .clear, .temperature (.measure 0),
    .temperature .sec]

/-- Two messages; a tick passes inside the first stamp and one before the second. -/
def twoStamps : List Act :=
  .temperature .setup :: halfMessage ++
    [.tick, .temperature .msec, .send .temperature true, .tick] ++ halfMessage ++
    [.temperature .msec, .send .temperature true]

theorem twoStamps_exec :
    (Lts.exec (Lts.guarded InOrder step) (start .zero .zero .zero true) twoStamps).map
      (fun s => stamps s .temperature) = some [toLex (0, 1), toLex (0, 2)] := by
  decide +kernel

theorem stamps_iff_twoStamps :
    ∃ s, Lts.exec (Lts.guarded InOrder step) (start .zero .zero .zero true) twoStamps = some s ∧
      stamps s .temperature = [toLex (0, 1), toLex (0, 2)] ∧
      (stamps s .temperature).Pairwise (· ≤ ·) := by
  obtain ⟨s, hs, he⟩ := Option.map_eq_some_iff.1 twoStamps_exec
  have hwhen := Lts.exec_guarded_run hs
  exact ⟨s, hs, he, ((stamps_iff .zero .zero .zero true (hwhen.mono And.left)).2 hwhen).1⟩

theorem run_ticks (s : State) (n : ℕ) :
    Lts.Run (Lts.Steps step) s (List.replicate n .tick) { s with ticks := s.ticks + n } := by
  induction n with
  | zero => exact .nil
  | succ n ih =>
    rw [List.replicate_succ']
    exact ih.snoc rfl

/-- The seconds at tick 999 and the milliseconds at tick 1000: the stamp of tick 0. -/
theorem stamp_early :
    ¬ ∀ (d₁ d₂ d₃ : LoggerStruct) (pin : Bool) (as : List Act) (s s' : State),
      Lts.Run (Lts.Steps step) (start d₁ d₂ d₃ pin) as s → s.ticks ≤ 4294967 →
        step s (.temperature .msec) = some s' →
          stampAt s.temperature.secTick ≤ stamp s'.temperature.logStruct ∧
            stamp s'.temperature.logStruct ≤ stampAt s.ticks := by
  intro h
  have hrun := run_ticks (start .zero .zero .zero true) 999
  have hexec : Lts.exec step { start .zero .zero .zero true with ticks := 0 + 999 }
      (.temperature .setup :: halfMessage ++ [.tick]) = some _ := rfl
  have hle := (h _ _ _ _ _ _ _ (hrun.append (Lts.exec_run step _ hexec)) (by decide) rfl).1
  revert hle
  decide +kernel

end Aesd.Firmware
