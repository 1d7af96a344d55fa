import Aesd.Firmware.Tasks

/-!
# What `edge` says about the pin (`PortEHandler` in `alert.c`)

`PortEHandler` clears the interrupt before it reads the pin, so a change after the read leaves
the interrupt pending and the handler runs again: whenever it has run and nothing is pending,
`edge` is the level of the pin (`UpToDate`). It runs at changes only. A level that was low when
`AlertTask` enabled the interrupt is not seen before it changes: `edge_iff`.
-/

namespace Aesd.Firmware

open CString

variable {s s' : State} {a : Act}

/-- What `PortEHandler` stores for a level. -/
def edgeOf (pin : Bool) : Byte := if pin then 0x02 else 0x01

theorem edgeOf_eq_one_iff (pin : Bool) : edgeOf pin = 0x01 ↔ pin = false := by
  cases pin <;> simp [edgeOf]

/-- With nothing pending, what the handler has read or stored is the level of the pin. Before
the first change there was nothing to read. -/
structure UpToDate (p : PortE) : Prop where
  enabled : p.changed = true → p.enabled = true
  /-- the handler runs at changes only -/
  changed : p.pending = true ∨ p.handler ≠ .idle → p.changed = true
  read : ∀ v, p.handler = .set v → p.pending = false → v = if p.pin then 1 else 0
  edge : p.pending = false → p.handler = .idle → p.changed = true → p.edge = edgeOf p.pin
  unchanged : p.changed = false → p.edge = 0x00 ∧ (p.enabled = true → p.pin = p.atEnable)

theorem upToDate_start (d₁ d₂ d₃ : LoggerStruct) (pin : Bool) : UpToDate (start d₁ d₂ d₃ pin).portE := by
  constructor <;> simp [start]

/-- The effect of each step of the pin and the handler. -/
inductive PortE.Effect (p : PortE) : PortAct → PortE → Prop
  | change :
      PortE.Effect p .change
        { p with pin := !p.pin, pending := p.pending || p.enabled, changed := p.changed || p.enabled }
  | clear (hp : p.pending = true) (h : p.handler = .idle) :
      PortE.Effect p .clear { p with pending := false, handler := .read }
  | read (h : p.handler = .read) :
      PortE.Effect p .read { p with handler := .set (if p.pin then 1 else 0) }
  | set (read_val : BitVec 32) (h : p.handler = .set read_val) :
      PortE.Effect p .set
        { p with handler := .idle,
                 edge := if read_val = 0 then 0x01 else if read_val = 1 then 0x02 else p.edge }

theorem PortE.effect {p p' : PortE} {b : PortAct} (hs : p.step b = some p') : p.Effect b p' := by
  unfold PortE.step at hs
  cases b with
  | change =>
    obtain rfl := Option.some.inj hs
    exact .change
  | clear =>
    simp only [Option.ite_none_right_eq_some, Option.some.injEq] at hs
    obtain ⟨⟨hp, hidle⟩, rfl⟩ := hs
    exact .clear hp hidle
  | read =>
    simp only [Option.ite_none_right_eq_some, Option.some.injEq] at hs
    obtain ⟨hread, rfl⟩ := hs
    exact .read hread
  | set =>
    simp only at hs
    split at hs
    · rename_i v hv
      obtain rfl := Option.some.inj hs
      exact .set v hv
    · simp at hs

/-- Without the interrupt the handler has never run. -/
theorem UpToDate.untouched {p : PortE} (h : UpToDate p) (hen : p.enabled = false) :
    p.changed = false ∧ p.pending = false ∧ p.handler = .idle := by
  have hc : p.changed ≠ true := by
    intro hc
    rw [h.enabled hc] at hen
    exact Bool.noConfusion hen
  refine ⟨by simpa using hc, ?_, ?_⟩
  · by_contra hp
    exact hc (h.changed (.inl (by simpa using hp)))
  · by_contra hp
    exact hc (h.changed (.inr hp))

theorem UpToDate.enable {p : PortE} (h : UpToDate p) (hen : p.enabled = false) : UpToDate p.enable := by
  obtain ⟨hun, -, -⟩ := h.untouched hen
  unfold PortE.enable
  refine ⟨fun _ => rfl, h.changed, h.read, h.edge, fun _ => ⟨(h.unchanged hun).1, fun _ => rfl⟩⟩

theorem UpToDate.step {p p' : PortE} {b : PortAct} (h : UpToDate p) (hs : p.step b = some p') :
    UpToDate p' := by
  cases PortE.effect hs with
  | change =>
    cases he : p.enabled with
    | true => constructor <;> simp
    | false =>
      obtain ⟨hc, hp, hidle⟩ := h.untouched he
      constructor <;> simp [hc, hp, hidle, h.unchanged hc]
  | clear hp _ =>
    have hc := h.changed (.inl hp)
    constructor <;> simp [hc, h.enabled hc]
  | read hr =>
    have hc := h.changed (.inr (by simp [hr]))
    constructor <;> simp [hc, h.enabled hc]
  | set v hv =>
    have hc := h.changed (.inr (by simp [hv]))
    constructor <;> simp [hc, h.enabled hc]
    intro hp
    rw [h.read v hv hp]
    cases p.pin <;> simp [edgeOf]

theorem enabled_step {p p' : PortE} {b : PortAct} (hs : p.step b = some p') :
    p'.enabled = p.enabled := by
  cases PortE.effect hs <;> rfl

/-- No statement of `AlertTask` leads back to where it enables the interrupt. -/
theorem alertPc_step {b : AlertAct} {x : Alert} {edge : Byte} {ticks : ℕ} {y : Alert}
    (hs : x.step ticks edge b = some y) : y.pc ≠ .enable := by
  cases Alert.effect hs with
  | setup _ | clear _ | sec _ | msec _ => simp
  | testEdge _ =>
    simp only
    split <;> simp
  | testFlag read _ _ => cases read <;> simp

/-- The invariant of the port. -/
structure PortInv (s : State) : Prop where
  once : s.alert.pc = .enable → s.portE.enabled = false
  upToDate : UpToDate s.portE

theorem portInv_step (h : PortInv s) (hs : step s a = some s') : PortInv s' := by
  obtain ⟨honce, hup⟩ := h
  constructor
  · intro hpc
    -- the task stands there still, so it has not enabled the interrupt
    have hpc' : s.alert.pc = .enable := by
      rcases step_alert hs with ⟨-, h⟩ | ⟨-, h⟩ | ⟨-, -, h⟩ | ⟨b, -, h⟩ | ⟨passed, -, -, h⟩
      · rwa [h] at hpc
      · rwa [h] at hpc
      · simp [h] at hpc
      · exact absurd hpc (alertPc_step h)
      · simp [h] at hpc
    rcases step_portE hs with h | ⟨rfl, -, -⟩ | ⟨b, -, h⟩
    · rw [h]
      exact honce hpc'
    · cases effect hs
      simp at hpc
    · rw [enabled_step h]
      exact honce hpc'
  · rcases step_portE hs with h | ⟨-, hpc, h⟩ | ⟨b, -, h⟩
    · rwa [h]
    · rw [h]
      exact hup.enable (honce hpc)
    · exact hup.step h

/-- **When `edge` says what the pin reads**: in every state of every run in which the
interrupt is enabled, none is pending and the handler is not running, exactly if the pin was
high when `AlertTask` enabled the interrupt or has changed since. -/
theorem edge_iff (d₁ d₂ d₃ : LoggerStruct) (pin : Bool) {as : List Act} {s : State}
    (hr : Lts.Run (Lts.Steps step) (start d₁ d₂ d₃ pin) as s) (hen : s.portE.enabled = true)
    (hp : s.portE.pending = false) (hi : s.portE.handler = .idle) :
    (s.portE.edge = 0x01 ↔ s.portE.pin = false) ↔
      s.portE.atEnable = true ∨ s.portE.changed = true := by
  have h0 : PortInv (start d₁ d₂ d₃ pin) := ⟨fun _ => rfl, upToDate_start d₁ d₂ d₃ pin⟩
  obtain ⟨-, hup⟩ := hr.invariant h0 (fun h hs => portInv_step h hs)
  cases hc : s.portE.changed with
  | true =>
    rw [hup.edge hp hi hc, edgeOf_eq_one_iff]
    simp
  | false =>
    -- `edge` still has its first value
    obtain ⟨he, hpin⟩ := hup.unchanged hc
    rw [he, hpin hen]
    cases s.portE.atEnable <;> simp

/-- The pin is low when the interrupt is enabled, goes high and low again. -/
def lowHighLow : List Act :=
  [.enable, .portE .change, .portE .clear, .portE .read, .portE .change, .portE .set,
    .portE .clear, .portE .read, .portE .set]

theorem edge_lowHighLow :
    ∃ s, Lts.exec step (start .zero .zero .zero false) lowHighLow = some s ∧
      ((s.portE.edge = 0x01 ↔ s.portE.pin = false) ↔
        s.portE.atEnable = true ∨ s.portE.changed = true) := by
  refine ⟨_, rfl, ?_⟩
  exact edge_iff .zero .zero .zero false (Lts.exec_run step lowHighLow rfl) rfl rfl rfl

/-- A level that is low from the start raises no interrupt. -/
theorem edge_misses_low :
    ¬ ∀ (d₁ d₂ d₃ : LoggerStruct) (pin : Bool) (as : List Act) (s : State),
      Lts.Run (Lts.Steps step) (start d₁ d₂ d₃ pin) as s → s.portE.enabled = true →
        s.portE.pending = false → s.portE.handler = .idle →
          (s.portE.edge = 0x01 ↔ s.portE.pin = false) := by
  intro h
  have hedge := (h .zero .zero .zero false [.enable] _ (Lts.exec_run step [.enable] rfl)
    rfl rfl rfl).2 rfl
  revert hedge
  decide

end Aesd.Firmware
