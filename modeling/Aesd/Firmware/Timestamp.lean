import Aesd.Lib.TornStamp

/-!
# `timestamp()` of `HW5/Related Files/freertos/LEDTask.c`

`TicksToMS` multiplies the 32-bit tick count by 1000 before it divides by the tick rate, which
is 1000 as well. The product wraps from tick 4294968 on, so `timestamp` shows the seconds and
milliseconds of the tick count up to `tickBound` and of a smaller number after it
(`timestamp_exact_iff`).

`TemperatureTask` and `AlertTask` call `timestamp()` twice for one message, once for the
seconds and once for the milliseconds (`TornStamp`).
-/

namespace Aesd.Firmware

abbrev TickType := BitVec 32

def configTickRateHz : TickType := 1000

/-- The `timer` of `LEDTask.h`. -/
structure Timer where
  sec : TickType
  msec : TickType
deriving DecidableEq

def ticksToMS (ticks : TickType) : TickType := ticks * 1000 / configTickRateHz

/-- `timestamp()` when `xTaskGetTickCount()` is `ticks`. -/
def timestamp (ticks : TickType) : Timer :=
  let time_in_ms := ticksToMS ticks
  ⟨time_in_ms / 1000, time_in_ms - time_in_ms / 1000 * 1000⟩

/-- The stamp as a pair of numbers, in lexicographic order. -/
def Timer.pair (t : Timer) : ℕ ×ₗ ℕ := toLex (t.sec.toNat, t.msec.toNat)

/-- The last tick count whose product with 1000 fits 32 bits. -/
def tickBound : ℕ := 4294967

/-- Seconds and milliseconds of a tick count. -/
def clock (t : ℕ) : ℕ ×ₗ ℕ := toLex (t / 1000, t % 1000)

theorem clock_injective : Function.Injective clock := by
  intro t t' h
  unfold clock at h
  rw [toLex_inj, Prod.mk.injEq] at h
  omega

theorem clock_mono : Monotone clock := by
  intro t t' h
  unfold clock
  rw [Prod.Lex.le_iff]
  simp only [ofLex_toLex]
  omega

/-! ### One call -/

theorem toNat_ticksToMS (t : TickType) : (ticksToMS t).toNat = t.toNat * 1000 % 2 ^ 32 / 1000 := by
  unfold ticksToMS configTickRateHz
  rw [BitVec.toNat_udiv, BitVec.toNat_mul]
  rfl

/-- `timestamp` splits the milliseconds without loss. -/
theorem pair_timestamp (t : TickType) : (timestamp t).pair = clock (ticksToMS t).toNat := by
  have hlt := (ticksToMS t).isLt
  have hsec : (ticksToMS t / 1000).toNat = (ticksToMS t).toNat / 1000 := by
    rw [BitVec.toNat_udiv]
    rfl
  have hmul : (ticksToMS t / 1000 * 1000).toNat = (ticksToMS t).toNat / 1000 * 1000 := by
    rw [BitVec.toNat_mul, hsec]
    have h1000 : (1000 : TickType).toNat = 1000 := rfl
    rw [h1000]
    omega
  unfold timestamp Timer.pair clock
  simp only
  rw [hsec, BitVec.toNat_sub, hmul, toLex_inj, Prod.mk.injEq]
  exact ⟨rfl, by omega⟩

theorem ticksToMS_eq_iff (t : TickType) : (ticksToMS t).toNat = t.toNat ↔ t.toNat ≤ tickBound := by
  have hlt := t.isLt
  rw [toNat_ticksToMS]
  unfold tickBound
  omega

theorem pair_timestamp_eq_iff (t : TickType) :
    (timestamp t).pair = clock t.toNat ↔ t.toNat ≤ tickBound := by
  rw [pair_timestamp, clock_injective.eq_iff, ticksToMS_eq_iff]

/-- The stamp of a tick count below the bound. -/
theorem pair_timestamp_ofNat {t : ℕ} (h : t ≤ tickBound) :
    (timestamp (BitVec.ofNat 32 t)).pair = clock t := by
  have hnat : (BitVec.ofNat 32 t).toNat = t := by
    rw [BitVec.toNat_ofNat]
    unfold tickBound at h
    omega
  have hle : (BitVec.ofNat 32 t).toNat ≤ tickBound := by
    rw [hnat]
    exact h
  rw [(pair_timestamp_eq_iff _).2 hle, hnat]

/-- One tick past the bound the clock shows zero. -/
theorem timestamp_past : (timestamp 4294968).pair = clock 0 := by decide

/-- **`timestamp` is exact up to `tickBound`**, at every tick count, and that is as far as its
stamps never decrease. -/
theorem timestamp_exact_iff (t T : TickType) :
    (((timestamp t).sec.toNat = t.toNat / 1000 ∧ (timestamp t).msec.toNat = t.toNat % 1000) ↔
      t.toNat ≤ 4294967) ∧
    ((∀ t₁ t₂ : TickType, t₁ ≤ t₂ → t₂ ≤ T → (timestamp t₁).pair ≤ (timestamp t₂).pair) ↔
      T.toNat ≤ 4294967) := by
  constructor
  · rw [← Prod.mk.injEq]
    exact toLex_inj.symm.trans (pair_timestamp_eq_iff t)
  · constructor
    · intro h
      by_contra hT
      -- the stamp falls from the bound to the tick after it
      have hpast : (4294968 : TickType) ≤ T := by
        rw [BitVec.le_def]
        simp
        omega
      have hle := h 4294967 4294968 (by decide) hpast
      rw [timestamp_past, pair_timestamp] at hle
      revert hle
      decide
    · intro hT t₁ t₂ h12 h2
      rw [BitVec.le_def] at h12 h2
      have hT2 : t₂.toNat ≤ tickBound := h2.trans hT
      have h1 := (pair_timestamp_eq_iff t₁).2 (h12.trans hT2)
      have h2 := (pair_timestamp_eq_iff t₂).2 hT2
      rw [h1, h2]
      exact clock_mono h12

/-- The first tick count at which `timestamp` is wrong. -/
theorem timestamp_wraps :
    ¬ ∀ t : TickType,
      (timestamp t).sec.toNat = t.toNat / 1000 ∧ (timestamp t).msec.toNat = t.toNat % 1000 := by
  intro h
  have := (h 4294968).1
  revert this
  decide

end Aesd.Firmware
