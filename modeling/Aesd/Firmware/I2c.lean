import Aesd.Lib.CString
import Mathlib.Data.Rat.Floor

/-!
# The registers of the temperature sensor (`Temperature.c`)

`i2c_write` sends three bytes: the number of a register and, for the registers that can be
written, `data` in two bytes. The limits `TLOW_REG` and `THIGH_REG` are kept in sixteenths
of a degree, in the upper 12 of their 16 bits. `i2c_read` puts two received bytes together
and `read_temperature` turns them into degrees.

* `readTemperature_limit`: what is read back of a limit are the low 12 bits of what
  `data/0.0625` was converted to.
* `i2cWrite_keeps_iff`: `data` survives in `CONFIG_REG`, and as a limit of -128 to 127
  degrees. Everything else is sent as well, the two bytes behind an unknown register or
  `TEMP_REG` uninitialised.
-/

namespace Aesd.Firmware

open CString

/-- The slave address of the sensor. -/
def TEMP_SENS_ADDR : Byte := 0x48

def TEMP_REG : Byte := 0x00

def CONFIG_REG : Byte := 0x01

def TLOW_REG : Byte := 0x02

def THIGH_REG : Byte := 0x03

/-- The commands of the I2C master. -/
inductive MasterCmd
  | singleSend
  | burstSendStart
  | burstSendCont
  | burstSendFinish
  | burstReceiveStart
  | burstReceiveFinish
deriving DecidableEq

/-- What `i2c_write` and `i2c_read` ask of the driver. Each `control` is followed by the wait
until the master is not busy. -/
inductive I2cCall
  | slaveAddrSet (slave_addr : Byte) (receive : Bool)
  | dataPut (data : Byte)
  | control (cmd : MasterCmd)
  | dataGet
  | uartPrintf (text : List Byte)
deriving DecidableEq

/-- `i2c_read(slave_addr, reg)`, where `data1` and `data2` are what `I2CMasterDataGet` returns. -/
def i2cRead (slave_addr reg : Byte) (data1 data2 : BitVec 32) : List I2cCall × BitVec 16 :=
  ([.slaveAddrSet slave_addr false, .dataPut reg, .control .singleSend,
    .slaveAddrSet slave_addr true, .control .burstReceiveStart, .dataGet,
    .control .burstReceiveFinish, .dataGet],
   ((data1.setWidth 16).setWidth 32 <<< 8 ||| data2).setWidth 16)

/-- `read_temperature(slave_addr, reg)`; the multiplication by 0.0625 is exact. -/
def readTemperature (slave_addr reg : Byte) (data1 data2 : BitVec 32) : List I2cCall × ℚ :=
  if reg = CONFIG_REG then
    ([.uartPrintf (ascii "Configuration register is not temperature\n\r")], -1000)
  else
    let (calls, temperature) := i2cRead slave_addr reg data1 data2
    let temperature := temperature.sshiftRight 4
    (calls, temperature.toInt * 0.0625)

section

-- the conversion of a `double` to `int16_t`
variable (toInt16 : ℚ → BitVec 16)

/-- `buffer[1]` and `buffer[2]` behind the `switch`, from what they are before it. -/
def i2cBuffer (reg : Byte) (data : BitVec 16) (buffer : Byte × Byte) : Byte × Byte :=
  if reg = TEMP_REG then buffer
  else if reg = CONFIG_REG then ((data.sshiftRight 8).setWidth 8, data.setWidth 8)
  else if reg = TLOW_REG ∨ reg = THIGH_REG then
    let data := toInt16 (data.toInt / 0.0625)
    ((data.sshiftRight 4).setWidth 8, (data <<< 4).setWidth 8)
  -- the `switch` has no `default`
  else buffer

/-- `i2c_write(slave_addr, reg, data)`; `buffer` is not initialised. -/
def i2cWrite (slave_addr reg : Byte) (data : BitVec 16) (buffer : Byte × Byte) : List I2cCall :=
  let (buffer1, buffer2) := i2cBuffer toInt16 reg data buffer
  (if reg = TEMP_REG then
    [.uartPrintf (ascii "Temperature register is read only register\n\r")] else []) ++
  [.slaveAddrSet slave_addr false,
   .dataPut reg, .control .burstSendStart,
   .dataPut buffer1, .control .burstSendCont,
   .dataPut buffer2, .control .burstSendFinish]

/-- The bytes that go out on the bus. -/
def sent : List I2cCall → List Byte
  | .dataPut b :: .control _ :: calls => b :: sent calls
  | _ :: calls => sent calls
  | [] => []

/-- What a driver gets for a received byte. -/
def received (b : Byte) : BitVec 32 := b.setWidth 32

/-- `data` reaches the register: the two bytes sent behind its number are read back as `data`,
or as `data` degrees. -/
def Reaches (slave_addr reg : Byte) (data : BitVec 16) (calls : List I2cCall) : Prop :=
  ∃ b₁ b₂, sent calls = [reg, b₁, b₂] ∧
    ((reg = CONFIG_REG ∧ (i2cRead slave_addr reg (received b₁) (received b₂)).2 = data) ∨
      ((reg = TLOW_REG ∨ reg = THIGH_REG) ∧
        (readTemperature slave_addr reg (received b₁) (received b₂)).2 = data.toInt))

/-- `data` reaches the register, or the bus is left alone. -/
def Keeps (slave_addr reg : Byte) (data : BitVec 16) (calls : List I2cCall) : Prop :=
  Reaches slave_addr reg data calls ∨ ∀ cmd, I2cCall.control cmd ∉ calls

/-- A `double` that is a whole number of the range of `int16_t` is converted to that number.
What happens to one outside the range is not defined. -/
def Converts : Prop := ∀ n : ℤ, -2 ^ 15 ≤ n → n < 2 ^ 15 → (toInt16 n).toInt = n

variable {toInt16}

theorem sent_i2cWrite (slave_addr reg : Byte) (data : BitVec 16) (buffer : Byte × Byte) :
    sent (i2cWrite toInt16 slave_addr reg data buffer) =
      [reg, (i2cBuffer toInt16 reg data buffer).1, (i2cBuffer toInt16 reg data buffer).2] := by
  unfold i2cWrite
  split_ifs <;> rfl

/-- Every call of `i2c_write` uses the bus. -/
theorem control_mem_i2cWrite (slave_addr reg : Byte) (data : BitVec 16) (buffer : Byte × Byte) :
    I2cCall.control .burstSendStart ∈ i2cWrite toInt16 slave_addr reg data buffer := by
  unfold i2cWrite
  exact List.mem_append_right _ (by simp)

/-! ### Putting the bytes together again -/

theorem toNat_i2cRead (slave_addr reg b₁ b₂ : Byte) :
    (i2cRead slave_addr reg (received b₁) (received b₂)).2.toNat = b₁.toNat * 2 ^ 8 + b₂.toNat := by
  have h1 := b₁.isLt
  have h2 := b₂.isLt
  have h16 : b₁.toNat % 2 ^ 32 % 2 ^ 16 % 2 ^ 32 = b₁.toNat := by omega
  have h32 : b₂.toNat % 2 ^ 32 = b₂.toNat := by omega
  have hshift : b₁.toNat <<< 8 % 2 ^ 32 = b₁.toNat <<< 8 :=
    Nat.mod_eq_of_lt (by rw [Nat.shiftLeft_eq]; omega)
  have hor : b₁.toNat <<< 8 ||| b₂.toNat = b₁.toNat * 2 ^ 8 + b₂.toNat := by
    rw [← Nat.shiftLeft_add_eq_or_of_lt h2, Nat.shiftLeft_eq]
  simp only [i2cRead, received, BitVec.toNat_setWidth, BitVec.toNat_or, BitVec.toNat_shiftLeft]
  rw [h16, h32, hshift, hor]
  exact Nat.mod_eq_of_lt (by omega)

theorem toInt_sshiftRight_div (data : BitVec 16) (n : ℕ) :
    (data.sshiftRight n).toInt = data.toInt / 2 ^ n := by
  rw [BitVec.toInt_sshiftRight, Int.shiftRight_eq_div_pow]
  norm_cast

/-- **Reading back two bytes of `CONFIG_REG`.** -/
theorem i2cRead_config (slave_addr reg : Byte) (data : BitVec 16) :
    (i2cRead slave_addr reg (received ((data.sshiftRight 8).setWidth 8))
      (received (data.setWidth 8))).2 = data := by
  refine BitVec.eq_of_toNat_eq ?_
  have hs := toInt_sshiftRight_div data 8
  have h1 := data.isLt
  have h2 := (data.sshiftRight 8).isLt
  rw [toNat_i2cRead, BitVec.toNat_setWidth, BitVec.toNat_setWidth]
  rw [BitVec.toInt_eq_toNat_cond, BitVec.toInt_eq_toNat_cond] at hs
  split_ifs at hs <;> omega

/-- **Reading back a limit**: of what `data/0.0625` was converted to, the low 12 bits are left. -/
theorem readTemperature_limit {reg : Byte} (hreg : reg ≠ CONFIG_REG) (slave_addr : Byte)
    (limit : BitVec 16) :
    (readTemperature slave_addr reg (received ((limit.sshiftRight 4).setWidth 8))
      (received ((limit <<< 4).setWidth 8))).2 = (limit.toInt.bmod (2 ^ 12) : ℚ) / 16 := by
  rw [readTemperature, if_neg hreg]
  set word := (i2cRead slave_addr reg (received ((limit.sshiftRight 4).setWidth 8))
    (received ((limit <<< 4).setWidth 8))).2 with hword
  -- bits 4 to 11 are in the first byte, bits 0 to 3 at the top of the second
  have hw : word.toNat = (limit.sshiftRight 4).toNat % 2 ^ 8 * 2 ^ 8 +
      limit.toNat * 2 ^ 4 % 2 ^ 16 % 2 ^ 8 := by
    rw [hword, toNat_i2cRead, BitVec.toNat_setWidth, BitVec.toNat_setWidth, BitVec.toNat_shiftLeft,
      Nat.shiftLeft_eq]
  have hmod : (word.sshiftRight 4).toInt = limit.toInt.bmod (2 ^ 12) := by
    have hs := toInt_sshiftRight_div limit 4
    have h1 := (limit.sshiftRight 4).isLt
    have h2 := limit.isLt
    rw [toInt_sshiftRight_div, Int.bmod_def]
    simp only [BitVec.toInt_eq_toNat_cond] at hs ⊢
    split_ifs at hs ⊢ <;> omega
  change ((word.sshiftRight 4).toInt : ℚ) * 0.0625 = _
  rw [hmod]
  ring

/-- The limits that are read back as they were given. -/
theorem limit_iff (hconv : Converts toInt16) (data : BitVec 16) :
    (((toInt16 (data.toInt / 0.0625)).toInt.bmod (2 ^ 12) : ℤ) : ℚ) / 16 = data.toInt ↔
      -128 ≤ data.toInt ∧ data.toInt ≤ 127 := by
  have hdiv : (data.toInt : ℚ) / 0.0625 = ((16 * data.toInt : ℤ) : ℚ) := by
    push_cast
    ring
  rw [hdiv, div_eq_iff (by norm_num)]
  constructor
  · -- 12 bits hold no other number of degrees, whatever the conversion made of it
    intro h
    have h16 : (toInt16 ((16 * data.toInt : ℤ) : ℚ)).toInt.bmod (2 ^ 12) = data.toInt * 16 := by
      exact_mod_cast h
    have hle : -(2 ^ 11) ≤ (toInt16 ((16 * data.toInt : ℤ) : ℚ)).toInt.bmod (2 ^ 12) :=
      Int.le_bmod (by norm_num)
    have hlt : (toInt16 ((16 * data.toInt : ℤ) : ℚ)).toInt.bmod (2 ^ 12) < 2 ^ 11 :=
      Int.bmod_lt (by norm_num)
    omega
  · rintro ⟨h1, h2⟩
    have hc := hconv (16 * data.toInt) (by omega) (by omega)
    rw [hc, Int.bmod_eq_of_le (by omega) (by omega)]
    push_cast
    ring

/-! ### What reaches the registers -/

/-- The transmission is not skipped for any register. -/
theorem keeps_iff_reaches (slave_addr reg : Byte) (data : BitVec 16) (buffer : Byte × Byte) :
    Keeps slave_addr reg data (i2cWrite toInt16 slave_addr reg data buffer) ↔
      Reaches slave_addr reg data (i2cWrite toInt16 slave_addr reg data buffer) := by
  refine or_iff_left ?_
  intro hquiet
  exact hquiet _ (control_mem_i2cWrite slave_addr reg data buffer)

/-- Which two bytes are read back is settled by `i2cBuffer`. -/
theorem reaches_iff (slave_addr reg : Byte) (data : BitVec 16) (buffer : Byte × Byte) :
    Reaches slave_addr reg data (i2cWrite toInt16 slave_addr reg data buffer) ↔
      (reg = CONFIG_REG ∧
        (i2cRead slave_addr reg (received (i2cBuffer toInt16 reg data buffer).1)
          (received (i2cBuffer toInt16 reg data buffer).2)).2 = data) ∨
      ((reg = TLOW_REG ∨ reg = THIGH_REG) ∧
        (readTemperature slave_addr reg (received (i2cBuffer toInt16 reg data buffer).1)
          (received (i2cBuffer toInt16 reg data buffer).2)).2 = data.toInt) := by
  unfold Reaches
  rw [sent_i2cWrite]
  constructor
  · rintro ⟨b₁, b₂, hsent, h⟩
    simp only [List.cons.injEq, true_and, and_true] at hsent
    obtain ⟨rfl, rfl⟩ := hsent
    exact h
  · intro h
    exact ⟨_, _, rfl, h⟩

/-- **What `i2c_write` does right**: for every register, all data and whatever the bytes of
`buffer` were, `data` reaches the register or the bus is left alone exactly when the register
is `CONFIG_REG`, or it is a limit of -128 to 127 degrees. -/
theorem i2cWrite_keeps_iff (hconv : Converts toInt16) (slave_addr reg : Byte) (data : BitVec 16)
    (buffer : Byte × Byte) :
    Keeps slave_addr reg data (i2cWrite toInt16 slave_addr reg data buffer) ↔
      reg = CONFIG_REG ∨
        ((reg = TLOW_REG ∨ reg = THIGH_REG) ∧ -128 ≤ data.toInt ∧ data.toInt ≤ 127) := by
  rw [keeps_iff_reaches, reaches_iff]
  by_cases hconfig : reg = CONFIG_REG
  · have htemp : reg ≠ TEMP_REG := by
      rw [hconfig]
      decide
    refine iff_of_true (.inl ⟨hconfig, ?_⟩) (.inl hconfig)
    rw [i2cBuffer, if_neg htemp, if_pos hconfig]
    exact i2cRead_config slave_addr reg data
  · simp only [hconfig, false_and, false_or]
    refine and_congr_right ?_
    intro hlimit
    have htemp : reg ≠ TEMP_REG := by
      rcases hlimit with rfl | rfl <;> decide
    rw [i2cBuffer, if_neg htemp, if_neg hconfig, if_pos hlimit]
    dsimp only
    rw [readTemperature_limit hconfig]
    exact limit_iff hconv data

/-- The limits `TemperatureTask` sets. -/
theorem i2cWrite_keeps_iff_limits :
    Keeps TEMP_SENS_ADDR THIGH_REG 27 (i2cWrite (fun q => BitVec.ofInt 16 ⌊q⌋) TEMP_SENS_ADDR
      THIGH_REG 27 (0, 0)) ↔
      THIGH_REG = CONFIG_REG ∨ ((THIGH_REG = TLOW_REG ∨ THIGH_REG = THIGH_REG) ∧
        -128 ≤ (27 : BitVec 16).toInt ∧ (27 : BitVec 16).toInt ≤ 127) := by
  refine i2cWrite_keeps_iff ?_ TEMP_SENS_ADDR THIGH_REG 27 (0, 0)
  intro n h1 h2
  show (BitVec.ofInt 16 ⌊(n : ℚ)⌋).toInt = n
  rw [Int.floor_intCast, BitVec.toInt_ofInt]
  exact Int.bmod_eq_of_le (by omega) (by omega)

/-- A write to the read-only register goes out all the same. -/
theorem i2cWrite_sends_temp_reg :
    ¬ ∀ (reg : Byte) (data : BitVec 16) (buffer : Byte × Byte), Keeps TEMP_SENS_ADDR reg data
      (i2cWrite (fun q => BitVec.ofInt 16 ⌊q⌋) TEMP_SENS_ADDR reg data buffer) := by
  intro h
  have hk := h TEMP_REG 27 (0, 0)
  rw [keeps_iff_reaches, reaches_iff] at hk
  revert hk
  simp only [TEMP_REG, CONFIG_REG, TLOW_REG, THIGH_REG]
  decide

end

end Aesd.Firmware
