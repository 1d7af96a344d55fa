import Aesd.Lib.CString
import Aesd.Lib.Numeral

/-!
# How `UARTprintf` prints numbers (`HW5/Related Files/freertos/utils/uartstdio.c`)

`UARTvprintf` converts a value in `pcBuf`, an array of 16: one loop finds the highest place
and counts the characters left for padding, with wrap-around, and one divides downwards.

* `convert_spec`: what is stored, and that it is stored only when it fits.
* `convert_outcome`: the widths for which a conversion writes behind `pcBuf`, those it
  observes, and those it ignores.
* `convertSigned_reads_back`: a printed `%d` reads back as the value.
-/

namespace Aesd.Firmware

open CString

/-- What goes wrong in a call. -/
inductive Fault
  /-- the format is read behind its NUL -/
  | format
  /-- `pcBuf` is written behind its end -/
  | buffer
  /-- an argument is not there or has another type -/
  | argument
deriving DecidableEq

def gPcHex : List Byte := ascii "0123456789abcdef"

/-- The byte of an ASCII character. -/
def chr (c : Char) : Byte := BitVec.ofNat 8 c.toNat

/-- `pcBuf[ui32Pos++] = c` -/
def push (pcBuf : List Byte) (c : Byte) : Except Fault (List Byte) :=
  if pcBuf.length < 16 then .ok (pcBuf ++ [c]) else .error .buffer

/-- The loop that finds the highest place of the value and takes its places from the
count; it multiplies `ui32Idx` at most 31 times. -/
def scale (ui32Value ui32Base : BitVec 32) : ℕ → BitVec 32 → BitVec 32 → BitVec 32 × BitVec 32
  | 0, ui32Idx, ui32Count => (ui32Idx, ui32Count)
  | fuel + 1, ui32Idx, ui32Count =>
    if ui32Idx * ui32Base ≤ ui32Value ∧ ui32Idx * ui32Base / ui32Base = ui32Idx then
      scale ui32Value ui32Base fuel (ui32Idx * ui32Base) (ui32Count - 1)
    else (ui32Idx, ui32Count)

/-- The characters of the loop that divides `ui32Idx` down to 0. -/
def digitChars (ui32Value ui32Base : BitVec 32) : ℕ → BitVec 32 → List Byte
  | 0, _ => []
  | fuel + 1, ui32Idx =>
    if ui32Idx = 0 then []
    else gPcHex.getD (ui32Value / ui32Idx % ui32Base).toNat 0 ::
      digitChars ui32Value ui32Base fuel (ui32Idx / ui32Base)

/-- Store characters under a condition. -/
def storeIf (p : Prop) [Decidable p] (chars pcBuf : List Byte) : Except Fault (List Byte) :=
  if p then chars.foldlM push pcBuf else .ok pcBuf

/-- The code at `convert`: what `pcBuf` holds at the end. -/
def convert (ui32Value ui32Base ui32Count : BitVec 32) (ui32Neg : Bool) (cFill : Byte) :
    Except Fault (List Byte) := do
  let scaled := scale ui32Value ui32Base 32 1 ui32Count
  let ui32Count := if ui32Neg then scaled.2 - 1 else scaled.2
  -- a minus sign goes before zeros and behind spaces
  let pcBuf ← storeIf (ui32Neg = true ∧ cFill = chr '0') [chr '-'] []
  let pcBuf ← storeIf (1 < ui32Count ∧ ui32Count < 16)
    (List.replicate (ui32Count - 1).toNat cFill) pcBuf
  let pcBuf ← storeIf (ui32Neg = true ∧ cFill ≠ chr '0') [chr '-'] pcBuf
  (digitChars ui32Value ui32Base 32 scaled.1).foldlM push pcBuf

/-- `%d`: the value without its sign is converted. -/
def convertSigned (ui32Value ui32Count : BitVec 32) (cFill : Byte) : Except Fault (List Byte) :=
  if ui32Value.toInt < 0 then convert (-ui32Value) 10 ui32Count true cFill
  else convert ui32Value 10 ui32Count false cFill

/-! ### Numbers -/

section Number

variable {value base : BitVec 32} {k : ℕ} {idx : BitVec 32}

/-- The test of the first loop, an overflow of the product included. -/
theorem scale_test (hb : 1 < base.toNat) (hidx : idx.toNat = base.toNat ^ k) :
    (idx * base ≤ value ∧ idx * base / base = idx) ↔ base.toNat ^ (k + 1) ≤ value.toNat := by
  have hv := value.isLt
  have hmul : (idx * base).toNat = base.toNat ^ (k + 1) % 2 ^ 32 := by
    rw [BitVec.toNat_mul, hidx, pow_succ base.toNat k]
  rw [BitVec.le_def, ← BitVec.toNat_inj, BitVec.toNat_udiv, hmul, hidx]
  by_cases hlt : base.toNat ^ (k + 1) < 2 ^ 32
  · rw [Nat.mod_eq_of_lt hlt, pow_succ, Nat.mul_div_cancel _ (by omega)]
    simp
  · -- the product has lost its top bits, so dividing does not give the index back
    constructor
    · rintro ⟨-, hdiv⟩
      have hle := Nat.div_mul_le_self (base.toNat ^ (k + 1) % 2 ^ 32) base.toNat
      rw [hdiv, ← pow_succ] at hle
      have hmod := Nat.mod_lt (base.toNat ^ (k + 1)) (Nat.two_pow_pos 32)
      omega
    · intro hle
      omega

/-- **The first loop finds the highest place.** -/
theorem scale_spec (hb : 1 < base.toNat) (hidx : idx.toNat = base.toNat ^ k)
    (hk : k ≤ Numeral.topPlace base.toNat value.toNat) (fuel : ℕ)
    (hfuel : Numeral.topPlace base.toNat value.toNat - k < fuel) (count : BitVec 32) :
    (scale value base fuel idx count).1.toNat =
        base.toNat ^ Numeral.topPlace base.toNat value.toNat ∧
      (scale value base fuel idx count).2 =
        count - BitVec.ofNat 32 (Numeral.topPlace base.toNat value.toNat - k) := by
  induction fuel generalizing idx k count with
  | zero => omega
  | succ fuel ih =>
    rw [scale]
    by_cases htest : base.toNat ^ (k + 1) ≤ value.toNat
    · rw [if_pos ((scale_test hb hidx).2 htest)]
      have hk' := (Numeral.le_topPlace_iff (k := k + 1) hb).2 (.inr htest)
      have hidx' : (idx * base).toNat = base.toNat ^ (k + 1) := by
        rw [BitVec.toNat_mul, hidx, ← pow_succ]
        exact Nat.mod_eq_of_lt (lt_of_le_of_lt htest value.isLt)
      obtain ⟨h1, h2⟩ := ih hidx' hk' (by omega) (count - 1)
      refine ⟨h1, ?_⟩
      rw [h2, show Numeral.topPlace base.toNat value.toNat - k =
        Numeral.topPlace base.toNat value.toNat - (k + 1) + 1 by omega, BitVec.ofNat_add]
      bv_omega
    · rw [if_neg (fun h => htest ((scale_test hb hidx).1 h))]
      have hk' : Numeral.topPlace base.toNat value.toNat = k := by
        by_contra hne
        have hle : k + 1 ≤ Numeral.topPlace base.toNat value.toNat := by omega
        rcases (Numeral.le_topPlace_iff hb).1 hle with h | h
        · exact absurd h (Nat.succ_ne_zero k)
        · exact htest h
      rw [hk', Nat.sub_self]
      refine ⟨hidx, ?_⟩
      bv_omega

theorem gPcHex_getD : ∀ d < 16, gPcHex.getD d 0 = chr (Nat.digitChar d) := by
  decide

theorem digitChars_succ (hb : 0 < base.toNat) (hb16 : base.toNat ≤ 16)
    (hidx : idx.toNat = base.toNat ^ k) (fuel : ℕ) :
    digitChars value base (fuel + 1) idx =
      chr (Nat.digitChar (value.toNat / base.toNat ^ k % base.toNat)) ::
        digitChars value base fuel (idx / base) := by
  have hne : idx ≠ 0 := by
    intro h0
    have hpow := Nat.pow_pos (n := k) hb
    rw [← hidx, h0] at hpow
    exact absurd hpow (by decide)
  have hdigit : (value / idx % base).toNat = value.toNat / base.toNat ^ k % base.toNat := by
    rw [BitVec.toNat_umod, BitVec.toNat_udiv, hidx]
  have hlt : value.toNat / base.toNat ^ k % base.toNat < 16 :=
    lt_of_lt_of_le (Nat.mod_lt _ hb) hb16
  rw [digitChars, if_neg hne, hdigit, gPcHex_getD _ hlt]

/-- **The second loop gives the digits from a place down.** -/
theorem digitChars_spec (hb : 1 < base.toNat) (hb16 : base.toNat ≤ 16)
    (hidx : idx.toNat = base.toNat ^ k) (fuel : ℕ) (hfuel : k < fuel) :
    digitChars value base fuel idx =
      (Numeral.places base.toNat value.toNat k).map fun d => chr (Nat.digitChar d) := by
  have hpos : 0 < base.toNat := by omega
  induction k generalizing idx fuel with
  | zero =>
    obtain ⟨fuel, rfl⟩ : ∃ f, fuel = f + 1 := ⟨fuel - 1, by omega⟩
    -- the index is 1, and 0 after the division
    have h0 : idx / base = 0 := by
      rw [← BitVec.toNat_inj, BitVec.toNat_udiv, hidx, Nat.pow_zero]
      exact Nat.div_eq_of_lt hb
    rw [digitChars_succ hpos hb16 hidx, h0]
    cases fuel <;> rfl
  | succ k ih =>
    obtain ⟨fuel, rfl⟩ : ∃ f, fuel = f + 1 := ⟨fuel - 1, by omega⟩
    have hidx' : (idx / base).toNat = base.toNat ^ k := by
      rw [BitVec.toNat_udiv, hidx, pow_succ, Nat.mul_div_cancel _ hpos]
    rw [digitChars_succ hpos hb16 hidx, ih hidx' fuel (by omega)]
    rfl

/-- The numeral of a value. -/
def numeral (base value : ℕ) : List Byte := (Nat.toDigits base value).map chr

theorem length_numeral (base value : ℕ) :
    (numeral base value).length = Numeral.topPlace base value + 1 := by
  rw [numeral, List.length_map, Numeral.length_toDigits]

theorem topPlace_lt (hb : 1 < base.toNat) : Numeral.topPlace base.toNat value.toNat < 32 := by
  have hv := value.isLt
  by_contra hn
  rcases (Numeral.le_topPlace_iff hb).1 (not_lt.1 hn) with h | h
  · exact absurd h (by decide)
  · have hle : 2 ^ 32 ≤ base.toNat ^ 32 := Nat.pow_le_pow_left hb 32
    omega

/-- Both loops from the start print the numeral. -/
theorem digitChars_scale (hb : 1 < base.toNat) (hb16 : base.toNat ≤ 16) (count : BitVec 32) :
    digitChars value base 32 (scale value base 32 1 count).1 = numeral base.toNat value.toNat := by
  have htop : Numeral.topPlace base.toNat value.toNat < 32 := topPlace_lt hb
  have hone : (1 : BitVec 32).toNat = base.toNat ^ 0 := by rw [Nat.pow_zero]; rfl
  obtain ⟨hidx, -⟩ := scale_spec hb hone (Nat.zero_le _) 32 (by omega) count
  rw [digitChars_spec hb hb16 hidx 32 htop, numeral, Numeral.toDigits_eq_places hb, List.map_map]
  rfl

/-- What is left of the count for padding. -/
theorem snd_scale (hb : 1 < base.toNat) (count : BitVec 32) :
    (scale value base 32 1 count).2 =
      count - BitVec.ofNat 32 (Numeral.topPlace base.toNat value.toNat) := by
  have htop : Numeral.topPlace base.toNat value.toNat < 32 := topPlace_lt hb
  have hone : (1 : BitVec 32).toNat = base.toNat ^ 0 := by rw [Nat.pow_zero]; rfl
  exact (scale_spec hb hone (Nat.zero_le _) 32 (by omega) count).2

/-- What is stored when all of it fits. -/
theorem foldlM_push (l : List Byte) {buf : List Byte} (hbuf : buf.length ≤ 16) :
    l.foldlM push buf =
      if (buf ++ l).length ≤ 16 then .ok (buf ++ l) else .error .buffer := by
  induction l generalizing buf with
  | nil =>
    rw [List.append_nil, if_pos hbuf]
    rfl
  | cons c l ih =>
    rw [List.foldlM_cons, push]
    by_cases hlt : buf.length < 16
    · rw [if_pos hlt]
      have hbuf' : (buf ++ [c]).length ≤ 16 := by
        rw [List.length_append, List.length_singleton]
        omega
      rw [List.append_cons buf c l]
      exact ih hbuf'
    · have hlong : ¬ (buf ++ c :: l).length ≤ 16 := by
        rw [List.length_append, List.length_cons]
        omega
      rw [if_neg hlt, if_neg hlong]
      rfl

/-- Sign and digits, padded to a width that is less than 15 above their length. -/
def field (digits : List Byte) (width : ℕ) (neg : Bool) (fill : Byte) : List Byte :=
  let sign := if neg then [chr '-'] else []
  let len := sign.length + digits.length
  let pad := List.replicate (if width < len + 15 then width - len else 0) fill
  if fill = chr '0' then sign ++ pad ++ digits else pad ++ sign ++ digits

theorem storeIf_eq (p : Prop) [Decidable p] (l buf : List Byte) :
    storeIf p l buf = (if p then l else []).foldlM push buf := by
  unfold storeIf
  by_cases h : p
  · rw [if_pos h, if_pos h]
  · rw [if_neg h, if_neg h]
    rfl

/-- **The padding**: the count that is left allows it when the width lies between the length
and 15 above it. -/
theorem padding_eq {width rest : BitVec 32} {len : ℕ} (hpos : 0 < len) (hlen : len ≤ 33)
    (hrest : rest = width - BitVec.ofNat 32 (len - 1)) (fill : Byte) :
    (if 1 < rest ∧ rest < 16 then List.replicate (rest - 1).toNat fill else []) =
      List.replicate (if width.toNat < len + 15 then width.toNat - len else 0) fill := by
  have hw := width.isLt
  have hofNat : (BitVec.ofNat 32 (len - 1)).toNat = len - 1 := by
    rw [BitVec.toNat_ofNat, Nat.mod_eq_of_lt (by omega)]
  have h1 : (1 : BitVec 32).toNat = 1 := rfl
  have h16 : (16 : BitVec 32).toNat = 16 := rfl
  have htoNat : rest.toNat = (2 ^ 32 - (len - 1) + width.toNat) % 2 ^ 32 := by
    rw [hrest, BitVec.toNat_sub, hofNat]
  have hiff : 1 < rest ∧ rest < 16 ↔ len < width.toNat ∧ width.toNat < len + 15 := by
    rw [BitVec.lt_def, BitVec.lt_def, htoNat, h1, h16]
    omega
  have hsub : len < width.toNat → (rest - 1).toNat = width.toNat - len := by
    rw [BitVec.toNat_sub, htoNat, h1]
    omega
  by_cases hlt : width.toNat < len + 15
  · rw [if_pos hlt]
    by_cases hlen' : len < width.toNat
    · rw [if_pos (hiff.2 ⟨hlen', hlt⟩), hsub hlen']
    · rw [if_neg (fun h => hlen' (hiff.1 h).1), Nat.sub_eq_zero_of_le (not_lt.1 hlen')]
      rfl
  · rw [if_neg hlt, if_neg (fun h => hlt (hiff.1 h).2)]
    rfl

/-- **What a conversion stores**: sign, padding and numeral, when they fit. -/
theorem convert_spec (hb : 1 < base.toNat) (hb16 : base.toNat ≤ 16) (width : BitVec 32)
    (neg : Bool) (fill : Byte) :
    convert value base width neg fill =
      let f := field (numeral base.toNat value.toNat) width.toNat neg fill
      if f.length ≤ 16 then .ok f else .error .buffer := by
  have htop : Numeral.topPlace base.toNat value.toNat < 32 := topPlace_lt hb
  have hlen := length_numeral base.toNat value.toNat
  have hempty : ([] : List Byte).length ≤ 16 := Nat.zero_le 16
  have hfold := foldlM_push (field (numeral base.toNat value.toNat) width.toNat neg fill) hempty
  rw [List.nil_append] at hfold
  refine Eq.trans ?_ hfold
  unfold convert
  simp only [storeIf_eq, ← List.foldlM_append, digitChars_scale hb hb16, snd_scale hb]
  generalize hrest : (if neg = true then
    width - BitVec.ofNat 32 (Numeral.topPlace base.toNat value.toNat) - 1
    else width - BitVec.ofNat 32 (Numeral.topPlace base.toNat value.toNat)) = rest
  unfold field
  cases neg with
  | false =>
    have hrest' : rest = width - BitVec.ofNat 32 (Numeral.topPlace base.toNat value.toNat + 1 - 1) := by
      rw [← hrest]
      rfl
    have hpad := padding_eq (Nat.succ_pos _) (by omega) hrest' fill
    rw [hpad]
    simp [hlen]
  | true =>
    have hone : (1 : BitVec 32) = BitVec.ofNat 32 1 := rfl
    have hrest' : rest = width - BitVec.ofNat 32 (Numeral.topPlace base.toNat value.toNat + 2 - 1) := by
      rw [← hrest, if_pos rfl, BitVec.sub_sub, hone, ← BitVec.ofNat_add]
      rfl
    have hpad := padding_eq (Nat.succ_pos _) (by omega) hrest' fill
    have hlen' : 1 + (numeral base.toNat value.toNat).length =
        Numeral.topPlace base.toNat value.toNat + 2 := by omega
    rw [hpad]
    by_cases hfill : fill = chr '0'
    · simp [hfill, hlen']
    · simp [hfill, hlen']

end Number

/-! ### Widths -/

/-- Sign and digits in a field of at least `width` characters. -/
def padded (digits : List Byte) (width : ℕ) (neg : Bool) (fill : Byte) : List Byte :=
  let sign := if neg then [chr '-'] else []
  let pad := List.replicate (width - (sign.length + digits.length)) fill
  if fill = chr '0' then sign ++ pad ++ digits else pad ++ sign ++ digits

/-- The characters that are there without padding. -/
def bare (digits : List Byte) (neg : Bool) : ℕ := neg.toNat + digits.length

section Width

variable {digits : List Byte} {width : ℕ} {neg : Bool} {fill : Byte}

theorem sign_length (neg : Bool) (c : Byte) : (if neg then [c] else []).length = neg.toNat := by
  cases neg <;> rfl

theorem length_padded : (padded digits width neg fill).length = max width (bare digits neg) := by
  unfold padded bare
  by_cases hfill : fill = chr '0'
  · simp only [hfill, if_true, List.length_append, List.length_replicate, sign_length]
    omega
  · simp only [hfill, if_false, List.length_append, List.length_replicate, sign_length]
    omega

theorem field_eq_padded : field digits width neg fill =
    padded digits (if width < bare digits neg + 15 then width else 0) neg fill := by
  have hpad : (if width < neg.toNat + digits.length + 15 then width - (neg.toNat + digits.length)
      else 0) =
      (if width < neg.toNat + digits.length + 15 then width else 0) -
        (neg.toNat + digits.length) := by
    split_ifs <;> omega
  unfold field padded bare
  simp only [sign_length, hpad]

theorem length_field : (field digits width neg fill).length =
    if width < bare digits neg + 15 then max width (bare digits neg) else bare digits neg := by
  rw [field_eq_padded, length_padded]
  split_ifs <;> omega

end Width

section Number

variable {value base : BitVec 32}

/-- A conversion does not need all of `pcBuf` for its digits. -/
theorem bare_le (value : BitVec 32) (hb : 10 ≤ base.toNat) (neg : Bool) :
    1 ≤ bare (numeral base.toNat value.toNat) neg ∧
      bare (numeral base.toNat value.toNat) neg ≤ 11 := by
  have hv := value.isLt
  have hle : (numeral base.toNat value.toNat).length ≤ 10 := by
    rw [numeral, List.length_map, Nat.length_toDigits_le_iff (by omega) (by decide)]
    have hpow : 10 ^ 10 ≤ base.toNat ^ 10 := Nat.pow_le_pow_left hb 10
    omega
  have hpos := length_numeral base.toNat value.toNat
  have hneg := neg.toNat_le
  unfold bare
  omega

/-- **When a conversion writes behind `pcBuf`.** -/
theorem convert_error_iff (hb : 10 ≤ base.toNat) (hb16 : base.toNat ≤ 16) (width : BitVec 32)
    (neg : Bool) (fill : Byte) :
    convert value base width neg fill = .error .buffer ↔
      16 < width.toNat ∧ width.toNat < bare (numeral base.toNat value.toNat) neg + 15 := by
  have hbare := bare_le value hb neg
  rw [convert_spec (by omega) hb16]
  dsimp only
  rw [length_field]
  by_cases hlt : width.toNat < bare (numeral base.toNat value.toNat) neg + 15
  · rw [if_pos hlt]
    split_ifs with h
    · simp only [false_iff]
      omega
    · simp only [true_iff]
      omega
  · rw [if_neg hlt, if_pos (by omega)]
    simp only [reduceCtorEq, false_iff]
    omega

/-- **When a conversion has its width.** -/
theorem convert_padded_iff (value : BitVec 32) (hb : 10 ≤ base.toNat) (hb16 : base.toNat ≤ 16) (width : BitVec 32)
    (neg : Bool) (fill : Byte) :
    convert value base width neg fill =
        .ok (padded (numeral base.toNat value.toNat) width.toNat neg fill) ↔
      width.toNat ≤ 15 ∨ width.toNat = 16 ∧ 2 ≤ bare (numeral base.toNat value.toNat) neg := by
  have hbare := bare_le value hb neg
  rw [convert_spec (by omega) hb16]
  dsimp only
  rw [length_field, field_eq_padded]
  by_cases hlt : width.toNat < bare (numeral base.toNat value.toNat) neg + 15
  · rw [if_pos hlt, if_pos hlt]
    split_ifs with h
    · simp only [true_iff]
      omega
    · simp only [false_iff]
      omega
  · rw [if_neg hlt, if_neg hlt, if_pos (by omega), Except.ok.injEq]
    constructor
    · intro heq
      have hlen := congrArg List.length heq
      rw [length_padded, length_padded] at hlen
      omega
    · intro h
      omega

/-- **What a width does.** A width up to 15 is observed; one above 16 that is less than 15
above the bare number makes the conversion write behind `pcBuf`; any other is ignored. -/
theorem convert_outcome (value : BitVec 32) (hb : 10 ≤ base.toNat) (hb16 : base.toNat ≤ 16) (width : BitVec 32)
    (neg : Bool) (fill : Byte) :
    let digits := numeral base.toNat value.toNat
    (convert value base width neg fill = .ok (padded digits width.toNat neg fill) ↔
      width.toNat ≤ 15 ∨ width.toNat = 16 ∧ 2 ≤ bare digits neg) ∧
    (convert value base width neg fill = .error .buffer ↔
      16 < width.toNat ∧ width.toNat < bare digits neg + 15) ∧
    (15 < width.toNat → bare digits neg + 15 ≤ width.toNat →
      convert value base width neg fill = .ok (padded digits 0 neg fill)) := by
  refine ⟨convert_padded_iff value hb hb16 width neg fill, convert_error_iff hb hb16 width neg fill, ?_⟩
  intro hlt hle
  have hbare := bare_le value hb neg
  rw [convert_spec (by omega) hb16]
  dsimp only
  rw [length_field, field_eq_padded, if_neg (not_lt.2 hle), if_neg (not_lt.2 hle), if_pos (by omega)]

/-- `%20d` of 1234567 does not fit. -/
theorem convert_outcome_twenty : convert 1234567 10 20 false (chr ' ') = .error .buffer := by
  have hlen : bare (numeral 10 1234567) false = 7 := by decide +kernel
  have hbase : 10 ≤ (10 : BitVec 32).toNat := by decide
  refine (convert_outcome 1234567 hbase (by decide) 20 false (chr ' ')).2.1.2 ⟨by decide, ?_⟩
  change 20 < bare (numeral 10 1234567) false + 15
  omega

end Number

/-! ### Reading back -/

/-- The value of a digit. -/
def digitValue (c : Byte) : ℕ := if c.toNat < 58 then c.toNat - 48 else c.toNat - 87

def readDigits (base : ℕ) (cs : List Byte) : ℕ := cs.foldl (fun n c => base * n + digitValue c) 0

/-- A decimal number behind spaces. -/
def readInt (cs : List Byte) : ℤ :=
  match cs.dropWhile fun c => c = chr ' ' with
  | [] => 0
  | c :: cs => if c = chr '-' then -(readDigits 10 cs : ℤ) else readDigits 10 (c :: cs)

theorem digitValue_digitChar : ∀ d < 16, digitValue (chr (Nat.digitChar d)) = d := by
  decide

theorem digitChar_ne : ∀ d < 16,
    chr (Nat.digitChar d) ≠ chr '-' ∧ chr (Nat.digitChar d) ≠ chr ' ' := by
  decide

section Reading

variable {base : ℕ}

theorem numeral_eq (hb : 1 < base) (n : ℕ) : numeral base n =
    (Numeral.places base n (Numeral.topPlace base n)).map fun d => chr (Nat.digitChar d) := by
  rw [numeral, Numeral.toDigits_eq_places hb, List.map_map]
  rfl

theorem numeral_ne (hb : 1 < base) (hb16 : base ≤ 16) {n : ℕ} {c : Byte}
    (hc : c ∈ numeral base n) : c ≠ chr '-' ∧ c ≠ chr ' ' := by
  rw [numeral_eq hb] at hc
  obtain ⟨d, hd, rfl⟩ := List.mem_map.1 hc
  have hlt := Numeral.places_lt (Nat.lt_of_succ_lt hb) d hd
  exact digitChar_ne d (lt_of_lt_of_le hlt hb16)

/-- **A numeral reads back.** -/
theorem readDigits_numeral (hb : 1 < base) (hb16 : base ≤ 16) (n : ℕ) :
    readDigits base (numeral base n) = n := by
  have hdigits : ∀ d ∈ Numeral.places base n (Numeral.topPlace base n),
      digitValue (chr (Nat.digitChar d)) = d := by
    intro d hd
    have hlt := Numeral.places_lt (Nat.lt_of_succ_lt hb) d hd
    exact digitValue_digitChar d (lt_of_lt_of_le hlt hb16)
  have hpow := Numeral.lt_pow_topPlace (n := n) hb
  rw [readDigits, numeral_eq hb, List.foldl_map]
  refine Eq.trans ?_ (Numeral.foldl_places (Nat.lt_of_succ_lt hb) hpow)
  refine List.foldl_ext _ _ _ ?_
  intro m d hd
  rw [hdigits d hd]

theorem readDigits_zeros (k : ℕ) (cs : List Byte) :
    readDigits base (List.replicate k (chr '0') ++ cs) = readDigits base cs := by
  induction k with
  | zero => rfl
  | succ k ih =>
    rw [List.replicate_succ, List.cons_append, readDigits, List.foldl_cons]
    exact ih

/-- The digits behind a sign, or the number without one. -/
theorem readInt_signed {digits : List Byte} (hne : digits ≠ [])
    (hdigits : ∀ c ∈ digits, c ≠ chr '-' ∧ c ≠ chr ' ') (neg : Bool) :
    readInt ((if neg then [chr '-'] else []) ++ digits) =
      if neg then -(readDigits 10 digits : ℤ) else readDigits 10 digits := by
  cases neg with
  | true => rfl
  | false =>
    obtain ⟨c, cs, rfl⟩ := List.exists_cons_of_ne_nil hne
    obtain ⟨hminus, hspace⟩ := hdigits c (List.mem_cons_self ..)
    have hdrop : ((if false then [chr '-'] else []) ++ c :: cs).dropWhile (fun c => c = chr ' ') =
        c :: cs := by
      change (c :: cs).dropWhile _ = _
      rw [List.dropWhile_cons_of_neg (by simpa using hspace)]
    unfold readInt
    rw [hdrop]
    exact if_neg hminus

theorem readInt_spaces (k : ℕ) (cs : List Byte) :
    readInt (List.replicate k (chr ' ') ++ cs) = readInt cs := by
  have hdrop : (List.replicate k (chr ' ') ++ cs).dropWhile (fun c => c = chr ' ') =
      cs.dropWhile fun c => c = chr ' ' := by
    refine List.dropWhile_append_of_pos ?_
    intro c hc
    rw [List.eq_of_mem_replicate hc]
    exact decide_eq_true rfl
  unfold readInt
  rw [hdrop]

/-- **A padded number reads back.** -/
theorem readInt_padded (value : ℤ) (width : ℕ) {fill : Byte}
    (hfill : fill = chr '0' ∨ fill = chr ' ') :
    readInt (padded (numeral 10 value.natAbs) width (value < 0) fill) = value := by
  have hread : readDigits 10 (numeral 10 value.natAbs) = value.natAbs :=
    readDigits_numeral (by decide) (by decide) value.natAbs
  have hne : numeral 10 value.natAbs ≠ [] := by
    rw [numeral, Ne, List.map_eq_nil_iff]
    exact Nat.toDigits_ne_nil
  have hdigits : ∀ c ∈ numeral 10 value.natAbs, c ≠ chr '-' ∧ c ≠ chr ' ' :=
    fun c hc => numeral_ne (by decide) (by decide) hc
  have habs : (if decide (value < 0) = true then -(value.natAbs : ℤ) else value.natAbs) = value := by
    simp only [decide_eq_true_eq]
    split_ifs <;> omega
  unfold padded
  dsimp only
  generalize width - ((if decide (value < 0) = true then [chr '-'] else []).length +
    (numeral 10 value.natAbs).length) = k
  rcases hfill with rfl | rfl
  · -- the zeros belong to the digits
    rw [if_pos rfl, List.append_assoc, readInt_signed, readDigits_zeros, hread]
    · exact habs
    · exact List.append_ne_nil_of_right_ne_nil _ hne
    · intro c hc
      rcases List.mem_append.1 hc with hc | hc
      · rw [List.eq_of_mem_replicate hc]
        decide
      · exact hdigits c hc
  · rw [if_neg (by decide), List.append_assoc, readInt_spaces, readInt_signed hne hdigits, hread]
    exact habs

theorem toNat_neg_of_neg {value : BitVec 32} (h : value.toInt < 0) :
    (-value).toNat = value.toInt.natAbs := by
  have hlt := value.isLt
  rw [BitVec.toNat_neg, BitVec.toInt_eq_toNat_cond] at *
  split_ifs at * <;> omega

theorem toNat_of_nonneg {value : BitVec 32} (h : ¬ value.toInt < 0) :
    value.toNat = value.toInt.natAbs := by
  have hlt := value.isLt
  rw [BitVec.toInt_eq_toNat_cond] at *
  split_ifs at * <;> omega

/-- What `%d` stores. -/
theorem convertSigned_spec (value width : BitVec 32) (fill : Byte) :
    convertSigned value width fill =
      let f := field (numeral 10 value.toInt.natAbs) width.toNat (value.toInt < 0) fill
      if f.length ≤ 16 then .ok f else .error .buffer := by
  have hbase : (10 : BitVec 32).toNat = 10 := rfl
  unfold convertSigned
  by_cases hneg : value.toInt < 0
  · rw [if_pos hneg, convert_spec (by decide) (by decide), hbase, toNat_neg_of_neg hneg,
      decide_eq_true hneg]
  · rw [if_neg hneg, convert_spec (by decide) (by decide), hbase, toNat_of_nonneg hneg,
      decide_eq_false hneg]

/-- **A printed `%d` reads back as the value**, whatever its width and padding. -/
theorem convertSigned_reads_back (value width : BitVec 32) {fill : Byte}
    (hfill : fill = chr '0' ∨ fill = chr ' ') {bytes : List Byte}
    (h : convertSigned value width fill = .ok bytes) : readInt bytes = value.toInt := by
  rw [convertSigned_spec] at h
  dsimp only at h
  split_ifs at h
  obtain rfl := Except.ok.inj h
  rw [field_eq_padded]
  exact readInt_padded _ _ hfill

theorem convertSigned_reads_back_five : readInt (ascii "-0005") = -5 := by
  have hbytes : convertSigned (-5) 5 (chr '0') = .ok (ascii "-0005") := by decide +kernel
  rw [convertSigned_reads_back (-5) 5 (.inl rfl) hbytes]
  decide

end Reading

end Aesd.Firmware
