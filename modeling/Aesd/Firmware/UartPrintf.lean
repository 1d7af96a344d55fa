import Aesd.Firmware.UartNumber

/-!
# `UARTprintf` and its formats (`HW5/Related Files/freertos/utils/uartstdio.c`)

The build without `UART_BUFFERED`: `UARTwrite` sends each byte at once. `UARTvprintf` reads
its format byte by byte; `Mode` is where it is. At `switch(*pcString++)` it steps over the NUL
as over any other byte, so a format that ends inside a directive is read behind its end.

`pieces` takes a format apart, and `Piece.print` is what the comment at `UARTvprintf` says of
each directive.

* `uartPrintf_documented`: a call reads behind its format when that ends inside a directive,
  and only then; other formats print what is documented while their numbers ask for no more
  than 15 characters and their strings for no zeros.
-/

namespace Aesd.Firmware

open CString

/-- An argument: a 32-bit value, or a `char*` with the bytes from it on. -/
inductive Arg
  | value (v : BitVec 32)
  | string (bytes : List Byte)
deriving DecidableEq

/-- The bytes `UARTwrite` sends: a CR goes before each LF. -/
def uartWrite (pcBuf : List Byte) : List Byte :=
  pcBuf.flatMap fun c => if c = 10 then [13, 10] else [c]

/-- A directive, from the byte that ends it on: what is sent, and the arguments left. -/
def command (ui32Count : BitVec 32) (cFill c : Byte) (vaArgP : List Arg) :
    Except Fault (List Byte × List Arg) :=
  if c = chr 'c' then
    match vaArgP with
    | .value ui32Value :: vaArgP => .ok (uartWrite [ui32Value.setWidth 8], vaArgP)
    | _ => .error .argument
  else if c = chr 'd' ∨ c = chr 'i' then
    match vaArgP with
    | .value ui32Value :: vaArgP =>
      (convertSigned ui32Value ui32Count cFill).map fun pcBuf => (uartWrite pcBuf, vaArgP)
    | _ => .error .argument
  else if c = chr 's' then
    match vaArgP with
    | .string pcStr :: vaArgP =>
      .ok (uartWrite (text pcStr) ++
        (List.replicate (ui32Count.toNat - (text pcStr).length) [chr ' ']).flatMap uartWrite, vaArgP)
    | _ => .error .argument
  else if c = chr 'u' then
    match vaArgP with
    | .value ui32Value :: vaArgP =>
      (convert ui32Value 10 ui32Count false cFill).map fun pcBuf => (uartWrite pcBuf, vaArgP)
    | _ => .error .argument
  else if c = chr 'x' ∨ c = chr 'X' ∨ c = chr 'p' then
    match vaArgP with
    | .value ui32Value :: vaArgP =>
      (convert ui32Value 16 ui32Count false cFill).map fun pcBuf => (uartWrite pcBuf, vaArgP)
    | _ => .error .argument
  else if c = chr '%' then .ok (uartWrite [c], vaArgP)
  else .ok (uartWrite (ascii "ERROR"), vaArgP)

/-- Where `UARTvprintf` is in its format. -/
inductive Mode
  | text
  | directive (ui32Count : BitVec 32) (cFill : Byte)

def isDigit (c : Byte) : Bool := chr '0' ≤ c ∧ c ≤ chr '9'

/-- `UARTvprintf` on the bytes before the NUL of the format: the bytes sent. -/
def uartVprintf : Mode → List Byte → List Arg → Except Fault (List Byte)
  | .text, [], _ => .ok []
  | .text, c :: pcString, vaArgP =>
    if c = chr '%' then uartVprintf (.directive 0 (chr ' ')) pcString vaArgP
    else (uartVprintf .text pcString vaArgP).map (uartWrite [c] ++ ·)
  -- the NUL is an unknown command, and the bytes behind it are read next
  | .directive _ _, [], _ => .error .format
  | .directive ui32Count cFill, c :: pcString, vaArgP =>
    if isDigit c then
      uartVprintf (.directive (ui32Count * 10 + (c - chr '0').setWidth 32)
        (if c = chr '0' ∧ ui32Count = 0 then chr '0' else cFill)) pcString vaArgP
    else
      (command ui32Count cFill c vaArgP).bind fun sent =>
        (uartVprintf .text pcString sent.2).map (sent.1 ++ ·)

def uartPrintf (pcString : List Byte) (vaArgP : List Arg) : Except Fault (List Byte) :=
  uartVprintf .text (text pcString) vaArgP

/-! ### The formats as they are documented -/

/-- A byte of text, or a directive with its least width and whether zeros fill it. -/
inductive Piece
  | text (c : Byte)
  | directive (width : ℕ) (zeros : Bool) (c : Byte)
deriving DecidableEq

/-- The pieces of a format, none when it ends inside a directive. -/
def pieces : Option (ℕ × Bool) → List Byte → Option (List Piece)
  | none, [] => some []
  | none, c :: cs =>
    if c = chr '%' then pieces (some (0, false)) cs else (pieces none cs).map (.text c :: ·)
  | some _, [] => none
  | some (width, zeros), c :: cs =>
    if isDigit c then
      pieces (some (width * 10 + (c.toNat - 48), zeros || (c = chr '0' ∧ width = 0))) cs
    else (pieces none cs).map (.directive width zeros c :: ·)

def fillOf (zeros : Bool) : Byte := if zeros then chr '0' else chr ' '

/-- The conversions of numbers. -/
def isNumber (c : Byte) : Prop :=
  c = chr 'd' ∨ c = chr 'i' ∨ c = chr 'u' ∨ c = chr 'x' ∨ c = chr 'X' ∨ c = chr 'p'

instance decidableIsNumber (c : Byte) : Decidable (isNumber c) :=
  inferInstanceAs (Decidable (_ ∨ _))

/-- What is documented of a piece. -/
def Piece.print : Piece → List Arg → Except Fault (List Byte × List Arg)
  | .text c, args => .ok (uartWrite [c], args)
  | .directive width zeros c, args =>
    if c = chr 'c' then
      match args with
      | .value v :: args => .ok (uartWrite [v.setWidth 8], args)
      | _ => .error .argument
    else if c = chr 'd' ∨ c = chr 'i' then
      match args with
      | .value v :: args =>
        .ok (padded (numeral 10 v.toInt.natAbs) width (v.toInt < 0) (fillOf zeros), args)
      | _ => .error .argument
    else if c = chr 's' then
      match args with
      | .string s :: args =>
        .ok (uartWrite (CString.text s) ++
          List.replicate (width - (CString.text s).length) (fillOf zeros), args)
      | _ => .error .argument
    else if c = chr 'u' then
      match args with
      | .value v :: args => .ok (padded (numeral 10 v.toNat) width false (fillOf zeros), args)
      | _ => .error .argument
    else if c = chr 'x' ∨ c = chr 'X' ∨ c = chr 'p' then
      match args with
      | .value v :: args => .ok (padded (numeral 16 v.toNat) width false (fillOf zeros), args)
      | _ => .error .argument
    else if c = chr '%' then .ok ([chr '%'], args)
    else .ok (ascii "ERROR", args)

def printAll : List Piece → List Arg → Except Fault (List Byte)
  | [], _ => .ok []
  | p :: ps, args => (p.print args).bind fun sent => (printAll ps sent.2).map (sent.1 ++ ·)

/-- At most 15 characters for a number, and no zeros for a string. -/
def Piece.Plain : Piece → Prop
  | .text _ => True
  | .directive width zeros c =>
    (isNumber c → width ≤ 15) ∧ (c = chr 's' → width < 2 ^ 32 ∧ zeros = false)

instance Piece.decidablePlain : ∀ p : Piece, Decidable p.Plain
  | .text _ => isTrue trivial
  | .directive width zeros c =>
    inferInstanceAs (Decidable ((isNumber c → width ≤ 15) ∧
      (c = chr 's' → width < 2 ^ 32 ∧ zeros = false)))

/-! ### One directive -/

theorem uartWrite_eq_self {l : List Byte} (h : (10 : Byte) ∉ l) : uartWrite l = l := by
  induction l with
  | nil => rfl
  | cons c l ih =>
    rw [List.mem_cons, not_or] at h
    have hc : ¬ c = 10 := fun hc => h.1 hc.symm
    rw [uartWrite, List.flatMap_cons, if_neg hc]
    exact congrArg (c :: ·) (ih h.2)

theorem uartWrite_spaces (n : ℕ) :
    (List.replicate n [chr ' ']).flatMap uartWrite = List.replicate n (chr ' ') := by
  induction n with
  | zero => rfl
  | succ n ih =>
    rw [List.replicate_succ, List.flatMap_cons, ih]
    rfl

theorem numeral_no_lf {base : ℕ} (hb : 1 < base) (hb16 : base ≤ 16) (n : ℕ) :
    (10 : Byte) ∉ numeral base n := by
  intro h
  rw [numeral_eq hb] at h
  obtain ⟨d, hd, hc⟩ := List.mem_map.1 h
  have hlt := Numeral.places_lt (Nat.lt_of_succ_lt hb) d hd
  have hne : ∀ d < 16, chr (Nat.digitChar d) ≠ 10 := by decide
  exact hne d (lt_of_lt_of_le hlt hb16) hc

theorem padded_no_lf {digits : List Byte} (h : (10 : Byte) ∉ digits) (width : ℕ) (neg zeros : Bool) :
    (10 : Byte) ∉ padded digits width neg (fillOf zeros) := by
  have hsign : (10 : Byte) ∉ (if neg then [chr '-'] else []) := by
    cases neg <;> decide
  have hfill : ∀ k, (10 : Byte) ∉ List.replicate k (fillOf zeros) := by
    intro k hk
    have heq := List.eq_of_mem_replicate hk
    revert heq
    cases zeros <;> decide
  unfold padded
  dsimp only
  by_cases hzeros : fillOf zeros = chr '0'
  · rw [if_pos hzeros, List.mem_append, List.mem_append, not_or, not_or]
    exact ⟨⟨hsign, hfill _⟩, h⟩
  · rw [if_neg hzeros, List.mem_append, List.mem_append, not_or, not_or]
    exact ⟨⟨hfill _, hsign⟩, h⟩

/-- A conversion with a width up to 15. -/
theorem convert_plain (value : BitVec 32) {base : BitVec 32} (hb : 10 ≤ base.toNat) (hb16 : base.toNat ≤ 16)
    {width : ℕ} (hw : width ≤ 15) (neg zeros : Bool) :
    (convert value base (BitVec.ofNat 32 width) neg (fillOf zeros)).map uartWrite =
      .ok (padded (numeral base.toNat value.toNat) width neg (fillOf zeros)) := by
  have hofNat : (BitVec.ofNat 32 width).toNat = width := by
    rw [BitVec.toNat_ofNat, Nat.mod_eq_of_lt (by omega)]
  have hpad := (convert_padded_iff value hb hb16 (BitVec.ofNat 32 width) neg
    (fillOf zeros)).2 (.inl (by rw [hofNat]; exact hw))
  rw [hpad, hofNat]
  exact congrArg Except.ok
    (uartWrite_eq_self (padded_no_lf (numeral_no_lf (by omega) hb16 _) width neg zeros))

theorem convertSigned_plain (value : BitVec 32) {width : ℕ} (hw : width ≤ 15) (zeros : Bool) :
    (convertSigned value (BitVec.ofNat 32 width) (fillOf zeros)).map uartWrite =
      .ok (padded (numeral 10 value.toInt.natAbs) width (value.toInt < 0) (fillOf zeros)) := by
  have hbase : (10 : BitVec 32).toNat = 10 := rfl
  unfold convertSigned
  by_cases hneg : value.toInt < 0
  · rw [if_pos hneg, convert_plain _ (by decide) (by decide) hw, hbase, toNat_neg_of_neg hneg,
      decide_eq_true hneg]
  · rw [if_neg hneg, convert_plain _ (by decide) (by decide) hw, hbase, toNat_of_nonneg hneg,
      decide_eq_false hneg]

theorem map_map_ok {α β γ : Type*} {x : Except Fault α} {f : α → β} {y : β}
    (h : x.map f = .ok y) (g : β → γ) : (x.map fun a => g (f a)) = .ok (g y) := by
  cases x with
  | error e => cases h
  | ok a =>
    obtain rfl := Except.ok.inj h
    rfl

/-- Two conversions of a number agree if they print every value alike. -/
theorem of_value {f g : BitVec 32 → List Arg → Except Fault (List Byte × List Arg)}
    (h : ∀ v args, f v args = g v args) (args : List Arg) :
    (match args with
      | .value v :: args => f v args
      | _ => .error .argument) =
    match args with
      | .value v :: args => g v args
      | _ => .error .argument := by
  cases args with
  | nil => rfl
  | cons arg args =>
    cases arg with
    | value v => exact h v args
    | string bytes => rfl

/-- **A plain directive prints what is documented.** -/
theorem command_print {width : ℕ} {zeros : Bool} {c : Byte} {count : BitVec 32} {fill : Byte}
    (hplain : (Piece.directive width zeros c).Plain) (hcount : count = BitVec.ofNat 32 width)
    (hfill : width < 2 ^ 32 → fill = fillOf zeros) (args : List Arg) :
    command count fill c args = (Piece.directive width zeros c).print args := by
  obtain ⟨hnumber, hstring⟩ := hplain
  have hnum : isNumber c → width ≤ 15 ∧ fill = fillOf zeros := fun h =>
    ⟨hnumber h, hfill (lt_of_le_of_lt (hnumber h) (by decide))⟩
  subst hcount
  unfold command Piece.print
  dsimp only
  by_cases hc : c = chr 'c'
  · rw [if_pos hc, if_pos hc]
  rw [if_neg hc, if_neg hc]
  by_cases hd : c = chr 'd' ∨ c = chr 'i'
  · rw [if_pos hd, if_pos hd]
    obtain ⟨hw, rfl⟩ := hnum (by unfold isNumber; tauto)
    refine of_value ?_ args
    intro v args
    exact map_map_ok (convertSigned_plain v hw zeros) fun bytes => (bytes, args)
  rw [if_neg hd, if_neg hd]
  by_cases hs : c = chr 's'
  · rw [if_pos hs, if_pos hs]
    obtain ⟨hw, hzeros⟩ := hstring hs
    cases args with
    | nil => rfl
    | cons arg args =>
      cases arg with
      | value v => rfl
      | string bytes =>
        dsimp only
        rw [uartWrite_spaces, BitVec.toNat_ofNat, Nat.mod_eq_of_lt hw, hzeros]
        rfl
  rw [if_neg hs, if_neg hs]
  by_cases hu : c = chr 'u'
  · rw [if_pos hu, if_pos hu]
    obtain ⟨hw, rfl⟩ := hnum (by unfold isNumber; tauto)
    have hbase : 10 ≤ (10 : BitVec 32).toNat := by decide
    refine of_value ?_ args
    intro v args
    exact map_map_ok (convert_plain v hbase (by decide) hw false zeros) fun bytes => (bytes, args)
  rw [if_neg hu, if_neg hu]
  by_cases hx : c = chr 'x' ∨ c = chr 'X' ∨ c = chr 'p'
  · rw [if_pos hx, if_pos hx]
    obtain ⟨hw, rfl⟩ := hnum (by unfold isNumber; tauto)
    have hbase : 10 ≤ (16 : BitVec 32).toNat := by decide
    refine of_value ?_ args
    intro v args
    exact map_map_ok (convert_plain v hbase (by decide) hw false zeros) fun bytes => (bytes, args)
  rw [if_neg hx, if_neg hx]
  by_cases hp : c = chr '%'
  · rw [if_pos hp, if_pos hp, hp]
    rfl
  · rw [if_neg hp, if_neg hp]
    rfl

/-! ### A whole format -/

theorem digit_value {c : Byte} (h : isDigit c = true) : (c - chr '0').toNat = c.toNat - 48 := by
  unfold isDigit at h
  rw [decide_eq_true_eq, BitVec.le_def, BitVec.le_def] at h
  have h0 : (chr '0').toNat = 48 := rfl
  have h9 : (chr '9').toNat = 57 := rfl
  rw [BitVec.toNat_sub, h0]
  have hlt := c.isLt
  omega

/-- One more digit of a width, in the count and as a number. -/
theorem count_digit {width : ℕ} {c : Byte} (h : isDigit c = true) :
    BitVec.ofNat 32 width * 10 + (c - chr '0').setWidth 32 =
      BitVec.ofNat 32 (width * 10 + (c.toNat - 48)) := by
  have hdigit : (c - chr '0').setWidth 32 = BitVec.ofNat 32 (c.toNat - 48) := by
    rw [← digit_value h, BitVec.ofNat_toNat]
  rw [hdigit, BitVec.ofNat_add, BitVec.ofNat_mul]
  rfl

/-- **A plain format prints its pieces**, from its start and from inside a directive. -/
theorem uartVprintf_pieces (cs : List Byte) :
    (∀ ps args, pieces none cs = some ps → (∀ p ∈ ps, p.Plain) →
      uartVprintf .text cs args = printAll ps args) ∧
    ∀ width zeros fill ps args, pieces (some (width, zeros)) cs = some ps →
      (∀ p ∈ ps, p.Plain) → (width < 2 ^ 32 → fill = fillOf zeros) →
      uartVprintf (.directive (BitVec.ofNat 32 width) fill) cs args = printAll ps args := by
  induction cs with
  | nil =>
    refine ⟨?_, ?_⟩
    · intro ps args hps _
      obtain rfl := Option.some.inj hps
      rfl
    · intro width zeros fill ps args hps
      cases hps
  | cons c cs ih =>
    obtain ⟨ihText, ihDirective⟩ := ih
    refine ⟨?_, ?_⟩
    · intro ps args hps hplain
      rw [pieces] at hps
      rw [uartVprintf]
      by_cases hc : c = chr '%'
      · rw [if_pos hc] at hps ⊢
        exact ihDirective 0 false _ ps args hps hplain fun _ => rfl
      · rw [if_neg hc] at hps ⊢
        obtain ⟨ps, hps', rfl⟩ := Option.map_eq_some_iff.1 hps
        rw [ihText ps args hps' fun p hp => hplain p (List.mem_cons_of_mem _ hp)]
        rfl
    · intro width zeros fill ps args hps hplain hfill
      rw [pieces] at hps
      rw [uartVprintf]
      by_cases hc : isDigit c = true
      · rw [if_pos hc] at hps ⊢
        rw [count_digit hc]
        refine ihDirective _ _ _ ps args hps hplain ?_
        intro hlt
        -- a count of 0 is a width of 0, since nothing has wrapped
        have hwidth : width < 2 ^ 32 := by omega
        have hzero : BitVec.ofNat 32 width = 0 ↔ width = 0 := by
          rw [← BitVec.toNat_inj, BitVec.toNat_ofNat, Nat.mod_eq_of_lt hwidth]
          rfl
        rw [hfill hwidth]
        by_cases hz : c = chr '0' ∧ width = 0
        · rw [if_pos ⟨hz.1, hzero.2 hz.2⟩, decide_eq_true hz, Bool.or_true]
          rfl
        · rw [if_neg (fun h => hz ⟨h.1, hzero.1 h.2⟩), decide_eq_false hz, Bool.or_false]
      · rw [if_neg hc] at hps ⊢
        obtain ⟨ps, hps', rfl⟩ := Option.map_eq_some_iff.1 hps
        rw [command_print (hplain _ (List.mem_cons_self ..)) rfl hfill, printAll]
        cases (Piece.directive width zeros c).print args with
        | error e => rfl
        | ok sent =>
          have hrest := ihText ps sent.2 hps' fun p hp => hplain p (List.mem_cons_of_mem _ hp)
          exact congrArg (Except.map (sent.1 ++ ·)) hrest

/-- A plain format prints its pieces. -/
theorem uartPrintf_pieces {pcString : List Byte} {ps : List Piece}
    (hps : pieces none (text pcString) = some ps) (hplain : ∀ p ∈ ps, p.Plain)
    (vaArgP : List Arg) : uartPrintf pcString vaArgP = printAll ps vaArgP :=
  (uartVprintf_pieces (text pcString)).1 ps vaArgP hps hplain

/-- Arguments with which a directive does not fail. -/
theorem command_succeeds (count : BitVec 32) (fill c : Byte) :
    ∃ va, ∀ args, ∃ out, command count fill c (va ++ args) = .ok (out, args) := by
  -- a 0 has one digit, so no width makes it run out of `pcBuf`
  have hzero : ∀ base : BitVec 32, 10 ≤ base.toNat → base.toNat ≤ 16 →
      ∃ out, convert 0 base count false fill = .ok out := by
    intro base hb hb16
    have hne : convert 0 base count false fill ≠ .error .buffer := by
      rw [Ne, convert_error_iff hb hb16]
      have hlen : bare (numeral base.toNat (0 : BitVec 32).toNat) false = 1 := by
        unfold bare numeral
        rw [List.length_map, show (0 : BitVec 32).toNat = 0 from rfl, Nat.toDigits_zero]
        rfl
      omega
    rw [convert_spec (by omega) hb16] at hne ⊢
    dsimp only at hne ⊢
    split_ifs at hne ⊢ with h
    · exact ⟨_, rfl⟩
    · exact absurd rfl hne
  have hsigned : ∃ out, convertSigned 0 count fill = .ok out := hzero 10 (by decide) (by decide)
  unfold command
  by_cases hc : c = chr 'c'
  · exact ⟨[.value 0], fun args => ⟨_, if_pos hc⟩⟩
  by_cases hd : c = chr 'd' ∨ c = chr 'i'
  · obtain ⟨out, hout⟩ := hsigned
    refine ⟨[.value 0], fun args => ⟨uartWrite out, ?_⟩⟩
    rw [if_neg hc, if_pos hd]
    exact congrArg (Except.map fun pcBuf => (uartWrite pcBuf, args)) hout
  by_cases hs : c = chr 's'
  · refine ⟨[.string []], fun args => ?_⟩
    rw [if_neg hc, if_neg hd, if_pos hs]
    exact ⟨_, rfl⟩
  by_cases hu : c = chr 'u'
  · obtain ⟨out, hout⟩ := hzero 10 (by decide) (by decide)
    refine ⟨[.value 0], fun args => ⟨uartWrite out, ?_⟩⟩
    rw [if_neg hc, if_neg hd, if_neg hs, if_pos hu]
    exact congrArg (Except.map fun pcBuf => (uartWrite pcBuf, args)) hout
  by_cases hx : c = chr 'x' ∨ c = chr 'X' ∨ c = chr 'p'
  · obtain ⟨out, hout⟩ := hzero 16 (by decide) (by decide)
    refine ⟨[.value 0], fun args => ⟨uartWrite out, ?_⟩⟩
    rw [if_neg hc, if_neg hd, if_neg hs, if_neg hu, if_pos hx]
    exact congrArg (Except.map fun pcBuf => (uartWrite pcBuf, args)) hout
  refine ⟨[], fun args => ?_⟩
  rw [if_neg hc, if_neg hd, if_neg hs, if_neg hu, if_neg hx, List.nil_append]
  by_cases hp : c = chr '%'
  · exact ⟨_, if_pos hp⟩
  · exact ⟨_, if_neg hp⟩

theorem map_ne_error {α β : Type*} {x : Except Fault α} {e : Fault} (h : x ≠ .error e) (f : α → β) :
    x.map f ≠ .error e := by
  cases x with
  | error e' =>
    intro he
    exact h (congrArg Except.error (Except.error.inj he))
  | ok a => exact fun he => nomatch he

theorem convert_ne_format {value base : BitVec 32} (hb : 1 < base.toNat) (hb16 : base.toNat ≤ 16)
    (count : BitVec 32) (neg : Bool) (fill : Byte) :
    convert value base count neg fill ≠ .error .format := by
  rw [convert_spec hb hb16]
  dsimp only
  split_ifs
  · exact fun he => nomatch he
  · decide

/-- A directive does not read behind its format. -/
theorem command_ne_format (count : BitVec 32) (fill c : Byte) (args : List Arg) :
    command count fill c args ≠ .error .format := by
  have hsigned : ∀ v, convertSigned v count fill ≠ .error .format := by
    intro v
    unfold convertSigned
    split_ifs
    · exact convert_ne_format (by decide) (by decide) _ _ _
    · exact convert_ne_format (by decide) (by decide) _ _ _
  unfold command
  split_ifs
  · split
    · exact fun he => nomatch he
    · decide
  · split
    · exact map_ne_error (hsigned _) _
    · decide
  · split
    · exact fun he => nomatch he
    · decide
  · split
    · exact map_ne_error (convert_ne_format (by decide) (by decide) _ _ _) _
    · decide
  · split
    · exact map_ne_error (convert_ne_format (by decide) (by decide) _ _ _) _
    · decide
  · exact fun he => nomatch he
  · exact fun he => nomatch he

/-- How far a call reads: behind its format when that is cut off, with some arguments at
least and never to a proper end, and inside it otherwise. -/
structure Reads (cut : Prop) (call : List Arg → Except Fault (List Byte)) : Prop where
  behind : cut → ∃ args, call args = .error .format
  never_ok : cut → ∀ args out, call args ≠ .ok out
  inside : ¬ cut → ∀ args, call args ≠ .error .format

theorem Reads.map {cut : Prop} {call : List Arg → Except Fault (List Byte)} (h : Reads cut call)
    (f : List Byte → List Byte) : Reads cut fun args => (call args).map f := by
  refine ⟨?_, ?_, fun hn args => map_ne_error (h.inside hn args) f⟩
  · intro hcut
    obtain ⟨args, hargs⟩ := h.behind hcut
    exact ⟨args, congrArg (Except.map f) hargs⟩
  · intro hcut args out hout
    cases hcall : call args with
    | error e =>
      rw [hcall] at hout
      cases hout
    | ok out' => exact h.never_ok hcut args out' hcall

/-- One more directive in front. -/
theorem Reads.command {cut : Prop} {call : List Arg → Except Fault (List Byte)} (h : Reads cut call)
    (count : BitVec 32) (fill c : Byte) :
    Reads cut fun args => (Firmware.command count fill c args).bind fun sent =>
      (call sent.2).map (sent.1 ++ ·) := by
  refine ⟨?_, ?_, ?_⟩
  · intro hcut
    obtain ⟨args, hargs⟩ := h.behind hcut
    obtain ⟨va, hva⟩ := command_succeeds count fill c
    obtain ⟨out, hout⟩ := hva args
    refine ⟨va ++ args, ?_⟩
    rw [hout]
    exact congrArg (Except.map (out ++ ·)) hargs
  · intro hcut args out hout
    cases hcommand : Firmware.command count fill c args with
    | error e =>
      rw [hcommand] at hout
      cases hout
    | ok sent =>
      rw [hcommand] at hout
      exact (h.map (sent.1 ++ ·)).never_ok hcut sent.2 out hout
  · intro hn args
    cases hcommand : Firmware.command count fill c args with
    | error e =>
      intro he
      obtain rfl := Except.error.inj he
      exact command_ne_format count fill c args hcommand
    | ok sent => exact (h.map (sent.1 ++ ·)).inside hn sent.2

theorem uartVprintf_reads (cs : List Byte) :
    Reads (pieces none cs = none) (uartVprintf .text cs) ∧
      ∀ width zeros count fill, Reads (pieces (some (width, zeros)) cs = none)
        (uartVprintf (.directive count fill) cs) := by
  induction cs with
  | nil =>
    refine ⟨⟨?_, ?_, ?_⟩, ?_⟩
    · intro hcut
      cases hcut
    · intro hcut
      cases hcut
    · intro _ args he
      cases he
    · intro width zeros count fill
      exact ⟨fun _ => ⟨[], rfl⟩, fun _ args out hout => (nomatch hout), fun hn => absurd rfl hn⟩
  | cons c cs ih =>
    obtain ⟨ihText, ihDirective⟩ := ih
    refine ⟨?_, ?_⟩
    · by_cases hc : c = chr '%'
      · have h := ihDirective 0 false 0 (chr ' ')
        have hcut : pieces none (c :: cs) = pieces (some (0, false)) cs := if_pos hc
        have hcall : uartVprintf .text (c :: cs) = uartVprintf (.directive 0 (chr ' ')) cs :=
          funext fun args => if_pos hc
        rw [hcut, hcall]
        exact h
      · have h := ihText.map (uartWrite [c] ++ ·)
        have hcut : pieces none (c :: cs) = (pieces none cs).map (.text c :: ·) := if_neg hc
        have hcall : uartVprintf .text (c :: cs) =
            fun args => (uartVprintf .text cs args).map (uartWrite [c] ++ ·) :=
          funext fun args => if_neg hc
        rw [hcut, hcall, Option.map_eq_none_iff]
        exact h
    · intro width zeros count fill
      by_cases hc : isDigit c = true
      · have hcut : pieces (some (width, zeros)) (c :: cs) = _ := if_pos hc
        have hcall : uartVprintf (.directive count fill) (c :: cs) = _ :=
          funext fun args => if_pos hc
        rw [hcut, hcall]
        exact ihDirective _ _ _ _
      · have hcut : pieces (some (width, zeros)) (c :: cs) = _ := if_neg hc
        have hcall : uartVprintf (.directive count fill) (c :: cs) = _ :=
          funext fun args => if_neg hc
        rw [hcut, hcall, Option.map_eq_none_iff]
        exact ihText.command count fill c

/-- **`UARTprintf` and its documentation.** A call reads behind its format exactly when the
format ends inside a directive. Other formats print what is documented when their numbers
ask for at most 15 characters and their strings for no zeros. -/
theorem uartPrintf_documented (pcString : List Byte) :
    Reads (pieces none (text pcString) = none) (uartPrintf pcString) ∧
      ∀ ps, pieces none (text pcString) = some ps → (∀ p ∈ ps, p.Plain) →
        ∀ vaArgP, uartPrintf pcString vaArgP = printAll ps vaArgP :=
  ⟨(uartVprintf_reads (text pcString)).1, fun _ hps hplain => uartPrintf_pieces hps hplain⟩

/-- The stamp of a log line. -/
theorem uartPrintf_documented_stamp :
    uartPrintf (ascii "[%d sec %03d msec]") [.value 12, .value 34] =
      .ok (ascii "[12 sec 034 msec]") := by
  have hps : pieces none (text (ascii "[%d sec %03d msec]")) =
      some ((ascii "[").map .text ++ .directive 0 false (chr 'd') :: ((ascii " sec ").map .text ++
        .directive 3 true (chr 'd') :: (ascii " msec]").map .text)) := by
    decide
  rw [(uartPrintf_documented (ascii "[%d sec %03d msec]")).2 _ hps (by decide)]
  decide +kernel

end Aesd.Firmware
