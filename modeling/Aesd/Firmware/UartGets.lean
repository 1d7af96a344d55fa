import Aesd.Firmware.UartPrintf
import Aesd.Lib.Lines

/-!
# `UARTgets` (`HW5/Related Files/freertos/utils/uartstdio.c`)

The build without `UART_BUFFERED`: each character is waited for, edited into the buffer of the
caller and sent back. The flag `bLastWasCR` is static, so it goes from one call to the next.

* `uartGets_lines`: the strings of a session are the edited lines of what is typed; they are cut
  at a CRLF pair as documented exactly when there is no CR with other characters between it
  and the next LF.
* `uartGets_shows`: the terminal shows each line as it is returned.
-/

namespace Aesd.Firmware

open CString

def BS : Byte := 8

def LF : Byte := 10

def CR : Byte := 13

def ESC : Byte := 0x1b

/-- The variables of `UARTgets`, with what has been sent so far. -/
structure Gets where
  pcBuf : List Byte
  ui32Count : ℕ
  bLastWasCR : Bool
  sent : List Byte

/-- One turn of the loop, with `ui32Len` decremented: whether the line ends, and the variables. -/
def getsChar (ui32Len : ℕ) (cChar : Byte) (g : Gets) : Bool × Gets :=
  if cChar = BS then
    if g.ui32Count ≠ 0 then
      (false, { g with
        ui32Count := g.ui32Count - 1
        sent := g.sent ++ uartWrite [BS, chr ' ', BS] })
    else (false, g)
  else if cChar = LF ∧ g.bLastWasCR = true then (false, { g with bLastWasCR := false })
  else if cChar = CR ∨ cChar = LF ∨ cChar = ESC then
    (true, if cChar = CR then { g with bLastWasCR := true } else g)
  else if g.ui32Count < ui32Len then
    (false, { g with
      pcBuf := g.pcBuf.set g.ui32Count cChar
      ui32Count := g.ui32Count + 1
      sent := g.sent ++ [cChar] })
  else (false, g)

/-- The loop, on the characters that `UARTCharGet` gets one after the other: the variables at the
`break` and the characters left, or none while the line has not ended. -/
def getsLoop (ui32Len : ℕ) : List Byte → Gets → Option (Gets × List Byte)
  | [], _ => none
  | cChar :: input, g =>
    let next := getsChar ui32Len cChar g
    if next.1 then some (next.2, input) else getsLoop ui32Len input next.2

/-- What a call returns and leaves. -/
structure GetsResult where
  count : ℕ
  pcBuf : List Byte
  bLastWasCR : Bool
  sent : List Byte
  input : List Byte

def uartGets (pcBuf : List Byte) (ui32Len : ℕ) (bLastWasCR : Bool) (input : List Byte) :
    Option GetsResult :=
  (getsLoop (ui32Len - 1) input ⟨pcBuf, 0, bLastWasCR, []⟩).map fun (g, input) =>
    { count := g.ui32Count
      pcBuf := g.pcBuf.set g.ui32Count 0
      bLastWasCR := g.bLastWasCR
      sent := g.sent ++ uartWrite [CR, LF]
      input := input }

/-- A call: the buffer, and the length that is given for it. -/
structure GetsCall where
  pcBuf : List Byte
  ui32Len : ℕ

/-- The length is that of a buffer with room for the NUL. -/
def GetsCall.Sized (c : GetsCall) : Prop := 0 < c.ui32Len ∧ c.ui32Len ≤ c.pcBuf.length

/-- Calls one after the other: the results of those that return. -/
def session : List GetsCall → Bool → List Byte → List GetsResult
  | [], _, _ => []
  | c :: calls, bLastWasCR, input =>
    match uartGets c.pcBuf c.ui32Len bLastWasCR input with
    | none => []
    | some r => r :: session calls r.bLastWasCR r.input

/-- The string that is returned. -/
def GetsResult.string (r : GetsResult) : List Byte := r.pcBuf.take r.count

/-! ### Lines -/

/-- Typing with a backspace key, up to `n` characters. -/
def typed (n : ℕ) (kept : List Byte) (c : Byte) : List Byte :=
  if c = BS then kept.dropLast else if kept.length < n then kept ++ [c] else kept

/-- The line that is kept of what has been typed. -/
def edit (n : ℕ) (line : List Byte) : List Byte := line.foldl (typed n) []

/-- The characters that end lines. -/
def lineMarks : Lines.Marks Byte where
  cr := CR
  lf := LF
  ends c := c = CR ∨ c = LF ∨ c = ESC
  ends_lf := by decide
  cr_ne_lf := by decide

section Loop

variable {n : ℕ} {c : Byte} {line : List Byte} {g : Gets}

theorem edit_concat (n : ℕ) (line : List Byte) (c : Byte) :
    edit n (line ++ [c]) = typed n (edit n line) c := by
  unfold edit
  rw [List.foldl_concat]

theorem length_edit (n : ℕ) (line : List Byte) : (edit n line).length ≤ n := by
  induction line using List.reverseRecOn with
  | nil => exact Nat.zero_le n
  | append_singleton line c ih =>
    rw [edit_concat]
    unfold typed
    split_ifs with hbs hlen
    · rw [List.length_dropLast]
      omega
    · rw [List.length_append, List.length_singleton]
      omega
    · exact ih

/-- The buffer in terms of the characters of the line so far. -/
structure Holds (n : ℕ) (line : List Byte) (g : Gets) : Prop where
  count : g.ui32Count = (edit n line).length
  kept : g.pcBuf.take g.ui32Count = edit n line
  room : n < g.pcBuf.length

/-- The flag tells whether there has been a CR since the last LF. -/
theorem getsChar_flag (n : ℕ) (c : Byte) (g : Gets) :
    (getsChar n c g).2.bLastWasCR = Lines.sticky lineMarks g.bLastWasCR c := by
  have hbs : BS ≠ CR ∧ BS ≠ LF := by decide
  have hesc : ESC ≠ CR ∧ ESC ≠ LF := by decide
  have hlf : LF ≠ CR := by decide
  unfold getsChar Lines.sticky lineMarks
  dsimp only
  split_ifs with h₁ h₂ h₃ h₄ h₅ h₆
  · simp [h₁, hbs]
  · simp [h₁, hbs]
  · simp [h₃.1, hlf]
  · simp [h₅]
  · rcases h₄ with h₄ | rfl | rfl
    · exact absurd h₄ h₅
    · have hflag : g.bLastWasCR = false := by
        simpa using h₃
      simp [hflag, hlf]
    · simp [hesc]
  · rw [not_or, not_or] at h₄
    simp [h₄]
  · rw [not_or, not_or] at h₄
    simp [h₄]

/-- Whether a character ends the line. -/
theorem getsChar_ends (n : ℕ) (c : Byte) (g : Gets) :
    (getsChar n c g).1 = true ↔ ¬ (c = LF ∧ g.bLastWasCR = true) ∧ lineMarks.ends c = true := by
  have hbs : BS ≠ LF ∧ lineMarks.ends BS = false := by decide
  have hmarks : lineMarks.ends c = true ↔ c = CR ∨ c = LF ∨ c = ESC := decide_eq_true_iff
  unfold getsChar
  split_ifs with h₁ h₂ h₃ h₄ h₅ h₆
  · simp [h₁, hbs]
  · simp [h₁, hbs]
  · simp [h₃]
  · exact iff_of_true rfl ⟨h₃, hmarks.2 h₄⟩
  · exact iff_of_true rfl ⟨h₃, hmarks.2 h₄⟩
  · exact iff_of_false id fun h => h₄ (hmarks.1 h.2)
  · exact iff_of_false id fun h => h₄ (hmarks.1 h.2)

theorem Holds.start {pcBuf : List Byte} (hn : n < pcBuf.length) (flag : Bool) :
    Holds n [] ⟨pcBuf, 0, flag, []⟩ :=
  ⟨rfl, rfl, hn⟩

/-- The end of the line leaves the buffer alone. -/
theorem Holds.ended (h : Holds n line g) (hends : (getsChar n c g).1 = true) :
    Holds n line (getsChar n c g).2 ∧ (getsChar n c g).2.sent = g.sent := by
  unfold getsChar at hends ⊢
  split_ifs at hends ⊢ with h₁ h₂ h₃ h₄ h₅
  · exact ⟨⟨h.count, h.kept, h.room⟩, rfl⟩
  · exact ⟨h, rfl⟩

/-- A LF that is passed over leaves it alone, too. -/
theorem Holds.passed (h : Holds n line g) (hpass : c = LF ∧ g.bLastWasCR = true) :
    Holds n line (getsChar n c g).2 ∧ (getsChar n c g).2.sent = g.sent := by
  have hbs : c ≠ BS := by
    rw [hpass.1]
    decide
  unfold getsChar
  rw [if_neg hbs, if_pos hpass]
  exact ⟨⟨h.count, h.kept, h.room⟩, rfl⟩

/-- Any other character is typed into it. -/
theorem Holds.typed (h : Holds n line g) (hends : (getsChar n c g).1 = false)
    (hpass : ¬ (c = LF ∧ g.bLastWasCR = true)) : Holds n (line ++ [c]) (getsChar n c g).2 := by
  obtain ⟨hcount, hkept, hroom⟩ := h
  have hle := length_edit n line
  unfold getsChar at hends ⊢
  by_cases hbs : c = BS
  · rw [if_pos hbs]
    have hedit : edit n (line ++ [c]) = (edit n line).dropLast := by
      rw [edit_concat, Firmware.typed, if_pos hbs]
    by_cases hzero : g.ui32Count ≠ 0
    · rw [if_pos hzero]
      refine ⟨?_, ?_, hroom⟩
      · rw [hedit, List.length_dropLast, ← hcount]
      · dsimp only
        rw [hedit, ← hkept, List.dropLast_take (by omega)]
    · rw [if_neg hzero]
      have hnil : edit n line = [] := by
        rw [← List.length_eq_zero_iff, ← hcount]
        exact not_not.1 hzero
      refine ⟨?_, ?_, hroom⟩
      · rw [hedit, hcount, hnil]
        rfl
      · rw [hedit, hkept, hnil]
        rfl
  · rw [if_neg hbs, if_neg hpass] at hends ⊢
    split_ifs at hends ⊢ with hmark hlen
    · have hedit : edit n (line ++ [c]) = edit n line ++ [c] := by
        rw [edit_concat, Firmware.typed, if_neg hbs, if_pos (by omega)]
      refine ⟨?_, ?_, ?_⟩
      · rw [hedit, List.length_append, List.length_singleton, ← hcount]
      · dsimp only
        rw [hedit, ← hkept, List.take_succ_eq_append_getElem (by rw [List.length_set]; omega),
          List.take_set_of_le (le_refl _), List.getElem_set_self]
      · dsimp only
        rw [List.length_set]
        exact hroom
    · have hedit : edit n (line ++ [c]) = edit n line := by
        rw [edit_concat, Firmware.typed, if_neg hbs, if_neg (by omega)]
      exact ⟨hedit ▸ hcount, hedit ▸ hkept, hroom⟩

/-- **The loop** takes the first line of the input. -/
theorem getsLoop_lines (input : List Byte) (h : Holds n line g) :
    (getsLoop n input g = none ∧
        Lines.lines lineMarks (Lines.sticky lineMarks) g.bLastWasCR line input = []) ∨
      ∃ g' rest line', getsLoop n input g = some (g', rest) ∧ Holds n line' g' ∧
        Lines.lines lineMarks (Lines.sticky lineMarks) g.bLastWasCR line input =
          line' :: Lines.lines lineMarks (Lines.sticky lineMarks) g'.bLastWasCR [] rest := by
  induction input generalizing line g with
  | nil => exact .inl ⟨rfl, rfl⟩
  | cons c input ih =>
    have hflag := getsChar_flag n c g
    have hlf : lineMarks.lf = LF := rfl
    rw [getsLoop, Lines.lines, ← hflag, hlf]
    by_cases hends : (getsChar n c g).1 = true
    · obtain ⟨hpass, hmark⟩ := (getsChar_ends n c g).1 hends
      rw [if_pos hends, if_neg hpass, if_pos hmark]
      exact .inr ⟨_, _, line, rfl, (h.ended hends).1, rfl⟩
    · rw [if_neg hends]
      have hmark := mt (getsChar_ends n c g).2 hends
      rw [Bool.not_eq_true] at hends
      by_cases hpass : c = LF ∧ g.bLastWasCR = true
      · rw [if_pos hpass]
        exact ih (h.passed hpass).1
      · rw [if_neg hpass, if_neg fun hend => hmark ⟨hpass, hend⟩]
        exact ih (h.typed hends hpass)

/-- A call with its first line. -/
theorem uartGets_line {call : GetsCall} (hsized : call.Sized) (flag : Bool) (input : List Byte) :
    (uartGets call.pcBuf call.ui32Len flag input = none ∧
        Lines.lines lineMarks (Lines.sticky lineMarks) flag [] input = []) ∨
      ∃ r line, uartGets call.pcBuf call.ui32Len flag input = some r ∧
        r.string = edit (call.ui32Len - 1) line ∧ r.count = r.string.length ∧
        r.pcBuf.getD r.count 1 = 0 ∧
        Lines.lines lineMarks (Lines.sticky lineMarks) flag [] input =
          line :: Lines.lines lineMarks (Lines.sticky lineMarks) r.bLastWasCR [] r.input := by
  obtain ⟨hpos, hsize⟩ := hsized
  have hstart : Holds (call.ui32Len - 1) [] ⟨call.pcBuf, 0, flag, []⟩ :=
    Holds.start (by omega) flag
  unfold uartGets
  rcases getsLoop_lines input hstart with ⟨hloop, hlines⟩ | ⟨g, rest, line, hloop, hg, hlines⟩
  · rw [hloop]
    exact .inl ⟨rfl, hlines⟩
  · rw [hloop]
    have hle := length_edit (call.ui32Len - 1) line
    have hcount := hg.count
    have hroom := hg.room
    refine .inr ⟨_, line, rfl, ?_, ?_, ?_, hlines⟩
    · unfold GetsResult.string
      dsimp only
      rw [List.take_set_of_le (le_refl _), hg.kept]
    · unfold GetsResult.string
      dsimp only
      rw [List.length_take, List.length_set]
      omega
    · dsimp only
      rw [List.getD_eq_getElem?_getD, List.getElem?_set_self (by omega)]
      rfl

/-- The strings of a session. -/
theorem session_lines {calls : List GetsCall} (hsized : ∀ c ∈ calls, c.Sized) (flag : Bool)
    (input : List Byte) :
    (session calls flag input).map GetsResult.string =
        List.zipWith (fun c line => edit (c.ui32Len - 1) line) calls
          (Lines.lines lineMarks (Lines.sticky lineMarks) flag [] input) ∧
      ∀ r ∈ session calls flag input, r.count = r.string.length ∧ r.pcBuf.getD r.count 1 = 0 := by
  induction calls generalizing flag input with
  | nil => exact ⟨rfl, fun r hr => absurd hr List.not_mem_nil⟩
  | cons call calls ih =>
    have hcalls : ∀ c ∈ calls, c.Sized := fun c hc => hsized c (List.mem_cons_of_mem _ hc)
    rcases uartGets_line (hsized call (List.mem_cons_self ..)) flag input with
      ⟨hgets, hlines⟩ | ⟨r, line, hgets, hstring, hcount, hnul, hlines⟩
    · rw [session, hgets, hlines]
      exact ⟨rfl, fun r hr => absurd hr List.not_mem_nil⟩
    · obtain ⟨ihstrings, ihnul⟩ := ih hcalls r.bLastWasCR r.input
      rw [session, hgets, hlines]
      refine ⟨?_, ?_⟩
      · dsimp only
        rw [List.map_cons, List.zipWith_cons_cons, hstring, ihstrings]
      · intro r' hr'
        rcases List.mem_cons.1 hr' with rfl | hr'
        · exact ⟨hcount, hnul⟩
        · exact ihnul r' hr'

end Loop

/-- **The strings of a session** are the edited lines of what is typed, each with a NUL behind it in
its buffer. A CRLF pair counts for one end of line, as documented, and a LF counts alone, exactly
while no CR is followed by other characters and then a LF. -/
theorem uartGets_lines (input : List Byte) :
    (∀ calls : List GetsCall, (∀ c ∈ calls, c.Sized) →
      (session calls false input).map GetsResult.string =
          List.zipWith (fun c line => edit (c.ui32Len - 1) line) calls
            (Lines.lines lineMarks (Lines.sticky lineMarks) false [] input) ∧
        ∀ r ∈ session calls false input,
          r.count = r.string.length ∧ r.pcBuf.getD r.count 1 = 0) ∧
      ((∀ calls : List GetsCall, (∀ c ∈ calls, c.Sized) →
        (session calls false input).map GetsResult.string =
          List.zipWith (fun c line => edit (c.ui32Len - 1) line) calls
            (Lines.lines lineMarks (Lines.paired lineMarks) false [] input)) ↔
        ¬ Lines.Stray lineMarks input) := by
  refine ⟨fun calls hsized => session_lines hsized false input, ?_, ?_⟩
  · intro h
    rw [← (Lines.differ_iff input).1]
    intro hdiffer
    -- as many calls as there are lines with the documented ends
    let calls := List.replicate
      (Lines.lines lineMarks (Lines.paired lineMarks) false [] input).length (⟨[0], 1⟩ : GetsCall)
    have hsized : ∀ c ∈ calls, c.Sized := by
      intro c hc
      rw [List.eq_of_mem_replicate hc]
      exact ⟨Nat.one_pos, le_refl _⟩
    have hlt := (Lines.length_lines (fun h => h) [] []).2 hdiffer
    have hlength := congrArg List.length ((session_lines hsized false input).1.symm.trans
      (h calls hsized))
    rw [List.length_zipWith, List.length_zipWith, List.length_replicate] at hlength
    omega
  · intro h calls hsized
    rw [← Lines.lines_eq_iff.2 h]
    exact (session_lines hsized false input).1

/-- A CR in the middle: the LF after the second line is passed over, and the third line is
appended to it. -/
example : (session (List.replicate 3 ⟨List.replicate 8 0, 8⟩) false
    [chr 'a', CR, chr 'b', LF, chr 'c', CR]).map GetsResult.string =
      [[chr 'a'], [chr 'b', chr 'c']] := by
  decide

/-! ### The terminal -/

/-- A terminal: the rows that are finished, the row of the cursor, and its column. -/
structure Screen where
  rows : List (List Byte)
  row : List Byte
  col : ℕ

def Printable (c : Byte) : Prop := 32 ≤ c ∧ c < 127

instance decidablePrintable (c : Byte) : Decidable (Printable c) := inferInstanceAs (Decidable (_ ∧ _))

/-- A character arrives. -/
def Screen.put (s : Screen) (c : Byte) : Screen :=
  if c = BS then { s with col := s.col - 1 }
  else if c = CR then { s with col := 0 }
  else if c = LF then ⟨s.rows ++ [s.row], List.replicate s.col (chr ' '), s.col⟩
  else if Printable c then
    { s with row := s.row.take s.col ++ [c] ++ s.row.drop (s.col + 1), col := s.col + 1 }
  else s

/-- The screen has `rows` finished, and shows `kept` in the row of the cursor, which is behind it;
there may be blanks where characters have been rubbed out. -/
structure Shows (rows : List (List Byte)) (kept : List Byte) (s : Screen) : Prop where
  rows : s.rows = rows
  row : ∃ k, s.row = kept ++ List.replicate k (chr ' ')
  col : s.col = kept.length

section Terminal

variable {rows : List (List Byte)} {kept : List Byte} {s : Screen} {c : Byte}

theorem Shows.char (h : Shows rows kept s) (hc : Printable c) :
    Shows rows (kept ++ [c]) (s.put c) := by
  obtain ⟨hrows, ⟨k, hrow⟩, hcol⟩ := h
  have hbs : c ≠ BS := by
    rintro rfl
    exact absurd hc (by decide)
  have hcr : c ≠ CR := by
    rintro rfl
    exact absurd hc (by decide)
  have hlf : c ≠ LF := by
    rintro rfl
    exact absurd hc (by decide)
  unfold Screen.put
  rw [if_neg hbs, if_neg hcr, if_neg hlf, if_pos hc]
  refine ⟨hrows, ⟨k - 1, ?_⟩, ?_⟩
  · dsimp only
    rw [hrow, hcol, List.take_left', ← List.drop_drop, List.drop_left', List.drop_replicate]
    · rfl
    · rfl
  · dsimp only
    rw [hcol, List.length_append, List.length_singleton]

/-- The last character is rubbed out. -/
theorem Shows.rubout (h : Shows rows kept s) (hne : kept ≠ []) :
    Shows rows kept.dropLast ((uartWrite [BS, chr ' ', BS]).foldl Screen.put s) := by
  obtain ⟨hrows, ⟨k, hrow⟩, hcol⟩ := h
  obtain ⟨l, x, rfl⟩ := List.eq_nil_or_concat kept |>.resolve_left hne
  have hsent : uartWrite [BS, chr ' ', BS] = [BS, chr ' ', BS] := by decide
  have hback : ∀ s : Screen, s.put BS = { s with col := s.col - 1 } := fun s => if_pos rfl
  have hblank : ∀ s : Screen, s.put (chr ' ') =
      { s with
        row := s.row.take s.col ++ [chr ' '] ++ s.row.drop (s.col + 1)
        col := s.col + 1 } := by
    intro s
    unfold Screen.put
    rw [if_neg (by decide), if_neg (by decide), if_neg (by decide), if_pos (by decide)]
  have hlen : s.col - 1 = l.length := by
    rw [hcol, List.concat_eq_append, List.length_append, List.length_singleton, Nat.add_sub_cancel]
  rw [hsent, List.foldl_cons, List.foldl_cons, List.foldl_cons, List.foldl_nil, hback, hback, hblank]
  rw [List.concat_eq_append] at hrow ⊢
  rw [List.dropLast_concat]
  have htake : s.row.take l.length = l := by
    rw [hrow, List.append_assoc]
    exact List.take_left' rfl
  have hdrop : s.row.drop (l.length + 1) = List.replicate k (chr ' ') := by
    rw [hrow]
    exact List.drop_left' (by rw [List.length_append, List.length_singleton])
  refine ⟨hrows, ⟨k + 1, ?_⟩, ?_⟩
  · dsimp only
    rw [hlen, htake, hdrop, List.append_assoc]
    rfl
  · dsimp only
    rw [hlen, Nat.add_sub_cancel]

/-- The end of a line. -/
theorem Shows.ended (h : Shows rows kept s) :
    ∃ k, Shows (rows ++ [kept ++ List.replicate k (chr ' ')]) []
      ((uartWrite [CR, LF]).foldl Screen.put s) := by
  obtain ⟨hrows, ⟨k, hrow⟩, -⟩ := h
  have hsent : uartWrite [CR, LF] = [CR, CR, LF] := by decide
  refine ⟨k, ?_⟩
  rw [hsent, ← hrow, ← hrows]
  exact ⟨rfl, ⟨0, rfl⟩, rfl⟩

/-- What can be typed: what is printed, and the keys that edit and end lines. -/
def Ordinary (c : Byte) : Prop := Printable c ∨ c = BS ∨ lineMarks.ends c = true

instance decidableOrdinary (c : Byte) : Decidable (Ordinary c) :=
  inferInstanceAs (Decidable (_ ∨ _ ∨ _))

variable {n : ℕ} {line : List Byte} {g : Gets}

/-- A character on the terminal. -/
theorem shows_char (h : Holds n line g) (hends : (getsChar n c g).1 = false)
    (hpass : ¬ (c = LF ∧ g.bLastWasCR = true)) (hc : Ordinary c)
    (hs : Shows rows (edit n line) (g.sent.foldl Screen.put s)) :
    Shows rows (edit n (line ++ [c])) ((getsChar n c g).2.sent.foldl Screen.put s) := by
  have hcount := h.count
  rw [edit_concat]
  unfold typed
  unfold getsChar at hends ⊢
  by_cases hbs : c = BS
  · rw [if_pos hbs, if_pos hbs]
    by_cases hzero : g.ui32Count ≠ 0
    · have hne : edit n line ≠ [] := by
        intro hnil
        rw [hnil] at hcount
        exact hzero hcount
      rw [if_pos hzero, List.foldl_append]
      exact hs.rubout hne
    · have hnil : edit n line = [] := by
        rw [← List.length_eq_zero_iff, ← hcount]
        exact not_not.1 hzero
      rw [if_neg hzero]
      rw [hnil] at hs ⊢
      exact hs
  · rw [if_neg hbs, if_neg hpass] at hends ⊢
    rw [if_neg hbs]
    by_cases hmark : c = CR ∨ c = LF ∨ c = ESC
    · rw [if_pos hmark] at hends
      cases hends
    · have hprintable : Printable c := by
        rcases hc with hc | hc | hc
        · exact hc
        · exact absurd hc hbs
        · exact absurd (of_decide_eq_true hc) hmark
      rw [if_neg hmark]
      by_cases hlen : g.ui32Count < n
      · rw [if_pos hlen, if_pos (by omega), List.foldl_append]
        exact hs.char hprintable
      · rw [if_neg hlen, if_neg (by omega)]
        exact hs

/-- The loop on the terminal. -/
theorem getsLoop_shows {input rest : List Byte} {g' : Gets} (hinput : ∀ c ∈ input, Ordinary c)
    (h : Holds n line g) (hs : Shows rows (edit n line) (g.sent.foldl Screen.put s))
    (hloop : getsLoop n input g = some (g', rest)) :
    Shows rows (g'.pcBuf.take g'.ui32Count) (g'.sent.foldl Screen.put s) ∧ rest <:+ input := by
  induction input generalizing line g with
  | nil => cases hloop
  | cons c input ih =>
    have hrest : ∀ c ∈ input, Ordinary c := fun c hc => hinput c (List.mem_cons_of_mem _ hc)
    rw [getsLoop] at hloop
    by_cases hends : (getsChar n c g).1 = true
    · rw [if_pos hends] at hloop
      obtain ⟨rfl, rfl⟩ := Prod.mk.inj (Option.some.inj hloop)
      obtain ⟨hended, hsent⟩ := h.ended hends
      rw [hended.kept, hsent]
      exact ⟨hs, List.suffix_cons ..⟩
    · rw [if_neg hends] at hloop
      rw [Bool.not_eq_true] at hends
      by_cases hpass : c = LF ∧ g.bLastWasCR = true
      · obtain ⟨hpassed, hsent⟩ := h.passed hpass
        have hmore := ih hrest hpassed (hsent ▸ hs) hloop
        exact ⟨hmore.1, hmore.2.trans (List.suffix_cons ..)⟩
      · have hmore := ih hrest (h.typed hends hpass)
          (shows_char h hends hpass (hinput c (List.mem_cons_self ..)) hs) hloop
        exact ⟨hmore.1, hmore.2.trans (List.suffix_cons ..)⟩

/-- A row with what is left of rubbed out characters. -/
def RowOf (row : List Byte) (r : GetsResult) : Prop :=
  ∃ k, row = r.string ++ List.replicate k (chr ' ')

/-- A session on the terminal. -/
theorem session_shows {calls : List GetsCall} (hsized : ∀ c ∈ calls, c.Sized) (flag : Bool)
    {input : List Byte} (hinput : ∀ c ∈ input, Ordinary c) (hs : Shows rows [] s) :
    ∃ new, Shows (rows ++ new) []
        (((session calls flag input).flatMap GetsResult.sent).foldl Screen.put s) ∧
      List.Forall₂ RowOf new (session calls flag input) := by
  induction calls generalizing flag input rows s with
  | nil => exact ⟨[], by simpa [session] using hs, .nil⟩
  | cons call calls ih =>
    obtain ⟨hpos, hsize⟩ := hsized call (List.mem_cons_self ..)
    have hcalls : ∀ c ∈ calls, c.Sized := fun c hc => hsized c (List.mem_cons_of_mem _ hc)
    have hstart : Holds (call.ui32Len - 1) [] ⟨call.pcBuf, 0, flag, []⟩ :=
      Holds.start (by omega) flag
    rw [session]
    unfold uartGets
    cases hloop : getsLoop (call.ui32Len - 1) input ⟨call.pcBuf, 0, flag, []⟩ with
    | none => exact ⟨[], by simpa using hs, .nil⟩
    | some next =>
      obtain ⟨g, rest⟩ := next
      obtain ⟨hshows, hsuffix⟩ := getsLoop_shows hinput hstart hs hloop
      obtain ⟨k, hended⟩ := hshows.ended
      have hrest : ∀ c ∈ rest, Ordinary c := fun c hc => hinput c (hsuffix.subset hc)
      obtain ⟨new, hnew, hrows⟩ := ih hcalls g.bLastWasCR hrest hended
      have hstring : (g.pcBuf.set g.ui32Count 0).take g.ui32Count = g.pcBuf.take g.ui32Count :=
        List.take_set_of_le (le_refl _)
      refine ⟨(g.pcBuf.take g.ui32Count ++ List.replicate k (chr ' ')) :: new, ?_,
        .cons ⟨k, ?_⟩ hrows⟩
      · dsimp only [Option.map_some]
        rw [List.flatMap_cons, List.foldl_append, List.foldl_append, ← List.singleton_append,
          ← List.append_assoc]
        exact hnew
      · unfold GetsResult.string
        dsimp only
        rw [hstring]

end Terminal

/-- **What is shown is what is returned.** While nothing but printable characters and the keys
that edit and end lines is typed, the terminal shows each string that a session returns in a row
of its own, with blanks behind it at most. -/
theorem uartGets_shows {calls : List GetsCall} (hsized : ∀ c ∈ calls, c.Sized) {input : List Byte}
    (hinput : ∀ c ∈ input, Ordinary c) :
    ∃ rows, Shows rows [] (((session calls false input).flatMap GetsResult.sent).foldl Screen.put
        ⟨[], [], 0⟩) ∧
      List.Forall₂ RowOf rows (session calls false input) := by
  have hclear : Shows [] [] ⟨[], [], 0⟩ := ⟨rfl, ⟨0, rfl⟩, rfl⟩
  exact session_shows hsized false hinput hclear

/-- One character is rubbed out. -/
theorem uartGets_shows_rubout :
    ∃ rows, Shows rows [] (((session [⟨List.replicate 8 0, 8⟩] false
        [chr 'a', chr 'b', BS, chr 'c', CR]).flatMap GetsResult.sent).foldl Screen.put ⟨[], [], 0⟩) ∧
      List.Forall₂ RowOf rows
        (session [⟨List.replicate 8 0, 8⟩] false [chr 'a', chr 'b', BS, chr 'c', CR]) := by
  refine uartGets_shows ?_ (by decide)
  intro c hc
  rw [List.mem_singleton.1 hc]
  exact ⟨by decide, le_refl _⟩

end Aesd.Firmware
