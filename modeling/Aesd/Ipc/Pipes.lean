import Aesd.Ipc.StatusUpdate
import Aesd.Lib.Exchange

/-!
# The pipe programs (`HW4/Related Files/IPC_pipes.c`)

Parent and child talk over two pipes, `pipe_msg_p` downwards and `pipe_msg_c` upwards.
The messages are `struct command` and `struct response`: an `int` at offset 0 and a `char*`
at offset 8, 16 bytes. The strings they point to are literals, which the fork shares
(`Rodata`). Both loops run `n` times (10 in the source); behind them both processes close
their pipes and spin in `while(1)`, which is not modelled. The parent reads with a count of
30, more than its variable holds: what a read stores behind it goes to `overrun`.

The two pipes keep the processes in turns: `Rel` relates each state to one of the turns of
`Exchange`, and `simulates` shows it for every step.
-/

namespace Aesd

open CString CRecord

abbrev CPtr := BitVec (8 * 8)

namespace Pipes

/-- The string literals of the program, at the addresses the linker gave them. -/
structure Rodata where
  /-- the bytes from an address on -/
  bytesAt : CPtr → List Byte
  ledIsOn : CPtr
  ledIsOff : CPtr
  received : CPtr
  ledIsOn_text : text (bytesAt ledIsOn) = ascii "LED is now ON"
  ledIsOff_text : text (bytesAt ledIsOff) = ascii "LED is now OFF"
  received_text : text (bytesAt received) = ascii "Message successfully received"

/-- `child_status_update`, its local variable uninitialised. -/
def childStatusUpdate (ro : Rodata) (response1 : Rec 16) (command : CInt) (msg : CPtr) : Rec 16 :=
  if command = 1 then
    if strcmp (ro.bytesAt msg) (ascii "LED ON") = 0 then
      (response1.setField 0 4 1).setField 8 8 ro.ledIsOn
    else (response1.setField 0 4 1).setField 8 8 ro.ledIsOff
  else (response1.setField 0 4 0).setField 8 8 ro.received

/-- `r` is a `child_status_update` of the command `q`. -/
def Reply (ro : Rodata) (q r : Rec 16) : Prop :=
  ∃ response1, r = childStatusUpdate ro response1 (q.field 0 4) (q.field 8 8)

inductive ParentPc
  | write
  | read
deriving DecidableEq

inductive ChildPc
  | read
  | write
deriving DecidableEq

structure State where
  parent : ParentPc
  child : ChildPc
  /-- the loop counters of parent and child -/
  i : ℕ
  j : ℕ
  pipe_msg_p : List Byte
  pipe_msg_c : List Byte
  msg1 : Rec 16
  /-- the parent's `r1` -/
  r1 : Rec 16
  msg_r : Rec 16
  /-- what the parent's reads returned -/
  returned : List ℕ
  /-- what the parent's reads stored behind `r1` -/
  overrun : List Byte
  log : Exchange.Log (Rec 16) (Rec 16)
deriving DecidableEq

/-- After the fork; the variables are uninitialised. -/
def start (msg1 r1 msg_r : Rec 16) : State :=
  ⟨.write, .read, 0, 0, [], [], msg1, r1, msg_r, [], [], .empty⟩

/-- One system call of one process, with the computation before it. -/
inductive Act
  | parentWrite (is_command : CInt) (message : CPtr)
  | parentRead
  | childRead
  | childWrite (response1 : Rec 16)

/-- One step. A read on an empty pipe blocks; otherwise it returns all that is there, up
to its count. -/
def step (n : ℕ) (ro : Rodata) (s : State) : Act → Option State
  | .parentWrite is_command message =>
    if s.parent = .write ∧ s.i < n then
      let msg1 := (s.msg1.setField 0 4 is_command).setField 8 8 message
      some { s with parent := .read, msg1 := msg1, pipe_msg_p := s.pipe_msg_p ++ msg1.bytes,
                    log := s.log.ask msg1 }
    else none
  | .parentRead =>
    if s.parent = .read ∧ s.pipe_msg_c ≠ [] then
      let got := s.pipe_msg_c.take 30
      let r1 := s.r1.put 0 (got.take 16)
      some { s with parent := .write, i := s.i + 1, pipe_msg_c := s.pipe_msg_c.drop 30, r1 := r1,
                    returned := s.returned ++ [got.length], overrun := s.overrun ++ got.drop 16,
                    log := s.log.report r1 }
    else none
  | .childRead =>
    if s.child = .read ∧ s.j < n ∧ s.pipe_msg_p ≠ [] then
      let msg_r := s.msg_r.put 0 (s.pipe_msg_p.take 16)
      some { s with child := .write, pipe_msg_p := s.pipe_msg_p.drop 16, msg_r := msg_r,
                    log := s.log.take msg_r }
    else none
  | .childWrite response1 =>
    if s.child = .write then
      let r1 := childStatusUpdate ro response1 (s.msg_r.field 0 4) (s.msg_r.field 8 8)
      some { s with child := .read, j := s.j + 1, pipe_msg_c := s.pipe_msg_c ++ r1.bytes,
                    log := s.log.answer r1 }
    else none

/-- What the program counters, the loop counters and the pipes are in each turn. -/
def InTurn (s : State) : Exchange.Phase (Rec 16) (Rec 16) → Prop
  | .idle =>
    s.parent = .write ∧ s.child = .read ∧ s.i = s.j ∧ s.pipe_msg_p = [] ∧ s.pipe_msg_c = []
  | .asked q =>
    s.parent = .read ∧ s.child = .read ∧ s.i = s.j ∧ s.pipe_msg_p = q.bytes ∧ s.pipe_msg_c = []
  | .serving q =>
    s.parent = .read ∧ s.child = .write ∧ s.i = s.j ∧ s.pipe_msg_p = [] ∧ s.pipe_msg_c = [] ∧
      s.msg_r = q
  | .answered r =>
    s.parent = .read ∧ s.child = .read ∧ s.j = s.i + 1 ∧ s.pipe_msg_p = [] ∧
      s.pipe_msg_c = r.bytes

/-- The pipes of a state in turn `t.phase` with the history `t.log`. -/
structure Rel (s : State) (t : Exchange.State (Rec 16) (Rec 16)) : Prop where
  turn : InTurn s t.phase
  log : s.log = t.log
  returned : ∀ m ∈ s.returned, m ≤ 16
  overrun : s.overrun = []

variable {n : ℕ} {ro : Rodata} {s s' : State} {t : Exchange.State (Rec 16) (Rec 16)}

/-- A read of one whole message. -/
theorem put_take (v r : Rec 16) : v.put 0 (r.bytes.take 16) = r := by
  rw [List.take_of_length_le r.size.le, Rec.put_all]

/-! ### Whose turn it is -/

theorem InTurn.of_parentWrite {p : Exchange.Phase (Rec 16) (Rec 16)} (h : InTurn s p)
    (hp : s.parent = .write) : p = .idle := by
  cases p with
  | idle => rfl
  | asked q | serving q | answered r => exact absurd (hp.symm.trans h.1) (by decide)

theorem InTurn.of_parentRead {p : Exchange.Phase (Rec 16) (Rec 16)} (h : InTurn s p)
    (hp : s.parent = .read) (hc : s.pipe_msg_c ≠ []) : ∃ r, p = .answered r := by
  cases p with
  | idle => exact absurd (hp.symm.trans h.1) (by decide)
  | asked q => exact absurd h.2.2.2.2 hc
  | serving q => exact absurd h.2.2.2.2.1 hc
  | answered r => exact ⟨r, rfl⟩

theorem InTurn.of_childRead {p : Exchange.Phase (Rec 16) (Rec 16)} (h : InTurn s p)
    (hp : s.pipe_msg_p ≠ []) : ∃ q, p = .asked q := by
  cases p with
  | idle | serving q | answered r => exact absurd h.2.2.2.1 hp
  | asked q => exact ⟨q, rfl⟩

theorem InTurn.of_childWrite {p : Exchange.Phase (Rec 16) (Rec 16)} (h : InTurn s p)
    (hc : s.child = .write) : ∃ q, p = .serving q := by
  cases p with
  | idle | asked q | answered r => exact absurd (hc.symm.trans h.2.1) (by decide)
  | serving q => exact ⟨q, rfl⟩

/-! ### The simulation -/

/-- **Every system call is a step of the exchange in turns.** -/
theorem simulates {a : Act} (h : Rel s t) (hs : step n ro s a = some s') :
    ∃ t', Relation.ReflTransGen (Exchange.Step (Reply ro)) t t' ∧ Rel s' t' := by
  obtain ⟨phase, l⟩ := t
  obtain ⟨turn, rfl, hret, hover⟩ := h
  cases a with
  | parentWrite is_command message =>
    simp only [step, Option.ite_none_right_eq_some, Option.some.injEq] at hs
    obtain ⟨⟨hp, -⟩, rfl⟩ := hs
    obtain rfl := turn.of_parentWrite hp
    obtain ⟨-, hc, hij, h1, h2⟩ := turn
    refine ⟨_, .single (.ask _ _), ⟨⟨rfl, hc, hij, ?_, h2⟩, rfl, hret, hover⟩⟩
    rw [h1, List.nil_append]
  | parentRead =>
    simp only [step, Option.ite_none_right_eq_some, Option.some.injEq] at hs
    obtain ⟨⟨hp, hne⟩, rfl⟩ := hs
    obtain ⟨r, rfl⟩ := turn.of_parentRead hp hne
    obtain ⟨-, hc, hji, h1, h2⟩ := turn
    -- the pipe holds one response, so 30 bytes take it whole and nothing more
    have hlen : r.bytes.length ≤ 30 := by
      rw [r.size]
      omega
    have hgot : s.pipe_msg_c.take 30 = r.bytes := by
      rw [h2, List.take_of_length_le hlen]
    have hdrop : s.pipe_msg_c.drop 30 = [] := by
      rw [h2, List.drop_of_length_le hlen]
    rw [hgot, put_take, List.drop_of_length_le r.size.le, List.append_nil, hdrop]
    refine ⟨_, .single (.report _ _), ⟨⟨rfl, hc, hji.symm, h1, rfl⟩, rfl, ?_, hover⟩⟩
    intro m hm
    rcases List.mem_append.1 hm with hm | hm
    · exact hret m hm
    · rw [List.mem_singleton.1 hm, r.size]
  | childRead =>
    simp only [step, Option.ite_none_right_eq_some, Option.some.injEq] at hs
    obtain ⟨⟨-, -, hne⟩, rfl⟩ := hs
    obtain ⟨q, rfl⟩ := turn.of_childRead hne
    obtain ⟨hp, -, hij, h1, h2⟩ := turn
    -- the pipe holds one command
    have hdrop : s.pipe_msg_p.drop 16 = [] := by rw [h1, List.drop_of_length_le q.size.le]
    rw [hdrop, h1, put_take]
    exact ⟨_, .single (.take _ _), ⟨⟨hp, rfl, hij, rfl, h2, rfl⟩, rfl, hret, hover⟩⟩
  | childWrite response1 =>
    simp only [step, Option.ite_none_right_eq_some, Option.some.injEq] at hs
    obtain ⟨hc, rfl⟩ := hs
    obtain ⟨q, rfl⟩ := turn.of_childWrite hc
    obtain ⟨hp, -, hij, h1, h2, rfl⟩ := turn
    refine ⟨_, .single (.answer _ _ _ ⟨response1, rfl⟩),
      ⟨⟨hp, rfl, ?_, h1, ?_⟩, rfl, hret, hover⟩⟩
    · rw [hij]
    · rw [h2, List.nil_append]

theorem rel_start (msg1 r1 msg_r : Rec 16) : Rel (start msg1 r1 msg_r) Exchange.start :=
  ⟨⟨rfl, rfl, rfl, rfl, rfl⟩, rfl, fun _ hm => absurd hm List.not_mem_nil, rfl⟩

/-- At most one structure is in a pipe. -/
theorem Rel.pipes_le (h : Rel s t) : s.pipe_msg_p.length ≤ 16 ∧ s.pipe_msg_c.length ≤ 16 := by
  obtain ⟨phase, l⟩ := t
  have turn := h.turn
  cases phase with
  | idle =>
    rw [turn.2.2.2.1, turn.2.2.2.2]
    decide
  | asked q =>
    rw [turn.2.2.2.1, turn.2.2.2.2, q.size]
    decide
  | serving q =>
    rw [turn.2.2.2.1, turn.2.2.2.2.1]
    decide
  | answered r =>
    rw [turn.2.2.2.1, turn.2.2.2.2, r.size]
    decide

/-- **The pipe programs**, after any steps of the two processes in any order: each pipe
holds at most one structure, the parent's reads stay inside `struct response`, and the
commands and responses pair up round by round. -/
theorem pipes_in_turns (n : ℕ) (ro : Rodata) {msg1 r1 msg_r : Rec 16} {as : List Act} {s : State}
    (hr : Lts.Run (Lts.Steps (step n ro)) (start msg1 r1 msg_r) as s) :
    s.pipe_msg_p.length ≤ 16 ∧ s.pipe_msg_c.length ≤ 16 ∧
      (∀ m ∈ s.returned, m ≤ 16) ∧ s.overrun = [] ∧ Exchange.Sound (Reply ro) s.log := by
  obtain ⟨t, h, hsound⟩ :=
    Exchange.sound_of_run (rel_start msg1 r1 msg_r) (fun h hs => simulates h hs) hr
  rw [← h.log] at hsound
  exact ⟨h.pipes_le.1, h.pipes_le.2, h.returned, h.overrun, hsound⟩

/-- A layout of the literals. -/
def rodata : Rodata where
  bytesAt p :=
    if p = 0x1000 then ascii "LED ON" else if p = 0x2000 then ascii "LED is now ON"
    else if p = 0x3000 then ascii "LED is now OFF"
    else if p = 0x4000 then ascii "Message successfully received" else []
  ledIsOn := 0x2000
  ledIsOff := 0x3000
  received := 0x4000
  ledIsOn_text := by decide
  ledIsOff_text := by decide
  received_text := by decide

/-- One round: the parent sends `LED ON`, the child answers. -/
def oneRound : List Act :=
  [.parentWrite 1 0x1000, .childRead, .childWrite .zero, .parentRead]

theorem oneRound_exec :
    (Lts.exec (step 1 rodata) (start .zero .zero .zero) oneRound).map
      (fun s => (s.returned, s.r1.field 8 8)) = some ([16], 0x2000) := by decide +kernel

theorem pipes_in_turns_oneRound :
    ∃ s, Lts.exec (step 1 rodata) (start .zero .zero .zero) oneRound = some s ∧
      s.returned = [16] ∧ s.r1.field 8 8 = 0x2000 ∧ Exchange.Sound (Reply rodata) s.log := by
  obtain ⟨s, hs, he⟩ := Option.map_eq_some_iff.1 oneRound_exec
  rw [Prod.mk.injEq] at he
  exact ⟨s, hs, he.1, he.2, (pipes_in_turns 1 rodata (Lts.exec_run _ _ hs)).2.2.2.2⟩

end Pipes

end Aesd
