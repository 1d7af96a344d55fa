import Aesd.Lib.Record
import Aesd.Lib.SharedHandle

/-!
# The threads of `HW4/Related Files/pthread_sub.c`

`main` creates the log, starts `child1_funct` and `child2_funct`, and reports how they ended. All
three write to the log through the one global `logging`. The statements of the threads
interleave in any order; those that concern a thread's own variables only are left out or, for
`child1_funct`, one step (`read`). The handler sets `print_stat` at each tick of the timer; at
a `SIGUSR1` or `SIGUSR2` it sets `kill_msg` and ends the child that it interrupts.

Each `fopen` that succeeds creates a stream, whose text reaches the file when it is closed or at
the exit of the process. `misused` is set when a statement writes to or closes a stream that is
not open. Ghost state: who opened and closed a stream, and the number of ticks taken up.
-/

namespace Aesd.Pthread

open CString CRecord

inductive Sig
  | usr1
  | usr2
deriving DecidableEq

inductive Thread
  | main
  | child1
  | child2
deriving DecidableEq

/-- What is written to the log. -/
inductive Line
  | inMain
  | inChild1
  | character
  | exitNormally
  | inChild2
  /-- the contents of `text_file_data1` at the tick with this number -/
  | stat (tick : ℕ) (text : List Byte)
  | exitDueTo (child : Thread) (sig : Sig)
deriving DecidableEq

structure Stream where
  opener : Thread
  closedBy : Option Thread
  buffer : List Line
deriving DecidableEq

def Stream.isOpen (st : Stream) : Bool := st.closedBy.isNone

/-! ### The log -/

structure Log where
  logging : Option ℕ
  streams : List Stream
  file : List Line
  misused : Bool

inductive LogAct
  /-- `logging = fopen(...)` -/
  | fopen (t : Thread) (ok : Bool)
  /-- `fprintf(logging, ...)` -/
  | fprintf (line : Line)
  /-- `fclose(logging)` -/
  | fclose (t : Thread)
  /-- the streams left open are flushed, in this order -/
  | exit (order : List Stream)

/-- The open stream that `logging` points to. -/
def Log.current (l : Log) : Option (ℕ × Stream) :=
  l.logging.bind fun k => (l.streams[k]?).bind fun st => if st.isOpen then some (k, st) else none

def Log.apply (l : Log) : LogAct → Log
  | .fopen t ok =>
    if ok then
      { l with logging := some l.streams.length, streams := l.streams ++ [⟨t, none, []⟩] }
    else { l with logging := none }
  | .fprintf line =>
    match l.current with
    | some (k, st) => { l with streams := l.streams.set k { st with buffer := st.buffer ++ [line] } }
    | none => { l with misused := true }
  | .fclose t =>
    match l.current with
    | some (k, st) =>
      { l with streams := l.streams.set k { st with closedBy := some t, buffer := [] },
               file := l.file ++ st.buffer }
    | none => { l with misused := true }
  | .exit order =>
    { l with file := l.file ++ order.flatMap Stream.buffer,
             streams := l.streams.map fun st => { st with buffer := [] } }

/-! ### The statement each thread executes next -/

inductive MainPc
  | fopen
  | write
  | fclose
  | create1
  | create2
  | join1
  /-- the test of `kill_msg` behind the join of child 1 -/
  | test1 (sig : Sig)
  | report1 (sig : Sig)
  | join2
  | test2 (sig : Sig)
  | report2 (sig : Sig)
  | fclose2 (sig : Sig)
  | ret
deriving DecidableEq

inductive Child1Pc
  | notStarted
  | fopen
  | test
  | write
  | read
  /-- so many lines of `print_list` to go -/
  | print (lines : ℕ)
  | exitLine
  | fclose
  | ended
deriving DecidableEq

inductive Child2Pc
  | notStarted
  | fopen
  | test
  | write
  | timer
  /-- the head of the loop -/
  | head
  | stat
  | reopen
  | record
  | reset
  | ended
deriving DecidableEq

structure State where
  main : MainPc
  child1 : Child1Pc
  child2 : Child2Pc
  /-- the children were created -/
  success : Bool
  success1 : Bool
  kill_msg : Option Sig
  print_stat : Bool
  /-- the timer runs -/
  armed : Bool
  /-- the array of 10000 bytes, and the byte behind it -/
  text_file_data1 : Rec 10001
  ticks : ℕ
  log : Log
  exited : Bool

def start (d : Rec 10001) : State where
  main := .fopen
  child1 := .notStarted
  child2 := .notStarted
  success := false
  success1 := false
  kill_msg := none
  print_stat := false
  armed := false
  text_file_data1 := d
  ticks := 0
  log := ⟨none, [], [], false⟩
  exited := false

/-! ### The statements -/

inductive MainAct
  /-- with the test of the result: no other thread runs yet -/
  | fopen (ok : Bool)
  | write
  | fclose
  | create1 (ok : Bool)
  | create2 (ok : Bool)
  | join
  | test (taken : Bool)
  | report
  | fcloseReport
  | exit (order : List Stream)
deriving DecidableEq

inductive Child1Act
  | fopen (ok : Bool)
  | test (null : Bool)
  | write
  /-- the sort and the counts, with the length of the list -/
  | read (lines : ℕ)
  /-- the list is empty, and `print_list` follows a `NULL` pointer -/
  | crash
  | print
  | exitLine
  | fclose
deriving DecidableEq

inductive Child2Act
  | fopen (ok : Bool)
  | test (null : Bool)
  | write
  | timer
  | head (print_stat : Bool)
  /-- `/proc/stat` is read, unless it cannot be opened -/
  | stat (contents : Option (List Byte))
  | reopen (ok : Bool)
  | record
  | reset
deriving DecidableEq

inductive Act
  | main (a : MainAct)
  | child1 (a : Child1Act)
  | child2 (a : Child2Act)
  /-- the timer expires -/
  | tick
  /-- a signal ends a child between two statements -/
  | kill1 (sig : Sig)
  | kill2 (sig : Sig)
deriving DecidableEq

/-- Behind the test of `kill_msg` for a signal. -/
def MainPc.afterTest : MainPc → Bool → MainPc
  | .test1 sig, true => .report1 sig
  | .test1 .usr1, false => .test1 .usr2
  | .test1 .usr2, false => .join2
  | .test2 sig, true => .report2 sig
  | .test2 .usr1, false => .test2 .usr2
  | .test2 .usr2, false => .ret
  | pc, _ => pc

def mainStep (s : State) : MainAct → Option State
  | .fopen ok =>
    if s.main = .fopen then
      some { s with main := if ok then .write else .ret, log := s.log.apply (.fopen .main ok) }
    else none
  | .write =>
    if s.main = .write then
      some { s with main := .fclose, log := s.log.apply (.fprintf .inMain) }
    else none
  | .fclose =>
    if s.main = .fclose then
      some { s with main := .create1, log := s.log.apply (.fclose .main) }
    else none
  | .create1 ok =>
    if s.main = .create1 then
      some { s with main := .create2, success := ok, child1 := if ok then .fopen else .notStarted }
    else none
  | .create2 ok =>
    if s.main = .create2 then
      some { s with main := .join1, success1 := ok, child2 := if ok then .fopen else .notStarted }
    else none
  | .join =>
    match s.main with
    | .join1 =>
      if s.success = true → s.child1 = .ended then some { s with main := .test1 .usr1 } else none
    | .join2 =>
      if s.success1 = true → s.child2 = .ended then some { s with main := .test2 .usr1 } else none
    | _ => none
  | .test taken =>
    match s.main with
    | .test1 sig | .test2 sig =>
      if taken = decide (s.kill_msg = some sig) then some { s with main := s.main.afterTest taken }
      else none
    | _ => none
  | .report =>
    match s.main with
    | .report1 sig =>
      some { s with main := (MainPc.test1 sig).afterTest false,
                    log := s.log.apply (.fprintf (.exitDueTo .child1 sig)) }
    | .report2 sig =>
      some { s with main := .fclose2 sig, log := s.log.apply (.fprintf (.exitDueTo .child2 sig)) }
    | _ => none
  | .fcloseReport =>
    match s.main with
    | .fclose2 sig =>
      some { s with main := (MainPc.test2 sig).afterTest false, log := s.log.apply (.fclose .main) }
    | _ => none
  | .exit order =>
    if s.main = .ret ∧ order.Perm s.log.streams then
      some { s with exited := true, log := s.log.apply (.exit order) }
    else none

def child1Step (s : State) : Child1Act → Option State
  | .fopen ok =>
    if s.child1 = .fopen then
      some { s with child1 := .test, log := s.log.apply (.fopen .child1 ok) }
    else none
  | .test null =>
    if s.child1 = .test ∧ null = s.log.logging.isNone then
      some { s with child1 := if null then .read else .write }
    else none
  | .write =>
    if s.child1 = .write then
      some { s with child1 := .read, log := s.log.apply (.fprintf .inChild1) }
    else none
  | .read lines =>
    if s.child1 = .read ∧ 0 < lines then some { s with child1 := .print (lines - 1) } else none
  | .crash => if s.child1 = .read then some { s with exited := true } else none
  | .print =>
    match s.child1 with
    | .print lines =>
      some { s with child1 := if lines = 0 then .exitLine else .print (lines - 1),
                    log := s.log.apply (.fprintf .character) }
    | _ => none
  | .exitLine =>
    if s.child1 = .exitLine then
      some { s with child1 := .fclose, log := s.log.apply (.fprintf .exitNormally) }
    else none
  | .fclose =>
    if s.child1 = .fclose then
      some { s with child1 := .ended, log := s.log.apply (.fclose .child1) }
    else none

/-- `fread` and the NUL behind it. -/
def readStat (buffer : Rec 10001) : Option (List Byte) → Rec 10001
  | some contents => (buffer.put 0 (contents.take 10000)).put 10000 [0]
  | none => buffer

def child2Step (s : State) : Child2Act → Option State
  | .fopen ok =>
    if s.child2 = .fopen then
      some { s with child2 := .test, log := s.log.apply (.fopen .child2 ok) }
    else none
  | .test null =>
    if s.child2 = .test ∧ null = s.log.logging.isNone then
      some { s with child2 := if null then .timer else .write }
    else none
  | .write =>
    if s.child2 = .write then
      some { s with child2 := .timer, log := s.log.apply (.fprintf .inChild2) }
    else none
  | .timer => if s.child2 = .timer then some { s with child2 := .head, armed := true } else none
  | .head print_stat =>
    if s.child2 = .head ∧ print_stat = s.print_stat then
      if print_stat then some { s with child2 := .stat, ticks := s.ticks + 1 } else some s
    else none
  | .stat contents =>
    if s.child2 = .stat then
      some { s with child2 := .reopen, text_file_data1 := readStat s.text_file_data1 contents }
    else none
  | .reopen ok =>
    if s.child2 = .reopen then
      some { s with child2 := .record, log := s.log.apply (.fopen .child2 ok) }
    else none
  | .record =>
    if s.child2 = .record then
      some { s with child2 := .reset,
                    log := s.log.apply (.fprintf (.stat s.ticks (s.text_file_data1.text 0))) }
    else none
  | .reset => if s.child2 = .reset then some { s with child2 := .head, print_stat := false } else none

def step (s : State) (a : Act) : Option State :=
  if s.exited then none
  else match a with
  | .main a => mainStep s a
  | .child1 a => child1Step s a
  | .child2 a => child2Step s a
  | .tick => if s.armed then some { s with print_stat := true } else none
  | .kill1 sig =>
    if s.child1 ≠ .notStarted ∧ s.child1 ≠ .ended then
      some { s with child1 := .ended, kill_msg := some sig }
    else none
  | .kill2 sig =>
    if s.child2 ≠ .notStarted ∧ s.child2 ≠ .ended then
      some { s with child2 := .ended, kill_msg := some sig }
    else none

/-- The thread has been started and has not ended. -/
def Child1Pc.Active (pc : Child1Pc) : Prop := pc ≠ .notStarted ∧ pc ≠ .ended

def Child2Pc.Active (pc : Child2Pc) : Prop := pc ≠ .notStarted ∧ pc ≠ .ended

/-! ### What each statement does -/

inductive MainEffect (s : State) : MainAct → State → Prop
  | fopen (ok : Bool) (h : s.main = .fopen) :
      MainEffect s (.fopen ok)
        { s with main := if ok then .write else .ret, log := s.log.apply (.fopen .main ok) }
  | write (h : s.main = .write) :
      MainEffect s .write { s with main := .fclose, log := s.log.apply (.fprintf .inMain) }
  | fclose (h : s.main = .fclose) :
      MainEffect s .fclose { s with main := .create1, log := s.log.apply (.fclose .main) }
  | create1 (ok : Bool) (h : s.main = .create1) :
      MainEffect s (.create1 ok)
        { s with main := .create2, success := ok, child1 := if ok then .fopen else .notStarted }
  | create2 (ok : Bool) (h : s.main = .create2) :
      MainEffect s (.create2 ok)
        { s with main := .join1, success1 := ok, child2 := if ok then .fopen else .notStarted }
  | join1 (h : s.main = .join1) (hend : s.success = true → s.child1 = .ended) :
      MainEffect s .join { s with main := .test1 .usr1 }
  | join2 (h : s.main = .join2) (hend : s.success1 = true → s.child2 = .ended) :
      MainEffect s .join { s with main := .test2 .usr1 }
  | test (taken : Bool) (sig : Sig) (h : s.main = .test1 sig ∨ s.main = .test2 sig)
      (ht : taken = decide (s.kill_msg = some sig)) :
      MainEffect s (.test taken) { s with main := s.main.afterTest taken }
  | report1 (sig : Sig) (h : s.main = .report1 sig) :
      MainEffect s .report
        { s with main := (MainPc.test1 sig).afterTest false,
                 log := s.log.apply (.fprintf (.exitDueTo .child1 sig)) }
  | report2 (sig : Sig) (h : s.main = .report2 sig) :
      MainEffect s .report
        { s with main := .fclose2 sig, log := s.log.apply (.fprintf (.exitDueTo .child2 sig)) }
  | fcloseReport (sig : Sig) (h : s.main = .fclose2 sig) :
      MainEffect s .fcloseReport
        { s with main := (MainPc.test2 sig).afterTest false, log := s.log.apply (.fclose .main) }
  | exit (order : List Stream) (h : s.main = .ret) (hperm : order.Perm s.log.streams) :
      MainEffect s (.exit order) { s with exited := true, log := s.log.apply (.exit order) }

inductive Child1Effect (s : State) : Child1Act → State → Prop
  | fopen (ok : Bool) (h : s.child1 = .fopen) :
      Child1Effect s (.fopen ok) { s with child1 := .test, log := s.log.apply (.fopen .child1 ok) }
  | test (null : Bool) (h : s.child1 = .test) (hn : null = s.log.logging.isNone) :
      Child1Effect s (.test null) { s with child1 := if null then .read else .write }
  | write (h : s.child1 = .write) :
      Child1Effect s .write { s with child1 := .read, log := s.log.apply (.fprintf .inChild1) }
  | read (lines : ℕ) (h : s.child1 = .read) (hl : 0 < lines) :
      Child1Effect s (.read lines) { s with child1 := .print (lines - 1) }
  | crash (h : s.child1 = .read) : Child1Effect s .crash { s with exited := true }
  | print (lines : ℕ) (h : s.child1 = .print lines) :
      Child1Effect s .print
        { s with child1 := if lines = 0 then .exitLine else .print (lines - 1),
                 log := s.log.apply (.fprintf .character) }
  | exitLine (h : s.child1 = .exitLine) :
      Child1Effect s .exitLine
        { s with child1 := .fclose, log := s.log.apply (.fprintf .exitNormally) }
  | fclose (h : s.child1 = .fclose) :
      Child1Effect s .fclose { s with child1 := .ended, log := s.log.apply (.fclose .child1) }

inductive Child2Effect (s : State) : Child2Act → State → Prop
  | fopen (ok : Bool) (h : s.child2 = .fopen) :
      Child2Effect s (.fopen ok) { s with child2 := .test, log := s.log.apply (.fopen .child2 ok) }
  | test (null : Bool) (h : s.child2 = .test) (hn : null = s.log.logging.isNone) :
      Child2Effect s (.test null) { s with child2 := if null then .timer else .write }
  | write (h : s.child2 = .write) :
      Child2Effect s .write { s with child2 := .timer, log := s.log.apply (.fprintf .inChild2) }
  | timer (h : s.child2 = .timer) : Child2Effect s .timer { s with child2 := .head, armed := true }
  | taken (h : s.child2 = .head) (hp : s.print_stat = true) :
      Child2Effect s (.head true) { s with child2 := .stat, ticks := s.ticks + 1 }
  | passed (h : s.child2 = .head) (hp : s.print_stat = false) : Child2Effect s (.head false) s
  | stat (contents : Option (List Byte)) (h : s.child2 = .stat) :
      Child2Effect s (.stat contents)
        { s with child2 := .reopen, text_file_data1 := readStat s.text_file_data1 contents }
  | reopen (ok : Bool) (h : s.child2 = .reopen) :
      Child2Effect s (.reopen ok) { s with child2 := .record, log := s.log.apply (.fopen .child2 ok) }
  | record (h : s.child2 = .record) :
      Child2Effect s .record
        { s with child2 := .reset,
                 log := s.log.apply (.fprintf (.stat s.ticks (s.text_file_data1.text 0))) }
  | reset (h : s.child2 = .reset) :
      Child2Effect s .reset { s with child2 := .head, print_stat := false }

section Effects

variable {s s' : State}

theorem mainEffect {b : MainAct} (hs : mainStep s b = some s') : MainEffect s b s' := by
  unfold mainStep at hs
  cases b with
  | fopen _ | write | fclose | create1 _ | create2 _ =>
    simp only [Option.ite_none_right_eq_some, Option.some.injEq] at hs
    obtain ⟨hpc, rfl⟩ := hs
    constructor
    exact hpc
  | exit order =>
    simp only [Option.ite_none_right_eq_some, Option.some.injEq] at hs
    obtain ⟨⟨hpc, hperm⟩, rfl⟩ := hs
    exact .exit order hpc hperm
  | join =>
    simp only at hs
    split at hs
    · rename_i hpc
      simp only [Option.ite_none_right_eq_some, Option.some.injEq] at hs
      obtain ⟨hend, rfl⟩ := hs
      exact .join1 hpc hend
    · rename_i hpc
      simp only [Option.ite_none_right_eq_some, Option.some.injEq] at hs
      obtain ⟨hend, rfl⟩ := hs
      exact .join2 hpc hend
    · simp at hs
  | test taken =>
    simp only at hs
    split at hs
    · rename_i sig hpc
      simp only [Option.ite_none_right_eq_some, Option.some.injEq] at hs
      obtain ⟨ht, rfl⟩ := hs
      exact .test taken sig (.inl hpc) ht
    · rename_i sig hpc
      simp only [Option.ite_none_right_eq_some, Option.some.injEq] at hs
      obtain ⟨ht, rfl⟩ := hs
      exact .test taken sig (.inr hpc) ht
    · simp at hs
  | report =>
    simp only at hs
    split at hs
    · rename_i sig hpc
      obtain rfl := Option.some.inj hs
      exact .report1 sig hpc
    · rename_i sig hpc
      obtain rfl := Option.some.inj hs
      exact .report2 sig hpc
    · simp at hs
  | fcloseReport =>
    simp only at hs
    split at hs
    · rename_i sig hpc
      obtain rfl := Option.some.inj hs
      exact .fcloseReport sig hpc
    · simp at hs

theorem child1Effect {b : Child1Act} (hs : child1Step s b = some s') : Child1Effect s b s' := by
  unfold child1Step at hs
  cases b with
  | fopen _ | write | crash | exitLine | fclose =>
    simp only [Option.ite_none_right_eq_some, Option.some.injEq] at hs
    obtain ⟨hpc, rfl⟩ := hs
    constructor
    exact hpc
  | test null =>
    simp only [Option.ite_none_right_eq_some, Option.some.injEq] at hs
    obtain ⟨⟨hpc, hn⟩, rfl⟩ := hs
    exact .test null hpc hn
  | read lines =>
    simp only [Option.ite_none_right_eq_some, Option.some.injEq] at hs
    obtain ⟨⟨hpc, hl⟩, rfl⟩ := hs
    exact .read lines hpc hl
  | print =>
    simp only at hs
    split at hs
    · rename_i lines hpc
      obtain rfl := Option.some.inj hs
      exact .print lines hpc
    · simp at hs

theorem child2Effect {b : Child2Act} (hs : child2Step s b = some s') : Child2Effect s b s' := by
  unfold child2Step at hs
  cases b with
  | fopen _ | write | timer | stat _ | reopen _ | record | reset =>
    simp only [Option.ite_none_right_eq_some, Option.some.injEq] at hs
    obtain ⟨hpc, rfl⟩ := hs
    constructor
    exact hpc
  | test null =>
    simp only [Option.ite_none_right_eq_some, Option.some.injEq] at hs
    obtain ⟨⟨hpc, hn⟩, rfl⟩ := hs
    exact .test null hpc hn
  | head print_stat =>
    simp only [Option.ite_none_right_eq_some] at hs
    obtain ⟨⟨hpc, hp⟩, hs⟩ := hs
    cases print_stat with
    | true =>
      obtain rfl := Option.some.inj hs
      exact .taken hpc hp.symm
    | false =>
      obtain rfl := Option.some.inj hs
      exact .passed hpc hp.symm

end Effects

/-! ### What a step does to the log -/

/-- What a step is for the shared handle. -/
def Act.event : Act → Option SharedHandle.Event
  | .main (.fopen ok) | .child1 (.fopen ok) | .child2 (.fopen ok) | .child2 (.reopen ok) =>
    some (if ok then .opened else .failed)
  | .main .write | .main .report | .child1 .write | .child1 .print | .child1 .exitLine
  | .child2 .write | .child2 .record => some .used
  | .main .fclose | .main .fcloseReport | .child1 .fclose => some .closed
  | .main (.create1 _) | .main (.create2 _) | .main .join | .main (.test _) | .main (.exit _)
  | .child1 (.test _) | .child1 (.read _) | .child1 .crash | .child2 (.test _) | .child2 .timer
  | .child2 (.head _) | .child2 (.stat _) | .child2 .reset | .tick | .kill1 _ | .kill2 _ => none

def LogAct.event : LogAct → Option SharedHandle.Event
  | .fopen _ ok => some (if ok then .opened else .failed)
  | .fprintf _ => some .used
  | .fclose _ => some .closed
  | .exit _ => none

/-- What a step does to the log. -/
def Act.onLog (s : State) : Act → Option LogAct
  | .main (.fopen ok) => some (.fopen .main ok)
  | .main .write => some (.fprintf .inMain)
  | .main .fclose | .main .fcloseReport => some (.fclose .main)
  | .main .report =>
    match s.main with
    | .report1 sig => some (.fprintf (.exitDueTo .child1 sig))
    | .report2 sig => some (.fprintf (.exitDueTo .child2 sig))
    | _ => none
  | .main (.exit order) => some (.exit order)
  | .child1 (.fopen ok) => some (.fopen .child1 ok)
  | .child1 .write => some (.fprintf .inChild1)
  | .child1 .print => some (.fprintf .character)
  | .child1 .exitLine => some (.fprintf .exitNormally)
  | .child1 .fclose => some (.fclose .child1)
  | .child2 (.fopen ok) | .child2 (.reopen ok) => some (.fopen .child2 ok)
  | .child2 .write => some (.fprintf .inChild2)
  | .child2 .record => some (.fprintf (.stat s.ticks (s.text_file_data1.text 0)))
  | _ => none

variable {s s' : State} {a : Act}

theorem mainStep_log {b : MainAct} (hs : mainStep s b = some s') :
    s'.log = ((Act.main b).onLog s).elim s.log s.log.apply ∧
      ((Act.main b).onLog s).bind LogAct.event = (Act.main b).event := by
  cases mainEffect hs with
  | report1 sig hpc | report2 sig hpc =>
    unfold Act.onLog
    simp only [hpc]
    exact ⟨rfl, rfl⟩
  | _ => exact ⟨rfl, rfl⟩

theorem child1Step_log {b : Child1Act} (hs : child1Step s b = some s') :
    s'.log = ((Act.child1 b).onLog s).elim s.log s.log.apply ∧
      ((Act.child1 b).onLog s).bind LogAct.event = (Act.child1 b).event := by
  cases child1Effect hs <;> exact ⟨rfl, rfl⟩

theorem child2Step_log {b : Child2Act} (hs : child2Step s b = some s') :
    s'.log = ((Act.child2 b).onLog s).elim s.log s.log.apply ∧
      ((Act.child2 b).onLog s).bind LogAct.event = (Act.child2 b).event := by
  cases child2Effect hs <;> exact ⟨rfl, rfl⟩

theorem not_exited (hs : step s a = some s') : s.exited = false := by
  unfold step at hs
  by_contra h
  rw [if_pos (by simpa using h)] at hs
  simp at hs

/-- The step of a thread, of the timer or of a signal. -/
inductive Effect (s : State) : Act → State → Prop
  | main {b : MainAct} {s' : State} (h : mainStep s b = some s') : Effect s (.main b) s'
  | child1 {b : Child1Act} {s' : State} (h : child1Step s b = some s') : Effect s (.child1 b) s'
  | child2 {b : Child2Act} {s' : State} (h : child2Step s b = some s') : Effect s (.child2 b) s'
  | tick (h : s.armed = true) : Effect s .tick { s with print_stat := true }
  | kill1 (sig : Sig) (h : s.child1.Active) :
      Effect s (.kill1 sig) { s with child1 := .ended, kill_msg := some sig }
  | kill2 (sig : Sig) (h : s.child2.Active) :
      Effect s (.kill2 sig) { s with child2 := .ended, kill_msg := some sig }

theorem effect (hs : step s a = some s') : Effect s a s' := by
  have hex := not_exited hs
  unfold step at hs
  rw [if_neg (by simp [hex])] at hs
  cases a with
  | main b => exact .main hs
  | child1 b => exact .child1 hs
  | child2 b => exact .child2 hs
  | tick | kill1 _ | kill2 _ =>
    simp only [Option.ite_none_right_eq_some, Option.some.injEq] at hs
    obtain ⟨h, rfl⟩ := hs
    constructor
    exact h

/-- **A step changes the log as its statement does.** -/
theorem step_log (hs : step s a = some s') :
    s'.log = (a.onLog s).elim s.log s.log.apply ∧ (a.onLog s).bind LogAct.event = a.event := by
  cases effect hs with
  | main h => exact mainStep_log h
  | child1 h => exact child1Step_log h
  | child2 h => exact child2Step_log h
  | tick | kill1 | kill2 => exact ⟨rfl, rfl⟩

/-! ### What a step does to the program counters -/

/-- How far `main` has come: before, between and behind the two `pthread_create`, and behind the
join of child 1. -/
def MainPc.stage : MainPc → ℕ
  | .fopen | .write | .fclose | .create1 => 0
  | .create2 => 1
  | .join1 => 2
  | _ => 3

/-- The children run in these stages only. -/
structure Staged (s : State) : Prop where
  success : s.success = false → s.child1 = .notStarted
  child1 : s.child1.Active → s.main.stage = 1 ∨ s.main.stage = 2
  child2 : s.child2 ≠ .notStarted → 2 ≤ s.main.stage

theorem staged_start (d : Rec 10001) : Staged (start d) := by
  constructor <;> simp [start, Child1Pc.Active]

/-- `main` behind the tests of `kill_msg`. -/
theorem stage_afterTest (sig : Sig) (taken : Bool) :
    ((MainPc.test1 sig).afterTest taken).stage = 3 ∧ ((MainPc.test2 sig).afterTest taken).stage = 3 := by
  cases sig <;> cases taken <;> exact ⟨rfl, rfl⟩

/-- Behind the join of child 1, which is over then. -/
theorem Staged.late {pc : MainPc} {l : Log} (h : Staged s) (h3 : s.main.stage = 3)
    (h3' : pc.stage = 3) : Staged { s with main := pc, log := l } := by
  refine ⟨h.success, ?_, ?_⟩
  · intro hact
    have hstage := h.child1 hact
    omega
  · intro _
    simp only [h3']
    omega

/-- Before the children are created. -/
theorem Staged.early (h : Staged s) (h0 : s.main.stage = 0) :
    ¬ s.child1.Active ∧ s.child2 = .notStarted := by
  constructor
  · intro hact
    have hstage := h.child1 hact
    omega
  · by_contra hne
    have hstage := h.child2 hne
    omega

theorem mainStep_staged {b : MainAct} (h : Staged s) (hs : mainStep s b = some s') : Staged s' := by
  cases mainEffect hs with
  | fopen _ hpc | write hpc | fclose hpc =>
    obtain ⟨hc1, hc2⟩ := h.early (by rw [hpc]; rfl)
    exact ⟨h.success, fun hact => absurd hact hc1, fun hne => absurd hc2 hne⟩
  | create1 ok hpc =>
    obtain ⟨-, hc2⟩ := h.early (by rw [hpc]; rfl)
    refine ⟨?_, fun _ => .inl rfl, fun hne => absurd hc2 hne⟩
    intro hf
    have hok : ok = false := hf
    simp [hok]
  | create2 _ hpc => exact ⟨h.success, fun _ => .inr rfl, fun _ => le_rfl⟩
  | join1 hpc hend =>
    refine ⟨h.success, ?_, fun _ => by simp [MainPc.stage]⟩
    intro hact
    -- the child that was created has ended
    cases hc : s.success with
    | true => exact absurd (hend hc) hact.2
    | false => exact absurd (h.success hc) hact.1
  | join2 hpc _ => exact h.late (by rw [hpc]; rfl) rfl
  | exit => exact ⟨h.success, h.child1, h.child2⟩
  | test taken sig hpc ht =>
    rcases hpc with hpc | hpc
    · exact h.late (by rw [hpc]; rfl) (by rw [hpc]; exact (stage_afterTest sig taken).1)
    · exact h.late (by rw [hpc]; rfl) (by rw [hpc]; exact (stage_afterTest sig taken).2)
  | report1 sig hpc => exact h.late (by rw [hpc]; rfl) (stage_afterTest sig false).1
  | report2 sig hpc => exact h.late (by rw [hpc]; rfl) rfl
  | fcloseReport sig hpc => exact h.late (by rw [hpc]; rfl) (stage_afterTest sig false).2

/-- A statement of a child leaves the other threads where they are. -/
theorem child1Step_others {b : Child1Act} (hs : child1Step s b = some s') :
    s.child1.Active ∧ s'.main = s.main ∧ s'.success = s.success ∧ s'.child2 = s.child2 ∧
      s'.child1 ≠ .notStarted := by
  unfold Child1Pc.Active
  cases child1Effect hs with
  | fopen _ hpc | write hpc | read _ hpc _ | crash hpc | exitLine hpc | fclose hpc => simp [hpc]
  | test null hpc _ => cases null <;> simp [hpc]
  | print lines hpc => by_cases hl : lines = 0 <;> simp [hpc, hl]

theorem child2Step_others {b : Child2Act} (hs : child2Step s b = some s') :
    s.child2.Active ∧ s'.main = s.main ∧ s'.success = s.success ∧ s'.child1 = s.child1 := by
  unfold Child2Pc.Active
  cases child2Effect hs with
  | fopen _ hpc | test _ hpc _ | write hpc | timer hpc | taken hpc _ | passed hpc _ | stat _ hpc
  | reopen _ hpc | record hpc | reset hpc => simp [hpc]

theorem staged_step (h : Staged s) (hs : step s a = some s') : Staged s' := by
  cases effect hs with
  | main hb => exact mainStep_staged h hb
  | child1 hb =>
    obtain ⟨hact, hm, hsucc, hc2, hne⟩ := child1Step_others hb
    refine ⟨?_, ?_, ?_⟩
    · intro hf
      rw [hsucc] at hf
      exact absurd (h.success hf) hact.1
    · intro _
      rw [hm]
      exact h.child1 hact
    · rw [hm, hc2]
      exact h.child2
  | child2 hb =>
    obtain ⟨hact, hm, hsucc, hc1⟩ := child2Step_others hb
    refine ⟨?_, ?_, ?_⟩
    · rw [hsucc, hc1]
      exact h.success
    · rw [hm, hc1]
      exact h.child1
    · intro _
      rw [hm]
      exact h.child2 hact.1
  | tick => exact ⟨h.success, h.child1, h.child2⟩
  | kill1 sig hact =>
    exact ⟨fun hf => absurd (h.success hf) hact.1, fun hact' => absurd rfl hact'.2, h.child2⟩
  | kill2 sig hact => exact ⟨h.success, h.child1, fun _ => h.child2 hact.1⟩

end Aesd.Pthread
