import Aesd.Lib.CString

/-!
# `child1_funct` of `HW4/Related Files/pthread_sub.c`

The thread sorts the bytes of the text file in place, turning capitals to small letters on the
way, counts runs of equal letters, keeps the counts below 100 in a linked list and prints the
list.

A pointer to a `struct reporting` is the number of the node in the heap, in the order of the
`malloc`s; the first node is never filled in. The loop variables are `int`s: past `INT_MAX`
they overflow. `length` is a `long`. `char` is signed.
-/

namespace Aesd.Pthread

open CString

/-- How the function can go wrong. -/
inductive Stop
  | nullPointer
  | intOverflow
  /-- `print_list` runs longer than it may -/
  | fuel
deriving DecidableEq

/-- `i++` of an `int`. -/
def next (i : ℕ) : Except Stop ℕ := if i + 1 < 2 ^ 31 then .ok (i + 1) else .error .intOverflow

/-! ### The sort -/

/-- `text_file_data[i] += 32` for a capital. -/
def toLower (data : List Byte) (i : ℕ) : List Byte :=
  if 65 ≤ (data.getD i 0).toInt ∧ (data.getD i 0).toInt ≤ 90 then data.set i (data.getD i 0 + 32)
  else data

/-- The body of the inner loop. -/
def exchange (data : List Byte) (i j : ℕ) : List Byte :=
  let data := toLower (toLower data i) j
  if 0 < strcmp (data.drop i) (data.drop j) then
    (data.set i (data.getD j 0)).set j (data.getD i 0)
  else data

/-- `for(int j=i+1; j<length; j++)` -/
def innerLoop (length i : ℕ) (data : List Byte) : Except Stop (List Byte) :=
  (List.range' (i + 1) (length - (i + 1))).foldlM
    (fun data j => do
      let data := exchange data i j
      let _ ← next j
      return data) data

/-- `for(int i=0; i<length-1; i++)` -/
def outerLoop (length : ℕ) (data : List Byte) : Except Stop (List Byte) :=
  (List.range (length - 1)).foldlM
    (fun data i => do
      let data ← innerLoop length i data
      let _ ← next i
      return data) data

/-! ### The counts -/

structure Reporting where
  alphabet : Byte
  count : ℕ
  next : Option ℕ

/-- The heap, the global pointers and the variables of the counting loop. -/
structure Counting where
  heap : List Reporting
  report : Option ℕ
  head : Option ℕ
  first_time : Bool
  count : ℕ

def addNewMember (s : Counting) (member : Byte) (count : ℕ) : Except Stop Counting :=
  match s.report with
  | none => .error .nullPointer
  | some report =>
    let ptr := s.heap.length
    .ok { s with heap := (s.heap ++ [Reporting.mk member count none]).modify report
                   (fun node => { node with next := some ptr }),
                 report := some ptr }

/-- A run of `member` is over: the first one that is kept becomes the head of the list. -/
def endRun (s : Counting) (member : Byte) : Except Stop Counting :=
  if s.first_time = false then
    if s.count < 100 then
      (addNewMember s member s.count).map fun s => { s with head := s.report, first_time := true }
    else .ok s
  else if s.count < 100 then addNewMember s member s.count
  else .ok s

/-- The body of the counting loop. -/
def countLetter (data : List Byte) (s : Counting) (i : ℕ) : Except Stop Counting :=
  if 97 ≤ (data.getD i 0).toInt ∧ (data.getD i 0).toInt ≤ 122 then
    if data.getD i 0 = data.getD (i + 1) 0 then
      (next s.count).map fun count => { s with count := count }
    else (endRun s (data.getD i 0)).map fun s => { s with count := 1 }
  else .ok s

/-- `for(int i=0; i<length; i++)` -/
def countLoop (length : ℕ) (data : List Byte) (s : Counting) : Except Stop Counting :=
  (List.range length).foldlM
    (fun s i => do
      let s ← countLetter data s i
      let _ ← next i
      return s) s

/-- `print_list` from a node on: the letters and counts it prints. -/
def printList (heap : List Reporting) : ℕ → Option ℕ → Except Stop (List (Byte × ℕ))
  | 0, _ => .error .fuel
  | fuel + 1, ptr =>
    match ptr.bind fun p => heap[p]? with
    | none => .error .nullPointer
    | some node =>
      match node.next with
      | none => .ok [(node.alphabet, node.count)]
      | some next => do
        let lines ← printList heap fuel (some next)
        return (node.alphabet, node.count) :: lines

/-- The lines the thread prints for a file, when it comes to its normal exit. The first node
is as `malloc` leaves it. -/
def child1Funct (fuel : ℕ) (first : Reporting) (file : List Byte) :
    Except Stop (List (Byte × ℕ)) := do
  let data ← outerLoop file.length (file ++ [0])
  let s ← countLoop file.length data ⟨[first], some 0, none, false, 1⟩
  printList s.heap fuel s.head

/-! ### What the thread is for -/

/-- The letters a to z. -/
def letters : List Byte := (List.range 26).map fun k => BitVec.ofNat 8 (97 + k)

/-- How often a small letter occurs in the file, small or capital. -/
def occurrences (file : List Byte) (c : Byte) : ℕ := file.countP fun b => b = c ∨ b = c - 32

/-- The letters that occur, but not a hundred times, with the number of their occurrences. -/
def expected (file : List Byte) : List (Byte × ℕ) :=
  (letters.map fun c => (c, occurrences file c)).filter fun r => 1 ≤ r.2 ∧ r.2 < 100

end Aesd.Pthread
