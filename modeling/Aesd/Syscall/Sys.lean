import Aesd.Syscall.Kernel

/-!
# The three system calls of `HW2/Required Files/sys.c`

`getPartitionIndex`, `quickSort` and `sorting` follow the C text statement by
statement. `int32_t` arithmetic wraps (the kernel is built without strict overflow),
`sys_quick_sort` calls itself, so its depth is bounded by a fuel argument: `none` as
a result means that the fuel ran out before the call returned. `size_t` has the
width `w` of a pointer.

What the kernel answers during one call of `sorting` is part of the call
(`SortingCall`): the pointer `kmalloc` returns and how many bytes each user copy
leaves uncopied.
-/

namespace Aesd

open ByteMem

variable {w : ℕ}

/-- The `for` loop of `get_partition_index`: the final `i` and the state after it. -/
def partitionLoop (parted_array : Addr w) (pivot high_index : Int32) (i j : Int32) (s : Kernel w) :
    Int32 × Kernel w :=
  if j < high_index then
    let (x, s) := s.read parted_array j
    if x ≥ pivot then
      partitionLoop parted_array pivot high_index (i + 1) (j + 1) (s.exchange parted_array j i)
    else
      partitionLoop parted_array pivot high_index i (j + 1) s
  else (i, s)
termination_by (high_index.toInt - j.toInt).toNat
decreasing_by
  all_goals
    have h : j < high_index := by assumption
    rw [toInt_succ h]
    rw [Int32.lt_iff_toInt_lt] at h
    omega

/-- System call 400. The pivot is read before the pointer is checked. -/
def getPartitionIndex (parted_array : Addr w) (low_index high_index : Int32) (s : Kernel w) :
    ℤ × Kernel w :=
  let (pivot, s) := s.read parted_array high_index
  if parted_array ≠ NULL then
    let (i, s) := partitionLoop parted_array pivot high_index low_index low_index s
    (i.toInt, s.exchange parted_array i high_index)
  else (negEFAULT, s)

/-- System call 399. -/
def quickSort : ℕ → Addr w → Int32 → Int32 → Kernel w → Option ℤ × Kernel w
  | 0, _, _, _, s => (none, s)
  | fuel + 1, sort_it, low_index, high_index, s =>
    if sort_it ≠ NULL then
      if low_index < high_index then
        let (ret, s) := getPartitionIndex sort_it low_index high_index s
        let partition_index := Int32.ofInt ret
        match quickSort fuel sort_it low_index (partition_index - 1) s with
        | (none, s) => (none, s)
        | (some _, s) =>
          match quickSort fuel sort_it (partition_index + 1) high_index s with
          | (none, s) => (none, s)
          | (some _, s) => (some 0, s)
      else (some 0, s)
    else (some negEFAULT, s)

/-- The arguments of one call of `sorting` and the kernel's answers during it. -/
structure SortingCall (w : ℕ) where
  unsorted : Addr w
  sorted : Addr w
  size : Int32
  /-- what `kmalloc` returns, `NULL` when it fails -/
  kmalloc : Addr w
  /-- the bytes `copy_from_user` and `copy_to_user` leave uncopied, 0 on success -/
  from_left : ℕ
  to_left : ℕ

/-- An `int32_t` as a `size_t`, sign extended. -/
def sizeT (w : ℕ) (x : Int32) : BitVec w := BitVec.ofInt w x.toInt

/-- `size*sizeof(int32_t)`, computed in `size_t` and stored in an `int32_t`. -/
def sizeOfVar (w : ℕ) (size : Int32) : Int32 := ⟨⟨(sizeT w size * 4).setWidth 32⟩⟩

namespace Kernel

/-- `kmalloc(n)` returning `r`. A request for zero bytes allocates nothing. -/
def kmalloc (s : Kernel w) (r : Addr w) (n : ℕ) : Kernel w :=
  if r = NULL ∨ n = 0 then s else { s with live := insert r s.live }

def kfree (s : Kernel w) (r : Addr w) : Kernel w := { s with live := s.live.erase r }

/-- A user copy of `n` bytes that leaves the last `left` of them uncopied. -/
def copyUser (s : Kernel w) (dst src : Addr w) (n left : ℕ) : Kernel w :=
  { s with mem := copy s.mem dst src (n - left) }

end Kernel

/-- `for(j=0; j<size; j++) printk(.., j, to_return[j])`, from the given `j` on. -/
def printLoop (to_return : Addr w) (size j : Int32) (s : Kernel w) : Kernel w :=
  if j < size then printLoop to_return size (j + 1) (s.read to_return j).2 else s
termination_by (size.toInt - j.toInt).toNat
decreasing_by
  have h : j < size := by assumption
  rw [toInt_succ h]
  rw [Int32.lt_iff_toInt_lt] at h
  omega

/-- System call 398. The recursion of `sys_quick_sort` is at most `size` deep
(`quickSort_returns`), and its result is not looked at. -/
def sorting (c : SortingCall w) (s : Kernel w) : ℤ × Kernel w :=
  let size_of_var := sizeOfVar w c.size
  let bytes := (sizeT w size_of_var).toNat
  if c.sorted = NULL then (negEFAULT, s)
  else if c.unsorted = NULL then (negEFAULT, s)
  else if c.size ≤ 0 then (negEFAULT, s)
  else
    let to_return := c.kmalloc
    let s := s.kmalloc to_return bytes
    if to_return ≠ NULL then
      let s := s.copyUser to_return c.unsorted bytes c.from_left
      if c.from_left ≠ 0 then (negEFAULT, s)
      else
        let s := printLoop to_return c.size 0 s
        let s := (quickSort (c.size.toNatClampNeg + 1) to_return 0 (c.size - 1) s).2
        let s := printLoop to_return c.size 0 s
        let s := s.copyUser c.sorted to_return bytes c.to_left
        if c.to_left ≠ 0 then (negEFAULT, s)
        else (0, s.kfree to_return)
    else (negEFAULT, s)

end Aesd
