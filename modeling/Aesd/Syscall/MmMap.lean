import Aesd.Lib.Record
import Aesd.Lib.Runs
import Aesd.Syscall.Kernel

/-!
# The memory map of a process (`HW2/Required Files/sys.c`)

`prctl(PR_SET_MM)`: one address of the map is set, or the whole map, the auxiliary vector, or
the file of the program. `w` is the width of an `unsigned long`; a `prctl_map` has addresses
of 64 bits whatever that is.

* `validatePrctlMap_ok`: the maps that are let through.
* `effect`: what a call does, whichever it is.
-/

namespace Aesd.MmMap

open CString CRecord

/-- The addresses of a map. -/
inductive Member
  | startCode
  | endCode
  | startData
  | endData
  | startBrk
  | brk
  | startStack
  | argStart
  | argEnd
  | envStart
  | envEnd
deriving DecidableEq

/-- The table `offsets`. -/
def offsets : List Member :=
  [.startCode, .endCode, .startData, .endData, .startBrk, .brk, .startStack, .argStart, .argEnd,
    .envStart, .envEnd]

theorem mem_offsets (f : Member) : f ∈ offsets := by
  cases f <;> decide

/-- `struct prctl_mm_map`. -/
structure PrctlMap (w : ℕ) where
  member : Member → BitVec 64
  auxv : BitVec w
  auxvSize : BitVec 32
  exeFd : BitVec 32

/-- What the machine and its configuration give. -/
structure Machine (w : ℕ) where
  TASK_SIZE : BitVec w
  mmapMinAddr : BitVec w
  AT_VECTOR_SIZE : ℕ
  /-- `sizeof(struct prctl_mm_map)` -/
  sizeofMap : BitVec w
  /-- `CONFIG_CHECKPOINT_RESTORE` -/
  checkpointRestore : Bool

variable {w : ℕ} {φ : Type}

/-- `sizeof(mm->saved_auxv)` -/
def Machine.auxvSize (k : Machine w) : ℕ := k.AT_VECTOR_SIZE * (w / 8)

/-- `struct mm_struct`; files are known by their paths. -/
structure Mm (k : Machine w) (φ : Type) where
  member : Member → BitVec w
  savedAuxv : Rec k.auxvSize
  exeFile : Option φ

/-- An open file. -/
structure File (φ : Type) where
  path : φ
  /-- `S_ISREG` -/
  regular : Bool
  /-- `path_noexec` -/
  noexec : Bool
  /-- the error of `inode_permission` for `MAY_EXEC` -/
  permission : Option Errno

/-- The answers of the rest of the kernel in a call, and the memory of the caller. -/
structure Answers (k : Machine w) (φ : Type) where
  /-- `ns_capable` for `CAP_SYS_ADMIN` -/
  capSysAdmin : Bool
  /-- `capable` for `CAP_SYS_RESOURCE` -/
  capSysResource : Bool
  /-- `check_data_rlimit` lets `brk`, `start_brk`, `end_data` and `start_data` through -/
  checkDataRlimit : BitVec w → BitVec w → BitVec w → BitVec w → Bool
  /-- `find_vma` finds an area -/
  findVma : Bool
  fdget : BitVec 32 → Option (File φ)
  /-- the files of the areas -/
  vmFiles : List φ
  /-- the memory of the caller -/
  user : BitVec w → Byte
  /-- so many bytes of it can be read from an address on -/
  readable : BitVec w → ℕ → Bool
  /-- the `struct prctl_mm_map` at `addr`, if it can be read -/
  userMap : Option (PrctlMap w)
  /-- `put_user` succeeds -/
  putUser : Bool
  /-- what the kernel's stack holds where `user_auxv` comes to lie -/
  stack : Rec k.auxvSize

/-- The values of `opt`. -/
inductive Opt
  | member (f : Member)
  | auxv
  | exeFile
  | map
  | mapSize
  | other
deriving DecidableEq

/-- `prctl(PR_SET_MM, opt, addr, arg4, arg5)` -/
structure Call (w : ℕ) where
  opt : Opt
  addr : BitVec w
  arg4 : BitVec w
  arg5 : BitVec w

section Calls

variable [DecidableEq φ] {k : Machine w} (ans : Answers k φ) (mm : Mm k φ)

def copyFromUser (addr : BitVec w) (n : ℕ) : Option (List Byte) :=
  if ans.readable addr n then some ((List.range n).map fun i => ans.user (addr + BitVec.ofNat w i))
  else none

def prctlSetMmExeFile (fd : BitVec 32) : Except Errno Unit × Mm k φ :=
  match ans.fdget fd with
  | none => (.error .EBADF, mm)
  | some exe =>
    if exe.regular = false ∨ exe.noexec = true then (.error .EACCES, mm)
    else
      match exe.permission with
      | some e => (.error e, mm)
      | none =>
        if mm.exeFile.any ans.vmFiles.contains then (.error .EBUSY, mm)
        else (.ok (), { mm with exeFile := some exe.path })

def validatePrctlMap (map : PrctlMap w) : Except Errno Unit :=
  let long (f : Member) : BitVec w := (map.member f).setWidth w
  if ∃ f ∈ offsets, k.TASK_SIZE ≤ long f ∨ long f < k.mmapMinAddr then .error .EINVAL
  else if ¬ (long .startCode < long .endCode ∧ long .startData < long .endData ∧
      long .startBrk ≤ long .brk ∧ long .argStart ≤ long .argEnd ∧
      long .envStart ≤ long .envEnd) then .error .EINVAL
  else if map.member .startBrk ≤ map.member .endData ∨ map.member .brk ≤ map.member .endData then
    .error .EINVAL
  else if ans.checkDataRlimit (long .brk) (long .startBrk) (long .endData) (long .startData) = false
    then .error .EINVAL
  else if map.auxvSize ≠ 0 ∧ (map.auxv = 0 ∨ k.auxvSize < map.auxvSize.toNat) then .error .EINVAL
  else if map.exeFd ≠ -1 ∧ ans.capSysAdmin = false then .error .EINVAL
  else .ok ()

/-- `AT_NULL` in the last two words. -/
def terminated (auxv : Rec k.auxvSize) : Rec k.auxvSize :=
  (auxv.put ((k.AT_VECTOR_SIZE - 2) * (w / 8)) (List.replicate (w / 8) 0)).put
    ((k.AT_VECTOR_SIZE - 1) * (w / 8)) (List.replicate (w / 8) 0)

/-- The vector a `prctl_map` brings, if it brings one. -/
def userAuxv (map : PrctlMap w) : Except Errno (Option (Rec k.auxvSize)) :=
  if map.auxvSize ≠ 0 then
    match copyFromUser ans map.auxv map.auxvSize.toNat with
    | none => .error .EFAULT
    | some bytes => .ok (some (terminated (Rec.zero.put 0 bytes)))
  else .ok none

def prctlSetMmMap (opt : Opt) (dataSize : BitVec w) : Except Errno Unit × Mm k φ :=
  if opt = .mapSize then (if ans.putUser then .ok () else .error .EFAULT, mm)
  else if dataSize ≠ k.sizeofMap then (.error .EINVAL, mm)
  else
    match ans.userMap with
    | none => (.error .EFAULT, mm)
    | some map =>
      match validatePrctlMap ans map with
      | .error e => (.error e, mm)
      | .ok () =>
        match userAuxv ans map with
        | .error e => (.error e, mm)
        | .ok auxv =>
          let exe := if map.exeFd ≠ -1 then prctlSetMmExeFile ans mm map.exeFd else (.ok (), mm)
          match exe.1 with
          | .error e => (.error e, exe.2)
          | .ok () =>
            (.ok (), { exe.2 with
              member := fun f => (map.member f).setWidth w
              savedAuxv := auxv.getD mm.savedAuxv })

def prctlSetAuxv (addr len : BitVec w) : Except Errno Unit × Mm k φ :=
  if k.auxvSize < len.toNat then (.error .EINVAL, mm)
  else
    match copyFromUser ans addr len.toNat with
    | none => (.error .EFAULT, mm)
    | some bytes =>
      let userAuxv := terminated (ans.stack.put 0 bytes)
      (.ok (), { mm with savedAuxv := mm.savedAuxv.put 0 (userAuxv.bytes.take len.toNat) })

/-- The members that describe the stack, and what is on it. -/
def onStack (f : Member) : Bool :=
  [.startStack, .argStart, .argEnd, .envStart, .envEnd].contains f

/-- `prctl_set_mm` for one address. -/
def prctlSetMember (f : Member) (addr : BitVec w) : Except Errno Unit × Mm k φ :=
  let map : PrctlMap w :=
    ⟨fun g => (Function.update mm.member f addr g).setWidth 64, 0, 0, -1⟩
  match validatePrctlMap ans map with
  | .error e => (.error e, mm)
  | .ok () =>
    if onStack f ∧ ans.findVma = false then (.error .EFAULT, mm)
    else (.ok (), { mm with member := fun g => (map.member g).setWidth w })

def prctlSetMm (c : Call w) : Except Errno Unit × Mm k φ :=
  if c.arg5 ≠ 0 ∨ (c.arg4 ≠ 0 ∧ c.opt ≠ .auxv ∧ c.opt ≠ .map ∧ c.opt ≠ .mapSize) then
    (.error .EINVAL, mm)
  else if k.checkpointRestore ∧ (c.opt = .map ∨ c.opt = .mapSize) then
    prctlSetMmMap ans mm c.opt c.arg4
  else if ans.capSysResource = false then (.error .EPERM, mm)
  else if c.opt = .exeFile then prctlSetMmExeFile ans mm (c.addr.setWidth 32)
  else if c.opt = .auxv then prctlSetAuxv ans mm c.addr c.arg4
  else if k.TASK_SIZE ≤ c.addr ∨ c.addr < k.mmapMinAddr then (.error .EINVAL, mm)
  else
    match c.opt with
    | .member f => prctlSetMember ans mm f c.addr
    | _ => (.error .EINVAL, mm)

end Calls

/-! ### What a call does -/

section Effects

variable {k : Machine w} {m : Member → BitVec w}

/-- The addresses are in range, and those that come in pairs in order. -/
structure InOrder (k : Machine w) (m : Member → BitVec w) : Prop where
  range : ∀ f, k.mmapMinAddr ≤ m f ∧ m f < k.TASK_SIZE
  code : m .startCode < m .endCode
  data : m .startData < m .endData
  heap : m .startBrk ≤ m .brk
  args : m .argStart ≤ m .argEnd
  envs : m .envStart ≤ m .envEnd

/-- The heap also comes after the data. -/
structure Valid (k : Machine w) (m : Member → BitVec w) : Prop extends InOrder k m where
  after : m .endData < m .startBrk

theorem Valid.brk_after (h : Valid k m) : m .endData < m .brk := by
  have hafter := h.after
  have hheap := h.heap
  rw [BitVec.lt_def] at hafter ⊢
  rw [BitVec.le_def] at hheap
  omega

variable {ans : Answers k φ} {mm : Mm k φ} {map : PrctlMap w}

/-- What `validate_prctl_map` lets through. -/
theorem validatePrctlMap_ok : validatePrctlMap ans map = .ok () ↔
    InOrder k (fun f => (map.member f).setWidth w) ∧
      (map.member .endData < map.member .startBrk ∧ map.member .endData < map.member .brk) ∧
      ans.checkDataRlimit ((map.member .brk).setWidth w) ((map.member .startBrk).setWidth w)
        ((map.member .endData).setWidth w) ((map.member .startData).setWidth w) = true ∧
      (map.auxvSize ≠ 0 → map.auxv ≠ 0 ∧ map.auxvSize.toNat ≤ k.auxvSize) ∧
      (map.exeFd ≠ -1 → ans.capSysAdmin = true) := by
  have hrange : (¬ ∃ f ∈ offsets, k.TASK_SIZE ≤ (map.member f).setWidth w ∨
      (map.member f).setWidth w < k.mmapMinAddr) ↔
      ∀ f, k.mmapMinAddr ≤ (map.member f).setWidth w ∧ (map.member f).setWidth w < k.TASK_SIZE := by
    refine ⟨?_, ?_⟩
    · intro h f
      have hf : ¬ (k.TASK_SIZE ≤ (map.member f).setWidth w ∨
          (map.member f).setWidth w < k.mmapMinAddr) := fun hbad => h ⟨f, mem_offsets f, hbad⟩
      rw [not_or, BitVec.not_le, BitVec.not_lt] at hf
      exact hf.symm
    · rintro h ⟨f, -, hbad⟩
      obtain ⟨hmin, hmax⟩ := h f
      rcases hbad with hbad | hbad
      · exact BitVec.not_le.2 hmax hbad
      · exact BitVec.not_lt.2 hmin hbad
  have hauxv : ¬ (map.auxvSize ≠ 0 ∧ (map.auxv = 0 ∨ k.auxvSize < map.auxvSize.toNat)) ↔
      (map.auxvSize ≠ 0 → map.auxv ≠ 0 ∧ map.auxvSize.toNat ≤ k.auxvSize) := by
    rw [not_and, not_or, not_lt]
  have hexe : ¬ (map.exeFd ≠ -1 ∧ ans.capSysAdmin = false) ↔
      (map.exeFd ≠ -1 → ans.capSysAdmin = true) := by
    rw [not_and, Bool.not_eq_false]
  unfold validatePrctlMap
  simp only [ite_error_eq_ok, hrange, hauxv, hexe, not_not, not_or, BitVec.not_le,
    Bool.not_eq_false]
  refine ⟨?_, ?_⟩
  · rintro ⟨hmin, ⟨hcode, hdata, hheap, hargs, henvs⟩, hafter, hlimit, hauxv, hexe, -⟩
    exact ⟨⟨hmin, hcode, hdata, hheap, hargs, henvs⟩, hafter, hlimit, hauxv, hexe⟩
  · rintro ⟨h, hafter, hlimit, hauxv, hexe⟩
    exact ⟨h.range, ⟨h.code, h.data, h.heap, h.args, h.envs⟩, hafter, hlimit, hauxv, hexe, trivial⟩

/-- A regular file that the caller has open and may execute. -/
def Executable (ans : Answers k φ) (path : φ) : Prop :=
  ∃ fd exe, ans.fdget fd = some exe ∧ exe.regular = true ∧ exe.noexec = false ∧
    exe.permission = none ∧ exe.path = path

/-- The vectors that a call for the whole map can leave. -/
inductive NewAuxv (mm : Mm k φ) : Rec k.auxvSize → Prop
  | kept : NewAuxv mm mm.savedAuxv
  | given (bytes : List Byte) : NewAuxv mm (terminated (Rec.zero.put 0 bytes))

/-- What a call does. -/
inductive Effect (ans : Answers k φ) (mm : Mm k φ) : Except Errno Unit × Mm k φ → Prop
  | failed (e : Errno) : Effect ans mm (.error e, mm)
  | asked : Effect ans mm (.ok (), mm)
  | exe (path : φ) (hexe : Executable ans path) :
      Effect ans mm (.ok (), { mm with exeFile := some path })
  | auxv (bytes : List Byte) (hlen : bytes.length ≤ k.auxvSize) :
      Effect ans mm (.ok (), { mm with
        savedAuxv := mm.savedAuxv.put 0
          ((terminated (ans.stack.put 0 bytes)).bytes.take bytes.length) })
  | member (f : Member) (addr : BitVec w) (hvalid : Valid k (Function.update mm.member f addr)) :
      Effect ans mm (.ok (), { mm with member := Function.update mm.member f addr })
  | map (member : Member → BitVec 64) (auxv : Rec k.auxvSize) (exeFile : Option φ)
      (horder : InOrder k fun f => (member f).setWidth w)
      (hafter : member .endData < member .startBrk) (hauxv : NewAuxv mm auxv)
      (hexe : exeFile = mm.exeFile ∨ ∃ path, Executable ans path ∧ exeFile = some path) :
      Effect ans mm (.ok (), ⟨fun f => (member f).setWidth w, auxv, exeFile⟩)

theorem setWidth_back (hw : w ≤ 64) (x : BitVec w) : (x.setWidth 64).setWidth w = x := by
  rw [BitVec.setWidth_setWidth_of_le _ hw, BitVec.setWidth_eq]

theorem setWidth_lt (hw : w ≤ 64) {x y : BitVec w} : x.setWidth 64 < y.setWidth 64 ↔ x < y := by
  rw [BitVec.lt_def, BitVec.lt_def, BitVec.toNat_setWidth_of_le hw, BitVec.toNat_setWidth_of_le hw]

theorem length_copyFromUser {addr : BitVec w} {n : ℕ} {bytes : List Byte}
    (h : copyFromUser ans addr n = some bytes) : bytes.length = n := by
  unfold copyFromUser at h
  split_ifs at h
  cases h
  rw [List.length_map, List.length_range]

theorem userAuxv_ok {auxv : Option (Rec k.auxvSize)} (h : userAuxv ans map = .ok auxv) :
    NewAuxv mm (auxv.getD mm.savedAuxv) := by
  unfold userAuxv at h
  split_ifs at h with hsize
  · cases hcopy : copyFromUser ans map.auxv map.auxvSize.toNat with
    | none =>
      rw [hcopy] at h
      cases h
    | some bytes =>
      rw [hcopy] at h
      cases h
      exact .given bytes
  · cases h
    exact .kept

theorem auxv_effect (addr len : BitVec w) : Effect ans mm (prctlSetAuxv ans mm addr len) := by
  unfold prctlSetAuxv
  by_cases hlen : k.auxvSize < len.toNat
  · rw [if_pos hlen]
    exact .failed _
  · rw [if_neg hlen]
    cases hcopy : copyFromUser ans addr len.toNat with
    | none => exact .failed _
    | some bytes =>
      have hbytes : bytes.length = len.toNat := length_copyFromUser hcopy
      dsimp only
      rw [← hbytes]
      exact .auxv bytes (by omega)

theorem member_cases (hw : w ≤ 64) (ans : Answers k φ) (mm : Mm k φ) (f : Member) (addr : BitVec w) :
    (∃ e, prctlSetMember ans mm f addr = (.error e, mm)) ∨
      (Valid k (Function.update mm.member f addr) ∧ prctlSetMember ans mm f addr =
        (.ok (), { mm with member := Function.update mm.member f addr })) := by
  unfold prctlSetMember
  dsimp only
  cases hvalid : validatePrctlMap ans
      ⟨fun g => (Function.update mm.member f addr g).setWidth 64, 0, 0, -1⟩ with
  | error e => exact .inl ⟨e, rfl⟩
  | ok u =>
    obtain ⟨horder, ⟨hafter, -⟩, -⟩ := validatePrctlMap_ok.1 hvalid
    dsimp only at horder hafter ⊢
    split_ifs
    · exact .inl ⟨_, rfl⟩
    · simp only [setWidth_back hw] at horder ⊢
      exact .inr ⟨⟨horder, (setWidth_lt hw).1 hafter⟩, trivial⟩

theorem member_effect (hw : w ≤ 64) (f : Member) (addr : BitVec w) :
    Effect ans mm (prctlSetMember ans mm f addr) := by
  rcases member_cases hw ans mm f addr with ⟨e, h⟩ | ⟨hvalid, h⟩
  · rw [h]
    exact .failed e
  · rw [h]
    exact .member f addr hvalid

variable [DecidableEq φ]

theorem exeFile_cases (ans : Answers k φ) (mm : Mm k φ) (fd : BitVec 32) :
    (∃ e, prctlSetMmExeFile ans mm fd = (.error e, mm)) ∨
      ∃ path, Executable ans path ∧
        prctlSetMmExeFile ans mm fd = (.ok (), { mm with exeFile := some path }) := by
  unfold prctlSetMmExeFile
  cases hfd : ans.fdget fd with
  | none => exact .inl ⟨_, rfl⟩
  | some exe =>
    dsimp only
    by_cases hregular : exe.regular = false ∨ exe.noexec = true
    · rw [if_pos hregular]
      exact .inl ⟨_, rfl⟩
    · rw [if_neg hregular]
      rw [not_or, Bool.not_eq_false, Bool.not_eq_true] at hregular
      cases hpermission : exe.permission with
      | some e => exact .inl ⟨_, rfl⟩
      | none =>
        dsimp only
        split_ifs
        · exact .inl ⟨_, rfl⟩
        · exact .inr ⟨exe.path, ⟨fd, exe, hfd, hregular.1, hregular.2, hpermission, rfl⟩, rfl⟩

theorem exeFile_effect (fd : BitVec 32) : Effect ans mm (prctlSetMmExeFile ans mm fd) := by
  rcases exeFile_cases ans mm fd with ⟨e, h⟩ | ⟨path, hpath, h⟩
  · rw [h]
    exact .failed e
  · rw [h]
    exact .exe path hpath

theorem map_effect (opt : Opt) (dataSize : BitVec w) :
    Effect ans mm (prctlSetMmMap ans mm opt dataSize) := by
  unfold prctlSetMmMap
  split_ifs
  · exact .asked
  · exact .failed _
  · exact .failed _
  · cases huser : ans.userMap with
    | none => exact .failed _
    | some map =>
      dsimp only
      cases hvalid : validatePrctlMap ans map with
      | error e => exact .failed e
      | ok u =>
        obtain ⟨horder, ⟨hafter, -⟩, -⟩ := validatePrctlMap_ok.1 hvalid
        dsimp only
        cases hauxv : userAuxv ans map with
        | error e => exact .failed e
        | ok auxv =>
          by_cases hfd : map.exeFd ≠ -1
          · rcases exeFile_cases ans mm map.exeFd with ⟨e, hexe⟩ | ⟨path, hpath, hexe⟩
            · simp only [if_pos hfd, hexe]
              exact .failed e
            · simp only [if_pos hfd, hexe]
              exact .map map.member _ _ horder hafter (userAuxv_ok hauxv) (.inr ⟨path, hpath, rfl⟩)
          · simp only [if_neg hfd]
            exact .map map.member _ _ horder hafter (userAuxv_ok hauxv) (.inl rfl)

/-- **What a call does**, whichever it is. -/
theorem effect (hw : w ≤ 64) (c : Call w) : Effect ans mm (prctlSetMm ans mm c) := by
  unfold prctlSetMm
  split_ifs
  · exact .failed _
  · exact map_effect _ _
  · exact .failed _
  · exact exeFile_effect _
  · exact auxv_effect _ _
  · exact .failed _
  · cases c.opt with
    | member f => exact member_effect hw f _
    | auxv | exeFile | map | mapSize | other => exact .failed _

end Effects

/-! ### Runs -/

section Runs

variable [DecidableEq φ] {k : Machine w}

def step (s : Mm k φ) (a : Answers k φ × Call w) : Option (Mm k φ) := some (prctlSetMm a.1 s a.2).2

end Runs

/-! ### Examples of answers, calls and machines -/

section Examples

variable {k : Machine w}

/-- Answers without objections, for a caller with all capabilities and no data limit. -/
def willing (map : Option (PrctlMap w)) : Answers k φ where
  capSysAdmin := true
  capSysResource := true
  checkDataRlimit := fun _ _ _ _ => true
  findVma := true
  fdget := fun _ => none
  vmFiles := []
  user := fun _ => 0
  readable := fun _ _ => false
  userMap := map
  putUser := true
  stack := Rec.zero

/-- The call for the whole map. -/
def setMap (k : Machine w) : Call w := ⟨.map, 0, k.sizeofMap, 0⟩

/-- The call for one address. -/
def setMember (f : Member) (addr : BitVec w) : Call w := ⟨.member f, addr, 0, 0⟩

/-- A machine of 64 bits. -/
def wide : Machine 64 := ⟨0x7ffffffff000, 0x10000, 46, 104, true⟩

/-- How far the addresses of a small map are from the first one. -/
def lowest : Member → ℕ
  | .endCode | .endData => 1
  | .startBrk | .brk => 2
  | _ => 0

/-- A small map, from `a` on. -/
def lined (a : BitVec w) (f : Member) : BitVec w := a + BitVec.ofNat w (lowest f)

end Examples

end Aesd.MmMap
