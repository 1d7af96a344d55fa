import Aesd.Lib.Registry
import Aesd.Lib.Saturate
import Aesd.Syscall.Privileges

/-!
# Resource limits (`HW2/Required Files/sys.c`)

`do_prlimit` and the calls that reach it, on a table of processes that also make credential
calls. The width `w` of an `unsigned long` is a parameter; all bits set is `RLIM_INFINITY`.

* `limits_in_order`: soft limits stay below hard ones, but for the one second of `RLIMIT_CPU`.
* `hard_limits_fall`: without `CAP_SYS_RESOURCE` hard limits only fall.
* `limits_isolated`: who holds no uid of a process cannot touch its limits.
* `limits_read_back`: limits are read as they were set, through each of the interfaces.
-/

namespace Aesd.Limits

open Saturate
open Credentials (initial)

structure Rlimit (w : ℕ) where
  cur : BitVec w
  max : BitVec w
deriving DecidableEq

def Rlimit.map {v w : ℕ} (f : BitVec v → BitVec w) (r : Rlimit v) : Rlimit w := ⟨f r.cur, f r.max⟩

def RLIMIT_CPU : ℕ := 0

def RLIMIT_NOFILE : ℕ := 7

def RLIM_NLIMITS : ℕ := 16

/-- A process: its credentials, whether it still has a `sighand`, and its limits. -/
structure Task (w : ℕ) (υ γ : Type) where
  pid : ℤ
  own : Credentials.Task υ γ
  sighand : Bool
  rlim : ℕ → Rlimit w

/-- The answers of the rest of the kernel in a call. -/
structure Answers where
  copyFromUser : Bool
  copyToUser : Bool
  /-- `capable(CAP_SYS_RESOURCE)` -/
  capable : Bool
  /-- `ns_capable` for it in the namespace of the target -/
  nsCapable : Bool
  /-- the error of `security_task_setrlimit` -/
  setrlimitError : Option Errno
  /-- the error of `security_task_prlimit` -/
  prlimitError : Option Errno

/-! ### The formats of a limit -/

section Formats

variable {w : ℕ}

def rlim64IsInfinity (w : ℕ) (rlim64 : BitVec 64) : Bool :=
  if w < 64 then 2 ^ w - 1 ≤ rlim64.toNat else rlim64 = BitVec.allOnes 64

def rlimToRlim64 : Rlimit w → Rlimit 64 :=
  Rlimit.map fun r => if r = BitVec.allOnes w then BitVec.allOnes 64 else r.setWidth 64

def rlim64ToRlim (w : ℕ) : Rlimit 64 → Rlimit w :=
  Rlimit.map fun r => if rlim64IsInfinity w r then BitVec.allOnes w else r.setWidth w

/-- The limits that the `setrlimit` of 32-bit programs passes on. -/
def compatToRlim (w : ℕ) : Rlimit 32 → Rlimit w :=
  Rlimit.map fun r => if r = BitVec.allOnes 32 then BitVec.allOnes w else r.setWidth w

/-- The limits that their `getrlimit` returns. -/
def rlimToCompat : Rlimit w → Rlimit 32 :=
  Rlimit.map fun r => if 2 ^ 32 - 1 < r.toNat then BitVec.allOnes 32 else r.setWidth 32

end Formats

section Calls

variable {w : ℕ} {υ γ : Type} [DecidableEq υ] [DecidableEq γ]

/-- The zero that `RLIMIT_CPU` does not take. -/
def cheat (resource : ℕ) (new : Rlimit w) : Rlimit w :=
  if resource = RLIMIT_CPU ∧ new.cur = 0 then { new with cur := 1 } else new

def setLimit (tsk : Task w υ γ) (resource : ℕ) (new : Rlimit w) : Task w υ γ :=
  { tsk with rlim := Function.update tsk.rlim resource new }

/-- The old limit and the task afterwards; `nrOpen` is `sysctl_nr_open`. -/
def doPrlimit (nrOpen : ℕ) (ans : Answers) (tsk : Task w υ γ) (resource : BitVec 32)
    (newRlim : Option (Rlimit w)) : Except Errno (Rlimit w × Task w υ γ) :=
  let old := tsk.rlim resource.toNat
  if RLIM_NLIMITS ≤ resource.toNat then .error .EINVAL
  else
    match newRlim with
    | none => if tsk.sighand then .ok (old, tsk) else .error .ESRCH
    | some new =>
      if new.max < new.cur then .error .EINVAL
      else if resource.toNat = RLIMIT_NOFILE ∧ nrOpen < new.max.toNat then .error .EPERM
      else if tsk.sighand = false then .error .ESRCH
      else if old.max < new.max ∧ ans.capable = false then .error .EPERM
      else
        match ans.setrlimitError with
        | some e => .error e
        | none => .ok (old, setLimit tsk resource.toNat (cheat resource.toNat new))

/-- All ids of the target are those of the caller. -/
def idMatch (cred tcred : Credentials.Cred υ γ) : Bool :=
  cred.uids.id = tcred.uids.eid ∧ cred.uids.id = tcred.uids.sid ∧ cred.uids.id = tcred.uids.id ∧
    cred.gids.id = tcred.gids.eid ∧ cred.gids.id = tcred.gids.sid ∧ cred.gids.id = tcred.gids.id

def checkPrlimitPermission (ans : Answers) (current task : Task w υ γ) : Except Errno Unit :=
  if current.pid = task.pid then .ok ()
  else if idMatch current.own.cred task.own.cred = false ∧ ans.nsCapable = false then .error .EPERM
  else
    match ans.prlimitError with
    | some e => .error e
    | none => .ok ()

abbrev Table (w : ℕ) (υ γ : Type) := List (Task w υ γ)

def find (s : Table w υ γ) (pid : ℤ) : Option (Task w υ γ) := Registry.lookup Task.pid s pid

def store (s : Table w υ γ) (tsk : Task w υ γ) : Table w υ γ :=
  Registry.update Task.pid s tsk.pid fun _ => tsk

/-- The process that a call is about. -/
def target (s : Table w υ γ) (current : Task w υ γ) (pid : ℤ) : Option (Task w υ γ) :=
  if pid = 0 then some current else find s pid

/-- The old limit, if it is asked for, and the table afterwards; a copy to the user that fails
does not take the new limit back. -/
def prlimit64 (nrOpen : ℕ) (ans : Answers) (s : Table w υ γ) (current : Task w υ γ) (pid : ℤ)
    (resource : BitVec 32) (newRlim : Option (Rlimit 64)) (oldRlim : Bool) :
    Except Errno (Option (Rlimit 64)) × Table w υ γ :=
  if newRlim.isSome ∧ ans.copyFromUser = false then (.error .EFAULT, s)
  else
    match target s current pid with
    | none => (.error .ESRCH, s)
    | some tsk =>
      match checkPrlimitPermission ans current tsk with
      | .error e => (.error e, s)
      | .ok _ =>
        match doPrlimit nrOpen ans tsk resource (newRlim.map (rlim64ToRlim w)) with
        | .error e => (.error e, s)
        | .ok (old, tsk') =>
          if oldRlim = false then (.ok none, store s tsk')
          else if ans.copyToUser = false then (.error .EFAULT, store s tsk')
          else (.ok (some (rlimToRlim64 old)), store s tsk')

def setrlimit (nrOpen : ℕ) (ans : Answers) (s : Table w υ γ) (current : Task w υ γ)
    (resource : BitVec 32) (rlim : Rlimit w) : Except Errno Unit × Table w υ γ :=
  if ans.copyFromUser = false then (.error .EFAULT, s)
  else
    match doPrlimit nrOpen ans current resource (some rlim) with
    | .error e => (.error e, s)
    | .ok (_, tsk) => (.ok (), store s tsk)

/-- The `setrlimit` of 32-bit programs. -/
def compatSetrlimit (nrOpen : ℕ) (ans : Answers) (s : Table w υ γ) (current : Task w υ γ)
    (resource : BitVec 32) (rlim : Rlimit 32) : Except Errno Unit × Table w υ γ :=
  setrlimit nrOpen ans s current resource (compatToRlim w rlim)

def getrlimit (ans : Answers) (current : Task w υ γ) (resource : BitVec 32) :
    Except Errno (Rlimit w) :=
  match doPrlimit 0 ans current resource none with
  | .error e => .error e
  | .ok (value, _) => if ans.copyToUser = false then .error .EFAULT else .ok value

/-- The `getrlimit` of 32-bit programs. -/
def compatGetrlimit (ans : Answers) (current : Task w υ γ) (resource : BitVec 32) :
    Except Errno (Rlimit 32) :=
  match doPrlimit 0 ans current resource none with
  | .error e => .error e
  | .ok (r, _) => if ans.copyToUser = false then .error .EFAULT else .ok (rlimToCompat r)

end Calls

/-- The calls of a process. -/
inductive Call (w : ℕ)
  | prlimit64 (pid : ℤ) (resource : BitVec 32) (newRlim : Option (Rlimit 64)) (oldRlim : Bool)
  | setrlimit (resource : BitVec 32) (rlim : Rlimit w)
  | compatSetrlimit (resource : BitVec 32) (rlim : Rlimit 32)
  /-- a call that changes credentials -/
  | cred (ans : Credentials.Answers) (call : Credentials.Call)

/-- A call of the process `current`, with the kernel's answers. -/
structure Act (w : ℕ) where
  current : ℤ
  ans : Answers
  call : Call w

section Steps

variable {w : ℕ} {υ γ : Type} [DecidableEq υ] [DecidableEq γ] (U : Credentials.Namespace υ)
  (G : Credentials.Namespace γ) (nrOpen : ℕ)

def step (s : Table w υ γ) (a : Act w) : Option (Table w υ γ) :=
  (find s a.current).map fun current =>
    match a.call with
    | .prlimit64 pid resource newRlim oldRlim =>
      (prlimit64 nrOpen a.ans s current pid resource newRlim oldRlim).2
    | .setrlimit resource rlim => (setrlimit nrOpen a.ans s current resource rlim).2
    | .compatSetrlimit resource rlim => (compatSetrlimit nrOpen a.ans s current resource rlim).2
    | .cred ans call =>
      store s { current with own := (Credentials.syscall U G ans current.own call).2 }

end Steps

/-! ### What a step does -/

/-- A soft limit is at most the hard one; `RLIMIT_CPU` may be one second over none. -/
def InOrder {w : ℕ} (resource : ℕ) (r : Rlimit w) : Prop :=
  r.cur ≤ r.max ∨ (resource = RLIMIT_CPU ∧ r.cur = 1 ∧ r.max = 0)

section Effects

variable {w : ℕ} {υ γ : Type} [DecidableEq υ] [DecidableEq γ] {U : Credentials.Namespace υ}
  {G : Credentials.Namespace γ} {nrOpen : ℕ} {s s' : Table w υ γ} {a : Act w}

/-- The steps: a call that fails or only reads, a limit that is set, and a credential call. -/
inductive Effect (U : Credentials.Namespace υ) (G : Credentials.Namespace γ) (nrOpen : ℕ)
    (s : Table w υ γ) (a : Act w) : Table w υ γ → Prop
  | same : Effect U G nrOpen s a s
  | limit (current tsk : Task w υ γ) (hcurrent : current ∈ s ∧ current.pid = a.current)
      (htsk : tsk ∈ s) (resource : ℕ) (new : Rlimit w)
      (hmay : current.pid = tsk.pid ∨ idMatch current.own.cred tsk.own.cred = true ∨
        a.ans.nsCapable = true)
      (horder : InOrder resource new)
      (hnofile : resource = RLIMIT_NOFILE → new.max.toNat ≤ nrOpen)
      (hmax : new.max ≤ (tsk.rlim resource).max ∨ a.ans.capable = true) :
      Effect U G nrOpen s a (store s (setLimit tsk resource new))
  | cred (current : Task w υ γ) (hcurrent : current ∈ s ∧ current.pid = a.current)
      (ans : Credentials.Answers) (call : Credentials.Call) (ha : a.call = .cred ans call) :
      Effect U G nrOpen s a
        (store s { current with own := (Credentials.syscall U G ans current.own call).2 })

theorem inOrder_cheat {resource : ℕ} {new : Rlimit w} (h : new.cur ≤ new.max) :
    InOrder resource (cheat resource new) := by
  unfold cheat
  by_cases hcpu : resource = RLIMIT_CPU ∧ new.cur = 0
  · rw [if_pos hcpu]
    by_cases hzero : new.max = 0
    · exact .inr ⟨hcpu.1, rfl, hzero⟩
    · refine .inl ?_
      have hne : new.max.toNat ≠ 0 := fun heq => hzero (BitVec.eq_of_toNat_eq heq)
      have hone : (1 : BitVec w).toNat ≤ 1 := by
        change (BitVec.ofNat w 1).toNat ≤ 1
        rw [BitVec.toNat_ofNat]
        exact Nat.mod_le 1 _
      change (1 : BitVec w) ≤ new.max
      rw [BitVec.le_def]
      omega
  · rw [if_neg hcpu]
    exact .inl h

theorem max_cheat {resource : ℕ} {new : Rlimit w} : (cheat resource new).max = new.max := by
  unfold cheat
  split_ifs <;> rfl

omit [DecidableEq υ] [DecidableEq γ] in
/-- **What `do_prlimit` does when it succeeds.** -/
theorem doPrlimit_ok {ans : Answers} {tsk tsk' : Task w υ γ} {resource : BitVec 32}
    {newRlim : Option (Rlimit w)} {old : Rlimit w}
    (h : doPrlimit nrOpen ans tsk resource newRlim = .ok (old, tsk')) :
    (resource.toNat < RLIM_NLIMITS ∧ tsk.sighand = true) ∧ old = tsk.rlim resource.toNat ∧
      ((newRlim = none ∧ tsk' = tsk) ∨ ∃ new, newRlim = some new ∧
        tsk' = setLimit tsk resource.toNat (cheat resource.toNat new) ∧ new.cur ≤ new.max ∧
        (resource.toNat = RLIMIT_NOFILE → new.max.toNat ≤ nrOpen) ∧
        (new.max ≤ old.max ∨ ans.capable = true)) := by
  unfold doPrlimit at h
  dsimp only at h
  obtain ⟨hres, h⟩ := ite_error_eq_ok.1 h
  cases newRlim with
  | none =>
    dsimp only at h
    by_cases hsig : tsk.sighand = true
    · rw [if_pos hsig] at h
      obtain ⟨rfl, rfl⟩ := Prod.mk.inj (Except.ok.inj h)
      exact ⟨⟨not_le.1 hres, hsig⟩, rfl, .inl ⟨rfl, rfl⟩⟩
    · rw [if_neg hsig] at h
      cases h
  | some new =>
    obtain ⟨hle, h⟩ := ite_error_eq_ok.1 h
    obtain ⟨hnofile, h⟩ := ite_error_eq_ok.1 h
    obtain ⟨hsig, h⟩ := ite_error_eq_ok.1 h
    obtain ⟨hmax, h⟩ := ite_error_eq_ok.1 h
    cases herr : ans.setrlimitError with
    | some e =>
      rw [herr] at h
      cases h
    | none =>
      rw [herr] at h
      obtain ⟨rfl, rfl⟩ := Prod.mk.inj (Except.ok.inj h)
      refine ⟨⟨not_le.1 hres, by simpa using hsig⟩, rfl,
        .inr ⟨new, rfl, rfl, BitVec.not_lt.1 hle, ?_, ?_⟩⟩
      · intro hres'
        exact not_lt.1 fun hlt => hnofile ⟨hres', hlt⟩
      · by_cases hcap : ans.capable = true
        · exact .inr hcap
        · refine .inl (BitVec.not_lt.1 fun hlt => hmax ⟨hlt, by simpa using hcap⟩)

omit [DecidableEq υ] [DecidableEq γ] in
theorem store_self (hs : (s.map Task.pid).Nodup) {tsk : Task w υ γ} (h : tsk ∈ s) :
    store s tsk = s := by
  unfold store Registry.update
  refine (List.map_congr_left ?_).trans (List.map_id s)
  intro t ht
  by_cases hpid : t.pid = tsk.pid
  · rw [if_pos hpid, Registry.eq_of_key hs ht h hpid]
    rfl
  · rw [if_neg hpid]
    rfl

/-- A limit that `do_prlimit` has set. -/
theorem Effect.of_doPrlimit (hs : (s.map Task.pid).Nodup) {current tsk tsk' : Task w υ γ}
    {resource : BitVec 32} {newRlim : Option (Rlimit w)} {old : Rlimit w}
    (hcurrent : current ∈ s ∧ current.pid = a.current) (htsk : tsk ∈ s)
    (hmay : current.pid = tsk.pid ∨ idMatch current.own.cred tsk.own.cred = true ∨
      a.ans.nsCapable = true)
    (h : doPrlimit nrOpen a.ans tsk resource newRlim = .ok (old, tsk')) :
    Effect U G nrOpen s a (store s tsk') := by
  obtain ⟨-, rfl, ⟨-, rfl⟩ | ⟨new, -, rfl, hle, hnofile, hmax⟩⟩ := doPrlimit_ok h
  · rw [store_self hs htsk]
    exact .same
  · refine .limit current tsk hcurrent htsk resource.toNat _ hmay (inOrder_cheat hle) ?_ ?_
    · rw [max_cheat]
      exact hnofile
    · rw [max_cheat]
      exact hmax

theorem checkPrlimitPermission_ok {ans : Answers} {current tsk : Task w υ γ} {u : Unit}
    (h : checkPrlimitPermission ans current tsk = .ok u) :
    current.pid = tsk.pid ∨ idMatch current.own.cred tsk.own.cred = true ∨
      ans.nsCapable = true := by
  unfold checkPrlimitPermission at h
  by_cases hpid : current.pid = tsk.pid
  · exact .inl hpid
  · rw [if_neg hpid] at h
    by_cases hmay : idMatch current.own.cred tsk.own.cred = false ∧ ans.nsCapable = false
    · rw [if_pos hmay] at h
      cases h
    · simp only [not_and_or, Bool.not_eq_false] at hmay
      exact .inr hmay

omit [DecidableEq υ] [DecidableEq γ] in
theorem find_some {pid : ℤ} {tsk : Task w υ γ} (h : find s pid = some tsk) :
    tsk ∈ s ∧ tsk.pid = pid :=
  Registry.lookup_some h

omit [DecidableEq υ] [DecidableEq γ] in
theorem target_some {current tsk : Task w υ γ} (hcurrent : current ∈ s) {pid : ℤ}
    (h : target s current pid = some tsk) : tsk ∈ s := by
  unfold target at h
  by_cases hpid : pid = 0
  · rw [if_pos hpid] at h
    rw [← Option.some.inj h]
    exact hcurrent
  · rw [if_neg hpid] at h
    exact (find_some h).1

theorem setrlimit_effect (hs : (s.map Task.pid).Nodup) {current : Task w υ γ}
    (hcurrent : current ∈ s ∧ current.pid = a.current) (resource : BitVec 32) (rlim : Rlimit w) :
    Effect U G nrOpen s a (setrlimit nrOpen a.ans s current resource rlim).2 := by
  unfold setrlimit
  split_ifs
  · exact .same
  · cases hdo : doPrlimit nrOpen a.ans current resource (some rlim) with
    | error e => exact .same
    | ok result => exact .of_doPrlimit hs hcurrent hcurrent.1 (.inl rfl) hdo

theorem prlimit64_effect (hs : (s.map Task.pid).Nodup) {current : Task w υ γ}
    (hcurrent : current ∈ s ∧ current.pid = a.current) (pid : ℤ) (resource : BitVec 32)
    (newRlim : Option (Rlimit 64)) (oldRlim : Bool) :
    Effect U G nrOpen s a (prlimit64 nrOpen a.ans s current pid resource newRlim oldRlim).2 := by
  unfold prlimit64
  by_cases hcopy : newRlim.isSome ∧ a.ans.copyFromUser = false
  · rw [if_pos hcopy]
    exact .same
  rw [if_neg hcopy]
  cases htarget : target s current pid with
  | none => exact .same
  | some tsk =>
    have htsk := target_some hcurrent.1 htarget
    dsimp only
    cases hcheck : checkPrlimitPermission a.ans current tsk with
    | error e => exact .same
    | ok u =>
      dsimp only
      cases hdo : doPrlimit nrOpen a.ans tsk resource (newRlim.map (rlim64ToRlim w)) with
      | error e => exact .same
      | ok result =>
        have heffect : Effect U G nrOpen s a (store s result.2) :=
          .of_doPrlimit hs hcurrent htsk (checkPrlimitPermission_ok hcheck) hdo
        dsimp only
        split_ifs <;> exact heffect

/-- **What a step does.** -/
theorem effect (hs : (s.map Task.pid).Nodup) (hstep : step U G nrOpen s a = some s') :
    Effect U G nrOpen s a s' := by
  obtain ⟨current, hfind, rfl⟩ := Option.map_eq_some_iff.1 hstep
  have hcurrent := find_some hfind
  cases hcall : a.call with
  | prlimit64 pid resource newRlim oldRlim => exact prlimit64_effect hs hcurrent ..
  | setrlimit resource rlim => exact setrlimit_effect hs hcurrent ..
  | compatSetrlimit resource rlim => exact setrlimit_effect hs hcurrent ..
  | cred ans call => exact .cred current hcurrent ans call hcall

end Effects

/-! ### Runs -/

section Runs

variable {w : ℕ} {υ γ : Type} {s s' : Table w υ γ} {t tsk new : Task w υ γ}

theorem nodup_store (hs : (s.map Task.pid).Nodup) : ((store s new).map Task.pid).Nodup := by
  unfold store
  rw [Registry.keys_update fun _ _ => rfl]
  exact hs

/-- The table when the process `tsk` has become `new`. -/
theorem mem_store (hs : (s.map Task.pid).Nodup) (htsk : tsk ∈ s) (hpid : new.pid = tsk.pid) :
    t ∈ store s new ↔ t = new ∨ (t ∈ s ∧ t.pid ≠ tsk.pid) := by
  unfold store
  rw [hpid]
  exact Registry.mem_update hs htsk

theorem mem_store_of_ne (h : t ∈ s) (hne : t.pid ≠ new.pid) : t ∈ store s new :=
  List.mem_map.2 ⟨t, h, if_neg hne⟩

/-- What holds of every process, and of the one that is stored. -/
theorem forall_store {P : Task w υ γ → Prop} (h : ∀ t ∈ s, P t) (hnew : P new) :
    ∀ t ∈ store s new, P t := by
  intro t ht
  obtain ⟨t₀, ht₀, rfl⟩ := List.mem_map.1 ht
  split_ifs
  · exact hnew
  · exact h t₀ ht₀

theorem rlim_setLimit (tsk : Task w υ γ) (resource r : ℕ) (new : Rlimit w) :
    (setLimit tsk resource new).rlim r = if r = resource then new else tsk.rlim r := by
  unfold setLimit
  exact Function.update_apply ..

variable [DecidableEq υ] [DecidableEq γ] {U : Credentials.Namespace υ}
  {G : Credentials.Namespace γ} {nrOpen : ℕ} {a : Act w} {as : List (Act w)}

theorem nodup_step (hs : (s.map Task.pid).Nodup) (hstep : step U G nrOpen s a = some s') :
    (s'.map Task.pid).Nodup := by
  cases effect hs hstep with
  | same => exact hs
  | limit => exact nodup_store hs
  | cred => exact nodup_store hs

/-- Every limit is in order, and there are at most `nrOpen` files. -/
structure Limited (nrOpen : ℕ) (s : Table w υ γ) : Prop where
  nodup : (s.map Task.pid).Nodup
  order : ∀ t ∈ s, ∀ r, InOrder r (t.rlim r)
  nofile : ∀ t ∈ s, (t.rlim RLIMIT_NOFILE).max.toNat ≤ nrOpen

theorem limited_step (h : Limited nrOpen s) (hstep : step U G nrOpen s a = some s') :
    Limited nrOpen s' := by
  have hnodup := nodup_step h.nodup hstep
  cases effect h.nodup hstep with
  | same => exact h
  | limit current tsk hcurrent htsk resource new hmay horder hnofile hmax =>
    refine ⟨hnodup, forall_store h.order ?_, forall_store h.nofile ?_⟩
    · intro r
      rw [rlim_setLimit]
      split_ifs with hr
      · exact hr ▸ horder
      · exact h.order tsk htsk r
    · rw [rlim_setLimit]
      split_ifs with hr
      · exact hnofile hr.symm
      · exact h.nofile tsk htsk
  | cred current hcurrent ans call ha =>
    exact ⟨hnodup, forall_store h.order (h.order current hcurrent.1),
      forall_store h.nofile (h.nofile current hcurrent.1)⟩

/-- A call without `CAP_SYS_RESOURCE`. -/
def Incapable (_ : Table w υ γ) (a : Act w) : Prop := a.ans.capable = false

/-- Each process of the first table is in the second, with hard limits no higher. -/
def Falls (s s' : Table w υ γ) : Prop :=
  ∀ t ∈ s, ∃ t' ∈ s', t'.pid = t.pid ∧ ∀ r, (t'.rlim r).max ≤ (t.rlim r).max

omit [DecidableEq υ] [DecidableEq γ] in
theorem Falls.refl (s : Table w υ γ) : Falls s s :=
  fun t ht => ⟨t, ht, rfl, fun _ => BitVec.le_refl _⟩

omit [DecidableEq υ] [DecidableEq γ] in
theorem Falls.trans {s₁ s₂ s₃ : Table w υ γ} (h₁ : Falls s₁ s₂) (h₂ : Falls s₂ s₃) :
    Falls s₁ s₃ := by
  intro t ht
  obtain ⟨t₂, ht₂, hpid₂, hmax₂⟩ := h₁ t ht
  obtain ⟨t₃, ht₃, hpid₃, hmax₃⟩ := h₂ t₂ ht₂
  exact ⟨t₃, ht₃, hpid₃.trans hpid₂, fun r => BitVec.le_trans (hmax₃ r) (hmax₂ r)⟩

omit [DecidableEq υ] [DecidableEq γ] in
/-- One process changes. -/
theorem falls_store (hs : (s.map Task.pid).Nodup) (htsk : tsk ∈ s) (hpid : new.pid = tsk.pid)
    (hmax : ∀ r, (new.rlim r).max ≤ (tsk.rlim r).max) : Falls s (store s new) := by
  intro t ht
  by_cases h : t.pid = tsk.pid
  · rw [Registry.eq_of_key hs ht htsk h]
    exact ⟨new, (mem_store hs htsk hpid).2 (.inl rfl), hpid, hmax⟩
  · exact ⟨t, (mem_store hs htsk hpid).2 (.inr ⟨ht, h⟩), rfl, fun _ => BitVec.le_refl _⟩

theorem falls_step (hs : (s.map Task.pid).Nodup) (hstep : step U G nrOpen s a = some s')
    (ha : a.ans.capable = false) : Falls s s' := by
  cases effect hs hstep with
  | same => exact .refl s
  | limit current tsk hcurrent htsk resource new hmay horder hnofile hmax =>
    refine falls_store hs htsk rfl ?_
    intro r
    rw [rlim_setLimit]
    split_ifs with hr
    · rw [hr]
      exact hmax.resolve_right (by simp [ha])
    · exact BitVec.le_refl _
  | cred current hcurrent ans call _ =>
    exact falls_store hs hcurrent.1 rfl fun _ => BitVec.le_refl _

/-- **Limits stay in order.** In every run, whoever calls what with whatever rights, soft limits
are at most the hard ones (`RLIMIT_CPU` one second at most above none), and no process may open
more than `nrOpen` files. -/
theorem limits_in_order (h : Limited nrOpen s)
    (hr : Lts.Run (Lts.Steps (step U G nrOpen)) s as s') : Limited nrOpen s' :=
  hr.invariant h fun h hs => limited_step h hs

/-- A call with nothing in its way, and no capability. -/
def reader : Answers := ⟨true, true, false, false, none, none⟩

/-- A process of `user` without limits but for the number of files. -/
def unlimited (pid : ℤ) (user : BitVec 32) : Task 64 (BitVec 32) (BitVec 32) where
  pid := pid
  own := ⟨⟨.all user, .all user, user⟩, false⟩
  sighand := true
  rlim r := if r = RLIMIT_NOFILE then ⟨1024, 4096⟩ else ⟨BitVec.allOnes 64, BitVec.allOnes 64⟩

theorem limited_unlimited : Limited 4096 [unlimited 1 0] := by
  refine ⟨List.nodup_singleton _, ?_, ?_⟩
  · intro t ht r
    rw [List.mem_singleton.1 ht]
    refine .inl ?_
    unfold unlimited
    dsimp only
    split_ifs <;> decide
  · intro t ht
    rw [List.mem_singleton.1 ht]
    decide

/-- Root asks for no processor time at all. -/
theorem limits_in_order_cpu :
    ∃ s', step initial initial 4096 [unlimited 1 0] ⟨1, reader, .setrlimit 0 ⟨0, 0⟩⟩ = some s' ∧
      Limited 4096 s' := by
  obtain ⟨s', hstep⟩ : ∃ s', step initial initial 4096 [unlimited 1 0]
      ⟨1, reader, .setrlimit 0 ⟨0, 0⟩⟩ = some s' := ⟨_, rfl⟩
  exact ⟨s', hstep, limits_in_order limited_unlimited (Lts.Run.nil.snoc hstep)⟩

/-- **Hard limits fall.** In a run without `CAP_SYS_RESOURCE` no process gets a higher hard limit,
nor a soft limit above the hard one it started with. -/
theorem hard_limits_fall (h : Limited nrOpen s)
    (hr : Lts.Run (Lts.When Incapable (Lts.Steps (step U G nrOpen))) s as s') :
    ∀ t ∈ s, ∃ t' ∈ s', t'.pid = t.pid ∧ ∀ r, (t'.rlim r).max ≤ (t.rlim r).max ∧
      ((t'.rlim r).cur ≤ (t.rlim r).max ∨ (r = RLIMIT_CPU ∧ (t'.rlim r).cur = 1)) := by
  obtain ⟨hlimited, hfalls⟩ := hr.invariant (I := fun s' => Limited nrOpen s' ∧ Falls s s')
    ⟨h, .refl s⟩ fun h hs => ⟨limited_step h.1 hs.1, h.2.trans (falls_step h.1.nodup hs.1 hs.2)⟩
  intro t ht
  obtain ⟨t', ht', hpid, hmax⟩ := hfalls t ht
  refine ⟨t', ht', hpid, fun r => ⟨hmax r, ?_⟩⟩
  rcases hlimited.order t' ht' r with hle | ⟨hcpu, hone, -⟩
  · exact .inl (BitVec.le_trans hle (hmax r))
  · exact .inr ⟨hcpu, hone⟩

/-- The soft limit is behind the hard one that was given away. -/
theorem hard_limits_fall_cpu :
    ∃ s', step initial initial 4096 [unlimited 1 0] ⟨1, reader, .setrlimit 0 ⟨0, 0⟩⟩ = some s' ∧
      ∃ t' ∈ s', t'.pid = 1 ∧ ((t'.rlim 7).cur ≤ 4096 ∨ (7 = RLIMIT_CPU ∧ (t'.rlim 7).cur = 1)) := by
  obtain ⟨s', hstep⟩ : ∃ s', step initial initial 4096 [unlimited 1 0]
      ⟨1, reader, .setrlimit 0 ⟨0, 0⟩⟩ = some s' := ⟨_, rfl⟩
  obtain ⟨t', ht', hpid, hlimits⟩ := hard_limits_fall limited_unlimited
    (Lts.Run.nil.snoc ⟨hstep, rfl⟩) _ (List.mem_singleton_self _)
  exact ⟨s', hstep, t', ht', hpid, (hlimits 7).2⟩

/-- A call of another process than `t`, without capabilities. -/
def Outsider (t : Task w υ γ) (_ : Table w υ γ) (a : Act w) : Prop :=
  a.current ≠ t.pid ∧ a.ans.nsCapable = false ∧
    ∀ ans call, a.call = .cred ans call → ans.capSetuid = false ∧ ans.capSetgid = false

/-- The process `t` is as it was, and nobody else holds its real uid. -/
structure Apart (t : Task w υ γ) (s : Table w υ γ) : Prop where
  nodup : (s.map Task.pid).Nodup
  mem : t ∈ s
  foreign : ∀ m ∈ s, m.pid ≠ t.pid → ¬ m.own.cred.uids.Holds t.own.cred.uids.id

theorem apart_step (h : Apart t s) (hstep : step U G nrOpen s a = some s') (ha : Outsider t s a) :
    Apart t s' := by
  obtain ⟨hother, hincapable, hunprivileged⟩ := ha
  have hnodup := nodup_step h.nodup hstep
  cases effect h.nodup hstep with
  | same => exact h
  | limit current tsk hcurrent htsk resource new hmay horder hnofile hmax =>
    have hcaller : current.pid ≠ t.pid := fun heq => hother (hcurrent.2.symm.trans heq)
    -- the caller may not change `t`, since its real uid is not that of `t`
    have hne : tsk.pid ≠ t.pid := by
      intro heq
      rw [Registry.eq_of_key h.nodup htsk h.mem heq] at hmay
      rcases hmay with hpid | hmatch | hcap
      · exact hcaller hpid
      · simp only [idMatch, decide_eq_true_eq] at hmatch
        exact h.foreign current hcurrent.1 hcaller (.inl hmatch.2.2.1.symm)
      · simp [hincapable] at hcap
    exact ⟨hnodup, mem_store_of_ne h.mem hne.symm, forall_store h.foreign (h.foreign tsk htsk)⟩
  | cred current hcurrent ans call hcall =>
    have hcaller : current.pid ≠ t.pid := fun heq => hother (hcurrent.2.symm.trans heq)
    refine ⟨hnodup, mem_store_of_ne h.mem hcaller.symm, forall_store h.foreign ?_⟩
    intro _ hheld
    obtain ⟨hsetuid, hsetgid⟩ := hunprivileged ans call hcall
    have hreach : SavedIds.Reach current.own.cred.uids
        (Credentials.syscall U G ans current.own call).2.cred.uids :=
      (Credentials.reach_step call hsetuid hsetgid).1
    exact h.foreign current hcurrent.1 hcaller (hreach.holds hheld)

/-- **Limits of other users.** Processes that hold no uid of a process, and have no capabilities,
leave it and its limits alone in every run, whatever they make of their ids. -/
theorem limits_isolated (hs : (s.map Task.pid).Nodup) (ht : t ∈ s)
    (hforeign : ∀ m ∈ s, m.pid ≠ t.pid → ¬ m.own.cred.uids.Holds t.own.cred.uids.id)
    (hr : Lts.Run (Lts.When (Outsider t) (Lts.Steps (step U G nrOpen))) s as s') : t ∈ s' := by
  have hapart := hr.invariant (I := Apart t) ⟨hs, ht, hforeign⟩
    fun h hs => apart_step h hs.1 hs.2
  exact hapart.mem

/-- User 1001 tries to set a limit of a process of user 1000. -/
theorem limits_isolated_otherUser :
    ∃ s', step initial initial 4096 [unlimited 2 1000, unlimited 3 1001]
        ⟨3, reader, .prlimit64 2 0 (some ⟨1, 1⟩) false⟩ = some s' ∧ unlimited 2 1000 ∈ s' := by
  obtain ⟨s', hstep⟩ : ∃ s', step initial initial 4096 [unlimited 2 1000, unlimited 3 1001]
      ⟨3, reader, .prlimit64 2 0 (some ⟨1, 1⟩) false⟩ = some s' := ⟨_, rfl⟩
  have houtsider : Outsider (unlimited 2 1000) [unlimited 2 1000, unlimited 3 1001]
      ⟨3, reader, .prlimit64 2 0 (some ⟨1, 1⟩) false⟩ :=
    ⟨by decide, rfl, fun _ _ hcall => nomatch hcall⟩
  have hforeign : ∀ m ∈ [unlimited 2 1000, unlimited 3 1001], m.pid ≠ (unlimited 2 1000).pid →
      ¬ m.own.cred.uids.Holds (unlimited 2 1000).own.cred.uids.id := by
    intro m hm hpid
    rcases List.mem_cons.1 hm with rfl | hm
    · exact absurd rfl hpid
    · rw [List.mem_singleton.1 hm]
      rintro (h | h | h) <;> exact absurd h (by decide)
  exact ⟨s', hstep, limits_isolated (by decide) (List.mem_cons_self ..) hforeign
    (Lts.Run.nil.snoc ⟨hstep, houtsider⟩)⟩

end Runs

/-! ### Reading back -/

section Reading

variable {w : ℕ}

theorem rlim64ToRlim_eq (hw : w ≤ 64) : rlim64ToRlim w = Rlimit.map (narrow w) := by
  funext r
  have hfield : ∀ x : BitVec 64,
      (if rlim64IsInfinity w x then BitVec.allOnes w else x.setWidth w) = narrow w x := by
    intro x
    have hiff : rlim64IsInfinity w x = true ↔ 2 ^ w - 1 ≤ x.toNat := by
      unfold rlim64IsInfinity
      by_cases hlt : w < 64
      · rw [if_pos hlt, decide_eq_true_eq]
      · obtain rfl : w = 64 := by omega
        have hx := x.isLt
        rw [if_neg hlt, decide_eq_true_eq, ← BitVec.toNat_inj, BitVec.toNat_allOnes]
        omega
    unfold narrow
    rw [if_congr hiff rfl rfl]
  exact congrArg₂ Rlimit.mk (hfield r.cur) (hfield r.max)

theorem rlimToCompat_eq : @rlimToCompat w = Rlimit.map (narrow 32) := by
  funext r
  have hfield : ∀ x : BitVec w,
      (if 2 ^ 32 - 1 < x.toNat then BitVec.allOnes 32 else x.setWidth 32) = narrow 32 x := by
    intro x
    unfold narrow
    by_cases heq : x.toNat = 2 ^ 32 - 1
    · -- the greatest 32-bit word is the same on both ways
      rw [if_neg (by omega), if_pos (by omega)]
      refine BitVec.eq_of_toNat_eq ?_
      rw [BitVec.toNat_setWidth, heq]
      rfl
    · refine if_congr ?_ rfl rfl
      omega
  exact congrArg₂ Rlimit.mk (hfield r.cur) (hfield r.max)

/-- The cheat, through a format and back: the limit is the same exactly if both its words are. -/
theorem map_cheat_iff {v : ℕ} {f : BitVec v → BitVec w} {g : BitVec w → BitVec v} {r : Rlimit v}
    (hf : f r.cur = 0 ↔ r.cur = 0) (hg : g 0 = 0) (hone : g 1 = 1) (resource : ℕ) :
    (cheat resource (r.map f)).map g = cheat resource r ↔
      g (f r.cur) = r.cur ∧ g (f r.max) = r.max := by
  unfold cheat
  by_cases hcpu : resource = RLIMIT_CPU ∧ r.cur = 0
  · have hcur : g (f r.cur) = r.cur := by rw [hf.2 hcpu.2, hg, hcpu.2]
    rw [if_pos hcpu, if_pos ⟨hcpu.1, hf.2 hcpu.2⟩, and_iff_right hcur]
    unfold Rlimit.map
    rw [Rlimit.mk.injEq, and_iff_right hone]
  · rw [if_neg hcpu, if_neg fun h => hcpu ⟨h.1, hf.1 h.2⟩]
    exact iff_of_eq (Rlimit.mk.injEq ..)

/-- A 64-bit limit that an `unsigned long` can say. -/
def Fits (w : ℕ) (r : Rlimit 64) : Prop :=
  (r.cur.toNat < 2 ^ w - 1 ∨ r.cur = BitVec.allOnes 64) ∧
    (r.max.toNat < 2 ^ w - 1 ∨ r.max = BitVec.allOnes 64)

theorem map_cheat64_iff (h32 : 32 ≤ w) (h64 : w ≤ 64) (r : Rlimit 64) (resource : ℕ) :
    rlimToRlim64 (cheat resource (rlim64ToRlim w r)) = cheat resource r ↔ Fits w r := by
  have hpow : 2 ^ 32 ≤ 2 ^ w := Nat.pow_le_pow_right (by decide) h32
  rw [rlim64ToRlim_eq h64]
  refine (map_cheat_iff (g := widen 64) (narrow_eq_zero_iff (by omega))
    (widen_ofNat (n := 0) h64 (by omega)) (widen_ofNat (n := 1) h64 (by omega)) resource).trans ?_
  exact and_congr (widen_narrow_iff h64) (widen_narrow_iff h64)

theorem map_cheatCompat (h32 : 32 ≤ w) (r : Rlimit 32) (resource : ℕ) :
    rlimToCompat (cheat resource (compatToRlim w r)) = cheat resource r := by
  rw [rlimToCompat_eq]
  exact (map_cheat_iff (f := widen w) (widen_eq_zero_iff (by decide) h32)
    (narrow_ofNat (n := 0) h32 (by decide)) (narrow_ofNat (n := 1) h32 (by decide)) resource).2
    ⟨narrow_widen h32 _, narrow_widen h32 _⟩

variable {υ γ : Type} [DecidableEq υ] [DecidableEq γ] {nrOpen : ℕ} {ans : Answers}
  {s : Table w υ γ} {current tsk : Task w υ γ} {resource : BitVec 32}

omit [DecidableEq υ] [DecidableEq γ] in
/-- A process whose limit has been set, and what reading it gives. -/
theorem doPrlimit_reads (hs : (s.map Task.pid).Nodup) (htsk : tsk ∈ s) {new old : Rlimit w}
    {tsk' : Task w υ γ} (h : doPrlimit nrOpen ans tsk resource (some new) = .ok (old, tsk')) :
    find (store s tsk') tsk.pid = some tsk' ∧ ∀ reader nrOpen',
      doPrlimit nrOpen' reader tsk' resource none = .ok (cheat resource.toNat new, tsk') := by
  obtain ⟨⟨hres, hsig⟩, -, ⟨h, -⟩ | ⟨_, hnew, rfl, -⟩⟩ := doPrlimit_ok h
  · cases h
  obtain rfl := Option.some.inj hnew
  refine ⟨?_, ?_⟩
  · have hmem : setLimit tsk resource.toNat (cheat resource.toNat new) ∈
        store s (setLimit tsk resource.toNat (cheat resource.toNat new)) := by
      refine (mem_store hs htsk ?_).2 (.inl rfl)
      rfl
    exact Registry.lookup_of_mem (nodup_store hs) hmem
  · intro reader nrOpen'
    have hread : (setLimit tsk resource.toNat (cheat resource.toNat new)).rlim resource.toNat =
        cheat resource.toNat new := by
      rw [rlim_setLimit, if_pos rfl]
    unfold doPrlimit
    dsimp only
    rw [if_neg (not_le.2 hres), hread]
    exact if_pos hsig

omit [DecidableEq υ] [DecidableEq γ] in
theorem setrlimit_ok {r : Rlimit w} (h : (setrlimit nrOpen ans s current resource r).1 = .ok ()) :
    ∃ old tsk', doPrlimit nrOpen ans current resource (some r) = .ok (old, tsk') ∧
      (setrlimit nrOpen ans s current resource r).2 = store s tsk' := by
  unfold setrlimit at h ⊢
  by_cases hcopy : ans.copyFromUser = false
  · rw [if_pos hcopy] at h
    cases h
  rw [if_neg hcopy] at h ⊢
  cases hdo : doPrlimit nrOpen ans current resource (some r) with
  | error e =>
    rw [hdo] at h
    cases h
  | ok result => exact ⟨result.1, result.2, rfl, rfl⟩

theorem prlimit64_ok {pid : ℤ} {r : Rlimit 64} {oldRlim : Bool} {out : Option (Rlimit 64)}
    (h : (prlimit64 nrOpen ans s current pid resource (some r) oldRlim).1 = .ok out) :
    ∃ tsk old tsk', target s current pid = some tsk ∧
      doPrlimit nrOpen ans tsk resource (some (rlim64ToRlim w r)) = .ok (old, tsk') ∧
      (prlimit64 nrOpen ans s current pid resource (some r) oldRlim).2 = store s tsk' := by
  unfold prlimit64 at h ⊢
  by_cases hcopy : (some r).isSome ∧ ans.copyFromUser = false
  · rw [if_pos hcopy] at h
    cases h
  rw [if_neg hcopy] at h ⊢
  cases htarget : target s current pid with
  | none =>
    rw [htarget] at h
    cases h
  | some tsk =>
    rw [htarget] at h
    dsimp only [Option.map_some] at h ⊢
    cases hcheck : checkPrlimitPermission ans current tsk with
    | error e =>
      rw [hcheck] at h
      cases h
    | ok u =>
      rw [hcheck] at h
      dsimp only at h ⊢
      cases hdo : doPrlimit nrOpen ans tsk resource (some (rlim64ToRlim w r)) with
      | error e =>
        rw [hdo] at h
        cases h
      | ok result =>
        refine ⟨tsk, result.1, result.2, rfl, hdo, ?_⟩
        dsimp only
        split_ifs <;> rfl

/-- A process reads its own limit with `prlimit64`. -/
theorem prlimit64_reads {limit : Rlimit w}
    (h : doPrlimit nrOpen reader tsk resource none = .ok (limit, tsk)) :
    (prlimit64 nrOpen reader s tsk 0 resource none true).1 = .ok (some (rlimToRlim64 limit)) := by
  have htarget : target s tsk 0 = some tsk := if_pos rfl
  have hcheck : checkPrlimitPermission reader tsk tsk = .ok () := if_pos rfl
  unfold prlimit64
  rw [if_neg (by decide), htarget]
  dsimp only [Option.map_none]
  rw [hcheck]
  dsimp only
  rw [h]
  rfl

/-- **Limits are read as they were set**, through the calls of the machine's word, those of
32-bit programs and those of 64-bit limits, but for the zero that `RLIMIT_CPU` does not take.
A 64-bit limit is so exactly when it fits the machine's word. -/
theorem limits_read_back (h32 : 32 ≤ w) (h64 : w ≤ 64) (hs : (s.map Task.pid).Nodup)
    (hcurrent : current ∈ s) (resource : BitVec 32) :
    (∀ r, (setrlimit nrOpen ans s current resource r).1 = .ok () →
      ∃ t, find (setrlimit nrOpen ans s current resource r).2 current.pid = some t ∧
        getrlimit reader t resource = .ok (cheat resource.toNat r)) ∧
    (∀ r, (compatSetrlimit nrOpen ans s current resource r).1 = .ok () →
      ∃ t, find (compatSetrlimit nrOpen ans s current resource r).2 current.pid = some t ∧
        compatGetrlimit reader t resource = .ok (cheat resource.toNat r)) ∧
    ∀ pid r oldRlim out,
      (prlimit64 nrOpen ans s current pid resource (some r) oldRlim).1 = .ok out →
      ∃ tsk t, target s current pid = some tsk ∧
        find (prlimit64 nrOpen ans s current pid resource (some r) oldRlim).2 tsk.pid = some t ∧
        ((prlimit64 nrOpen reader (prlimit64 nrOpen ans s current pid resource (some r) oldRlim).2
          t 0 resource none true).1 = .ok (some (cheat resource.toNat r)) ↔ Fits w r) := by
  refine ⟨?_, ?_, ?_⟩
  · intro r h
    obtain ⟨old, t, hdo, hstore⟩ := setrlimit_ok h
    obtain ⟨hfind, hread⟩ := doPrlimit_reads hs hcurrent hdo
    refine ⟨t, hstore ▸ hfind, ?_⟩
    unfold getrlimit
    rw [hread]
    rfl
  · intro r h
    obtain ⟨old, t, hdo, hstore⟩ := setrlimit_ok h
    obtain ⟨hfind, hread⟩ := doPrlimit_reads hs hcurrent hdo
    refine ⟨t, ?_, ?_⟩
    · unfold compatSetrlimit
      rw [hstore]
      exact hfind
    · unfold compatGetrlimit
      rw [hread, ← map_cheatCompat h32 r resource.toNat]
      rfl
  · intro pid r oldRlim out h
    obtain ⟨tsk, old, t, htarget, hdo, hstore⟩ := prlimit64_ok h
    have htsk := target_some hcurrent htarget
    obtain ⟨hfind, hread⟩ := doPrlimit_reads hs htsk hdo
    refine ⟨tsk, t, htarget, hstore ▸ hfind, ?_⟩
    have hlimit := hread reader nrOpen
    rw [prlimit64_reads hlimit, Except.ok.injEq, Option.some.injEq]
    exact map_cheat64_iff h32 h64 r resource.toNat

theorem limits_read_back_cpu :
    ∃ t, find (setrlimit 4096 reader [unlimited 1 0] (unlimited 1 0) 0 ⟨0, 5⟩).2 1 = some t ∧
      getrlimit reader t 0 = .ok ⟨1, 5⟩ := by
  have hok : (setrlimit 4096 reader [unlimited 1 0] (unlimited 1 0) 0 ⟨0, 5⟩).1 = .ok () := rfl
  have hnodup : ([unlimited 1 0].map Task.pid).Nodup := List.nodup_singleton _
  have hmem : unlimited 1 0 ∈ [unlimited 1 0] := List.mem_singleton_self _
  exact (limits_read_back (by decide) (by decide) hnodup hmem 0).1 ⟨0, 5⟩ hok

end Reading

end Aesd.Limits
