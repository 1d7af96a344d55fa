import Aesd.Lib.Registry
import Aesd.Lib.Runs
import Aesd.Syscall.Kernel

/-!
# Process groups and sessions (`HW2/Required Files/sys.c`)

`setpgid` and `setsid` on a table of processes. `fork`, `execve`, `clone` and the end of a
process lie outside the file; they are steps of the table that do what is documented of them:
a child starts in the group and the session of its parent, under a number that names no
process, thread, group or session.

* `orderly_run`: groups stay inside sessions, and a session leader leads its group.
* `session_stays`: only its own `setsid` takes a process to another session.
* `setsid_alone`: a process that `setsid` lets through is alone in its new session.
* `setsid_after_fork`: a child that has no group of its own gets a session of its own.
-/

namespace Aesd.Sessions

/-- A process: its thread group leader in the table of tasks. -/
structure Proc where
  pid : ℤ
  /-- the process of `real_parent` -/
  parent : ℤ
  pgrp : ℤ
  session : ℤ
  /-- `signal->leader` -/
  leader : Bool
  /-- `PF_FORKNOEXEC` -/
  forkNoExec : Bool
deriving DecidableEq

structure Table where
  procs : List Proc
  /-- the threads that do not lead their group -/
  threads : List ℤ

namespace Table

/-- `find_task_by_vpid`, among the processes. -/
def find (s : Table) (pid : ℤ) : Option Proc := Registry.lookup Proc.pid s.procs pid

/-- `pid_task(pgrp, PIDTYPE_PGID)` -/
def member (s : Table) (pgrp : ℤ) : Option Proc := s.procs.find? fun p => p.pgrp = pgrp

def update (s : Table) (pid : ℤ) (f : Proc → Proc) : Table :=
  { s with procs := Registry.update Proc.pid s.procs pid f }

/-- A number that is not in use. -/
def Fresh (s : Table) (n : ℤ) : Prop :=
  0 < n ∧ n ∉ s.threads ∧ ∀ p ∈ s.procs, p.pid ≠ n ∧ p.pgrp ≠ n ∧ p.session ≠ n

instance decidableFresh (s : Table) (n : ℤ) : Decidable (s.Fresh n) :=
  inferInstanceAs (Decidable (_ ∧ _ ∧ _))

end Table

/-- The process with a number, which must not be that of a mere thread. -/
def groupLeader (s : Table) (pid : ℤ) : Except Errno Proc :=
  match s.find pid with
  | some p => .ok p
  | none => .error (if pid ∈ s.threads then .EINVAL else .ESRCH)

/-- `me` may move itself, and a child in its session that has not called `execve`. -/
def mayMove (me p : Proc) : Except Errno Unit :=
  if p.parent = me.pid then
    if p.session ≠ me.session then .error .EPERM
    else if p.forkNoExec = false then .error .EACCES
    else .ok ()
  else if p.pid ≠ me.pid then .error .ESRCH
  else .ok ()

/-- A group to join must be there, in the session of `me`. -/
def mayJoin (s : Table) (me : Proc) (pid pgid : ℤ) : Except Errno Unit :=
  if pgid ≠ pid then
    match s.member pgid with
    | none => .error .EPERM
    | some g => if g.session ≠ me.session then .error .EPERM else .ok ()
  else .ok ()

def check (p : Prop) [Decidable p] (e : Errno) : Except Errno Unit :=
  if p then .ok () else .error e

/-- The checks of `setpgid`; `refusal` is the error of `security_task_setpgid`. -/
def setpgidChecks (s : Table) (me : Proc) (pid pgid : ℤ) (refusal : Option Errno) :
    Except Errno Unit := do
  check (0 ≤ pgid) .EINVAL
  let p ← groupLeader s pid
  mayMove me p
  check (p.leader = false) .EPERM
  mayJoin s me pid pgid
  match refusal with
  | some e => .error e
  | none => .ok ()

def setpgid (s : Table) (me : Proc) (pid pgid : ℤ) (refusal : Option Errno) :
    Except Errno Unit × Table :=
  let pid := if pid = 0 then me.pid else pid
  let pgid := if pgid = 0 then pid else pgid
  match setpgidChecks s me pid pgid refusal with
  | .error e => (.error e, s)
  | .ok _ => (.ok (), s.update pid fun p => { p with pgrp := pgid })

def setsid (s : Table) (me : Proc) : Except Errno ℤ × Table :=
  if me.leader then (.error .EPERM, s)
  else if (s.member me.pid).isSome then (.error .EPERM, s)
  else
    (.ok me.pid,
      s.update me.pid fun p => { p with leader := true, session := me.pid, pgrp := me.pid })

inductive Act
  | setpgid (me pid pgid : ℤ) (refusal : Option Errno)
  | setsid (me : ℤ)
  | fork (me child : ℤ)
  | exec (me : ℤ)
  /-- the children go to `heir` -/
  | exit (pid heir : ℤ)
  | clone (tid : ℤ)
  | threadExit (tid : ℤ)
deriving DecidableEq

def step (s : Table) : Act → Option Table
  | .setpgid me pid pgid refusal => (s.find me).map fun p => (setpgid s p pid pgid refusal).2
  | .setsid me => (s.find me).map fun p => (setsid s p).2
  | .fork me child =>
    (s.find me).bind fun p =>
      if s.Fresh child then
        some { s with procs := ⟨child, p.pid, p.pgrp, p.session, false, true⟩ :: s.procs }
      else none
  | .exec me => (s.find me).map fun _ => s.update me fun p => { p with forkNoExec := false }
  | .exit pid heir =>
    (s.find heir).bind fun h =>
      if heir ≠ pid ∧ h.parent ≠ pid then
        some { s with procs := (s.procs.filter fun p => p.pid ≠ pid).map fun p =>
          if p.parent = pid then { p with parent := heir } else p }
      else none
  | .clone tid => if s.Fresh tid then some { s with threads := tid :: s.threads } else none
  | .threadExit tid => some { s with threads := s.threads.erase tid }

/-- The table with `init` alone. -/
def boot : Table := ⟨[⟨1, 0, 0, 0, false, false⟩], []⟩

/-- **Order in the table.** -/
structure Orderly (s : Table) : Prop where
  nodup : (s.procs.map Proc.pid).Nodup
  pid_pos : ∀ p ∈ s.procs, 0 < p.pid
  parent : ∀ p ∈ s.procs, p.parent ≠ p.pid
  /-- a group lies inside a session -/
  group : ∀ p ∈ s.procs, ∀ q ∈ s.procs, p.pgrp = q.pgrp → p.session = q.session
  /-- a group with the number of a process lies inside its session -/
  named : ∀ p ∈ s.procs, ∀ q ∈ s.procs, q.pgrp = p.pid → q.session = p.session
  /-- a process with the number of a session leads it -/
  own : ∀ p ∈ s.procs, ∀ q ∈ s.procs, q.session = p.pid → p.leader = true
  leader : ∀ p ∈ s.procs, p.leader = true → p.pgrp = p.pid ∧ p.session = p.pid

/-! ### What a step does -/

/-- The steps that change the table. -/
inductive Effect (s : Table) : Act → Table → Prop
  /-- a system call that fails -/
  | same (a : Act) : Effect s a s
  | moved (me p : Proc) (pid pgid g : ℤ) (refusal : Option Errno) (hme : me ∈ s.procs)
      (hp : p ∈ s.procs) (hpid : p.pid = if pid = 0 then me.pid else pid)
      (hpgid : g = if pgid = 0 then p.pid else pgid) (hleader : p.leader = false)
      (hg : g = p.pid ∨ ∃ q ∈ s.procs, q.pgrp = g ∧ q.session = p.session) :
      Effect s (.setpgid me.pid pid pgid refusal) (s.update p.pid fun p => { p with pgrp := g })
  | session (p : Proc) (hp : p ∈ s.procs) (hleader : p.leader = false)
      (hg : ∀ q ∈ s.procs, q.pgrp ≠ p.pid) :
      Effect s (.setsid p.pid)
        (s.update p.pid fun q => { q with leader := true, session := p.pid, pgrp := p.pid })
  | forked (p : Proc) (child : ℤ) (hp : p ∈ s.procs) (hchild : s.Fresh child) :
      Effect s (.fork p.pid child)
        { s with procs := ⟨child, p.pid, p.pgrp, p.session, false, true⟩ :: s.procs }
  | execed (p : Proc) (hp : p ∈ s.procs) :
      Effect s (.exec p.pid) (s.update p.pid fun p => { p with forkNoExec := false })
  | exited (pid : ℤ) (h : Proc) (hh : h ∈ s.procs) (hpid : h.pid ≠ pid) (hparent : h.parent ≠ pid) :
      Effect s (.exit pid h.pid)
        { s with procs := (s.procs.filter fun p => p.pid ≠ pid).map fun p =>
          if p.parent = pid then { p with parent := h.pid } else p }
  | threads (a : Act) (ts : List ℤ) : Effect s a { s with threads := ts }

section Effects

variable {s s' : Table} {a : Act}

theorem find_some {pid : ℤ} {p : Proc} (h : s.find pid = some p) : p ∈ s.procs ∧ p.pid = pid :=
  Registry.lookup_some h

/-- Who may move whom, in one session. -/
theorem mayMove_ok (h : Orderly s) {me p : Proc} (hme : me ∈ s.procs) (hp : p ∈ s.procs)
    (hmay : mayMove me p = .ok ()) : p.session = me.session := by
  unfold mayMove at hmay
  split_ifs at hmay with h1 h2 h3 h4
  · exact not_not.1 h2
  · rw [Registry.eq_of_key h.nodup hp hme (not_not.1 h4)]

theorem mayJoin_ok {me : Proc} {pid pgid : ℤ} (hmay : mayJoin s me pid pgid = .ok ()) :
    pgid = pid ∨ ∃ q ∈ s.procs, q.pgrp = pgid ∧ q.session = me.session := by
  unfold mayJoin at hmay
  by_cases hpid : pgid = pid
  · exact .inl hpid
  · rw [if_pos hpid] at hmay
    cases hmember : s.member pgid with
    | none =>
      rw [hmember] at hmay
      cases hmay
    | some q =>
      rw [hmember] at hmay
      dsimp only at hmay
      split_ifs at hmay with hsession
      unfold Table.member at hmember
      have hgroup := List.find?_some hmember
      exact .inr ⟨q, List.mem_of_find?_eq_some hmember, of_decide_eq_true hgroup, not_not.1 hsession⟩

theorem check_ok {p : Prop} [Decidable p] {e : Errno} {u : Unit} (h : check p e = .ok u) : p := by
  unfold check at h
  split_ifs at h with hp
  exact hp

theorem groupLeader_ok {pid : ℤ} {p : Proc} (h : groupLeader s pid = .ok p) :
    s.find pid = some p := by
  unfold groupLeader at h
  cases hfind : s.find pid with
  | none =>
    rw [hfind] at h
    cases h
  | some q =>
    rw [hfind] at h
    rw [Except.ok.inj h]

theorem setpgidChecks_ok {me : Proc} {pid pgid : ℤ} {refusal : Option Errno} {u : Unit}
    (h : setpgidChecks s me pid pgid refusal = .ok u) :
    0 ≤ pgid ∧ ∃ p, s.find pid = some p ∧ mayMove me p = .ok () ∧ p.leader = false ∧
      mayJoin s me pid pgid = .ok () := by
  obtain ⟨_, hpos, h⟩ := bind_eq_ok h
  obtain ⟨p, hp, h⟩ := bind_eq_ok h
  obtain ⟨_, hmove, h⟩ := bind_eq_ok h
  obtain ⟨_, hleader, h⟩ := bind_eq_ok h
  obtain ⟨_, hjoin, -⟩ := bind_eq_ok h
  exact ⟨check_ok hpos, p, groupLeader_ok hp, hmove, check_ok hleader, hjoin⟩

theorem member_isSome {g : ℤ} : (s.member g).isSome = false ↔ ∀ q ∈ s.procs, q.pgrp ≠ g := by
  unfold Table.member
  rw [Option.isSome_eq_false_iff, Option.isNone_iff_eq_none, List.find?_eq_none]
  simp only [decide_eq_true_eq]

/-- **What a step does.** -/
theorem effect (h : Orderly s) (hs : step s a = some s') : Effect s a s' := by
  cases a with
  | setpgid me pid pgid refusal =>
    obtain ⟨m, hm, rfl⟩ := Option.map_eq_some_iff.1 hs
    obtain ⟨hmem, rfl⟩ := find_some hm
    unfold setpgid
    dsimp only
    generalize hpid : (if pid = 0 then m.pid else pid) = t
    generalize hpgid : (if pgid = 0 then t else pgid) = g
    cases hchecks : setpgidChecks s m t g refusal with
    | error e => exact .same _
    | ok u =>
      obtain ⟨-, p, hfind, hmove, hleader, hjoin⟩ := setpgidChecks_ok hchecks
      obtain ⟨hp, rfl⟩ := find_some hfind
      have hsession := mayMove_ok h hmem hp hmove
      refine .moved m p pid pgid g refusal hmem hp hpid.symm hpgid.symm hleader ?_
      rw [hsession]
      exact mayJoin_ok hjoin
  | setsid me =>
    obtain ⟨m, hm, rfl⟩ := Option.map_eq_some_iff.1 hs
    obtain ⟨hmem, rfl⟩ := find_some hm
    unfold setsid
    split_ifs with hleader hgroup
    · exact .same _
    · exact .same _
    · exact .session m hmem (by simpa using hleader) (member_isSome.1 (by simpa using hgroup))
  | fork me child =>
    obtain ⟨m, hm, hnext⟩ := Option.bind_eq_some_iff.1 hs
    obtain ⟨hmem, rfl⟩ := find_some hm
    obtain ⟨hfresh, hnext⟩ := Option.ite_none_right_eq_some.1 hnext
    obtain rfl := Option.some.inj hnext
    exact .forked m child hmem hfresh
  | exec me =>
    obtain ⟨m, hm, rfl⟩ := Option.map_eq_some_iff.1 hs
    obtain ⟨hmem, rfl⟩ := find_some hm
    exact .execed m hmem
  | exit pid heir =>
    obtain ⟨m, hm, hnext⟩ := Option.bind_eq_some_iff.1 hs
    obtain ⟨hmem, rfl⟩ := find_some hm
    obtain ⟨hheir, hnext⟩ := Option.ite_none_right_eq_some.1 hnext
    obtain rfl := Option.some.inj hnext
    exact .exited pid m hmem hheir.1 hheir.2
  | clone tid =>
    obtain ⟨-, hs⟩ := Option.ite_none_right_eq_some.1 hs
    obtain rfl := Option.some.inj hs
    exact .threads _ _
  | threadExit tid =>
    obtain rfl := Option.some.inj hs
    exact .threads _ _

end Effects

/-! ### Order -/

/-- The record `p'` fits to the other records. -/
structure Fits (s : Table) (p' : Proc) : Prop where
  pid_pos : 0 < p'.pid
  parent : p'.parent ≠ p'.pid
  group : ∀ q ∈ s.procs, q.pid ≠ p'.pid → q.pgrp = p'.pgrp → q.session = p'.session
  named : ∀ q ∈ s.procs, q.pid ≠ p'.pid →
    (q.pgrp = p'.pid → q.session = p'.session) ∧ (p'.pgrp = q.pid → p'.session = q.session)
  own : ∀ q ∈ s.procs, q.pid ≠ p'.pid →
    (q.session = p'.pid → p'.leader = true) ∧ (p'.session = q.pid → q.leader = true)
  self : p'.session = p'.pid → p'.leader = true
  leader : p'.leader = true → p'.pgrp = p'.pid ∧ p'.session = p'.pid

section Order

variable {s s' : Table} {a : Act} {as : List Act}

/-- **One record at a time**: a table stays orderly when a record that fits is put in it, for
the one with its number or beside the others. -/
theorem Orderly.put (h : Orderly s) {p' : Proc} (hfits : Fits s p')
    (hnodup : (s'.procs.map Proc.pid).Nodup)
    (hmem : ∀ y ∈ s'.procs, y = p' ∨ (y ∈ s.procs ∧ y.pid ≠ p'.pid)) : Orderly s' := by
  refine ⟨hnodup, ?_, ?_, ?_, ?_, ?_, ?_⟩
  · intro y hy
    rcases hmem y hy with rfl | ⟨hy, -⟩
    · exact hfits.pid_pos
    · exact h.pid_pos y hy
  · intro y hy
    rcases hmem y hy with rfl | ⟨hy, -⟩
    · exact hfits.parent
    · exact h.parent y hy
  · intro y hy z hz hgroup
    rcases hmem y hy with rfl | ⟨hy, hny⟩
    · rcases hmem z hz with rfl | ⟨hz, hnz⟩
      · rfl
      · exact (hfits.group z hz hnz hgroup.symm).symm
    · rcases hmem z hz with rfl | ⟨hz, hnz⟩
      · exact hfits.group y hy hny hgroup
      · exact h.group y hy z hz hgroup
  · intro y hy z hz hgroup
    rcases hmem y hy with rfl | ⟨hy, hny⟩
    · rcases hmem z hz with rfl | ⟨hz, hnz⟩
      · rfl
      · exact (hfits.named z hz hnz).1 hgroup
    · rcases hmem z hz with rfl | ⟨hz, hnz⟩
      · exact (hfits.named y hy hny).2 hgroup
      · exact h.named y hy z hz hgroup
  · intro y hy z hz hsession
    rcases hmem y hy with rfl | ⟨hy, hny⟩
    · rcases hmem z hz with rfl | ⟨hz, hnz⟩
      · exact hfits.self hsession
      · exact (hfits.own z hz hnz).1 hsession
    · rcases hmem z hz with rfl | ⟨hz, hnz⟩
      · exact (hfits.own y hy hny).2 hsession
      · exact h.own y hy z hz hsession
  · intro y hy hleader
    rcases hmem y hy with rfl | ⟨hy, -⟩
    · exact hfits.leader hleader
    · exact h.leader y hy hleader

/-- An update that keeps the number puts the changed record in. -/
theorem Orderly.update (h : Orderly s) {p : Proc} (hp : p ∈ s.procs) {f : Proc → Proc}
    (hf : ∀ q, (f q).pid = q.pid) (hfits : Fits s (f p)) : Orderly (s.update p.pid f) := by
  refine h.put hfits ?_ ?_
  · change ((Registry.update Proc.pid s.procs p.pid f).map Proc.pid).Nodup
    rw [Registry.keys_update fun q hq => (hf q).trans hq]
    exact h.nodup
  · intro y hy
    rcases (Registry.mem_update h.nodup hp).1 hy with rfl | ⟨hy, hne⟩
    · exact .inl rfl
    · exact .inr ⟨hy, (hf p).symm ▸ hne⟩

/-- The processes that are left when one is gone. -/
theorem mem_exited {pid heir : ℤ} {y : Proc}
    (hy : y ∈ (s.procs.filter fun p => p.pid ≠ pid).map fun p =>
      if p.parent = pid then { p with parent := heir } else p) :
    ∃ p ∈ s.procs, p.pid ≠ pid ∧ y = { p with parent := if p.parent = pid then heir else p.parent } := by
  obtain ⟨p, hp, rfl⟩ := List.mem_map.1 hy
  rw [List.mem_filter, decide_eq_true_eq] at hp
  refine ⟨p, hp.1, hp.2, ?_⟩
  split_ifs <;> rfl

theorem Orderly.exit (h : Orderly s) {pid : ℤ} {heir : Proc} (hheir : heir ∈ s.procs)
    (hparent : heir.parent ≠ pid) :
    Orderly { s with procs := (s.procs.filter fun p => p.pid ≠ pid).map fun p =>
      if p.parent = pid then { p with parent := heir.pid } else p } := by
  refine ⟨?_, ?_, ?_, ?_, ?_, ?_, ?_⟩
  · have hpids : (((s.procs.filter fun p => p.pid ≠ pid).map fun p =>
        if p.parent = pid then { p with parent := heir.pid } else p).map Proc.pid) =
        (s.procs.filter fun p => p.pid ≠ pid).map Proc.pid := by
      rw [List.map_map]
      refine List.map_congr_left ?_
      intro p _
      rw [Function.comp_apply]
      split_ifs <;> rfl
    change (List.map _ (List.map _ _)).Nodup
    rw [hpids]
    exact h.nodup.sublist (List.filter_sublist.map _)
  · intro y hy
    obtain ⟨p, hp, -, rfl⟩ := mem_exited hy
    exact h.pid_pos p hp
  · intro y hy
    obtain ⟨p, hp, -, rfl⟩ := mem_exited hy
    dsimp only
    split_ifs with hchild
    · -- the heir is no child of the process that is gone
      intro heq
      rw [Registry.eq_of_key h.nodup hheir hp heq] at hparent
      exact hparent hchild
    · exact h.parent p hp
  · intro y hy z hz
    obtain ⟨p, hp, -, rfl⟩ := mem_exited hy
    obtain ⟨q, hq, -, rfl⟩ := mem_exited hz
    exact h.group p hp q hq
  · intro y hy z hz
    obtain ⟨p, hp, -, rfl⟩ := mem_exited hy
    obtain ⟨q, hq, -, rfl⟩ := mem_exited hz
    exact h.named p hp q hq
  · intro y hy z hz
    obtain ⟨p, hp, -, rfl⟩ := mem_exited hy
    obtain ⟨q, hq, -, rfl⟩ := mem_exited hz
    exact h.own p hp q hq
  · intro y hy
    obtain ⟨p, hp, -, rfl⟩ := mem_exited hy
    exact h.leader p hp

/-- A process joins a group of its session, or makes one of its own. -/
theorem Orderly.moved (h : Orderly s) {p : Proc} (hp : p ∈ s.procs) (hleader : p.leader = false)
    {g : ℤ} (hg : g = p.pid ∨ ∃ q ∈ s.procs, q.pgrp = g ∧ q.session = p.session) :
    Orderly (s.update p.pid fun p => { p with pgrp := g }) := by
  refine h.update hp (fun _ => rfl)
    ⟨h.pid_pos p hp, h.parent p hp, ?_, ?_, ?_, h.own p hp p hp, fun hl => absurd hl (by simp [hleader])⟩
  · intro q hq _ hqg
    rcases hg with rfl | ⟨r, hr, hrg, hrs⟩
    · exact h.named p hp q hq hqg
    · exact (h.group q hq r hr (hqg.trans hrg.symm)).trans hrs
  · intro q hq hne
    refine ⟨h.named p hp q hq, ?_⟩
    intro hgq
    rcases hg with rfl | ⟨r, hr, hrg, hrs⟩
    · exact absurd hgq.symm hne
    · exact hrs.symm.trans (h.named q hq r hr (hrg.trans hgq))
  · intro q hq _
    exact ⟨h.own p hp q hq, h.own q hq p hp⟩

/-- **Order is kept.** -/
theorem orderly_step (h : Orderly s) (hs : step s a = some s') : Orderly s' := by
  cases effect h hs with
  | same => exact h
  | moved me p pid pgid g refusal hme hp hpid hpgid hleader hg => exact h.moved hp hleader hg
  | session p hp hleader hg =>
    refine h.update hp (fun _ => rfl)
      ⟨h.pid_pos p hp, h.parent p hp, ?_, ?_, ?_, fun _ => rfl, fun _ => ⟨rfl, rfl⟩⟩
    · intro q hq _ hqg
      exact absurd hqg (hg q hq)
    · intro q hq hne
      exact ⟨fun hqg => absurd hqg (hg q hq), fun heq => absurd heq.symm hne⟩
    · intro q hq hne
      exact ⟨fun _ => rfl, fun heq => absurd heq.symm hne⟩
  | forked p child hp hchild =>
    obtain ⟨hpos, -, hfresh⟩ := hchild
    have hfits : Fits s ⟨child, p.pid, p.pgrp, p.session, false, true⟩ := by
      refine ⟨hpos, (hfresh p hp).1, ?_, ?_, ?_, ?_, fun hl => absurd hl Bool.false_ne_true⟩
      · intro q hq _ hqg
        exact h.group q hq p hp hqg
      · intro q hq _
        exact ⟨fun hqg => absurd hqg (hfresh q hq).2.1, h.named q hq p hp⟩
      · intro q hq _
        exact ⟨fun hqs => absurd hqs (hfresh q hq).2.2, h.own q hq p hp⟩
      · intro hsession
        exact absurd hsession (hfresh p hp).2.2
    refine h.put hfits ?_ ?_
    · refine List.nodup_cons.2 ⟨?_, h.nodup⟩
      intro hmem
      obtain ⟨q, hq, heq⟩ := List.mem_map.1 hmem
      exact (hfresh q hq).1 heq
    · intro y hy
      rcases List.mem_cons.1 hy with rfl | hy
      · exact .inl rfl
      · exact .inr ⟨hy, (hfresh y hy).1⟩
  | execed p hp =>
    refine h.update hp (fun _ => rfl) ⟨h.pid_pos p hp, h.parent p hp, ?_, ?_, ?_, h.own p hp p hp,
      h.leader p hp⟩
    · intro q hq _ hqg
      exact h.group q hq p hp hqg
    · intro q hq _
      exact ⟨h.named p hp q hq, h.named q hq p hp⟩
    · intro q hq _
      exact ⟨h.own p hp q hq, h.own q hq p hp⟩
  | exited pid heir hh hpid hparent => exact h.exit hh hparent
  | threads a ts => exact ⟨h.nodup, h.pid_pos, h.parent, h.group, h.named, h.own, h.leader⟩

theorem orderly_boot : Orderly boot := by
  have hall : ∀ P : Proc → Prop, P ⟨1, 0, 0, 0, false, false⟩ → ∀ p ∈ boot.procs, P p := by
    intro P hP p hp
    rw [List.mem_singleton.1 hp]
    exact hP
  refine ⟨List.nodup_singleton _, hall _ (by decide), hall _ (by decide), ?_, ?_, ?_, hall _ (by decide)⟩
  · exact hall _ (hall _ fun _ => rfl)
  · exact hall _ (hall _ fun _ => rfl)
  · exact hall _ (hall _ (by decide))

theorem Orderly.run (h : Orderly s) (hr : Lts.Run (Lts.Steps step) s as s') : Orderly s' :=
  hr.invariant h fun h hs => orderly_step h hs

/-- **Groups and sessions in every run.** A group lies inside a session, which is that of the
process with the group's number if there is one; a process with the number of a session leads
it; and a leader has the number of its group and of its session. -/
theorem orderly_run (hr : Lts.Run (Lts.Steps step) boot as s) : Orderly s :=
  orderly_boot.run hr

/-- A shell starts a session, and a job in a group of its own. -/
def shell : List Act := [.fork 1 2, .setsid 2, .fork 2 3, .setpgid 2 3 0 none]

theorem orderly_run_shell : ∃ s, Lts.exec step boot shell = some s ∧ Orderly s := by
  obtain ⟨s, hs⟩ : ∃ s, Lts.exec step boot shell = some s := ⟨_, rfl⟩
  exact ⟨s, hs, orderly_run (Lts.exec_run step shell hs)⟩

end Order

/-! ### Who stays where -/

section Staying

variable {s s' : Table} {a : Act} {as bs : List Act}

/-- A process after an update of another one, or of itself. -/
theorem mem_update (h : Orderly s) {p q : Proc} (hp : p ∈ s.procs) (hq : q ∈ s.procs)
    (f : Proc → Proc) : (if p.pid = q.pid then f p else p) ∈ (s.update q.pid f).procs := by
  refine (Registry.mem_update h.nodup hq).2 ?_
  split_ifs with hpid
  · rw [Registry.eq_of_key h.nodup hp hq hpid]
    exact .inl rfl
  · exact .inr ⟨hp, hpid⟩

/-- The record of a process that a step does not end, and that does not call `setsid`. -/
theorem kept_step (h : Orderly s) {p : Proc} (hp : p ∈ s.procs) (hs : step s a = some s')
    (hexit : ∀ heir, a ≠ .exit p.pid heir) (hsetsid : p.leader = true ∨ a ≠ .setsid p.pid) :
    ∃ p' ∈ s'.procs, p'.pid = p.pid ∧ p'.session = p.session ∧ p'.leader = p.leader := by
  cases effect h hs with
  | same => exact ⟨p, hp, rfl, rfl, rfl⟩
  | moved me q pid pgid g refusal hme hq hpid hpgid hleader hg =>
    refine ⟨_, mem_update h hp hq _, ?_⟩
    split_ifs <;> exact ⟨rfl, rfl, rfl⟩
  | session q hq hleader hg =>
    refine ⟨_, mem_update h hp hq _, ?_⟩
    split_ifs with hpid
    · have heq := Registry.eq_of_key h.nodup hp hq hpid
      subst heq
      rcases hsetsid with hl | hne
      · exact absurd hl (by simp [hleader])
      · exact absurd rfl hne
    · exact ⟨rfl, rfl, rfl⟩
  | forked q child hq hchild => exact ⟨p, List.mem_cons_of_mem _ hp, rfl, rfl, rfl⟩
  | execed q hq =>
    refine ⟨_, mem_update h hp hq _, ?_⟩
    split_ifs <;> exact ⟨rfl, rfl, rfl⟩
  | exited pid heir hh hpid hparent =>
    have hne : p.pid ≠ pid := fun heq => hexit heir.pid (by rw [heq])
    refine ⟨_, List.mem_map_of_mem (List.mem_filter.2 ⟨hp, decide_eq_true hne⟩), ?_⟩
    split_ifs <;> exact ⟨rfl, rfl, rfl⟩
  | threads => exact ⟨p, hp, rfl, rfl, rfl⟩

/-- **Sessions are left by `setsid` alone.** Whatever is called between two states of a run, a
process that lives on is in the session it was in, unless it has called `setsid` itself; and a
session leader stays the leader of its session and of its group. -/
theorem session_stays (hr : Lts.Run (Lts.Steps step) boot as s) {p : Proc} (hp : p ∈ s.procs)
    (hbs : Lts.Run (Lts.Steps step) s bs s') (hexit : ∀ heir, .exit p.pid heir ∉ bs)
    (hsetsid : p.leader = true ∨ .setsid p.pid ∉ bs) :
    ∃ p' ∈ s'.procs, p'.pid = p.pid ∧ p'.session = p.session ∧ p'.leader = p.leader ∧
      (p.leader = true → p'.pgrp = p.pid) := by
  have h := orderly_boot.run hr
  suffices hkept : Orderly s' ∧
      ∃ p' ∈ s'.procs, p'.pid = p.pid ∧ p'.session = p.session ∧ p'.leader = p.leader by
    obtain ⟨h', p', hp', hpid, hsession, hleader⟩ := hkept
    refine ⟨p', hp', hpid, hsession, hleader, ?_⟩
    intro hl
    rw [← hpid]
    exact (h'.leader p' hp' (hleader.trans hl)).1
  induction hbs with
  | nil => exact ⟨h, p, hp, rfl, rfl, rfl⟩
  | @snoc bs s₁ s₂ b run next ih =>
    obtain ⟨h₁, p₁, hp₁, hpid₁, hsession₁, hleader₁⟩ :=
      ih (fun heir hmem => hexit heir (List.mem_append_left _ hmem))
        (hsetsid.imp_right fun hmem hin => hmem (List.mem_append_left _ hin))
    have hlast : b ∈ bs ++ [b] := List.mem_append_right _ (List.mem_singleton_self b)
    obtain ⟨p₂, hp₂, hpid₂, hsession₂, hleader₂⟩ := kept_step h₁ hp₁ next
      (fun heir heq => hexit heir (by rw [← hpid₁, ← heq]; exact hlast))
      (hsetsid.imp hleader₁.trans fun hmem heq => hmem (by rw [← hpid₁, ← heq]; exact hlast))
    exact ⟨orderly_step h₁ next, p₂, hp₂, hpid₂.trans hpid₁, hsession₂.trans hsession₁,
      hleader₂.trans hleader₁⟩

/-- The shell is still there when the job is done. -/
theorem session_stays_shell :
    ∃ s, Lts.exec step boot (shell ++ [.exec 3, .exit 3 2]) = some s ∧
      ∃ p ∈ s.procs, p.pid = 2 ∧ p.session = 2 ∧ p.leader = true ∧ p.pgrp = 2 := by
  have hfirst : Lts.exec step boot [.fork 1 2, .setsid 2] =
      some ⟨[⟨2, 1, 2, 2, true, true⟩, ⟨1, 0, 0, 0, false, false⟩], []⟩ := rfl
  obtain ⟨s, hs⟩ : ∃ s, Lts.exec step ⟨[⟨2, 1, 2, 2, true, true⟩, ⟨1, 0, 0, 0, false, false⟩], []⟩
      [.fork 2 3, .setpgid 2 3 0 none, .exec 3, .exit 3 2] = some s := ⟨_, rfl⟩
  obtain ⟨p, hp, hpid, hsession, hleader, hgroup⟩ := session_stays (Lts.exec_run step _ hfirst)
    (List.mem_cons_self ..) (Lts.exec_run step _ hs) (by simp) (.inl rfl)
  exact ⟨s, hs, p, hp, hpid, hsession, hleader, hgroup rfl⟩

/-- Who is in the session and in the group of a process that has called `setsid`. -/
structure Alone (s : Table) (pid : ℤ) : Prop where
  session : ∀ q ∈ s.procs, q.session = pid ↔ q.pid = pid
  group : ∀ q ∈ s.procs, q.pgrp = pid ↔ q.pid = pid

theorem setsid_ok {p : Proc} (hleader : p.leader = false) (hg : ∀ q ∈ s.procs, q.pgrp ≠ p.pid) :
    setsid s p = (.ok p.pid,
      s.update p.pid fun q => { q with leader := true, session := p.pid, pgrp := p.pid }) := by
  unfold setsid
  rw [hleader, member_isSome.2 hg]
  rfl

/-- The session is new: nobody had its number. -/
theorem alone_update (h : Orderly s) {p : Proc} (hp : p ∈ s.procs) (hleader : p.leader = false)
    (hg : ∀ q ∈ s.procs, q.pgrp ≠ p.pid) :
    Alone (s.update p.pid fun q => { q with leader := true, session := p.pid, pgrp := p.pid })
      p.pid := by
  refine ⟨?_, ?_⟩
  · intro q hq
    rcases (Registry.mem_update h.nodup hp).1 hq with rfl | ⟨hq, hne⟩
    · exact iff_of_true rfl rfl
    · refine iff_of_false ?_ hne
      intro hsession
      exact absurd (h.own p hp q hq hsession) (by simp [hleader])
  · intro q hq
    rcases (Registry.mem_update h.nodup hp).1 hq with rfl | ⟨hq, hne⟩
    · exact iff_of_true rfl rfl
    · exact iff_of_false (hg q hq) hne

/-- **A new session starts empty.** In every state of a run, a process that `setsid` lets
through is alone in its session and in its group. -/
theorem setsid_alone (hr : Lts.Run (Lts.Steps step) boot as s) {p : Proc} (hp : p ∈ s.procs)
    {sid : ℤ} (hsid : (setsid s p).1 = .ok sid) : sid = p.pid ∧ Alone (setsid s p).2 sid := by
  have h := orderly_boot.run hr
  by_cases hleader : p.leader = true
  · unfold setsid at hsid
    rw [if_pos hleader] at hsid
    cases hsid
  · by_cases hgroup : (s.member p.pid).isSome = true
    · unfold setsid at hsid
      rw [if_neg hleader, if_pos hgroup] at hsid
      cases hsid
    · have hl : p.leader = false := by simpa using hleader
      have hg := member_isSome.1 (by simpa using hgroup)
      rw [setsid_ok hl hg] at hsid ⊢
      obtain rfl := Except.ok.inj hsid
      exact ⟨rfl, alone_update h hp hl hg⟩

theorem setsid_alone_child :
    Alone (setsid ⟨[⟨2, 1, 0, 0, false, true⟩, ⟨1, 0, 0, 0, false, false⟩], []⟩
      ⟨2, 1, 0, 0, false, true⟩).2 2 := by
  have hfork : Lts.exec step boot [.fork 1 2] =
      some ⟨[⟨2, 1, 0, 0, false, true⟩, ⟨1, 0, 0, 0, false, false⟩], []⟩ := rfl
  exact (setsid_alone (Lts.exec_run step _ hfork) (List.mem_cons_self ..) rfl).2

/-- Nothing moves the process `c` into a group of its own, or ends it. -/
def LeavesAlone (c : ℤ) : Act → Prop
  | .setpgid me pid pgid _ =>
    let pid := if pid = 0 then me else pid
    let pgid := if pgid = 0 then pid else pgid
    ¬ (pid = c ∧ pgid = c)
  | .setsid me => me ≠ c
  | .exit pid _ => pid ≠ c
  | _ => True

/-- The process `c` is there, and its number is that of no group. -/
structure Young (s : Table) (c : ℤ) : Prop where
  there : ∃ p ∈ s.procs, p.pid = c ∧ p.leader = false
  group : ∀ q ∈ s.procs, q.pgrp ≠ c

theorem young_step (h : Orderly s) {c : ℤ} (hc : Young s c) (hs : step s a = some s')
    (hl : LeavesAlone c a) : Young s' c := by
  obtain ⟨⟨p, hp, hpid, hleader⟩, hgroup⟩ := hc
  have hthere : ∃ p' ∈ s'.procs, p'.pid = c ∧ p'.leader = false := by
    obtain ⟨p', hp', hpid', -, hleader'⟩ := kept_step h hp hs
      (fun heir heq => by rw [heq] at hl; exact hl hpid)
      (.inr fun heq => by rw [heq] at hl; exact hl hpid)
    exact ⟨p', hp', hpid'.trans hpid, hleader'.trans hleader⟩
  refine ⟨hthere, ?_⟩
  cases effect h hs with
  | same => exact hgroup
  | moved me q pid pgid g refusal hme hq hqpid hqpgid hqleader hg =>
    intro y hy
    rcases (Registry.mem_update h.nodup hq).1 hy with rfl | ⟨hy, -⟩
    · rcases hg with rfl | ⟨r, hr, rfl, -⟩
      -- a group of its own: `q` is not `c`
      · intro hown
        change q.pid = c at hown
        refine hl ⟨hqpid.symm.trans hown, ?_⟩
        rw [← hqpid]
        exact hqpgid.symm.trans hown
      · exact hgroup r hr
    · exact hgroup y hy
  | session q hq hqleader hg =>
    intro y hy
    rcases (Registry.mem_update h.nodup hq).1 hy with rfl | ⟨hy, -⟩
    · exact hl
    · exact hgroup y hy
  | forked q child hq hchild =>
    intro y hy
    rcases List.mem_cons.1 hy with rfl | hy
    · exact hgroup q hq
    · exact hgroup y hy
  | execed q hq =>
    intro y hy
    rcases (Registry.mem_update h.nodup hq).1 hy with rfl | ⟨hy, -⟩
    · exact hgroup q hq
    · exact hgroup y hy
  | exited pid heir hh hpid' hparent =>
    intro y hy
    obtain ⟨q, hq, -, rfl⟩ := mem_exited hy
    exact hgroup q hq
  | threads => exact hgroup

theorem young_fork {me c : ℤ} (hf : step s (.fork me c) = some s') : Young s' c := by
  obtain ⟨p, hp, hnext⟩ := Option.bind_eq_some_iff.1 hf
  obtain ⟨hfresh, hnext⟩ := Option.ite_none_right_eq_some.1 hnext
  obtain rfl := Option.some.inj hnext
  refine ⟨⟨_, List.mem_cons_self .., rfl, rfl⟩, ?_⟩
  intro q hq
  rcases List.mem_cons.1 hq with rfl | hq
  · exact (hfresh.2.2 p (find_some hp).1).2.1
  · exact (hfresh.2.2 q hq).2.1

/-- **A child can start a session.** However a run goes on after a `fork`, while nobody moves the
child into a group of its own, and it has not called `setsid` before, its `setsid` succeeds and
leaves it alone in its session. -/
theorem setsid_after_fork {s₁ s₂ : Table} {me c : ℤ} (hr : Lts.Run (Lts.Steps step) boot as s)
    (hf : step s (.fork me c) = some s₁) (hbs : Lts.Run (Lts.Steps step) s₁ bs s₂)
    (hl : ∀ b ∈ bs, LeavesAlone c b) :
    ∃ p, s₂.find c = some p ∧ (setsid s₂ p).1 = .ok c ∧ Alone (setsid s₂ p).2 c := by
  have h₁ := orderly_step (orderly_boot.run hr) hf
  have hyoung : Orderly s₂ ∧ Young s₂ c := by
    induction hbs with
    | nil => exact ⟨h₁, young_fork hf⟩
    | @snoc bs s₂ s₃ b run next ih =>
      obtain ⟨h₂, hc⟩ := ih fun b' hb' => hl b' (List.mem_append_left _ hb')
      have hb := hl b (List.mem_append_right _ (List.mem_singleton_self b))
      exact ⟨orderly_step h₂ next, young_step h₂ hc next hb⟩
  obtain ⟨h₂, ⟨p, hp, rfl, hleader⟩, hgroup⟩ := hyoung
  refine ⟨p, Registry.lookup_of_mem h₂.nodup hp, ?_⟩
  rw [setsid_ok hleader hgroup]
  exact ⟨rfl, alone_update h₂ hp hleader hgroup⟩

/-- The child 3 is moved into the group of its sibling 2, and has called `execve`. -/
theorem setsid_after_fork_moved :
    (setsid ⟨[⟨3, 1, 2, 0, false, false⟩, ⟨2, 1, 2, 0, false, true⟩, ⟨1, 0, 0, 0, false, false⟩], []⟩
        ⟨3, 1, 2, 0, false, false⟩).1 = .ok 3 ∧
      Alone (setsid ⟨[⟨3, 1, 2, 0, false, false⟩, ⟨2, 1, 2, 0, false, true⟩,
        ⟨1, 0, 0, 0, false, false⟩], []⟩ ⟨3, 1, 2, 0, false, false⟩).2 3 := by
  have hbefore : Lts.exec step boot [.fork 1 2, .setpgid 1 2 0 none] =
      some ⟨[⟨2, 1, 2, 0, false, true⟩, ⟨1, 0, 0, 0, false, false⟩], []⟩ := rfl
  have hfork : step ⟨[⟨2, 1, 2, 0, false, true⟩, ⟨1, 0, 0, 0, false, false⟩], []⟩ (.fork 1 3) =
      some ⟨[⟨3, 1, 0, 0, false, true⟩, ⟨2, 1, 2, 0, false, true⟩, ⟨1, 0, 0, 0, false, false⟩], []⟩ :=
    rfl
  have hafter : Lts.exec step
      ⟨[⟨3, 1, 0, 0, false, true⟩, ⟨2, 1, 2, 0, false, true⟩, ⟨1, 0, 0, 0, false, false⟩], []⟩
      [.setpgid 1 3 2 none, .exec 3] =
      some ⟨[⟨3, 1, 2, 0, false, false⟩, ⟨2, 1, 2, 0, false, true⟩, ⟨1, 0, 0, 0, false, false⟩], []⟩ :=
    rfl
  obtain ⟨p, hp, hok, halone⟩ := setsid_after_fork (Lts.exec_run step _ hbefore) hfork
    (Lts.exec_run step _ hafter) (by simp [LeavesAlone])
  obtain rfl := Option.some.inj hp
  exact ⟨hok, halone⟩

end Staying

end Aesd.Sessions
