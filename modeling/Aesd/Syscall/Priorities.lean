import Aesd.Syscall.Credentials

/-!
# Nice values (`HW2/Required Files/sys.c`)

`setpriority` goes over the tasks of a process, a process group or a user. One that may not be
changed leaves its error behind and does not stop the loop; `getpriority` reports the most
favoured of them.

* `setpriority_outcome`: which tasks are changed, and what is returned.
* `getpriority_after`: what `getpriority` reports after a call that has not failed.
-/

namespace Aesd.Priorities

open Credentials (Cred Namespace initial)

structure Task (υ γ : Type) where
  /-- which `task_struct` it is -/
  ref : ℕ
  /-- `task_pid_vnr`, 0 outside the namespace of the caller -/
  tid : ℤ
  pgrp : ℤ
  cred : Cred υ γ
  nice : ℤ

/-- The answers of the rest of the kernel about each task. -/
structure Answers (υ : Type) where
  /-- `ns_capable` for `CAP_SYS_NICE` -/
  capSysNice : ℕ → Bool
  /-- `can_nice` -/
  canNice : ℕ → Bool
  /-- the error of `security_task_setnice` -/
  setniceError : ℕ → Option Errno
  /-- `find_user` returns a user -/
  findUser : υ → Bool

def PRIO_PROCESS : ℤ := 0

def PRIO_PGRP : ℤ := 1

def PRIO_USER : ℤ := 2

def MIN_NICE : ℤ := -20

def MAX_NICE : ℤ := 19

/-- `-ESRCH` -/
def negESRCH : ℤ := -3

/-- `-EINVAL` -/
def negEINVAL : ℤ := -22

def niceToRlimit (nice : ℤ) : ℤ := MAX_NICE - nice + 1

section Calls

variable {υ γ : Type} [DecidableEq υ] (U : Namespace υ) (ans : Answers υ)

def setOnePrioPerm (cred : Cred υ γ) (p : Task υ γ) : Bool :=
  p.cred.uids.id = cred.uids.eid ∨ p.cred.uids.eid = cred.uids.eid ∨ ans.capSysNice p.ref = true

/-- Why a task may not be changed. -/
def refusal (cred : Cred υ γ) (niceval : ℤ) (p : Task υ γ) : Option Errno :=
  if setOnePrioPerm ans cred p = false then some .EPERM
  else if niceval < p.nice ∧ ans.canNice p.ref = false then some .EACCES
  else ans.setniceError p.ref

/-- One task: the error so far goes in, 0 as `none`. -/
def setOnePrio (cred : Cred υ γ) (niceval : ℤ) (p : Task υ γ) (error : Option Errno) :
    Task υ γ × Option Errno :=
  match refusal ans cred niceval p with
  | some e => (p, some e)
  | none => ({ p with nice := niceval }, if error = some .ESRCH then none else error)

/-- The tasks that `which` and `who` select for the caller `me`. -/
def selects (me : Task υ γ) (which who : ℤ) (p : Task υ γ) : Bool :=
  if which = PRIO_PROCESS then if who ≠ 0 then p.tid = who else p.ref = me.ref
  else if which = PRIO_PGRP then p.pgrp = if who ≠ 0 then who else me.pgrp
  else
    match (if who = 0 then some me.cred.uids.id else U.make (BitVec.ofInt 32 who)) with
    | none => false
    | some uid =>
      (uid = me.cred.uids.id ∨ ans.findUser uid = true) ∧ p.cred.uids.id = uid ∧ p.tid ≠ 0

/-- The loop of `setpriority`. -/
def setEach (cred : Cred υ γ) (niceval : ℤ) (select : Task υ γ → Bool) :
    List (Task υ γ) → Option Errno → List (Task υ γ) × Option Errno
  | [], error => ([], error)
  | p :: ps, error =>
    if select p then
      let r := setOnePrio ans cred niceval p error
      let rest := setEach cred niceval select ps r.2
      (r.1 :: rest.1, rest.2)
    else
      let rest := setEach cred niceval select ps error
      (p :: rest.1, rest.2)

def clampNice (niceval : ℤ) : ℤ :=
  let niceval := if niceval < MIN_NICE then MIN_NICE else niceval
  if MAX_NICE < niceval then MAX_NICE else niceval

/-- The tasks afterwards and the error, 0 as `none`. -/
def setpriority (s : List (Task υ γ)) (me : Task υ γ) (which who niceval : ℤ) :
    List (Task υ γ) × Option Errno :=
  if PRIO_USER < which ∨ which < PRIO_PROCESS then (s, some .EINVAL)
  else
    setEach ans me.cred (clampNice niceval) (selects U ans me which who) s (some .ESRCH)

def getpriority (s : List (Task υ γ)) (me : Task υ γ) (which who : ℤ) : ℤ :=
  if PRIO_USER < which ∨ which < PRIO_PROCESS then negEINVAL
  else
    (s.filter (selects U ans me which who)).foldl
      (fun retval p => if retval < niceToRlimit p.nice then niceToRlimit p.nice else retval)
      negESRCH

end Calls

/-! ### The loop -/

section Loop

variable {υ γ : Type} [DecidableEq υ] {ans : Answers υ} {cred : Cred υ γ} {niceval : ℤ}
  {select : Task υ γ → Bool}

/-- What becomes of a task. -/
def changed (ans : Answers υ) (cred : Cred υ γ) (niceval : ℤ) (select : Task υ γ → Bool)
    (p : Task υ γ) : Task υ γ :=
  if select p ∧ refusal ans cred niceval p = none then { p with nice := niceval } else p

/-- The error that the refusals leave behind. -/
def lastRefusal (ans : Answers υ) (cred : Cred υ γ) (niceval : ℤ) (ps : List (Task υ γ)) :
    Option Errno :=
  (ps.filterMap (refusal ans cred niceval)).getLast?

theorem refusal_ne (hsec : ∀ ref, ans.setniceError ref ≠ some .ESRCH) (p : Task υ γ) :
    refusal ans cred niceval p ≠ some .ESRCH := by
  unfold refusal
  by_cases hperm : setOnePrioPerm ans cred p = false
  · rw [if_pos hperm]
    decide
  · rw [if_neg hperm]
    by_cases hnice : niceval < p.nice ∧ ans.canNice p.ref = false
    · rw [if_pos hnice]
      decide
    · rw [if_neg hnice]
      exact hsec p.ref

/-- **The loop**: every task that may be changed is, and the last refusal is the error. -/
theorem setEach_spec (hsec : ∀ ref, ans.setniceError ref ≠ some .ESRCH) (ps : List (Task υ γ))
    (error : Option Errno) :
    setEach ans cred niceval select ps error =
      (ps.map (changed ans cred niceval select),
        match lastRefusal ans cred niceval (ps.filter select) with
        | some e => some e
        | none => if error = some .ESRCH ∧ ps.filter select ≠ [] then none else error) := by
  induction ps generalizing error with
  | nil => simp [setEach, lastRefusal]
  | cons p ps ih =>
    rw [setEach, List.map_cons]
    by_cases hp : select p = true
    · rw [if_pos hp]
      dsimp only
      rw [ih, List.filter_cons_of_pos hp]
      unfold setOnePrio changed lastRefusal
      cases hrefusal : refusal ans cred niceval p with
      | some e =>
        have hne : e ≠ .ESRCH := by
          rintro rfl
          exact refusal_ne hsec p hrefusal
        rw [List.filterMap_cons_some hrefusal, List.getLast?_cons]
        cases hlast : ((ps.filter select).filterMap (refusal ans cred niceval)).getLast? with
        | some e' => simp
        | none => simp [hne]
      | none =>
        rw [List.filterMap_cons_none hrefusal]
        cases hlast : ((ps.filter select).filterMap (refusal ans cred niceval)).getLast? with
        | some e' => simp [hp]
        | none =>
          by_cases herror : error = some .ESRCH
          · simp [hp, herror]
          · simp [hp, herror]
    · rw [if_neg hp]
      dsimp only
      rw [ih, List.filter_cons_of_neg hp]
      unfold changed
      simp [hp]

theorem lastRefusal_eq_none {ps : List (Task υ γ)} :
    lastRefusal ans cred niceval ps = none ↔ ∀ p ∈ ps, refusal ans cred niceval p = none := by
  unfold lastRefusal
  rw [List.getLast?_eq_none_iff, List.filterMap_eq_nil_iff]

theorem lastRefusal_ne (hsec : ∀ ref, ans.setniceError ref ≠ some .ESRCH) (ps : List (Task υ γ)) :
    lastRefusal ans cred niceval ps ≠ some .ESRCH := by
  intro h
  obtain ⟨p, -, hp⟩ := List.mem_filterMap.1 (List.mem_of_getLast? h)
  exact refusal_ne hsec p hp

/-- What a call has done to the tasks `s`: those that are selected and may be changed have the
nice value `n`, even if it has failed. -/
structure Sweep (ans : Answers υ) (cred : Cred υ γ) (n : ℤ) (select : Task υ γ → Bool)
    (s : List (Task υ γ)) (result : List (Task υ γ) × Option Errno) : Prop where
  tasks : result.1 = s.map (changed ans cred n select)
  /-- somebody is selected, and all may be changed -/
  success : result.2 = none ↔
    s.filter select ≠ [] ∧ ∀ p ∈ s.filter select, refusal ans cred n p = none
  nobody : result.2 = some .ESRCH ↔ s.filter select = []
  /-- any other error is that of the last task that may not be changed -/
  error : ∀ e, e ≠ .ESRCH →
    (result.2 = some e ↔ lastRefusal ans cred n (s.filter select) = some e)

theorem setEach_sweep (hsec : ∀ ref, ans.setniceError ref ≠ some .ESRCH) (s : List (Task υ γ)) :
    Sweep ans cred niceval select s (setEach ans cred niceval select s (some .ESRCH)) := by
  have hlastne : lastRefusal ans cred niceval (s.filter select) ≠ some .ESRCH :=
    lastRefusal_ne hsec _
  rw [setEach_spec hsec]
  refine ⟨rfl, ?_, ?_, ?_⟩
  · dsimp only
    rw [← lastRefusal_eq_none]
    cases hlast : lastRefusal ans cred niceval (s.filter select) with
    | some e => simp
    | none => simp
  · dsimp only
    cases hlast : lastRefusal ans cred niceval (s.filter select) with
    | some e =>
      rw [hlast] at hlastne
      refine iff_of_false hlastne ?_
      intro hnil
      rw [hnil] at hlast
      cases hlast
    | none => simp
  · intro e he
    dsimp only
    cases hlast : lastRefusal ans cred niceval (s.filter select) with
    | some e' => exact Iff.rfl
    | none =>
      dsimp only
      split_ifs
      · exact Iff.rfl
      · exact iff_of_false (fun h => he (Option.some.inj h).symm) (fun h => nomatch h)

end Loop

section Outcome

variable {υ γ : Type} [DecidableEq υ] {U : Namespace υ} {ans : Answers υ} {s : List (Task υ γ)}
  {me : Task υ γ} {which who niceval : ℤ}

/-- **What `setpriority` does.** It changes exactly the selected tasks that may be changed, even
when it fails. It succeeds when there are selected tasks and all of them may be changed; without
any it returns `ESRCH`, and otherwise the error of the last one that may not. -/
theorem setpriority_outcome (hsec : ∀ ref, ans.setniceError ref ≠ some .ESRCH)
    (hwhich : PRIO_PROCESS ≤ which ∧ which ≤ PRIO_USER) :
    Sweep ans me.cred (clampNice niceval) (selects U ans me which who) s
      (setpriority U ans s me which who niceval) := by
  unfold setpriority
  rw [if_neg (by omega)]
  exact setEach_sweep hsec s

/-- The processes of two users, in one process group. -/
def neighbours : List (Task (BitVec 32) (BitVec 32)) :=
  [⟨1, 1, 1, ⟨.all 1000, .all 1000, 1000⟩, 0⟩, ⟨2, 2, 1, ⟨.all 1001, .all 1001, 1001⟩, 0⟩,
    ⟨3, 3, 1, ⟨.all 1000, .all 1000, 1000⟩, 5⟩]

/-- A kernel without objections, and a caller without capabilities. -/
def indifferent : Answers (BitVec 32) :=
  ⟨fun _ => false, fun _ => false, fun _ => none, fun _ => true⟩

theorem indifferent_setniceError (ref : ℕ) : indifferent.setniceError ref ≠ some .ESRCH := by
  intro h
  cases h

/-- User 1000 sets the nice value of the group: the process of user 1001 stays as it is. -/
theorem setpriority_outcome_group :
    (setpriority initial indifferent neighbours ⟨1, 1, 1, ⟨.all 1000, .all 1000, 1000⟩, 0⟩
      PRIO_PGRP 0 7).1.map Task.nice = [7, 0, 7] := by
  rw [(setpriority_outcome indifferent_setniceError (by decide)).tasks]
  decide

/-- Nice values do not select tasks. -/
theorem selects_changed (p : Task υ γ) (k n : ℤ) (select : Task υ γ → Bool) :
    selects U ans { me with nice := k } which who (changed ans me.cred n select p) =
      selects U ans me which who p := by
  unfold changed
  split_ifs <;> rfl

omit [DecidableEq υ] in
theorem foldl_same {v : ℤ} {ps : List (Task υ γ)} (hv : negESRCH < v)
    (h : ∀ p ∈ ps, niceToRlimit p.nice = v) (hne : ps ≠ []) :
    ps.foldl (fun retval p => if retval < niceToRlimit p.nice then niceToRlimit p.nice else retval)
      negESRCH = v := by
  have hrest : ∀ ps : List (Task υ γ), (∀ p ∈ ps, niceToRlimit p.nice = v) →
      ps.foldl (fun retval p => if retval < niceToRlimit p.nice then niceToRlimit p.nice
        else retval) v = v := by
    intro ps h
    induction ps with
    | nil => rfl
    | cons p ps ih =>
      rw [List.foldl_cons, h p (List.mem_cons_self ..), if_neg (lt_irrefl v)]
      exact ih fun q hq => h q (List.mem_cons_of_mem _ hq)
  obtain ⟨p, ps, rfl⟩ := List.exists_cons_of_ne_nil hne
  rw [List.foldl_cons, h p (List.mem_cons_self ..), if_pos hv]
  exact hrest ps fun q hq => h q (List.mem_cons_of_mem _ hq)

theorem clampNice_mem (n : ℤ) : MIN_NICE ≤ clampNice n ∧ clampNice n ≤ MAX_NICE := by
  unfold clampNice MIN_NICE MAX_NICE
  dsimp only
  split_ifs <;> omega

/-- **Priorities are read as they were set.** After a `setpriority` that has not failed the same
caller reads, for the same tasks, the value it asked for, brought into range and counted from
the other end; that is never mistaken for an error. -/
theorem getpriority_after (hsec : ∀ ref, ans.setniceError ref ≠ some .ESRCH)
    (hok : (setpriority U ans s me which who niceval).2 = none) (k : ℤ) :
    getpriority U ans (setpriority U ans s me which who niceval).1 { me with nice := k } which who =
        20 - clampNice niceval ∧
      1 ≤ 20 - clampNice niceval ∧ 20 - clampNice niceval ≤ 40 := by
  have hrange := clampNice_mem niceval
  unfold MIN_NICE MAX_NICE at hrange
  refine ⟨?_, by omega, by omega⟩
  have hwhich : ¬ (PRIO_USER < which ∨ which < PRIO_PROCESS) := by
    intro h
    unfold setpriority at hok
    rw [if_pos h] at hok
    cases hok
  have hset : setpriority U ans s me which who niceval = setEach ans me.cred (clampNice niceval)
      (selects U ans me which who) s (some .ESRCH) := if_neg hwhich
  have hsweep : Sweep ans me.cred (clampNice niceval) (selects U ans me which who) s _ :=
    setEach_sweep hsec s
  rw [hset] at hok ⊢
  obtain ⟨hne, hmay⟩ := hsweep.success.1 hok
  unfold getpriority
  rw [if_neg hwhich, hsweep.tasks, List.filter_map]
  have hselect : (selects U ans { me with nice := k } which who) ∘
      changed ans me.cred (clampNice niceval) (selects U ans me which who) =
        selects U ans me which who :=
    funext fun p => selects_changed p k _ _
  rw [hselect]
  refine foldl_same (v := 20 - clampNice niceval) ?_ ?_ ?_
  · unfold negESRCH
    omega
  · intro p hp
    obtain ⟨q, hq, rfl⟩ := List.mem_map.1 hp
    have hchanged : changed ans me.cred (clampNice niceval) (selects U ans me which who) q =
        { q with nice := clampNice niceval } :=
      if_pos ⟨(List.mem_filter.1 hq).2, hmay q hq⟩
    rw [hchanged]
    unfold niceToRlimit MAX_NICE
    dsimp only
    omega
  · exact fun h => hne (List.map_eq_nil_iff.1 h)

/-- User 1000 sets and reads the nice value of its own processes. -/
theorem getpriority_after_user :
    getpriority initial indifferent
      (setpriority initial indifferent neighbours ⟨1, 1, 1, ⟨.all 1000, .all 1000, 1000⟩, 0⟩
        PRIO_USER 0 30).1
      ⟨1, 1, 1, ⟨.all 1000, .all 1000, 1000⟩, 19⟩ PRIO_USER 0 = 1 := by
  have hok : (setpriority initial indifferent neighbours
      ⟨1, 1, 1, ⟨.all 1000, .all 1000, 1000⟩, 0⟩ PRIO_USER 0 30).2 = none := by decide
  exact (getpriority_after indifferent_setniceError hok 19).1

end Outcome

end Aesd.Priorities
