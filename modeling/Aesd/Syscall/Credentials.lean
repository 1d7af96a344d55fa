import Aesd.Lib.Runs
import Aesd.Lib.SavedIds
import Aesd.Syscall.Kernel

/-!
# The credential system calls (`HW2/Required Files/sys.c`)

`setregid`, `setgid`, `setreuid`, `setuid`, `setresuid`, `setresgid`, `setfsuid`, `setfsgid`.
`make_kuid` and its relatives are a parameter; `Answers` is what the rest of the kernel
answers in one call. The calls for users and for groups choose the new ids in the same way;
those for users then go through `set_user` and the security module.

* `effect`: what a call does, whichever it is.
* `failed_calls_invisible`: what a run of calls leaves is left by its successful calls.
-/

namespace Aesd.Credentials

open SavedIds

/-- The ids of a namespace. -/
structure Namespace (κ : Type*) where
  make : BitVec 32 → Option κ
  fromMunged : κ → BitVec 32

/-- The answers of the rest of the kernel in a call. -/
structure Answers where
  /-- `ns_capable` for `CAP_SETUID` -/
  capSetuid : Bool
  /-- `ns_capable` for `CAP_SETGID` -/
  capSetgid : Bool
  /-- `prepare_creds` returns a copy -/
  prepared : Bool
  /-- `alloc_uid` returns a user -/
  allocated : Bool
  /-- the user has as many processes as `RLIMIT_NPROC` and is not `INIT_USER` -/
  nprocFull : Bool
  /-- the error of `security_task_fix_setuid` -/
  fixSetuid : Option Errno

/-- The credentials of a task. -/
structure Cred (υ γ : Type) where
  uids : Ids υ
  gids : Ids γ
  /-- the uid whose `user_struct` this is -/
  user : υ

/-- A task, with the flag `PF_NPROC_EXCEEDED`. -/
structure Task (υ γ : Type) where
  cred : Cred υ γ
  nprocExceeded : Bool

section Ids

variable {κ : Type*} [DecidableEq κ]

/-- An argument of a call: `-1` names no id, any other value must be a valid one. -/
def given (ns : Namespace κ) (x : BitVec 32) : Except Errno (Option κ) :=
  if x = -1 then .ok none
  else
    match ns.make x with
    | some k => .ok (some k)
    | none => .error .EINVAL

/-- An id may be taken over from those that are held, or with the capability. -/
def permitted (capable : Bool) (held : List κ) : Option κ → Bool
  | none => true
  | some k => held.contains k || capable

/-- The ids that `setregid` and `setreuid` choose. -/
def setre (capable : Bool) (old : Ids κ) (rid eid : Option κ) : Except Errno (Ids κ) :=
  if permitted capable [old.id, old.eid] rid = false then .error .EPERM
  else if permitted capable [old.id, old.eid, old.sid] eid = false then .error .EPERM
  else
    .ok {
      id := rid.getD old.id
      eid := eid.getD old.eid
      sid := if rid ≠ none ∨ (eid ≠ none ∧ eid ≠ some old.id) then eid.getD old.eid else old.sid
      fsid := eid.getD old.eid }

/-- The ids that `setgid` and `setuid` choose. -/
def setid (capable : Bool) (old : Ids κ) (k : κ) : Except Errno (Ids κ) :=
  if capable then .ok (.all k)
  else if k = old.id ∨ k = old.sid then .ok { old with eid := k, fsid := k }
  else .error .EPERM

/-- The ids that `setresgid` and `setresuid` choose. -/
def setres (capable : Bool) (old : Ids κ) (rid eid sid : Option κ) : Except Errno (Ids κ) :=
  let held := [old.id, old.eid, old.sid]
  if permitted capable held rid && permitted capable held eid && permitted capable held sid then
    .ok {
      id := rid.getD old.id
      eid := eid.getD old.eid
      sid := sid.getD old.sid
      fsid := eid.getD old.eid }
  else .error .EPERM

end Ids

section Calls

variable {υ γ : Type} [DecidableEq υ] [DecidableEq γ]

/-- A copy of the credentials to change. -/
def prepareCreds (ans : Answers) : Except Errno Unit :=
  if ans.prepared then .ok () else .error .ENOMEM

/-- The end of a call for groups. -/
def commitGids (t : Task υ γ) : Except Errno (Ids γ) → Except Errno (BitVec 32) × Task υ γ
  | .error e => (.error e, t)
  | .ok new => (.ok 0, { t with cred.gids := new })

/-- The end of a call for users: `set_user` when the real uid changes, and the security
module. The flag keeps what `set_user` makes of it even if the call fails. -/
def commitUids (ans : Answers) (t : Task υ γ) :
    Except Errno (Ids υ) → Except Errno (BitVec 32) × Task υ γ
  | .error e => (.error e, t)
  | .ok new =>
    if new.id ≠ t.cred.uids.id then
      if ans.allocated then
        let t := { t with nprocExceeded := ans.nprocFull }
        match ans.fixSetuid with
        | some e => (.error e, t)
        | none => (.ok 0, { t with cred.uids := new, cred.user := new.id })
      else (.error .EAGAIN, t)
    else
      match ans.fixSetuid with
      | some e => (.error e, t)
      | none => (.ok 0, { t with cred.uids := new })

variable (U : Namespace υ) (G : Namespace γ) (ans : Answers) (t : Task υ γ)

def setregid (rgid egid : BitVec 32) : Except Errno (BitVec 32) × Task υ γ :=
  commitGids t do
    let krgid ← given G rgid
    let kegid ← given G egid
    prepareCreds ans
    setre ans.capSetgid t.cred.gids krgid kegid

/-- An id that a call cannot do without. -/
def needed {κ : Type*} (ns : Namespace κ) (x : BitVec 32) : Except Errno κ :=
  match ns.make x with
  | some k => .ok k
  | none => .error .EINVAL

def setgid (gid : BitVec 32) : Except Errno (BitVec 32) × Task υ γ :=
  commitGids t do
    let kgid ← needed G gid
    prepareCreds ans
    setid ans.capSetgid t.cred.gids kgid

def setreuid (ruid euid : BitVec 32) : Except Errno (BitVec 32) × Task υ γ :=
  commitUids ans t do
    let kruid ← given U ruid
    let keuid ← given U euid
    prepareCreds ans
    setre ans.capSetuid t.cred.uids kruid keuid

def setuid (uid : BitVec 32) : Except Errno (BitVec 32) × Task υ γ :=
  commitUids ans t do
    let kuid ← needed U uid
    prepareCreds ans
    setid ans.capSetuid t.cred.uids kuid

def setresuid (ruid euid suid : BitVec 32) : Except Errno (BitVec 32) × Task υ γ :=
  commitUids ans t do
    let kruid ← given U ruid
    let keuid ← given U euid
    let ksuid ← given U suid
    prepareCreds ans
    setres ans.capSetuid t.cred.uids kruid keuid ksuid

def setresgid (rgid egid sgid : BitVec 32) : Except Errno (BitVec 32) × Task υ γ :=
  commitGids t do
    let krgid ← given G rgid
    let kegid ← given G egid
    let ksgid ← given G sgid
    prepareCreds ans
    setres ans.capSetgid t.cred.gids krgid kegid ksgid

/-- Whether `setfsuid` and `setfsgid` change the id. -/
def setsFs {κ : Type*} [DecidableEq κ] (capable : Bool) (old : Ids κ) (k : κ) : Bool :=
  permitted capable [old.id, old.eid, old.sid, old.fsid] (some k) && k ≠ old.fsid

/-- It returns the old id, whether it has changed it or not. -/
def setfsuid (uid : BitVec 32) : Except Errno (BitVec 32) × Task υ γ :=
  (.ok (U.fromMunged t.cred.uids.fsid),
    match U.make uid with
    | none => t
    | some kuid =>
      if ans.prepared && setsFs ans.capSetuid t.cred.uids kuid && ans.fixSetuid = none then
        { t with cred.uids.fsid := kuid }
      else t)

def setfsgid (gid : BitVec 32) : Except Errno (BitVec 32) × Task υ γ :=
  (.ok (G.fromMunged t.cred.gids.fsid),
    match G.make gid with
    | none => t
    | some kgid =>
      if ans.prepared && setsFs ans.capSetgid t.cred.gids kgid then
        { t with cred.gids.fsid := kgid }
      else t)

end Calls

/-- The calls that change credentials. -/
inductive Call
  | setregid (rgid egid : BitVec 32)
  | setgid (gid : BitVec 32)
  | setreuid (ruid euid : BitVec 32)
  | setuid (uid : BitVec 32)
  | setresuid (ruid euid suid : BitVec 32)
  | setresgid (rgid egid sgid : BitVec 32)
  | setfsuid (uid : BitVec 32)
  | setfsgid (gid : BitVec 32)
deriving DecidableEq

section Steps

variable {υ γ : Type} [DecidableEq υ] [DecidableEq γ] (U : Namespace υ) (G : Namespace γ)

def syscall (ans : Answers) (t : Task υ γ) : Call → Except Errno (BitVec 32) × Task υ γ
  | .setregid rgid egid => setregid G ans t rgid egid
  | .setgid gid => setgid G ans t gid
  | .setreuid ruid euid => setreuid U ans t ruid euid
  | .setuid uid => setuid U ans t uid
  | .setresuid ruid euid suid => setresuid U ans t ruid euid suid
  | .setresgid rgid egid sgid => setresgid G ans t rgid egid sgid
  | .setfsuid uid => setfsuid U ans t uid
  | .setfsgid gid => setfsgid G ans t gid

/-- A call, with the kernel's answers in it. -/
def step (t : Task υ γ) (a : Answers × Call) : Option (Task υ γ) :=
  some (syscall U G a.1 t a.2).2

/-- A call without `CAP_SETUID` and `CAP_SETGID`. -/
def Unprivileged (_ : Task υ γ) (a : Answers × Call) : Prop :=
  a.1.capSetuid = false ∧ a.1.capSetgid = false

end Steps

/-! ### The ids that are chosen -/

section Chosen

variable {κ : Type*} [DecidableEq κ] {old new : Ids κ}

theorem holds_of_permitted {r : Option κ} {d : κ} (hd : old.Holds d)
    (h : permitted false [old.id, old.eid, old.sid] r = true) : old.Holds (r.getD d) := by
  cases r with
  | none => exact hd
  | some k =>
    simp only [permitted, List.contains_iff_mem, Bool.or_false, List.mem_cons, List.not_mem_nil,
      or_false] at h
    exact h

/-- The real id that `setreuid` may take is one that `setresuid` may take. -/
theorem permitted_mono {r : Option κ} (h : permitted false [old.id, old.eid] r = true) :
    permitted false [old.id, old.eid, old.sid] r = true := by
  cases r with
  | none => rfl
  | some k =>
    simp only [permitted, List.contains_iff_mem, Bool.or_false, List.mem_cons, List.not_mem_nil,
      or_false] at h ⊢
    tauto

/-- What `setre` chooses when it permits it. -/
theorem setre_ok {capable : Bool} {rid eid : Option κ} (h : setre capable old rid eid = .ok new) :
    permitted capable [old.id, old.eid] rid = true ∧
      permitted capable [old.id, old.eid, old.sid] eid = true ∧
      new.id = rid.getD old.id ∧ new.eid = eid.getD old.eid ∧ new.fsid = new.eid ∧
      new.sid = if rid ≠ none ∨ (eid ≠ none ∧ eid ≠ some old.id) then new.eid else old.sid := by
  unfold setre at h
  by_cases hr : permitted capable [old.id, old.eid] rid = false
  · rw [if_pos hr] at h
    cases h
  · rw [if_neg hr] at h
    by_cases he : permitted capable [old.id, old.eid, old.sid] eid = false
    · rw [if_pos he] at h
      cases h
    · rw [if_neg he] at h
      obtain rfl := Except.ok.inj h
      exact ⟨by simpa using hr, by simpa using he, rfl, rfl, rfl, rfl⟩

theorem setre_reach {rid eid : Option κ} (h : setre false old rid eid = .ok new) :
    Reach old new := by
  obtain ⟨hr, he, hid, heid, hfsid, hsid⟩ := setre_ok h
  have hid' : old.Holds new.id := hid ▸ holds_of_permitted old.holds_id (permitted_mono hr)
  have heid' : old.Holds new.eid := heid ▸ holds_of_permitted old.holds_eid he
  refine .of_ids hid' heid' ?_ (.inr (.inl hfsid))
  rw [hsid]
  split_ifs
  · exact heid'
  · exact old.holds_sid

theorem setid_reach {k : κ} (h : setid false old k = .ok new) : Reach old new := by
  unfold setid at h
  rw [if_neg (by decide)] at h
  split_ifs at h with hk
  · obtain rfl := Except.ok.inj h
    refine .of_ids old.holds_id ?_ old.holds_sid (.inr (.inl rfl))
    exact hk.imp_right .inr

theorem setres_reach {rid eid sid : Option κ} (h : setres false old rid eid sid = .ok new) :
    Reach old new := by
  unfold setres at h
  dsimp only at h
  split_ifs at h with hp
  · obtain rfl := Except.ok.inj h
    simp only [Bool.and_eq_true] at hp
    obtain ⟨⟨hr, he⟩, hs⟩ := hp
    exact .of_ids (holds_of_permitted old.holds_id hr) (holds_of_permitted old.holds_eid he)
      (holds_of_permitted old.holds_sid hs) (.inr (.inl rfl))

theorem setsFs_reach {k : κ} (h : setsFs false old k = true) :
    Reach old { old with fsid := k } := by
  simp only [setsFs, permitted, List.contains_iff_mem, Bool.or_false, List.mem_cons,
    List.not_mem_nil, or_false, Bool.and_eq_true, decide_eq_true_eq] at h
  obtain ⟨hk, hne⟩ := h
  have hheld : old.Holds k := by
    rcases hk with h1 | h2 | h3 | h4
    · exact .inl h1
    · exact .inr (.inl h2)
    · exact .inr (.inr h3)
    · exact absurd h4 hne
  exact .of_ids old.holds_id old.holds_eid old.holds_sid hheld

end Chosen

/-! ### What a call does -/

section Effects

variable {υ γ : Type} [DecidableEq υ] [DecidableEq γ] {U : Namespace υ} {G : Namespace γ}
  {ans : Answers} {t t' : Task υ γ}

/-- The result of a call: it fails, or new ids are committed; without the capability they
come from the old ones. -/
inductive Effect (ans : Answers) (t : Task υ γ) : Except Errno (BitVec 32) × Task υ γ → Prop
  | failed (e : Errno) (t' : Task υ γ) (hcred : t'.cred = t.cred) : Effect ans t (.error e, t')
  | users (new : Ids υ) (r : BitVec 32) (t' : Task υ γ)
      (hcred : t'.cred = ⟨new, t.cred.gids, if new.id ≠ t.cred.uids.id then new.id else t.cred.user⟩)
      (hreach : ans.capSetuid = false → Reach t.cred.uids new) : Effect ans t (.ok r, t')
  | groups (new : Ids γ) (r : BitVec 32) (t' : Task υ γ)
      (hcred : t'.cred = ⟨t.cred.uids, new, t.cred.user⟩)
      (hreach : ans.capSetgid = false → Reach t.cred.gids new) : Effect ans t (.ok r, t')

omit [DecidableEq γ] in
theorem commitGids_effect {chosen : Except Errno (Ids γ)}
    (h : ∀ new, chosen = .ok new → ans.capSetgid = false → Reach t.cred.gids new) :
    Effect ans t (commitGids t chosen) := by
  cases chosen with
  | error e => exact .failed e t rfl
  | ok new => exact .groups new 0 _ rfl (h new rfl)

omit [DecidableEq γ] in
theorem commitUids_effect {chosen : Except Errno (Ids υ)}
    (h : ∀ new, chosen = .ok new → ans.capSetuid = false → Reach t.cred.uids new) :
    Effect ans t (commitUids ans t chosen) := by
  cases chosen with
  | error e => exact .failed e t rfl
  | ok new =>
    unfold commitUids
    dsimp only
    by_cases hid : new.id ≠ t.cred.uids.id
    · rw [if_pos hid]
      split_ifs with halloc
      · cases hfix : ans.fixSetuid with
        | some e => exact .failed e _ rfl
        | none => exact .users new 0 _ (by rw [if_pos hid]) (h new rfl)
      · exact .failed .EAGAIN t rfl
    · rw [if_neg hid]
      cases hfix : ans.fixSetuid with
      | some e => exact .failed e t rfl
      | none => exact .users new 0 _ (by rw [if_neg hid]) (h new rfl)

/-- A call that gets as far as its ids is granted a copy of the credentials. -/
theorem prepared_then {κ : Type} {x : Except Errno κ} {new : κ}
    (h : (do prepareCreds ans; x) = .ok new) : x = .ok new :=
  (bind_eq_ok h).choose_spec.2

omit [DecidableEq γ] in
theorem setfsuid_effect (uid : BitVec 32) : Effect ans t (setfsuid U ans t uid) := by
  have hsame : Effect ans t (.ok (U.fromMunged t.cred.uids.fsid), t) :=
    .users t.cred.uids _ t (by simp) fun _ => .refl _
  unfold setfsuid
  cases hk : U.make uid with
  | none => exact hsame
  | some k =>
    dsimp only
    split_ifs with h
    · refine .users { t.cred.uids with fsid := k } _ _ (by simp) ?_
      intro hcap
      simp only [hcap, Bool.and_eq_true] at h
      exact setsFs_reach h.1.2
    · exact hsame

theorem setfsgid_effect (gid : BitVec 32) : Effect ans t (setfsgid G ans t gid) := by
  have hsame : Effect ans t (.ok (G.fromMunged t.cred.gids.fsid), t) :=
    .groups t.cred.gids _ t rfl fun _ => .refl _
  unfold setfsgid
  cases hk : G.make gid with
  | none => exact hsame
  | some k =>
    dsimp only
    split_ifs with h
    · refine .groups { t.cred.gids with fsid := k } _ _ rfl ?_
      intro hcap
      simp only [hcap, Bool.and_eq_true] at h
      exact setsFs_reach h.2
    · exact hsame

/-- **What a call does.** -/
theorem effect (c : Call) : Effect ans t (syscall U G ans t c) := by
  cases c with
  | setregid rgid egid =>
    refine commitGids_effect ?_
    intro new h hcap
    obtain ⟨r, -, h⟩ := bind_eq_ok h
    obtain ⟨e, -, h⟩ := bind_eq_ok h
    rw [hcap] at h
    exact setre_reach (prepared_then h)
  | setgid gid =>
    refine commitGids_effect ?_
    intro new h hcap
    obtain ⟨k, -, h⟩ := bind_eq_ok h
    rw [hcap] at h
    exact setid_reach (prepared_then h)
  | setreuid ruid euid =>
    refine commitUids_effect ?_
    intro new h hcap
    obtain ⟨r, -, h⟩ := bind_eq_ok h
    obtain ⟨e, -, h⟩ := bind_eq_ok h
    rw [hcap] at h
    exact setre_reach (prepared_then h)
  | setuid uid =>
    refine commitUids_effect ?_
    intro new h hcap
    obtain ⟨k, -, h⟩ := bind_eq_ok h
    rw [hcap] at h
    exact setid_reach (prepared_then h)
  | setresuid ruid euid suid =>
    refine commitUids_effect ?_
    intro new h hcap
    obtain ⟨r, -, h⟩ := bind_eq_ok h
    obtain ⟨e, -, h⟩ := bind_eq_ok h
    obtain ⟨s, -, h⟩ := bind_eq_ok h
    rw [hcap] at h
    exact setres_reach (prepared_then h)
  | setresgid rgid egid sgid =>
    refine commitGids_effect ?_
    intro new h hcap
    obtain ⟨r, -, h⟩ := bind_eq_ok h
    obtain ⟨e, -, h⟩ := bind_eq_ok h
    obtain ⟨s, -, h⟩ := bind_eq_ok h
    rw [hcap] at h
    exact setres_reach (prepared_then h)
  | setfsuid uid => exact setfsuid_effect uid
  | setfsgid gid => exact setfsgid_effect gid

/-! The flag has no say in a call. -/

omit [DecidableEq γ] in
theorem commitUids_flag (cred : Cred υ γ) (f f' : Bool) (chosen : Except Errno (Ids υ)) :
    (commitUids ans ⟨cred, f⟩ chosen).1 = (commitUids ans ⟨cred, f'⟩ chosen).1 ∧
      (commitUids ans ⟨cred, f⟩ chosen).2.cred = (commitUids ans ⟨cred, f'⟩ chosen).2.cred := by
  cases chosen with
  | error e => exact ⟨rfl, rfl⟩
  | ok new =>
    unfold commitUids
    dsimp only
    split_ifs
    · cases ans.fixSetuid <;> exact ⟨rfl, rfl⟩
    · exact ⟨rfl, rfl⟩
    · cases ans.fixSetuid <;> exact ⟨rfl, rfl⟩

omit [DecidableEq υ] [DecidableEq γ] in
theorem commitGids_flag (cred : Cred υ γ) (f f' : Bool) (chosen : Except Errno (Ids γ)) :
    (commitGids ⟨cred, f⟩ chosen).1 = (commitGids ⟨cred, f'⟩ chosen).1 ∧
      (commitGids ⟨cred, f⟩ chosen).2.cred = (commitGids ⟨cred, f'⟩ chosen).2.cred := by
  cases chosen <;> exact ⟨rfl, rfl⟩

theorem setfs_flag (cred : Cred υ γ) (f f' : Bool) (id : BitVec 32) :
    (setfsuid U ans ⟨cred, f⟩ id).2.cred = (setfsuid U ans ⟨cred, f'⟩ id).2.cred ∧
      (setfsgid G ans ⟨cred, f⟩ id).2.cred = (setfsgid G ans ⟨cred, f'⟩ id).2.cred := by
  unfold setfsuid setfsgid
  refine ⟨?_, ?_⟩
  · cases U.make id with
    | none => rfl
    | some k =>
      dsimp only
      split_ifs <;> rfl
  · cases G.make id with
    | none => rfl
    | some k =>
      dsimp only
      split_ifs <;> rfl

theorem syscall_flag (cred : Cred υ γ) (f f' : Bool) (c : Call) :
    (syscall U G ans ⟨cred, f⟩ c).1 = (syscall U G ans ⟨cred, f'⟩ c).1 ∧
      (syscall U G ans ⟨cred, f⟩ c).2.cred = (syscall U G ans ⟨cred, f'⟩ c).2.cred := by
  cases c with
  | setregid | setgid | setresgid => exact commitGids_flag cred f f' _
  | setreuid | setuid | setresuid => exact commitUids_flag cred f f' _
  | setfsuid uid => exact ⟨rfl, (setfs_flag (G := G) cred f f' uid).1⟩
  | setfsgid gid => exact ⟨rfl, (setfs_flag (U := U) cred f f' gid).2⟩

end Effects

/-! ### Calls that fail -/

section Failing

variable {υ γ : Type} [DecidableEq υ] [DecidableEq γ] (U : Namespace υ) (G : Namespace γ)

/-- The calls of a run that do not fail. -/
def successful (t : Task υ γ) : List (Answers × Call) → List (Answers × Call)
  | [] => []
  | a :: as =>
    match syscall U G a.1 t a.2 with
    | (.ok _, t') => a :: successful t' as
    | (.error _, t') => successful t' as

variable {U G} {t t' : Task υ γ} {as : List (Answers × Call)}

/-- Run the successful calls only, from a task with the same credentials. -/
theorem run_successful {s : Task υ γ} (hs : s.cred = t.cred)
    (hr : Lts.Run (Lts.Steps (step U G)) t as t') :
    ∃ s', Lts.Run (Lts.Steps (step U G)) s (successful U G t as) s' ∧ s'.cred = t'.cred := by
  induction as generalizing t s with
  | nil =>
    rw [hr.nil_inv]
    exact ⟨s, .nil, hs⟩
  | cons a as ih =>
    obtain ⟨t₁, hstep, hr₁⟩ := hr.cons_inv
    obtain rfl := Option.some.inj hstep
    have heffect : Effect a.1 t (syscall U G a.1 t a.2) := effect a.2
    have hflag : (syscall U G a.1 ⟨t.cred, s.nprocExceeded⟩ a.2).1 = (syscall U G a.1 t a.2).1 ∧
        (syscall U G a.1 ⟨t.cred, s.nprocExceeded⟩ a.2).2.cred = (syscall U G a.1 t a.2).2.cred :=
      syscall_flag t.cred s.nprocExceeded t.nprocExceeded a.2
    have hs' : (⟨t.cred, s.nprocExceeded⟩ : Task υ γ) = s := by
      rw [← hs]
    rw [hs'] at hflag
    rw [successful]
    generalize hcall : syscall U G a.1 t a.2 = result at heffect hflag hr₁ ⊢
    cases heffect with
    | failed e t₁ hcred => exact ih (hs.trans hcred.symm) hr₁
    | users new r t₁ hcred hreach =>
      obtain ⟨s', hrs, hcred'⟩ := ih hflag.2 hr₁
      exact ⟨s', (Lts.Run.nil.snoc (a := a) rfl).append hrs, hcred'⟩
    | groups new r t₁ hcred hreach =>
      obtain ⟨s', hrs, hcred'⟩ := ih hflag.2 hr₁
      exact ⟨s', (Lts.Run.nil.snoc (a := a) rfl).append hrs, hcred'⟩

/-- The process is counted to the user of its real uid. -/
theorem user_step {a : Answers × Call} (h : t.cred.user = t.cred.uids.id)
    (hstep : step U G t a = some t') : t'.cred.user = t'.cred.uids.id := by
  obtain rfl := Option.some.inj hstep
  have heffect : Effect a.1 t (syscall U G a.1 t a.2) := effect a.2
  generalize syscall U G a.1 t a.2 = result at heffect ⊢
  cases heffect with
  | failed e t' hcred =>
    rw [hcred]
    exact h
  | users new r t' hcred hreach =>
    rw [hcred]
    dsimp only
    split_ifs with hid
    · rfl
    · exact h.trans (not_not.1 hid).symm
  | groups new r t' hcred hreach =>
    rw [hcred]
    exact h

/-- **Failed calls leave nothing behind.** The credentials after a run are those its successful
calls alone give, and `cred->user` is the user of the real uid all along. -/
theorem failed_calls_invisible (hr : Lts.Run (Lts.Steps (step U G)) t as t') :
    (∃ t'', Lts.Run (Lts.Steps (step U G)) t (successful U G t as) t'' ∧ t''.cred = t'.cred) ∧
      (t.cred.user = t.cred.uids.id → t'.cred.user = t'.cred.uids.id) := by
  refine ⟨run_successful rfl hr, ?_⟩
  intro h
  exact hr.invariant (I := fun s => s.cred.user = s.cred.uids.id) h fun h hs => user_step h hs

/-- A kernel that has what it needs, and a process without capabilities. -/
def willing : Answers := ⟨false, false, true, true, false, none⟩

/-- The namespace in which every number but `-1` names an id. -/
def initial : Namespace (BitVec 32) := ⟨fun n => if n = -1 then none else some n, id⟩

/-- `setuid(0)` fails, `setuid(1000)` after it does not. -/
theorem failed_calls_invisible_setuid :
    ∃ t', Lts.exec (step initial initial) ⟨⟨.all 1000, .all 1000, 1000⟩, false⟩
        [(willing, .setuid 0), (willing, .setuid 1000)] = some t' ∧
      t'.cred.user = t'.cred.uids.id := by
  obtain ⟨t', hexec⟩ : ∃ t', Lts.exec (step initial initial)
      (⟨⟨.all 1000, .all 1000, 1000⟩, false⟩ : Task (BitVec 32) (BitVec 32))
      [(willing, .setuid 0), (willing, .setuid 1000)] = some t' := ⟨_, rfl⟩
  exact ⟨t', hexec, (failed_calls_invisible (Lts.exec_run _ _ hexec)).2 rfl⟩

end Failing

end Aesd.Credentials
