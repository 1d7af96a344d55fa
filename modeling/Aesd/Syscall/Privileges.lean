import Aesd.Syscall.Credentials

/-!
# What a process can make of its ids

The run of a process without `CAP_SETUID` and `CAP_SETGID`, over the credential calls.

* `unprivileged_reach`: the ids it can get to, exactly.
* `dropped_iff`: which calls leave no way back, as the comments at `setreuid` and `setuid` say.
-/

namespace Aesd.Credentials

open SavedIds

/-! ### Without capabilities -/

/-- Every id that is held has a name in the namespace. -/
def Named {κ : Type} (ns : Namespace κ) (x : Ids κ) : Prop :=
  ∀ k, x.Holds k → ∃ n, n ≠ -1 ∧ ns.make n = some k

section Reaching

variable {υ γ : Type} [DecidableEq υ] [DecidableEq γ] {U : Namespace υ} {G : Namespace γ}
  {t t' : Task υ γ} {as : List (Answers × Call)}

/-- A call without capabilities, in terms of ids. -/
theorem reach_step {ans : Answers} (c : Call) (hsetuid : ans.capSetuid = false)
    (hsetgid : ans.capSetgid = false) :
    Reach t.cred.uids (syscall U G ans t c).2.cred.uids ∧
      Reach t.cred.gids (syscall U G ans t c).2.cred.gids := by
  have heffect : Effect ans t (syscall U G ans t c) := effect c
  generalize syscall U G ans t c = result at heffect ⊢
  cases heffect with
  | failed e t' hcred =>
    rw [hcred]
    exact ⟨.refl _, .refl _⟩
  | users new r t' hcred hreach =>
    rw [hcred]
    exact ⟨hreach hsetuid, .refl _⟩
  | groups new r t' hcred hreach =>
    rw [hcred]
    exact ⟨.refl _, hreach hsetgid⟩

theorem reach_run (hr : Lts.Run (Lts.When Unprivileged (Lts.Steps (step U G))) t as t') :
    Reach t.cred.uids t'.cred.uids ∧ Reach t.cred.gids t'.cred.gids := by
  refine hr.invariant (I := fun s => Reach t.cred.uids s.cred.uids ∧ Reach t.cred.gids s.cred.gids)
    ⟨.refl _, .refl _⟩ ?_
  rintro s ⟨ans, c⟩ s' ⟨hu, hg⟩ ⟨hstep, hsetuid, hsetgid⟩
  obtain rfl := Option.some.inj hstep
  obtain ⟨hu', hg'⟩ := reach_step (U := U) (G := G) (t := s) c hsetuid hsetgid
  exact ⟨hu.trans hu', hg.trans hg'⟩

theorem given_name {κ : Type} {ns : Namespace κ} {n : BitVec 32} {k : κ} (hn : n ≠ -1)
    (hk : ns.make n = some k) : given ns n = .ok (some k) := by
  unfold given
  rw [if_neg hn, hk]

theorem permitted_held {κ : Type} [DecidableEq κ] {old : Ids κ} {k : κ} (h : old.Holds k) :
    permitted false [old.id, old.eid, old.sid] (some k) = true := by
  simp only [permitted, List.contains_iff_mem, Bool.or_false, List.mem_cons, List.not_mem_nil,
    or_false]
  exact h

/-- Any ids that are held, in any order. -/
theorem setres_held {κ : Type} [DecidableEq κ] {old : Ids κ} {k₁ k₂ k₃ : κ} (h1 : old.Holds k₁)
    (h2 : old.Holds k₂) (h3 : old.Holds k₃) :
    setres false old (some k₁) (some k₂) (some k₃) = .ok ⟨k₁, k₂, k₃, k₂⟩ := by
  unfold setres
  dsimp only
  rw [permitted_held h1, permitted_held h2, permitted_held h3]
  rfl

theorem setsFs_held {κ : Type} [DecidableEq κ] {old : Ids κ} {k : κ} (h : old.Holds k) :
    setsFs false old k = decide (k ≠ old.fsid) := by
  have hmem : k ∈ [old.id, old.eid, old.sid, old.fsid] := by
    simp only [List.mem_cons, List.not_mem_nil, or_false]
    rcases h with h | h | h <;> tauto
  unfold setsFs permitted
  simp [hmem]

/-- The names of some ids that are held, for `setresuid` and `setresgid`. -/
theorem setres_named {κ : Type} [DecidableEq κ] {ns : Namespace κ} {old new : Ids κ}
    (hnames : Named ns old) (hheld : ∀ k, new.Holds k → old.Holds k) :
    ∃ r e s, (do
        let r ← given ns r
        let e ← given ns e
        let s ← given ns s
        prepareCreds willing
        setres false old r e s) = .ok { new with fsid := new.eid } := by
  have hid := hheld _ new.holds_id
  have heid := hheld _ new.holds_eid
  have hsid := hheld _ new.holds_sid
  obtain ⟨r, hr, hr'⟩ := hnames _ hid
  obtain ⟨e, he, he'⟩ := hnames _ heid
  obtain ⟨s, hs, hs'⟩ := hnames _ hsid
  refine ⟨r, e, s, ?_⟩
  rw [given_name hr hr', given_name he he', given_name hs hs']
  exact setres_held hid heid hsid

/-- Two calls make of the uids whatever can be made of them. -/
theorem users_reachable (hnames : Named U t.cred.uids) {u : Ids υ} (h : Reach t.cred.uids u) :
    ∃ as t', Lts.Run (Lts.When Unprivileged (Lts.Steps (step U G))) t as t' ∧
      t'.cred.uids = u ∧ t'.cred.gids = t.cred.gids := by
  rcases h with rfl | ⟨hheld, hfs⟩
  · exact ⟨[], t, .nil, rfl, rfl⟩
  obtain ⟨r, e, s, hchosen⟩ := setres_named hnames hheld
  obtain ⟨f, -, hf⟩ := hnames _ (hheld _ hfs)
  -- the three ids first, then the one for files
  obtain ⟨t₁, hstep₁, huids₁, hgids₁⟩ : ∃ t₁, step U G t (willing, .setresuid r e s) = some t₁ ∧
      t₁.cred.uids = { u with fsid := u.eid } ∧ t₁.cred.gids = t.cred.gids := by
    refine ⟨(setresuid U willing t r e s).2, rfl, ?_⟩
    have hcall : setresuid U willing t r e s = commitUids willing t (.ok { u with fsid := u.eid }) :=
      congrArg (commitUids willing t) hchosen
    rw [hcall]
    unfold commitUids
    dsimp only
    by_cases hid : u.id ≠ t.cred.uids.id
    · rw [if_pos hid]
      exact ⟨rfl, rfl⟩
    · rw [if_neg hid]
      exact ⟨rfl, rfl⟩
  have hheld₁ : t₁.cred.uids.Holds u.fsid := by
    rw [huids₁]
    exact hfs
  obtain ⟨t₂, hstep₂, huids₂, hgids₂⟩ : ∃ t₂, step U G t₁ (willing, .setfsuid f) = some t₂ ∧
      t₂.cred.uids = { t₁.cred.uids with fsid := u.fsid } ∧ t₂.cred.gids = t₁.cred.gids := by
    refine ⟨(setfsuid U willing t₁ f).2, rfl, ?_⟩
    unfold setfsuid
    simp only [hf, setsFs_held hheld₁, willing]
    by_cases hsame : u.fsid = t₁.cred.uids.fsid
    · simp [hsame]
    · simp [hsame]
  refine ⟨[(willing, .setresuid r e s), (willing, .setfsuid f)], t₂, ?_, ?_, hgids₂.trans hgids₁⟩
  · exact (Lts.Run.nil.snoc (a := (willing, Call.setresuid r e s)) ⟨hstep₁, rfl, rfl⟩).snoc
      ⟨hstep₂, rfl, rfl⟩
  · rw [huids₂, huids₁]

/-- The same of the gids. -/
theorem groups_reachable (hnames : Named G t.cred.gids) {g : Ids γ} (h : Reach t.cred.gids g) :
    ∃ as t', Lts.Run (Lts.When Unprivileged (Lts.Steps (step U G))) t as t' ∧
      t'.cred.uids = t.cred.uids ∧ t'.cred.gids = g := by
  rcases h with rfl | ⟨hheld, hfs⟩
  · exact ⟨[], t, .nil, rfl, rfl⟩
  obtain ⟨r, e, s, hchosen⟩ := setres_named hnames hheld
  obtain ⟨f, -, hf⟩ := hnames _ (hheld _ hfs)
  obtain ⟨t₁, hstep₁, huids₁, hgids₁⟩ : ∃ t₁, step U G t (willing, .setresgid r e s) = some t₁ ∧
      t₁.cred.uids = t.cred.uids ∧ t₁.cred.gids = { g with fsid := g.eid } := by
    refine ⟨(setresgid G willing t r e s).2, rfl, ?_⟩
    have hcall : setresgid G willing t r e s = commitGids t (.ok { g with fsid := g.eid }) :=
      congrArg (commitGids t) hchosen
    rw [hcall]
    exact ⟨rfl, rfl⟩
  have hheld₁ : t₁.cred.gids.Holds g.fsid := by
    rw [hgids₁]
    exact hfs
  obtain ⟨t₂, hstep₂, huids₂, hgids₂⟩ : ∃ t₂, step U G t₁ (willing, .setfsgid f) = some t₂ ∧
      t₂.cred.uids = t₁.cred.uids ∧ t₂.cred.gids = { t₁.cred.gids with fsid := g.fsid } := by
    refine ⟨(setfsgid G willing t₁ f).2, rfl, ?_⟩
    unfold setfsgid
    simp only [hf, setsFs_held hheld₁, willing]
    by_cases hsame : g.fsid = t₁.cred.gids.fsid
    · simp [hsame]
    · simp [hsame]
  refine ⟨[(willing, .setresgid r e s), (willing, .setfsgid f)], t₂, ?_, huids₂.trans huids₁, ?_⟩
  · exact (Lts.Run.nil.snoc (a := (willing, Call.setresgid r e s)) ⟨hstep₁, rfl, rfl⟩).snoc
      ⟨hstep₂, rfl, rfl⟩
  · rw [hgids₂, hgids₁]

/-- **What a process without capabilities can make of its ids**: whatever comes from the ids it
holds, and nothing else. Uids and gids do not get in each other's way. -/
theorem unprivileged_reach (t : Task υ γ) (hU : Named U t.cred.uids) (hG : Named G t.cred.gids)
    (u : Ids υ) (g : Ids γ) :
    (∃ as t', Lts.Run (Lts.When Unprivileged (Lts.Steps (step U G))) t as t' ∧
        t'.cred.uids = u ∧ t'.cred.gids = g) ↔
      Reach t.cred.uids u ∧ Reach t.cred.gids g := by
  refine ⟨?_, ?_⟩
  · rintro ⟨as, t', hr, rfl, rfl⟩
    exact reach_run hr
  · rintro ⟨hu, hg⟩
    obtain ⟨as, t₁, hr₁, huids₁, hgids₁⟩ := users_reachable (G := G) hU hu
    rw [← hgids₁] at hG hg
    obtain ⟨bs, t₂, hr₂, huids₂, hgids₂⟩ := groups_reachable (U := U) hG hg
    exact ⟨as ++ bs, t₂, hr₁.append hr₂, huids₂.trans huids₁, hgids₂⟩

theorem named_initial {x : Ids (BitVec 32)} (h : ∀ k, x.Holds k → k ≠ -1) : Named initial x :=
  fun k hk => ⟨k, h k hk, if_neg (h k hk)⟩

/-- The ids of a set-user-ID program of root, run by user 1000. -/
theorem named_setuidProgram :
    Named initial ⟨1000, 0, 0, 0⟩ ∧ Named initial (Ids.all (1000 : BitVec 32)) := by
  refine ⟨named_initial ?_, named_initial ?_⟩
  · rintro k (rfl | rfl | rfl) <;> decide
  · rintro k (rfl | rfl | rfl) <;> decide

/-- It can become that user for good. -/
theorem unprivileged_reach_setuidProgram :
    ∃ as t', Lts.Run (Lts.When Unprivileged (Lts.Steps (step initial initial)))
        ⟨⟨⟨1000, 0, 0, 0⟩, .all 1000, 1000⟩, false⟩ as t' ∧
      t'.cred.uids = .all 1000 ∧ t'.cred.gids = .all 1000 :=
  (unprivileged_reach ⟨⟨⟨1000, 0, 0, 0⟩, .all 1000, 1000⟩, false⟩ named_setuidProgram.1
    named_setuidProgram.2 _ _).2
    ⟨.of_ids (.inl rfl) (.inl rfl) (.inl rfl) (.inl rfl), .refl _⟩

end Reaching

/-! ### Privileges that are dropped -/

section Dropping

variable {υ γ : Type} [DecidableEq υ] [DecidableEq γ] (U : Namespace υ) (G : Namespace γ)

/-- The process acts as user `u`, whatever it calls without capabilities. -/
def UserStays (t : Task υ γ) (u : υ) : Prop :=
  ∀ as t', Lts.Run (Lts.When Unprivileged (Lts.Steps (step U G))) t as t' →
    t'.cred.uids.eid = u ∧ t'.cred.uids.fsid = u

def GroupStays (t : Task υ γ) (g : γ) : Prop :=
  ∀ as t', Lts.Run (Lts.When Unprivileged (Lts.Steps (step U G))) t as t' →
    t'.cred.gids.eid = g ∧ t'.cred.gids.fsid = g

variable {U G} {ans : Answers} {t : Task υ γ} {u : υ} {g : γ}

theorem userStays_all (h : t.cred.uids = .all u) : UserStays U G t u := by
  intro as t' hr
  have hreach := (reach_run hr).1
  rw [h] at hreach
  rw [settled_iff.1 (Ids.settled_all u) _ hreach]
  exact ⟨rfl, rfl⟩

theorem groupStays_all (h : t.cred.gids = .all g) : GroupStays U G t g := by
  intro as t' hr
  have hreach := (reach_run hr).2
  rw [h] at hreach
  rw [settled_iff.1 (Ids.settled_all g) _ hreach]
  exact ⟨rfl, rfl⟩

/-- An id that is held besides `u` is a way back. -/
theorem userStays_iff (hU : Named U t.cred.uids) :
    UserStays U G t u ↔ t.cred.uids = .all u := by
  refine ⟨?_, userStays_all⟩
  intro h
  have hheld : ∀ k, t.cred.uids.Holds k → k = u := by
    intro k hk
    obtain ⟨as, t', hr, huids, -⟩ := users_reachable (G := G) hU (.of_ids (y := .all k) hk hk hk (.inl rfl))
    have hstays := (h as t' hr).1
    rw [huids] at hstays
    exact hstays
  have hfs := (h [] t .nil).2
  have hsettled : t.cred.uids.Settled := fun k hk => (hheld k hk).trans hfs.symm
  rw [hsettled.eq_all, hfs]

theorem groupStays_iff (hG : Named G t.cred.gids) :
    GroupStays U G t g ↔ t.cred.gids = .all g := by
  refine ⟨?_, groupStays_all⟩
  intro h
  have hheld : ∀ k, t.cred.gids.Holds k → k = g := by
    intro k hk
    obtain ⟨as, t', hr, -, hgids⟩ := groups_reachable (U := U) hG (.of_ids (y := .all k) hk hk hk (.inl rfl))
    have hstays := (h as t' hr).1
    rw [hgids] at hstays
    exact hstays
  have hfs := (h [] t .nil).2
  have hsettled : t.cred.gids.Settled := fun k hk => (hheld k hk).trans hfs.symm
  rw [hsettled.eq_all, hfs]

omit [DecidableEq γ] in
/-- The uids after a call that has not failed. -/
theorem commitUids_ok {chosen : Except Errno (Ids υ)} {r : BitVec 32}
    (h : (commitUids ans t chosen).1 = .ok r) :
    chosen = .ok (commitUids ans t chosen).2.cred.uids := by
  cases chosen with
  | error e => cases h
  | ok new =>
    unfold commitUids at h ⊢
    dsimp only at h ⊢
    by_cases hid : new.id ≠ t.cred.uids.id
    · rw [if_pos hid] at h ⊢
      by_cases halloc : ans.allocated = true
      · rw [if_pos halloc] at h ⊢
        cases hfix : ans.fixSetuid with
        | some e =>
          rw [hfix] at h
          cases h
        | none => rfl
      · rw [if_neg halloc] at h
        cases h
    · rw [if_neg hid] at h ⊢
      cases hfix : ans.fixSetuid with
      | some e =>
        rw [hfix] at h
        cases h
      | none => rfl

omit [DecidableEq υ] [DecidableEq γ] in
theorem commitGids_ok {chosen : Except Errno (Ids γ)} {r : BitVec 32}
    (h : (commitGids t chosen).1 = .ok r) : chosen = .ok (commitGids t chosen).2.cred.gids := by
  cases chosen with
  | error e => cases h
  | ok new => rfl

section Same

variable {κ : Type} [DecidableEq κ] {ns : Namespace κ} {capable : Bool} {old new : Ids κ} {k : κ}
  {n : BitVec 32}

/-- `setreuid` and `setregid` with one id twice. -/
theorem setre_same (hn : n ≠ -1) (hk : ns.make n = some k)
    (h : (do
      let r ← given ns n
      let e ← given ns n
      prepareCreds ans
      setre capable old r e) = .ok new) : new = .all k := by
  rw [given_name hn hk] at h
  obtain ⟨-, -, hid, heid, hfsid, hsid⟩ := setre_ok (prepared_then h)
  rw [if_pos (.inl (Option.some_ne_none k))] at hsid
  obtain ⟨id, eid, sid, fsid⟩ := new
  dsimp only [Option.getD_some] at hid heid hfsid hsid
  subst hid heid hfsid hsid
  rfl

theorem setres_same (hn : n ≠ -1) (hk : ns.make n = some k)
    (h : (do
      let r ← given ns n
      let e ← given ns n
      let s ← given ns n
      prepareCreds ans
      setres capable old r e s) = .ok new) : new = .all k := by
  rw [given_name hn hk] at h
  have hset := prepared_then h
  unfold setres at hset
  dsimp only at hset
  split_ifs at hset
  exact (Except.ok.inj hset).symm

/-- `setuid` and `setgid`: the ids are all the same, or the old ones are kept beside. -/
theorem setid_same (hn : n ≠ -1) (hk : ns.make n = some k) (hnames : Named ns old)
    (h : (do
      let k ← needed ns n
      prepareCreds ans
      setid capable old k) = .ok new) :
    Named ns new ∧ (new = .all k ↔ capable = true ∨ (old.id = k ∧ old.sid = k)) := by
  have hneeded : needed ns n = .ok k := by
    unfold needed
    rw [hk]
  rw [hneeded] at h
  have hset := prepared_then h
  unfold setid at hset
  by_cases hcap : capable = true
  · rw [if_pos hcap] at hset
    obtain rfl := Except.ok.inj hset
    refine ⟨?_, iff_of_true rfl (.inl hcap)⟩
    intro k' hk'
    obtain rfl := Ids.settled_all k k' hk'
    exact ⟨n, hn, hk⟩
  · rw [if_neg hcap] at hset
    split_ifs at hset
    obtain rfl := Except.ok.inj hset
    refine ⟨?_, ?_⟩
    · rintro k' (rfl | rfl | rfl)
      · exact hnames _ old.holds_id
      · exact ⟨n, hn, hk⟩
      · exact hnames _ old.holds_sid
    · rw [Ids.all, Ids.mk.injEq]
      tauto

end Same

/-- **Privileges dropped for good.** After `setreuid(u, u)` or `setresuid(u, u, u)` the process
acts as user `u` whatever it calls without capabilities; after `setuid(u)` exactly when it had
the capability or its real and saved uid were `u` before. The same goes for groups. -/
theorem dropped_iff (ans : Answers) (t : Task υ γ) {n m : BitVec 32} (hn : n ≠ -1) (hm : m ≠ -1)
    (hu : U.make n = some u) (hg : G.make m = some g) (hU : Named U t.cred.uids)
    (hG : Named G t.cred.gids) :
    (((setreuid U ans t n n).1 = .ok 0 → UserStays U G (setreuid U ans t n n).2 u) ∧
      ((setresuid U ans t n n n).1 = .ok 0 → UserStays U G (setresuid U ans t n n n).2 u) ∧
      ((setuid U ans t n).1 = .ok 0 → (UserStays U G (setuid U ans t n).2 u ↔
        ans.capSetuid = true ∨ (t.cred.uids.id = u ∧ t.cred.uids.sid = u)))) ∧
    (((setregid G ans t m m).1 = .ok 0 → GroupStays U G (setregid G ans t m m).2 g) ∧
      ((setresgid G ans t m m m).1 = .ok 0 → GroupStays U G (setresgid G ans t m m m).2 g) ∧
      ((setgid G ans t m).1 = .ok 0 → (GroupStays U G (setgid G ans t m).2 g ↔
        ans.capSetgid = true ∨ (t.cred.gids.id = g ∧ t.cred.gids.sid = g)))) := by
  refine ⟨⟨?_, ?_, ?_⟩, ?_, ?_, ?_⟩
  · intro h
    exact userStays_all (setre_same hn hu (commitUids_ok h))
  · intro h
    exact userStays_all (setres_same hn hu (commitUids_ok h))
  · intro h
    obtain ⟨hnew, hiff⟩ := setid_same hn hu hU (commitUids_ok h)
    exact (userStays_iff hnew).trans hiff
  · intro h
    exact groupStays_all (setre_same hm hg (commitGids_ok h))
  · intro h
    exact groupStays_all (setres_same hm hg (commitGids_ok h))
  · intro h
    obtain ⟨hnew, hiff⟩ := setid_same hm hg hG (commitGids_ok h)
    exact (groupStays_iff hnew).trans hiff

/-- A set-user-ID program that calls `setuid(1000)` keeps the way back to root. -/
theorem dropped_iff_setuidProgram :
    ¬ UserStays initial initial
      (setuid initial willing ⟨⟨⟨1000, 0, 0, 0⟩, .all 1000, 1000⟩, false⟩ 1000).2 1000 := by
  have hok : (setuid initial willing (⟨⟨⟨1000, 0, 0, 0⟩, .all 1000, 1000⟩, false⟩ :
      Task (BitVec 32) (BitVec 32)) 1000).1 = .ok 0 := by decide
  have hu : initial.make 1000 = some 1000 := by decide
  rw [(dropped_iff willing ⟨⟨⟨1000, 0, 0, 0⟩, .all 1000, 1000⟩, false⟩ (by decide) (by decide) hu hu
    named_setuidProgram.1 named_setuidProgram.2).1.2.2 hok]
  decide

end Dropping

end Aesd.Credentials
