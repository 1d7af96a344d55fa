import Aesd.Lib.Runs
import Aesd.Lib.Walk

/-!
# Child subreapers (`HW2/Required Files/sys.c`)

`prctl(PR_SET_CHILD_SUBREAPER)` on a table of processes, youngest first. The flag
`has_child_subreaper` tells a process that dies to look above itself for a subreaper to leave
its children to. `walk_process_tree`, `fork` and the end of a process lie outside the file: the
walk is a parameter that does what is documented of it, `WalksTree`, and the others are steps of
the table.

* `flag_complete`: whoever is below a subreaper carries the flag.
* `walk_pruned`: the walk loses nothing where `propagate_has_child_subreaper` cuts it short.
-/

namespace Aesd.Subreaper

structure Proc where
  pid : ℤ
  /-- the process of `real_parent` -/
  parent : ℤ
  /-- `signal->is_child_subreaper` -/
  isChildSubreaper : Bool
  /-- `signal->has_child_subreaper` -/
  hasChildSubreaper : Bool
  /-- `is_child_reaper(task_pid(p))`: the first process of a pid namespace -/
  isChildReaper : Bool
deriving DecidableEq

abbrev Visitor := Proc → ℤ × Proc

def propagateHasChildSubreaper : Visitor := fun p =>
  if p.hasChildSubreaper = true ∨ p.isChildReaper = true then (0, p)
  else (1, { p with hasChildSubreaper := true })

/-- The walk goes below the processes for which the visitor returns more than 0. -/
def goesDown (visit : Visitor) (p : Proc) : Bool := 0 < (visit p).1

/-- The walk from `top` visits the children of this process. -/
abbrev Visited (visit : Visitor) (s : List Proc) (top : ℤ) : ℤ → Prop :=
  Walk.Open Proc.pid Proc.parent (goesDown visit) s top

abbrev Walker := List Proc → ℤ → Visitor → List Proc

open Classical in
/-- What is documented of `walk_process_tree`: the visitor is called for the children of `top`,
and for those of each process for which it returns 1. -/
def WalksTree (walk : Walker) : Prop :=
  ∀ s top visit, Walk.Ordered Proc.pid Proc.parent s → (∀ p, 0 ≤ (visit p).1) →
    walk s top visit = s.map fun p => if Visited visit s top p.parent then (visit p).2 else p

/-- `me->signal->is_child_subreaper = sub` -/
def declare (me : ℤ) (sub : Bool) (p : Proc) : Proc :=
  { p with isChildSubreaper := if p.pid = me then sub else p.isChildSubreaper }

/-- `prctl(PR_SET_CHILD_SUBREAPER, arg2)` with the visitor that it hands to the walk; `lsm` is the
answer of `security_task_prctl`, unless it is `-ENOSYS`. -/
def setChildSubreaper {w : ℕ} (walk : Walker) (visit : Visitor) (s : List Proc) (me : ℤ)
    (lsm : Option ℤ) (arg2 : BitVec w) : ℤ × List Proc :=
  match lsm with
  | some error => (error, s)
  | none =>
    let s := s.map (declare me (decide (arg2 ≠ 0)))
    if arg2 = 0 then (0, s) else (0, walk s me visit)

def prctl {w : ℕ} (walk : Walker) := setChildSubreaper (w := w) walk propagateHasChildSubreaper

/-- `p` is a child of `q`, and neither is the first process of a pid namespace. -/
structure Child (s : List Proc) (p q : Proc) : Prop where
  mem : p ∈ s
  parent_mem : q ∈ s
  parent : p.parent = q.pid
  notReaper : p.isChildReaper = false
  parent_notReaper : q.isChildReaper = false

/-- `p` is below `q`, and no first process of a pid namespace comes in between. -/
abbrev Below (s : List Proc) : Proc → Proc → Prop := Relation.TransGen (Child s)

inductive Act (w : ℕ)
  | prctl (me : ℤ) (lsm : Option ℤ) (arg2 : BitVec w)
  | fork (parent child : ℤ) (reaper : Bool)
  | exit (pid heir : ℤ)

/-- The orphans of `pid` go to `heir`. -/
def adopt (pid heir : ℤ) (p : Proc) : Proc :=
  { p with parent := if p.parent = pid then heir else p.parent }

/-- A child takes over from its parent that there is a subreaper above it. Orphans go to a process
above them in the same pid namespace, or to the first process of a namespace. -/
inductive Step {w : ℕ} (walk : Walker) : List Proc → Act w → List Proc → Prop
  | prctl {s : List Proc} {p : Proc} (hp : p ∈ s) (lsm : Option ℤ) (arg2 : BitVec w) :
      Step walk s (.prctl p.pid lsm arg2) (prctl walk s p.pid lsm arg2).2
  | fork {s : List Proc} {p : Proc} (hp : p ∈ s) {child : ℤ} (reaper : Bool) (hpos : 0 < child)
      (hfresh : ∀ q ∈ s, q.pid ≠ child) :
      Step walk s (.fork p.pid child reaper)
        (⟨child, p.pid, false, p.hasChildSubreaper || p.isChildSubreaper, reaper⟩ :: s)
  | exit {younger older : List Proc} {x heir : Proc} (hheir : heir ∈ older)
      (habove : heir.isChildReaper = true ∨ Below (younger ++ x :: older) x heir) :
      Step walk (younger ++ x :: older) (.exit x.pid heir.pid)
        ((younger ++ older).map (adopt x.pid heir.pid))

/-- The table with `init` alone. -/
def boot : List Proc := [⟨1, 0, false, false, true⟩]

/-- **The flag in the table**: it is handed down, and a subreaper's children have it. -/
structure Flagged (s : List Proc) : Prop where
  ordered : Walk.Ordered Proc.pid Proc.parent s
  nodup : (s.map Proc.pid).Nodup
  parent : ∀ p ∈ s, p.parent = 0 ∨ ∃ q ∈ s, q.pid = p.parent
  flag : ∀ {p q}, Child s p q → q.isChildSubreaper = true ∨ q.hasChildSubreaper = true →
    p.hasChildSubreaper = true

section Flags

variable {w : ℕ} {walk : Walker} {s s' : List Proc} {p q : Proc} {top : ℤ} {a : Act w}
  {as : List (Act w)}

/-- What is handed down reaches everyone below. -/
theorem Flagged.below (h : Flagged s) (hbelow : Below s p q)
    (hq : q.isChildSubreaper = true ∨ q.hasChildSubreaper = true) : p.hasChildSubreaper = true := by
  induction hbelow with
  | single hchild => exact h.flag hchild hq
  | tail _ hchild ih => exact ih (.inr (h.flag hchild hq))

/-! ### What the call does -/

theorem propagate_eq (p : Proc) : (propagateHasChildSubreaper p).2 =
    { p with hasChildSubreaper := p.hasChildSubreaper || !p.isChildReaper } := by
  obtain ⟨pid, parent, sub, has, reaper⟩ := p
  cases has <;> cases reaper <;> rfl

theorem propagate_nonneg (p : Proc) : 0 ≤ (propagateHasChildSubreaper p).1 := by
  unfold propagateHasChildSubreaper
  split_ifs
  · exact le_refl 0
  · exact Int.one_nonneg

theorem goesDown_propagate (p : Proc) : goesDown propagateHasChildSubreaper p = true ↔
    p.hasChildSubreaper = false ∧ p.isChildReaper = false := by
  unfold goesDown propagateHasChildSubreaper
  simp only [decide_eq_true_eq, ← Bool.not_eq_true, ← not_or]
  split_ifs with h
  · exact iff_of_false (lt_irrefl 0) (not_not.2 h)
  · exact iff_of_true Int.one_pos h

/-- The table after a step and the table before it, record by record: `marked` are the processes
whose children the walk has visited. -/
structure Marks (marked : ℤ → Prop) (p p' : Proc) : Prop where
  pid : p'.pid = p.pid
  parent : p'.parent = p.parent
  isChildReaper : p'.isChildReaper = p.isChildReaper
  isChildSubreaper : p'.isChildSubreaper = true → p.isChildSubreaper = true ∨ marked p.pid
  hasChildSubreaper : p'.hasChildSubreaper = true ↔
    p.hasChildSubreaper = true ∨ (marked p.parent ∧ p.isChildReaper = false)

theorem Marks.refl (p : Proc) : Marks (fun _ => False) p p :=
  ⟨rfl, rfl, rfl, .inl, (or_iff_left (fun h => h.1)).symm⟩

theorem ordered_declare (hs : Walk.Ordered Proc.pid Proc.parent s) (me : ℤ) (sub : Bool) :
    Walk.Ordered Proc.pid Proc.parent (s.map (declare me sub)) :=
  hs.map (fun _ => rfl) fun _ => rfl

/-- **What the call does**: each process whose parent is marked gets the flag, and so do its own
children unless it had the flag before. -/
theorem prctl_spec (hwalk : WalksTree walk) (hs : Walk.Ordered Proc.pid Proc.parent s) (me : ℤ)
    (lsm : Option ℤ) (arg2 : BitVec w) :
    ∃ (marked : ℤ → Prop) (f : Proc → Proc), (prctl walk s me lsm arg2).2 = s.map f ∧
      (∀ p ∈ s, marked p.parent → p.hasChildSubreaper = false → p.isChildReaper = false →
        marked p.pid) ∧ ∀ p, Marks marked p (f p) := by
  unfold prctl setChildSubreaper
  cases lsm with
  | some error =>
    refine ⟨fun _ => False, id, (List.map_id s).symm, fun _ _ h => h.elim, ?_⟩
    exact Marks.refl
  | none =>
    dsimp only
    by_cases harg : arg2 = 0
    · rw [if_pos harg]
      refine ⟨fun _ => False, _, rfl, fun _ _ h => h.elim, ?_⟩
      intro p
      refine ⟨rfl, rfl, rfl, ?_, (or_iff_left (fun h => h.1)).symm⟩
      unfold declare
      dsimp only
      split_ifs
      · intro hsub
        exact absurd harg (of_decide_eq_true hsub)
      · exact .inl
    · rw [if_neg harg, hwalk _ me _ (ordered_declare hs me _) propagate_nonneg, List.map_map]
      generalize hs₁ : s.map (declare me (decide (arg2 ≠ 0))) = s₁
      refine ⟨Visited propagateHasChildSubreaper s₁ me, _, rfl, ?_, ?_⟩
      · intro p hp hparent hhas hreaper
        have hp₁ : declare me (decide (arg2 ≠ 0)) p ∈ s₁ := hs₁ ▸ List.mem_map_of_mem hp
        have hbelow : Visited propagateHasChildSubreaper s₁ me (declare me (decide (arg2 ≠ 0)) p).pid :=
          .child hp₁ hparent ((goesDown_propagate _).2 ⟨hhas, hreaper⟩)
        exact hbelow
      · intro p
        have hsub : (declare me (decide (arg2 ≠ 0)) p).isChildSubreaper = true →
            p.isChildSubreaper = true ∨ Visited propagateHasChildSubreaper s₁ me p.pid := by
          unfold declare
          dsimp only
          split_ifs with hme
          · rw [hme]
            exact fun _ => .inr .top
          · exact .inl
        rw [Function.comp_apply]
        split_ifs with hvisited
        · rw [propagate_eq]
          refine ⟨rfl, rfl, rfl, hsub, ?_⟩
          have hparent : Visited propagateHasChildSubreaper s₁ me p.parent := hvisited
          simp [declare, hparent]
        · have hparent : ¬ Visited propagateHasChildSubreaper s₁ me p.parent := hvisited
          exact ⟨rfl, rfl, rfl, hsub, (or_iff_left fun h => hparent h.1).symm⟩

/-! ### Every step hands the flag down -/

theorem flagged_prctl (hwalk : WalksTree walk) (h : Flagged s) (me : ℤ) (lsm : Option ℤ)
    (arg2 : BitVec w) : Flagged (prctl walk s me lsm arg2).2 := by
  obtain ⟨marked, f, hs', hdown, hf⟩ := prctl_spec hwalk h.ordered me lsm arg2
  rw [hs']
  refine ⟨h.ordered.map (fun p => (hf p).pid) fun p => (hf p).parent, ?_, ?_, ?_⟩
  · have hpids : (s.map f).map Proc.pid = s.map Proc.pid := by
      rw [List.map_map]
      exact List.map_congr_left fun p _ => (hf p).pid
    rw [hpids]
    exact h.nodup
  · intro p' hp'
    obtain ⟨p, hp, rfl⟩ := List.mem_map.1 hp'
    rw [(hf p).parent]
    rcases h.parent p hp with hzero | ⟨q, hq, hpid⟩
    · exact .inl hzero
    · exact .inr ⟨f q, List.mem_map_of_mem hq, (hf q).pid.trans hpid⟩
  · rintro p' q' ⟨hp', hq', hparent, hreaper, hreaper'⟩ hflag
    obtain ⟨p, hp, rfl⟩ := List.mem_map.1 hp'
    obtain ⟨q, hq, rfl⟩ := List.mem_map.1 hq'
    rw [(hf p).isChildReaper] at hreaper
    rw [(hf q).isChildReaper] at hreaper'
    rw [(hf p).parent, (hf q).pid] at hparent
    have hchild : Child s p q := ⟨hp, hq, hparent, hreaper, hreaper'⟩
    have hold : q.isChildSubreaper = true ∨ q.hasChildSubreaper = true →
        (f p).hasChildSubreaper = true :=
      fun hq => (hf p).hasChildSubreaper.2 (.inl (h.flag hchild hq))
    have hnew : marked q.pid → (f p).hasChildSubreaper = true :=
      fun hq => (hf p).hasChildSubreaper.2 (.inr ⟨hparent ▸ hq, hreaper⟩)
    rcases hflag with hsub | hhas
    · rcases (hf q).isChildSubreaper hsub with hsub | hmarked
      · exact hold (.inl hsub)
      · exact hnew hmarked
    · rcases (hf q).hasChildSubreaper.1 hhas with hhas | ⟨hmarked, -⟩
      · exact hold (.inr hhas)
      · -- the walk goes on below `q`, unless `q` had the flag before
        by_cases hbefore : q.hasChildSubreaper = true
        · exact hold (.inr hbefore)
        · exact hnew (hdown q hq hmarked (Bool.eq_false_iff.2 hbefore) hreaper')

theorem flagged_fork (h : Flagged s) (hp : p ∈ s) {child : ℤ} (reaper : Bool) (hpos : 0 < child)
    (hfresh : ∀ q ∈ s, q.pid ≠ child) :
    Flagged (⟨child, p.pid, false, p.hasChildSubreaper || p.isChildSubreaper, reaper⟩ :: s) := by
  have hnew : ∀ q ∈ s, q.parent ≠ child := by
    intro q hq heq
    rcases h.parent q hq with hzero | ⟨r, hr, hpid⟩
    · omega
    · exact hfresh r hr (hpid.trans heq)
  refine ⟨h.ordered.cons (hfresh p hp) hnew, ?_, ?_, ?_⟩
  · refine List.nodup_cons.2 ⟨?_, h.nodup⟩
    intro hmem
    obtain ⟨q, hq, hpid⟩ := List.mem_map.1 hmem
    exact hfresh q hq hpid
  · intro q hq
    rcases List.mem_cons.1 hq with rfl | hq
    · exact .inr ⟨p, List.mem_cons_of_mem _ hp, rfl⟩
    · rcases h.parent q hq with hzero | ⟨r, hr, hpid⟩
      · exact .inl hzero
      · exact .inr ⟨r, List.mem_cons_of_mem _ hr, hpid⟩
  · rintro q r ⟨hq, hr, hparent, hreaper, hreaper'⟩ hflag
    rcases List.mem_cons.1 hr with rfl | hr
    · -- the child has no children
      rcases List.mem_cons.1 hq with rfl | hq
      · exact absurd hparent (hfresh p hp)
      · exact absurd hparent (hnew q hq)
    · rcases List.mem_cons.1 hq with rfl | hq
      · obtain rfl := List.inj_on_of_nodup_map h.nodup hp hr hparent
        exact Bool.or_eq_true_iff.2 hflag.symm
      · exact h.flag ⟨hq, hr, hparent, hreaper, hreaper'⟩ hflag

theorem flagged_exit {younger older : List Proc} {x heir : Proc}
    (h : Flagged (younger ++ x :: older)) (hheir : heir ∈ older)
    (habove : heir.isChildReaper = true ∨ Below (younger ++ x :: older) x heir) :
    Flagged ((younger ++ older).map (adopt x.pid heir.pid)) := by
  have hsub : (younger ++ older).Sublist (younger ++ x :: older) :=
    (List.Sublist.refl younger).append (List.sublist_cons_self x older)
  have hheir' : heir ∈ younger ++ x :: older := hsub.subset (List.mem_append_right _ hheir)
  refine ⟨h.ordered.remove h.nodup hheir (fun _ => rfl) (fun _ => rfl), ?_, ?_, ?_⟩
  · rw [List.map_map]
    exact h.nodup.sublist (hsub.map Proc.pid)
  · intro p' hp'
    obtain ⟨p, hp, rfl⟩ := List.mem_map.1 hp'
    unfold adopt
    dsimp only
    split_ifs with hx
    · exact .inr ⟨_, List.mem_map_of_mem (List.mem_append_right _ hheir), rfl⟩
    · rcases h.parent p (hsub.subset hp) with hzero | ⟨q, hq, hpid⟩
      · exact .inl hzero
      · have hq' : q ∈ younger ++ older := by
          rcases List.mem_append.1 hq with hq | hq
          · exact List.mem_append_left _ hq
          · rcases List.mem_cons.1 hq with rfl | hq
            · exact absurd hpid.symm hx
            · exact List.mem_append_right _ hq
        exact .inr ⟨_, List.mem_map_of_mem hq', hpid⟩
  · rintro p' q' ⟨hp', hq', hparent, hreaper, hreaper'⟩ hflag
    obtain ⟨p, hp, rfl⟩ := List.mem_map.1 hp'
    obtain ⟨q, hq, rfl⟩ := List.mem_map.1 hq'
    have hp := hsub.subset hp
    have hq := hsub.subset hq
    change p.hasChildSubreaper = true
    unfold adopt at hparent
    dsimp only at hparent
    split_ifs at hparent with hx
    · -- an orphan: what it would get from its heir it had from `x`
      obtain rfl := List.inj_on_of_nodup_map h.nodup hheir' hq hparent
      rcases habove with hfirst | hbelow
      · exact absurd (hfirst.symm.trans hreaper') Bool.true_eq_false_eq_False
      · have hx' : x.isChildReaper = false ∧ x ∈ younger ++ x :: older := by
          cases hbelow using Relation.TransGen.head_induction_on with
          | single hchild => exact ⟨hchild.notReaper, hchild.mem⟩
          | head hchild _ _ => exact ⟨hchild.notReaper, hchild.mem⟩
        have hchild : Child (younger ++ x :: older) p x := ⟨hp, hx'.2, hx, hreaper, hx'.1⟩
        exact h.flag hchild (.inr (h.below hbelow hflag))
    · have hchild : Child (younger ++ x :: older) p q := ⟨hp, hq, hparent, hreaper, hreaper'⟩
      exact h.flag hchild hflag

theorem flagged_step (hwalk : WalksTree walk) (h : Flagged s) (hs : Step walk s a s') : Flagged s' := by
  cases hs with
  | prctl hp lsm arg2 => exact flagged_prctl hwalk h _ lsm arg2
  | fork hp reaper hpos hfresh => exact flagged_fork h hp reaper hpos hfresh
  | exit hheir habove => exact flagged_exit h hheir habove

theorem flagged_boot : Flagged boot := by
  refine ⟨⟨List.pairwise_singleton _ _, by decide⟩, List.nodup_singleton _, by decide, ?_⟩
  intro p q hchild _
  exact absurd (List.mem_singleton.1 hchild.mem ▸ hchild.notReaper) (by decide)

theorem flagged_run (hwalk : WalksTree walk) (hr : Lts.Run (Step walk) boot as s) : Flagged s :=
  hr.invariant flagged_boot fun h hs => flagged_step hwalk h hs

/-- **The flag is complete.** In every run whoever is below a subreaper, with no first process of a
pid namespace among them, knows that there is one above, however the processes in between have
come and gone. -/
theorem flag_complete (hwalk : WalksTree walk) (hr : Lts.Run (Step walk) boot as s)
    (hbelow : Below s p q) (hq : q.isChildSubreaper = true) : p.hasChildSubreaper = true :=
  (flagged_run hwalk hr).below hbelow (.inl hq)

/-- A walk in one pass over the table. -/
def walkTree : Walker := fun s top visit =>
  s.map fun p =>
    if p.parent ∈ Walk.opened Proc.pid Proc.parent (goesDown visit) top s then (visit p).2 else p

theorem walksTree : WalksTree walkTree := by
  intro s top visit hs _
  refine List.map_congr_left ?_
  intro p _
  by_cases hvisited : Visited visit s top p.parent
  · rw [if_pos hvisited, if_pos ((Walk.mem_opened_iff hs).2 hvisited)]
  · rw [if_neg hvisited, if_neg fun hmem => hvisited ((Walk.mem_opened_iff hs).1 hmem)]

/-- Process 2 becomes a subreaper, and its child 3 leaves a child to it. -/
def orphaned : List Proc :=
  [⟨4, 2, false, true, false⟩, ⟨2, 1, true, false, false⟩, ⟨1, 0, false, false, true⟩]

theorem orphaned_run : ∃ as : List (Act 64), Lts.Run (Step walkTree) boot as orphaned := by
  let s₁ : List Proc := ⟨2, 1, false, false, false⟩ :: boot
  let s₂ : List Proc := ⟨3, 2, false, false, false⟩ :: s₁
  let s₃ : List Proc := ⟨4, 3, false, false, false⟩ :: s₂
  let x : Proc := ⟨3, 2, false, true, false⟩
  let heir : Proc := ⟨2, 1, true, false, false⟩
  let s₄ : List Proc := [⟨4, 3, false, true, false⟩, x, heir, ⟨1, 0, false, false, true⟩]
  have h₁ : Step (w := 64) walkTree boot (.fork 1 2 false) s₁ :=
    .fork (p := ⟨1, 0, false, false, true⟩) (by decide) false (by decide) (by decide)
  have h₂ : Step (w := 64) walkTree s₁ (.fork 2 3 false) s₂ :=
    .fork (p := ⟨2, 1, false, false, false⟩) (by decide) false (by decide) (by decide)
  have h₃ : Step (w := 64) walkTree s₂ (.fork 3 4 false) s₃ :=
    .fork (p := ⟨3, 2, false, false, false⟩) (by decide) false (by decide) (by decide)
  have h₄ : Step (w := 64) walkTree s₃ (.prctl 2 none 1) s₄ :=
    .prctl (p := ⟨2, 1, false, false, false⟩) (by decide) none 1
  have hbelow : Below s₄ x heir :=
    .single ⟨by decide, by decide, rfl, rfl, rfl⟩
  have h₅ : Step (w := 64) walkTree s₄ (.exit 3 2) orphaned :=
    @Step.exit 64 walkTree [⟨4, 3, false, true, false⟩] [heir, ⟨1, 0, false, false, true⟩] x heir
      (by decide) (.inr hbelow)
  exact ⟨_, ((((Lts.Run.nil.snoc h₁).snoc h₂).snoc h₃).snoc h₄).snoc h₅⟩

theorem flag_complete_orphan : ∃ p ∈ orphaned, p.pid = 4 ∧ p.hasChildSubreaper = true := by
  obtain ⟨as, hr⟩ := orphaned_run
  have hbelow : Below orphaned ⟨4, 2, false, true, false⟩ ⟨2, 1, true, false, false⟩ :=
    .single ⟨by decide, by decide, rfl, rfl, rfl⟩
  exact ⟨_, by decide, rfl, flag_complete walksTree hr hbelow rfl⟩

/-! ### The shortcut -/

/-- The visitor without the shortcut for processes that have the flag. -/
def propagateFully : Visitor := fun p =>
  if p.isChildReaper = true then (0, p) else (1, { p with hasChildSubreaper := true })

theorem propagateFully_nonneg (p : Proc) : 0 ≤ (propagateFully p).1 := by
  unfold propagateFully
  split_ifs
  · exact le_refl 0
  · exact Int.one_nonneg

theorem goesDown_fully (p : Proc) : goesDown propagateFully p = true ↔ p.isChildReaper = false := by
  unfold goesDown propagateFully
  rw [decide_eq_true_eq, ← Bool.not_eq_true]
  split_ifs with h
  · exact iff_of_false (lt_irrefl 0) (not_not.2 h)
  · exact iff_of_true Int.one_pos h

/-- The two do the same to one process. -/
theorem propagateFully_snd (p : Proc) : (propagateFully p).2 = (propagateHasChildSubreaper p).2 := by
  obtain ⟨pid, parent, sub, has, reaper⟩ := p
  cases has <;> cases reaper <;> rfl

/-- **Where the full walk goes on**, the other has come too, or the flag has been handed down. -/
theorem visited_fully {k : ℤ}
    (hflag : ∀ {p q}, Child s p q → q.hasChildSubreaper = true → p.hasChildSubreaper = true)
    (h : Visited propagateFully s top k) : Visited propagateHasChildSubreaper s top k ∨
      ∃ q ∈ s, q.pid = k ∧ q.isChildReaper = false ∧ q.hasChildSubreaper = true := by
  induction h with
  | top => exact .inl .top
  | @child p hp _ hdeep ih =>
    have hreaper := (goesDown_fully p).1 hdeep
    by_cases hhas : p.hasChildSubreaper = true
    · exact .inr ⟨p, hp, rfl, hreaper, hhas⟩
    · rcases ih with hvisited | ⟨q, hq, hpid, hreaper', hhas'⟩
      · exact .inl (.child hp hvisited ((goesDown_propagate p).2 ⟨Bool.eq_false_iff.2 hhas, hreaper⟩))
      · exact absurd (hflag ⟨hp, hq, hpid.symm, hreaper, hreaper'⟩ hhas') hhas

/-- **The shortcut is sound.** In every state of every run the call has the effect it would have
if the walk did not stop at processes that have the flag. -/
theorem walk_pruned (hwalk : WalksTree walk) (hr : Lts.Run (Step walk) boot as s) (me : ℤ)
    (lsm : Option ℤ) (arg2 : BitVec w) :
    prctl walk s me lsm arg2 = setChildSubreaper walk propagateFully s me lsm arg2 := by
  have h := flagged_run hwalk hr
  unfold prctl setChildSubreaper
  cases lsm with
  | some error => rfl
  | none =>
    dsimp only
    by_cases harg : arg2 = 0
    · rw [if_pos harg, if_pos harg]
    · have hordered := ordered_declare h.ordered me (decide (arg2 ≠ 0))
      have hflag : ∀ {p q}, Child (s.map (declare me (decide (arg2 ≠ 0)))) p q →
          q.hasChildSubreaper = true → p.hasChildSubreaper = true := by
        rintro p' q' ⟨hp', hq', hparent, hreaper, hreaper'⟩ hhas
        obtain ⟨p, hp, rfl⟩ := List.mem_map.1 hp'
        obtain ⟨q, hq, rfl⟩ := List.mem_map.1 hq'
        have hchild : Child s p q := ⟨hp, hq, hparent, hreaper, hreaper'⟩
        change p.hasChildSubreaper = true
        exact h.flag hchild (.inr hhas)
      rw [if_neg harg, if_neg harg, hwalk _ me _ hordered propagate_nonneg,
        hwalk _ me _ hordered propagateFully_nonneg]
      generalize s.map (declare me (decide (arg2 ≠ 0))) = s₁ at hflag
      congr 1
      refine List.map_congr_left ?_
      intro p hp
      have hmore : Visited propagateHasChildSubreaper s₁ me p.parent →
          Visited propagateFully s₁ me p.parent := by
        refine Walk.Open.deeper ?_
        intro q _ hdeep
        exact (goesDown_fully q).2 ((goesDown_propagate q).1 hdeep).2
      rw [propagateFully_snd]
      by_cases hvisited : Visited propagateHasChildSubreaper s₁ me p.parent
      · rw [if_pos hvisited, if_pos (hmore hvisited)]
      · rw [if_neg hvisited]
        split_ifs with hfully
        · obtain ⟨q, hq, hpid, hreaper, hhas⟩ := (visited_fully hflag hfully).resolve_left hvisited
          have hleft : p.hasChildSubreaper = true ∨ p.isChildReaper = true := by
            by_cases hfirst : p.isChildReaper = true
            · exact .inr hfirst
            · exact .inl (hflag ⟨hp, hq, hpid.symm, Bool.eq_false_iff.2 hfirst, hreaper⟩ hhas)
          unfold propagateHasChildSubreaper
          rw [if_pos hleft]
        · rfl

theorem walk_pruned_orphan : prctl walkTree orphaned 1 none (1 : BitVec 64) =
    setChildSubreaper walkTree propagateFully orphaned 1 none (1 : BitVec 64) := by
  obtain ⟨as, hr⟩ := orphaned_run
  exact walk_pruned walksTree hr 1 none 1

end Flags

end Aesd.Subreaper
