import Aesd.Pthread.Threads

/-!
# The handle `logging`

The log of the threads is a `SharedHandle` (`Log.view`). `main` closes its stream before it
starts the children, and `child1_funct` is the only one to close a stream while they run; it
closes whatever `logging` holds, and after that the handle is stale until `child2_funct` opens
the log again.

`misused_iff`: no statement uses a stream that is not open exactly if the statements of
`child1_funct` come after an `fopen` that succeeded, and those of `child2_funct` and the reports
of `main` after one with no `fclose` in between.
-/

namespace Aesd.Pthread

open SharedHandle

/-- The log as a handle. -/
def Log.view (l : Log) : SharedHandle.State :=
  ⟨l.logging, l.streams.map Stream.isOpen, l.misused⟩

/-- What a statement asks of those executed before it: its last `fopen` has succeeded, and for
all but `child1_funct` there is no `fclose` behind that. -/
def Act.Keeps (us : List Act) : Act → Prop
  | .child1 .write | .child1 .print | .child1 .exitLine | .child1 .fclose =>
    lastOpen (us.filterMap Act.event) = some .opened
  | .child2 .write | .child2 .record | .main .report | .main .fcloseReport =>
    last (us.filterMap Act.event) = some .opened
  | _ => True

/-- The order of the statements suits each of them. -/
def Ordered (as : List Act) : Prop := ∀ us a vs, as = us ++ a :: vs → a.Keeps us

variable {s s' : State} {a : Act} {as : List Act} {l : Log}

/-! ### The log as a shared handle -/

theorem current_eq_some {k : ℕ} {st : Stream} (h : l.current = some (k, st)) :
    l.logging = some k ∧ l.streams[k]? = some st ∧ st.isOpen = true := by
  unfold Log.current at h
  simp only [Option.bind_eq_some_iff, Option.ite_none_right_eq_some, Option.some.injEq,
    Prod.mk.injEq] at h
  obtain ⟨k', hk, st', hst, hopen, rfl, rfl⟩ := h
  exact ⟨hk, hst, hopen⟩

theorem isOpen_view (l : Log) : l.view.isOpen = l.current.isSome := by
  unfold Log.view SharedHandle.State.isOpen Log.current
  simp only [List.getElem?_map]
  cases l.logging with
  | none => rfl
  | some k =>
    cases hst : l.streams[k]? with
    | none => simp [hst]
    | some st => cases hopen : st.isOpen <;> simp [hst, hopen]

/-- Replacing an element by one with the same image. -/
theorem map_set_same {α β : Type*} {xs : List α} {k : ℕ} {x y : α} (f : α → β)
    (hx : xs[k]? = some x) (hy : f y = f x) : (xs.set k y).map f = xs.map f := by
  obtain ⟨hk, rfl⟩ := List.getElem?_eq_some_iff.1 hx
  rw [List.map_set, hy, ← List.getElem_map f (h := by simpa using hk), List.set_getElem_self]

/-- Closing what is closed changes nothing. -/
theorem set_false {bs : List Bool} {k : ℕ} (h : (bs[k]?).getD false = false) : bs.set k false = bs := by
  rcases Nat.lt_or_ge k bs.length with hk | hk
  · rw [List.getElem?_eq_getElem hk, Option.getD_some] at h
    rw [← h, List.set_getElem_self]
  · exact List.set_eq_of_length_le hk

theorem view_apply (l : Log) (b : LogAct) : (l.apply b).view = b.event.elim l.view l.view.apply := by
  have hopen := isOpen_view l
  unfold Log.view at hopen ⊢
  cases b with
  | fopen t ok =>
    cases ok with
    | true => simp [Log.apply, LogAct.event, SharedHandle.State.apply, Stream.isOpen]
    | false => simp [Log.apply, LogAct.event, SharedHandle.State.apply]
  | fprintf line =>
    unfold Log.apply LogAct.event SharedHandle.State.apply
    simp only [Option.elim_some, hopen]
    cases hc : l.current with
    | none => simp
    | some p =>
      obtain ⟨k, st⟩ := p
      obtain ⟨-, hst, -⟩ := current_eq_some hc
      have hmap : (l.streams.set k { st with buffer := st.buffer ++ [line] }).map Stream.isOpen =
          l.streams.map Stream.isOpen := map_set_same _ hst rfl
      simp [hmap]
  | fclose t =>
    unfold Log.apply LogAct.event SharedHandle.State.apply
    simp only [Option.elim_some, hopen]
    cases hc : l.current with
    | none =>
      rw [hc, Option.isSome_none] at hopen
      cases hk : l.logging with
      | none => simp
      | some k =>
        -- the stream that the handle holds is closed already
        rw [hk] at hopen
        have hset := set_false (k := k) hopen
        simp [hset]
    | some p =>
      obtain ⟨k, st⟩ := p
      obtain ⟨hk, hst, -⟩ := current_eq_some hc
      simp [hk, List.map_set, Stream.isOpen]
  | exit order =>
    simp [Log.apply, LogAct.event, Stream.isOpen, Function.comp_def]

theorem step_view (hs : step s a = some s') :
    a.event = none ∧ s'.log.view = s.log.view ∨
      ∃ e, a.event = some e ∧ s'.log.view = s.log.view.apply e := by
  obtain ⟨hlog, hevent⟩ := step_log hs
  rw [hlog, ← hevent]
  cases a.onLog s with
  | none => exact .inl ⟨rfl, rfl⟩
  | some b =>
    rw [Option.elim_some, Option.bind_some, view_apply]
    cases b.event with
    | none => exact .inl ⟨rfl, rfl⟩
    | some e => exact .inr ⟨e, rfl, rfl⟩

/-- The run as the handle sees it. -/
theorem run_view {d : CRecord.Rec 10001} (hr : Lts.Run (Lts.Steps step) (start d) as s) :
    Lts.Run (fun v e v' => v' = SharedHandle.State.apply v e) SharedHandle.start
      (as.filterMap Act.event) s.log.view :=
  hr.project Act.event (fun s => s.log.view) fun hs => step_view hs

/-! ### Where the threads are -/

/-- `main` is about to write its first line or to close the log. -/
def MainPc.First (pc : MainPc) : Prop := pc = .write ∨ pc = .fclose

/-- `child1_funct` has opened the log and not closed it. -/
def Child1Pc.Logging (pc : Child1Pc) : Prop := pc.Active ∧ pc ≠ .fopen

/-- What the statements executed so far say about the handle where it matters. -/
structure Held (as : List Act) (s : State) : Prop where
  staged : Staged s
  main : s.main.First → last (as.filterMap Act.event) = some .opened
  child1 : s.child1.Logging → last (as.filterMap Act.event) ≠ some .closed

/-- `main` uses the log before it starts the children and after child 1 has ended. -/
theorem mainStep_event {b : MainAct} {e : Event} (he : (Act.main b).event = some e)
    (hs : mainStep s b = some s') : s.main.stage = 0 ∨ s.main.stage = 3 := by
  cases mainEffect hs with
  | fopen _ hpc | write hpc | fclose hpc => exact .inl (by rw [hpc]; rfl)
  | report1 sig hpc | report2 sig hpc | fcloseReport sig hpc => exact .inr (by rw [hpc]; rfl)
  | create1 | create2 | join1 | join2 | test | exit => simp [Act.event] at he

theorem not_first_afterTest (sig : Sig) (taken : Bool) :
    ¬ ((MainPc.test1 sig).afterTest taken).First ∧ ¬ ((MainPc.test2 sig).afterTest taken).First := by
  unfold MainPc.First
  cases sig <;> cases taken <;> simp [MainPc.afterTest]

theorem mainStep_first {b : MainAct} (h : s'.main.First) (hs : mainStep s b = some s') :
    b = .fopen true ∨ b = .write ∧ s.main.First := by
  cases mainEffect hs with
  | fopen ok _ =>
    cases ok with
    | true => exact .inl rfl
    | false => simp [MainPc.First] at h
  | write hpc => exact .inr ⟨rfl, .inl hpc⟩
  | fclose | create1 | create2 | join1 | join2 | report2 => simp [MainPc.First] at h
  | test taken sig hpc =>
    rcases hpc with hpc | hpc
    · rw [hpc] at h
      exact absurd h (not_first_afterTest sig taken).1
    · rw [hpc] at h
      exact absurd h (not_first_afterTest sig taken).2
  | report1 sig => exact absurd h (not_first_afterTest sig false).1
  | fcloseReport sig => exact absurd h (not_first_afterTest sig false).2
  | exit _ hpc => simp [MainPc.First, hpc] at h

/-- `main` starts child 1 and does nothing else to it. -/
theorem mainStep_child1 {b : MainAct} (hs : mainStep s b = some s') :
    s'.child1 = s.child1 ∨ ¬ s'.child1.Logging := by
  cases mainEffect hs with
  | create1 ok =>
    right
    cases ok <;> simp [Child1Pc.Logging, Child1Pc.Active]
  | _ => exact .inl rfl

/-- Child 1 is logging from its `fopen` on to its `fclose`. -/
theorem child1Step_logging {b : Child1Act} (h : s'.child1.Logging) (hs : child1Step s b = some s') :
    b ≠ .fclose ∧ ((∃ ok, b = .fopen ok) ∨ s.child1.Logging) := by
  unfold Child1Pc.Logging Child1Pc.Active at h ⊢
  cases child1Effect hs with
  | fopen ok => exact ⟨by simp, .inl ⟨ok, rfl⟩⟩
  | fclose => simp at h
  | test _ hpc | write hpc | read _ hpc | crash hpc | print _ hpc | exitLine hpc => simp [hpc]

/-- A statement of child 1 behind its `fopen`. -/
theorem logging_of_step {b : Child1Act} (hb : ∀ ok, b ≠ .fopen ok) (hs : child1Step s b = some s') :
    s.child1.Logging := by
  unfold Child1Pc.Logging Child1Pc.Active
  cases child1Effect hs with
  | fopen ok => exact absurd rfl (hb ok)
  | test _ hpc | write hpc | read _ hpc | crash hpc | print _ hpc | exitLine hpc | fclose hpc =>
    simp [hpc]

/-- The last event of a longer schedule. -/
theorem last_event (as : List Act) (a : Act) :
    last ((as ++ [a]).filterMap Act.event) =
      match a.event with
      | none => last (as.filterMap Act.event)
      | some e => if e = .used then last (as.filterMap Act.event) else some e := by
  rw [List.filterMap_append]
  cases he : a.event with
  | none => simp [he]
  | some e =>
    have hone : [a].filterMap Act.event = [e] := by simp [he]
    rw [hone, last_snoc]

/-- `main` writes its first line and closes the log before the children run. -/
theorem first_step (h : Held as s) (hs : step s a = some s') (hfirst : s'.main.First) :
    last ((as ++ [a]).filterMap Act.event) = some .opened := by
  rw [last_event]
  -- a child runs in the later stages only
  have hstage : s.main.First → s.main.stage = 0 := by
    rintro (hpc | hpc)
    all_goals
      rw [hpc]
      rfl
  cases effect hs with
  | main hb =>
    rcases mainStep_first hfirst hb with rfl | ⟨rfl, hpc⟩
    · rfl
    · exact h.main hpc
  | child1 hb =>
    obtain ⟨hact, hm, -⟩ := child1Step_others hb
    have h0 := hstage (hm ▸ hfirst)
    have h1 := h.staged.child1 hact
    omega
  | child2 hb =>
    obtain ⟨hact, hm, -⟩ := child2Step_others hb
    have h0 := hstage (hm ▸ hfirst)
    have h2 := h.staged.child2 hact.1
    omega
  | tick | kill1 | kill2 => exact h.main hfirst

/-- While child 1 is logging nothing is closed behind the last `fopen`. -/
theorem logging_step (h : Held as s) (hs : step s a = some s') (hlog : s'.child1.Logging) :
    last ((as ++ [a]).filterMap Act.event) ≠ some .closed := by
  rw [last_event]
  cases effect hs with
  | @main b _ hb =>
    have hc : s'.child1 = s.child1 := (mainStep_child1 hb).resolve_right (not_not.2 hlog)
    rw [hc] at hlog
    cases he : (Act.main b).event with
    | none => exact h.child1 hlog
    | some e =>
      -- `main` does not use the log while child 1 runs
      have hstage := h.staged.child1 hlog.1
      have hstage' := mainStep_event he hb
      omega
  | @child1 b _ hb =>
    obtain ⟨hne, hcase⟩ := child1Step_logging hlog hb
    rcases hcase with ⟨ok, rfl⟩ | hlog₀
    · cases ok <;> simp [Act.event]
    · have hlast := h.child1 hlog₀
      cases b with
      | fclose => exact absurd rfl hne
      | fopen ok => cases ok <;> simp [Act.event]
      | test _ | write | read _ | crash | print | exitLine => exact hlast
  | @child2 b _ hb =>
    obtain ⟨-, -, -, hc⟩ := child2Step_others hb
    rw [hc] at hlog
    have hlast := h.child1 hlog
    cases b with
    | fopen ok | reopen ok => cases ok <;> simp [Act.event]
    | test _ | write | timer | head _ | stat _ | record | reset => exact hlast
  | tick | kill2 => exact h.child1 hlog
  | kill1 => exact absurd rfl hlog.1.2

theorem held_step (h : Held as s) (hs : step s a = some s') : Held (as ++ [a]) s' :=
  ⟨staged_step h.staged hs, first_step h hs, logging_step h hs⟩

theorem held_run {d : CRecord.Rec 10001} (hr : Lts.Run (Lts.Steps step) (start d) as s) :
    Held as s := by
  induction hr with
  | nil =>
    refine ⟨staged_start d, ?_, ?_⟩
    · intro h
      simp [start, MainPc.First] at h
    · intro h
      simp [last]
  | snoc _ next ih => exact held_step ih next

/-! ### The use of the log -/

/-- Opening the log needs nothing. -/
theorem not_needs_fopen {e : Event} {ok : Bool}
    (he : some (if ok then Event.opened else .failed) = some e) : ¬ e.Needs := by
  obtain rfl := Option.some.inj he
  cases ok <;> simp [Event.Needs]

/-- **A statement finds the handle open** exactly if its condition on the schedule holds. -/
theorem keeps_iff (h : Held as s) (hs : step s a = some s') {e : Event} (he : a.event = some e)
    (hn : e.Needs) : a.Keeps as ↔ last (as.filterMap Act.event) = some .opened := by
  cases effect hs with
  | @main b _ hb =>
    cases b with
    | write =>
      cases mainEffect hb with
      | write hpc => exact iff_of_true trivial (h.main (.inl hpc))
    | fclose =>
      cases mainEffect hb with
      | fclose hpc => exact iff_of_true trivial (h.main (.inr hpc))
    | report | fcloseReport => exact Iff.rfl
    | fopen ok => exact absurd hn (not_needs_fopen he)
    | create1 _ | create2 _ | join | test _ | exit _ => simp [Act.event] at he
  | @child1 b _ hb =>
    cases b with
    | write | print | exitLine | fclose =>
      have hlast := lastOpen_of_last (h.child1 (logging_of_step (by simp) hb))
      rw [Act.Keeps, hlast]
    | fopen ok => exact absurd hn (not_needs_fopen he)
    | test _ | read _ | crash => simp [Act.event] at he
  | @child2 b _ _ =>
    cases b with
    | write | record => exact Iff.rfl
    | fopen ok | reopen ok => exact absurd hn (not_needs_fopen he)
    | test _ | timer | head _ | stat _ | reset => simp [Act.event] at he
  | tick | kill1 | kill2 => simp [Act.event] at he

theorem keeps_of_not_needs {us : List Act} (h : ∀ e, a.event = some e → ¬ e.Needs) : a.Keeps us := by
  unfold Event.Needs at h
  unfold Act.Keeps
  split <;> simp_all [Act.event]

theorem ordered_snoc (as : List Act) (a : Act) : Ordered (as ++ [a]) ↔ Ordered as ∧ a.Keeps as := by
  unfold Ordered
  constructor
  · intro h
    refine ⟨?_, h as a [] rfl⟩
    intro us b vs he
    apply h us b (vs ++ [a])
    rw [he, List.append_assoc, List.cons_append]
  · rintro ⟨h, ha⟩ us b vs he
    rcases List.eq_nil_or_concat vs with rfl | ⟨vs, c, rfl⟩
    · obtain ⟨rfl, hb⟩ := List.append_inj' he rfl
      obtain rfl := List.singleton_inj.1 hb
      exact ha
    · rw [List.concat_eq_append, ← List.cons_append, ← List.append_assoc] at he
      obtain ⟨rfl, -⟩ := List.append_inj' he rfl
      exact h us b vs rfl

/-- **The threads and the log**, in every run of their statements, with any ticks and signals: no
`fprintf` or `fclose` is performed on a stream that is not open exactly if the statements of
`child1_funct` find that the last `fopen` has succeeded, and those of `child2_funct` and the
reports of `main` that no `fclose` came behind it either. -/
theorem misused_iff (d : CRecord.Rec 10001) {as : List Act} {s : State}
    (hr : Lts.Run (Lts.Steps step) (start d) as s) : s.log.misused = false ↔ Ordered as := by
  induction hr with
  | nil =>
    refine iff_of_true rfl ?_
    intro us a vs he
    simp at he
  | @snoc as s s' a run next ih =>
    have hheld := held_run run
    have hopen := isOpen_iff (run_view run)
    have hmis : ∀ m : State, m.log.misused = m.log.view.misused := fun _ => rfl
    rw [ordered_snoc, ← ih, hmis, hmis]
    rcases step_view next with ⟨he, hv⟩ | ⟨e, he, hv⟩
    · rw [hv]
      have hkeeps : a.Keeps as := keeps_of_not_needs fun e he' => by simp [he] at he'
      exact (and_iff_left hkeeps).symm
    · rw [hv, misused_apply]
      by_cases hn : e.Needs
      · rw [keeps_iff hheld next he hn, ← hopen]
        simp [hn]
      · have hkeeps : a.Keeps as := keeps_of_not_needs fun e' he' => by
          rw [he] at he'
          obtain rfl := Option.some.inj he'
          exact hn
        simp [hn, hkeeps]

/-- `main` creates both children. -/
def created : List Act :=
  [.main (.fopen true), .main .write, .main .fclose, .main (.create1 true), .main (.create2 true)]

/-- Child 1 up to its `fclose`, for a report of one line. -/
def child1Lines : List Act :=
  [.child1 (.fopen true), .child1 (.test false), .child1 .write, .child1 (.read 1), .child1 .print,
    .child1 .exitLine]

/-- Child 2 opens the log after child 1 has closed it. -/
def oneAfterTheOther : List Act :=
  created ++ child1Lines ++ [.child1 .fclose, .child2 (.fopen true), .child2 (.test false), .child2 .write]

theorem misused_iff_oneAfterTheOther :
    ∃ s, Lts.exec step (start .zero) oneAfterTheOther = some s ∧ Ordered oneAfterTheOther := by
  refine ⟨_, rfl, ?_⟩
  exact (misused_iff .zero (Lts.exec_run step oneAfterTheOther rfl)).1 rfl

/-- Child 1 closes the stream that child 2 has opened and is about to write to. -/
def closedBetween : List Act :=
  created ++ child1Lines ++ [.child2 (.fopen true), .child2 (.test false), .child1 .fclose, .child2 .write]

theorem log_used_closed :
    ¬ ∀ (d : CRecord.Rec 10001) (as : List Act) (s : State),
      Lts.Run (Lts.Steps step) (start d) as s → s.log.misused = false := by
  intro h
  have hmis := h .zero closedBetween _ (Lts.exec_run step closedBetween rfl)
  revert hmis
  decide

end Aesd.Pthread
