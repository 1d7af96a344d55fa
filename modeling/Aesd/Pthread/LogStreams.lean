import Aesd.Pthread.LogHandle

/-!
# The streams that `child2_funct` leaves open

At each tick that it takes up `child2_funct` opens the log again and does not close the stream
it had. `one_stream_iff`: at the head of its loop it has one stream, and the records are in the
file in the order of their ticks, exactly as long as it has not come back to the head with a
record (`reset`).

`Child2Pc.opens` is the number of streams that the thread has opened when it stands at a
statement for the first time.
-/

namespace Aesd.Pthread

/-- A stream that child 2 has opened and has not closed. -/
def Stream.leaked (st : Stream) : Bool := st.opener = .child2 ∧ st.closedBy ≠ some .child2

def Log.leaks (l : Log) : ℕ := l.streams.countP Stream.leaked

/-- The number of the tick that a line records. -/
def Line.tick : Line → Option ℕ
  | .stat tick _ => some tick
  | _ => none

/-- What is wanted of `child2_funct`. -/
structure OneStream (s : State) : Prop where
  bounded : s.child2 = .head → s.log.leaks ≤ 1
  in_order : (s.log.file.filterMap Line.tick).Pairwise (· ≤ ·)

variable {s s' : State} {a : Act} {as : List Act} {l : Log}

/-! ### The log -/

theorem countP_set_same {α : Type*} {xs : List α} {k : ℕ} {x y : α} (p : α → Bool)
    (hx : xs[k]? = some x) (hy : p y = p x) : (xs.set k y).countP p = xs.countP p := by
  have hcount : ∀ zs : List α, zs.countP p = (zs.map p).count true := by
    intro zs
    rw [List.count, List.countP_map]
    congr 1
    funext z
    simp
  rw [hcount, hcount, map_set_same p hx hy]

/-- The streams of child 2 that an operation adds. -/
def LogAct.leaks : LogAct → ℕ
  | .fopen .child2 true => 1
  | _ => 0

/-- Only child 2's own `fopen` and `fclose` change what it leaves open. -/
theorem leaks_apply (l : Log) {b : LogAct} (hb : b ≠ .fclose .child2) :
    (l.apply b).leaks = l.leaks + b.leaks := by
  unfold Log.leaks
  cases b with
  | fopen t ok =>
    cases ok with
    | false => cases t <;> rfl
    | true => cases t <;> simp [Log.apply, LogAct.leaks, Stream.leaked]
  | fprintf line =>
    unfold Log.apply
    cases hc : l.current with
    | none => rfl
    | some p =>
      obtain ⟨k, st⟩ := p
      exact countP_set_same _ (current_eq_some hc).2.1 rfl
  | fclose t =>
    unfold Log.apply
    cases hc : l.current with
    | none => rfl
    | some p =>
      obtain ⟨k, st⟩ := p
      obtain ⟨-, hst, hopen⟩ := current_eq_some hc
      have hclosed : st.closedBy = none := by simpa [Stream.isOpen] using hopen
      refine countP_set_same _ hst ?_
      cases t with
      | child2 => exact absurd rfl hb
      | main | child1 => simp [Stream.leaked, hclosed]
  | exit order =>
    unfold Log.apply
    rw [List.countP_map]
    rfl

/-- All lines, in the file and in the streams, have the property. -/
def Log.All (l : Log) (P : Line → Prop) : Prop :=
  (∀ x ∈ l.file, P x) ∧ ∀ st ∈ l.streams, ∀ x ∈ st.buffer, P x

theorem all_apply {P : Line → Prop} {b : LogAct} (h : l.All P) (hline : ∀ x, b = .fprintf x → P x)
    (hexit : ∀ order, b = .exit order → order.Perm l.streams) : (l.apply b).All P := by
  obtain ⟨hfile, hbuf⟩ := h
  cases b with
  | fopen t ok =>
    cases ok with
    | false => exact ⟨hfile, hbuf⟩
    | true =>
      refine ⟨hfile, ?_⟩
      intro st hst
      rcases List.mem_append.1 hst with hst | hst
      · exact hbuf st hst
      · rw [List.mem_singleton.1 hst]
        simp
  | fprintf line =>
    unfold Log.apply
    cases hc : l.current with
    | none => exact ⟨hfile, hbuf⟩
    | some p =>
      obtain ⟨k, st⟩ := p
      refine ⟨hfile, ?_⟩
      intro st' hst' x hx
      rcases List.mem_or_eq_of_mem_set hst' with hst' | rfl
      · exact hbuf st' hst' x hx
      · rcases List.mem_append.1 hx with hx | hx
        · exact hbuf st (List.mem_of_getElem? (current_eq_some hc).2.1) x hx
        · rw [List.mem_singleton.1 hx]
          exact hline line rfl
  | fclose t =>
    unfold Log.apply
    cases hc : l.current with
    | none => exact ⟨hfile, hbuf⟩
    | some p =>
      obtain ⟨k, st⟩ := p
      refine ⟨?_, ?_⟩
      · intro x hx
        rcases List.mem_append.1 hx with hx | hx
        · exact hfile x hx
        · exact hbuf st (List.mem_of_getElem? (current_eq_some hc).2.1) x hx
      · intro st' hst' x hx
        rcases List.mem_or_eq_of_mem_set hst' with hst' | rfl
        · exact hbuf st' hst' x hx
        · simp at hx
  | exit order =>
    refine ⟨?_, ?_⟩
    · intro x hx
      rcases List.mem_append.1 hx with hx | hx
      · exact hfile x hx
      · obtain ⟨st, hst, hx⟩ := List.mem_flatMap.1 hx
        exact hbuf st ((hexit order rfl).subset hst) x hx
    · intro st hst x hx
      obtain ⟨st, -, rfl⟩ := List.mem_map.1 hst
      simp at hx

/-! ### Up to the first record -/

/-- How many streams child 2 has opened when it first comes to a statement. -/
def Child2Pc.opens : Child2Pc → Option ℕ
  | .notStarted | .fopen => some 0
  | .test | .write | .timer | .head | .stat | .reopen => some 1
  | .record | .reset => some 2
  | .ended => none

/-- The ticks that child 2 has taken up when it first comes to a statement. -/
def Child2Pc.taken : Child2Pc → Option ℕ
  | .notStarted | .fopen | .test | .write | .timer | .head => some 0
  | .stat | .reopen | .record | .reset => some 1
  | .ended => none

/-- Child 2 has not come back to the head of its loop. -/
structure FirstRound (s : State) : Prop where
  staged : Staged s
  opens : ∀ n, s.child2.opens = some n → s.log.leaks = n
  taken : ∀ n, s.child2.taken = some n → s.ticks = n
  lines : s.log.All fun x => ∀ k, x.tick = some k → k = 1

/-- A step that is no new round, with an `fopen` that succeeds. -/
def Act.SameRound (a : Act) : Prop := a ≠ .child2 .reset ∧ a.event ≠ some .failed

/-- A statement of child 2 takes it on in its round. -/
theorem child2Step_round {b : Child2Act} (ha : (Act.child2 b).SameRound)
    (hs : child2Step s b = some s') :
    (∀ n, s'.child2.opens = some n →
      ∃ m, s.child2.opens = some m ∧ n = m + ((Act.child2 b).onLog s).elim 0 LogAct.leaks) ∧
    ∀ n, s'.child2.taken = some n → ∃ m, s.child2.taken = some m ∧ n = m + (s'.ticks - s.ticks) ∧
      s.ticks ≤ s'.ticks := by
  obtain ⟨hne, hok⟩ := ha
  cases child2Effect hs with
  | reset => exact absurd rfl hne
  | fopen ok hpc | reopen ok hpc =>
    cases ok with
    | false => exact absurd rfl hok
    | true => simp [hpc, Child2Pc.opens, Child2Pc.taken, Act.onLog, LogAct.leaks]
  | write hpc | timer hpc | taken hpc | passed hpc | stat _ hpc | record hpc =>
    simp [hpc, Child2Pc.opens, Child2Pc.taken, Act.onLog, LogAct.leaks]
  | test null hpc =>
    cases null <;> simp [hpc, Child2Pc.opens, Child2Pc.taken, Act.onLog]

/-- `main` starts child 2, which has not run before, and does nothing else to it. -/
theorem mainStep_child2 {b : MainAct} (hst : Staged s) (hs : mainStep s b = some s') :
    s'.ticks = s.ticks ∧ (s'.child2 = s.child2 ∨ s.child2 = .notStarted ∧ s'.child2 = .fopen) := by
  cases mainEffect hs with
  | create2 ok hpc =>
    have hnot : s.child2 = .notStarted := by
      by_contra hne
      have hstage := hst.child2 hne
      simp [hpc, MainPc.stage] at hstage
    cases ok with
    | true => exact ⟨rfl, .inr ⟨hnot, rfl⟩⟩
    | false => exact ⟨rfl, .inl hnot.symm⟩
  | _ => exact ⟨rfl, .inl rfl⟩

theorem child1Step_ticks {b : Child1Act} (hs : child1Step s b = some s') : s'.ticks = s.ticks := by
  cases child1Effect hs <;> rfl

/-- What the other threads do adds nothing to the streams of child 2. -/
theorem onLog_leaks (s : State) (ha : ∀ b, a ≠ .child2 b) : (a.onLog s).elim 0 LogAct.leaks = 0 := by
  cases a with
  | child2 b => exact absurd rfl (ha b)
  | main b =>
    cases b with
    | report =>
      unfold Act.onLog
      simp only
      split <;> rfl
    | _ => rfl
  | child1 b => cases b <;> rfl
  | tick | kill1 _ | kill2 _ => rfl

theorem step_leaks (hs : step s a = some s') :
    s'.log.leaks = s.log.leaks + (a.onLog s).elim 0 LogAct.leaks := by
  rw [(step_log hs).1]
  have hne : ∀ b, a.onLog s = some b → b ≠ .fclose .child2 := by
    rintro b hb rfl
    unfold Act.onLog at hb
    split at hb
    all_goals try simp at hb
    split at hb <;> simp at hb
  cases hb : a.onLog s with
  | none => rfl
  | some b => exact leaks_apply s.log (hne b hb)

/-- Only `main`'s exit flushes. -/
theorem onLog_exit {order : List Stream} (h : a.onLog s = some (.exit order)) : a = .main (.exit order) := by
  cases a with
  | main b =>
    cases b with
    | exit order' =>
      simp only [Act.onLog, Option.some.injEq, LogAct.exit.injEq] at h
      rw [h]
    | report =>
      unfold Act.onLog at h
      simp only at h
      split at h <;> simp at h
    | fopen _ | write | fclose | create1 _ | create2 _ | join | test _ | fcloseReport =>
      simp [Act.onLog] at h
  | child1 b => cases b <;> simp [Act.onLog] at h
  | child2 b => cases b <;> simp [Act.onLog] at h
  | tick | kill1 _ | kill2 _ => simp [Act.onLog] at h

/-- Only child 2's record writes a line with a tick. -/
theorem onLog_line {x : Line} (h : a.onLog s = some (.fprintf x)) :
    x.tick = none ∨ a = .child2 .record ∧ x = .stat s.ticks (s.text_file_data1.text 0) := by
  cases a with
  | main b =>
    cases b with
    | report =>
      unfold Act.onLog at h
      simp only at h
      left
      split at h
      all_goals simp only [Option.some.injEq, LogAct.fprintf.injEq, reduceCtorEq] at h
      all_goals
        rw [← h]
        rfl
    | write =>
      simp only [Act.onLog, Option.some.injEq, LogAct.fprintf.injEq] at h
      rw [← h]
      exact .inl rfl
    | fopen _ | fclose | create1 _ | create2 _ | join | test _ | fcloseReport | exit _ =>
      simp [Act.onLog] at h
  | child1 b =>
    cases b with
    | write | print | exitLine =>
      simp only [Act.onLog, Option.some.injEq, LogAct.fprintf.injEq] at h
      rw [← h]
      exact .inl rfl
    | fopen _ | test _ | read _ | crash | fclose => simp [Act.onLog] at h
  | child2 b =>
    cases b with
    | write =>
      simp only [Act.onLog, Option.some.injEq, LogAct.fprintf.injEq] at h
      rw [← h]
      exact .inl rfl
    | record =>
      simp only [Act.onLog, Option.some.injEq, LogAct.fprintf.injEq] at h
      exact .inr ⟨rfl, h.symm⟩
    | fopen _ | test _ | timer | head _ | stat _ | reopen _ | reset => simp [Act.onLog] at h
  | tick | kill1 _ | kill2 _ => simp [Act.onLog] at h

/-- The line of a record has the number of the tick; the other lines have none. -/
theorem step_lines {P : Line → Prop} (h : s.log.All P) (hP : ∀ x : Line, x.tick = none → P x)
    (hrec : s.child2 = .record → P (.stat s.ticks (s.text_file_data1.text 0)))
    (hs : step s a = some s') : s'.log.All P := by
  rw [(step_log hs).1]
  cases hb : a.onLog s with
  | none => exact h
  | some b =>
    refine all_apply h ?_ ?_
    · intro x hx
      subst hx
      rcases onLog_line hb with hx | ⟨rfl, rfl⟩
      · exact hP x hx
      · apply hrec
        cases effect hs with
        | child2 h =>
          cases child2Effect h with
          | record hpc => exact hpc
    · intro order ho
      subst ho
      obtain rfl := onLog_exit hb
      cases effect hs with
      | main h =>
        cases mainEffect h with
        | exit _ _ hperm => exact hperm

theorem lines_step (h : FirstRound s) (hs : step s a = some s') :
    s'.log.All fun x => ∀ k, x.tick = some k → k = 1 := by
  refine step_lines h.lines ?_ ?_ hs
  · intro x hx k hk
    rw [hx] at hk
    simp at hk
  · intro hpc k hk
    have hticks := h.taken 1 (by rw [hpc]; rfl)
    rw [← Option.some.inj hk, hticks]

/-- A step of another thread leaves child 2 where it is, starts it or ends it. -/
theorem firstRound_other (h : FirstRound s) (hs : step s a = some s') (ha : ∀ b, a ≠ .child2 b)
    (hticks : s'.ticks = s.ticks)
    (hpc : s'.child2 = s.child2 ∨ s.child2 = .notStarted ∧ s'.child2 = .fopen ∨ s'.child2 = .ended) :
    FirstRound s' := by
  have hleaks : s'.log.leaks = s.log.leaks := by rw [step_leaks hs, onLog_leaks s ha, add_zero]
  -- a count for the new place is the one for the old
  have hcount : ∀ f : Child2Pc → Option ℕ, f .fopen = f .notStarted → f .ended = none →
      ∀ n, f s'.child2 = some n → f s.child2 = some n := by
    intro f hstart hend n hn
    rcases hpc with hc | ⟨hc, hc'⟩ | hc'
    · rwa [hc] at hn
    · rwa [hc', hstart, ← hc] at hn
    · rw [hc', hend] at hn
      simp at hn
  refine ⟨staged_step h.staged hs, ?_, ?_, lines_step h hs⟩
  · intro n hn
    rw [hleaks]
    exact h.opens n (hcount Child2Pc.opens rfl rfl n hn)
  · intro n hn
    rw [hticks]
    exact h.taken n (hcount Child2Pc.taken rfl rfl n hn)

theorem firstRound_step (h : FirstRound s) (ha : a.SameRound) (hs : step s a = some s') :
    FirstRound s' := by
  cases effect hs with
  | main hb =>
    obtain ⟨hticks, hc⟩ := mainStep_child2 h.staged hb
    exact firstRound_other h hs (by simp) hticks (hc.imp_right .inl)
  | child1 hb =>
    obtain ⟨-, -, -, hc, -⟩ := child1Step_others hb
    exact firstRound_other h hs (by simp) (child1Step_ticks hb) (.inl hc)
  | child2 hb =>
    obtain ⟨ho, ht⟩ := child2Step_round ha hb
    refine ⟨staged_step h.staged hs, ?_, ?_, lines_step h hs⟩
    · intro n hn
      obtain ⟨m, hm, rfl⟩ := ho n hn
      rw [step_leaks hs, h.opens m hm]
    · intro n hn
      obtain ⟨m, hm, rfl, hle⟩ := ht n hn
      have hticks := h.taken m hm
      omega
  | tick | kill1 => exact firstRound_other h hs (by simp) rfl (.inl rfl)
  | kill2 => exact firstRound_other h hs (by simp) rfl (.inr (.inr rfl))

theorem firstRound_start (d : CRecord.Rec 10001) : FirstRound (start d) := by
  refine ⟨staged_start d, ?_, ?_, ?_⟩
  · intro n hn
    simpa [start, Child2Pc.opens, Log.leaks] using hn
  · intro n hn
    simpa [start, Child2Pc.taken] using hn
  · constructor <;> simp [start]

theorem firstRound_run {d : CRecord.Rec 10001} (hr : Lts.Run (Lts.Steps step) (start d) as s)
    (has : ∀ a ∈ as, a.SameRound) : FirstRound s := by
  induction hr with
  | nil => exact firstRound_start d
  | @snoc as s s' a run next ih =>
    have hprev := ih fun b hb => has b (List.mem_append_left _ hb)
    exact firstRound_step hprev (has a (by simp)) next

/-- In its first round child 2 has one stream at the head of its loop, and one record. -/
theorem FirstRound.oneStream (h : FirstRound s) : OneStream s := by
  refine ⟨fun hpc => (h.opens 1 (by rw [hpc]; rfl)).le, ?_⟩
  apply List.pairwise_of_forall_mem_list
  intro j hj k hk
  obtain ⟨x, hx, hxj⟩ := List.mem_filterMap.1 hj
  obtain ⟨y, hy, hyk⟩ := List.mem_filterMap.1 hk
  rw [h.lines.1 x hx j hxj, h.lines.1 y hy k hyk]

/-- **One stream for child 2**, in a run of the threads in which each `fopen` succeeds: at the
head of its loop child 2 has at most one stream that it opened and did not close, and the records
are in the file in the order of their ticks, in every state of the run, exactly if it has not
come back to the head from a record. -/
theorem one_stream_iff (d : CRecord.Rec 10001) {as : List Act} {s : State}
    (hr : Lts.Run (Lts.Steps step) (start d) as s) (hopen : ∀ a ∈ as, a.event ≠ some .failed) :
    (∀ us m, us <+: as → Lts.Run (Lts.Steps step) (start d) us m → OneStream m) ↔
      .child2 .reset ∉ as := by
  constructor
  · intro h hmem
    -- the state behind the first reset
    obtain ⟨us, vs, rfl, hus⟩ := List.eq_append_cons_of_mem hmem
    rw [← List.singleton_append, ← List.append_assoc] at hr
    obtain ⟨m, hm, -⟩ := hr.split
    obtain ⟨m₀, hm₀, hreset⟩ := hm.snoc_inv
    have hround : FirstRound m₀ := by
      refine firstRound_run hm₀ fun a ha => ⟨?_, hopen a (List.mem_append_left _ ha)⟩
      rintro rfl
      exact hus ha
    have hle := (h (us ++ [.child2 .reset]) m ⟨vs, by simp⟩ hm).bounded
    cases effect hreset with
    | child2 h =>
      cases child2Effect h with
      | reset hpc =>
        have htwo : m₀.log.leaks = 2 := hround.opens 2 (by rw [hpc]; rfl)
        have hone := hle rfl
        simp only at hone
        omega
  · intro hmem us m hus hm
    refine (firstRound_run hm fun a ha => ⟨?_, hopen a (hus.subset ha)⟩).oneStream
    rintro rfl
    exact hmem (hus.subset ha)

/-- Child 2 up to the head of its loop. -/
def child2Head : List Act :=
  [.child2 (.fopen true), .child2 (.test false), .child2 .write, .child2 .timer]

theorem one_stream_iff_head :
    ∃ s, Lts.exec step (start .zero) (created ++ child2Head) = some s ∧
      ∀ us m, us <+: created ++ child2Head → Lts.Run (Lts.Steps step) (start .zero) us m →
        OneStream m := by
  refine ⟨_, rfl, ?_⟩
  exact (one_stream_iff .zero (Lts.exec_run step (created ++ child2Head) rfl) (by decide)).2 (by decide)

/-- A tick, and its record. -/
def round : List Act :=
  [.tick, .child2 (.head true), .child2 (.stat none), .child2 (.reopen true), .child2 .record,
    .child2 .reset]

/-- Two ticks; then a signal ends each child, and `main` reports and exits. -/
def twoTicks : List Act :=
  created ++ child2Head ++ round ++ round ++
    [.kill1 .usr1, .kill2 .usr1, .main .join, .main (.test true), .main .report, .main (.test false),
      .main .join, .main (.test true), .main .report, .main .fcloseReport, .main (.test false),
      .main (.exit [⟨.main, some .main, []⟩, ⟨.child2, none, [.inChild2]⟩,
        ⟨.child2, none, [.stat 1 []]⟩, ⟨.child2, some .main, []⟩])]

theorem twoTicks_exec :
    (Lts.exec step (start .zero) twoTicks).map (fun s => s.log.file.filterMap Line.tick) =
      some [2, 1] := by
  decide +kernel

/-- `main` closes the stream of the second tick; that of the first is flushed at the exit. -/
theorem records_out_of_order :
    ¬ ∀ (d : CRecord.Rec 10001) (as : List Act) (s : State),
      Lts.Run (Lts.Steps step) (start d) as s → (∀ a ∈ as, a.event ≠ some .failed) → OneStream s := by
  intro h
  obtain ⟨s, hs, hfile⟩ := Option.map_eq_some_iff.1 twoTicks_exec
  have horder := (h .zero twoTicks s (Lts.exec_run step twoTicks hs) (by decide)).in_order
  rw [hfile] at horder
  revert horder
  decide

end Aesd.Pthread
