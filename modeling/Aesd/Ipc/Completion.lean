import Aesd.Ipc.Pipes
import Aesd.Ipc.Shmem
import Aesd.Lib.Progress
import Aesd.Lib.Rounds

/-!
# The programs that stay in turn come to their end

The pipe programs and the shared memory programs keep their processes in turns. So neither
pair can block for good: whatever the order of the steps, all `n` rounds are run, with the
same number of steps, and at the end every request has its reply.

* `Pipes.pipes_complete`: the end comes with the `4 * n`-th system call.
* `Shmem.shmem_complete`: the end comes with the `183 * n`-th operation.
-/

namespace Aesd

open CRecord

namespace Pipes

def ParentPc.asked : ParentPc → Bool
  | .write => false
  | .read => true

def ChildPc.serving : ChildPc → Bool
  | .read => false
  | .write => true

/-- In turn, with loop counters that fit the history. -/
structure Turns (n : ℕ) (ro : Rodata) (s : State) : Prop where
  turn : Exchange.Matches Rel (Reply ro) s
  counted : Exchange.Counted n s.log s.i s.j s.parent.asked s.child.serving

variable {n : ℕ} {ro : Rodata} {s s' : State} {a : Act}

theorem counted_step (h : Exchange.Counted n s.log s.i s.j s.parent.asked s.child.serving)
    (hs : step n ro s a = some s') :
    Exchange.Counted n s'.log s'.i s'.j s'.parent.asked s'.child.serving ∧
      s'.log.size = s.log.size + 1 := by
  cases a with
  | parentWrite is_command message =>
    simp only [step, Option.ite_none_right_eq_some, Option.some.injEq] at hs
    obtain ⟨⟨hp, hi⟩, rfl⟩ := hs
    rw [hp] at h
    exact ⟨h.ask hi _, Exchange.Log.size_ask _ _⟩
  | parentRead =>
    simp only [step, Option.ite_none_right_eq_some, Option.some.injEq] at hs
    obtain ⟨⟨hp, -⟩, rfl⟩ := hs
    rw [hp] at h
    exact ⟨h.report _, Exchange.Log.size_report _ _⟩
  | childRead =>
    simp only [step, Option.ite_none_right_eq_some, Option.some.injEq] at hs
    obtain ⟨⟨hc, hj, -⟩, rfl⟩ := hs
    rw [hc] at h
    exact ⟨h.take hj _, Exchange.Log.size_take _ _⟩
  | childWrite response1 =>
    simp only [step, Option.ite_none_right_eq_some, Option.some.injEq] at hs
    obtain ⟨hc, rfl⟩ := hs
    rw [hc] at h
    exact ⟨h.answer _, Exchange.Log.size_answer _ _⟩

theorem Turns.next (h : Turns n ro s) (hs : Lts.Steps (step n ro) s a s') : Turns n ro s' :=
  ⟨h.turn.step (fun hR next => simulates hR next) hs, (counted_step h.counted hs).1⟩

/-- **Only processes that are through wait for good.** -/
theorem Turns.through (h : Turns n ro s) (hstuck : Lts.Stuck (Lts.Steps (step n ro)) s) :
    s.i = n ∧ s.j = n := by
  obtain ⟨⟨⟨phase, l⟩, ⟨turn, -, -, -⟩, -⟩, counted⟩ := h
  have hclient := counted.client_le
  have hserver := counted.server_le
  cases phase with
  | idle =>
    obtain ⟨hp, hc, hij, -, -⟩ := turn
    -- the parent could write its next command
    have hi : ¬ s.i < n := by
      intro hi
      exact hstuck (.parentWrite 0 0) _ (if_pos ⟨hp, hi⟩)
    omega
  | asked q =>
    obtain ⟨hp, hc, hij, hq, -⟩ := turn
    rw [hp] at hclient
    have hj : s.j < n := hij ▸ hclient
    have hne : s.pipe_msg_p ≠ [] := by
      rw [hq]
      exact List.ne_nil_of_length_pos (by rw [q.size]; decide)
    exact absurd (if_pos ⟨hc, hj, hne⟩) (hstuck .childRead _)
  | serving q =>
    exact absurd (if_pos turn.2.1) (hstuck (.childWrite .zero) _)
  | answered r =>
    obtain ⟨hp, -, -, -, hr⟩ := turn
    have hne : s.pipe_msg_c ≠ [] := by
      rw [hr]
      exact List.ne_nil_of_length_pos (by rw [r.size]; decide)
    exact absurd (if_pos ⟨hp, hne⟩) (hstuck .parentRead _)

/-- **The pipe programs come to their end.** After any steps in any order no process waits
for good before both have run their `n` rounds, which takes `4 * n` system calls; then the
parent has a response to each of its commands. -/
theorem pipes_complete (n : ℕ) (ro : Rodata) {msg1 r1 msg_r : Rec 16} {as : List Act} {s : State}
    (hr : Lts.Run (Lts.Steps (step n ro)) (start msg1 r1 msg_r) as s) :
    Lts.Ends (Lts.Steps (step n ro)) (4 * n)
      (fun s => s.i = n ∧ s.j = n ∧ Exchange.Complete (Reply ro) n s.log) as.length s := by
  have h0 : Turns n ro (start msg1 r1 msg_r) :=
    ⟨⟨_, rel_start msg1 r1 msg_r, rfl, rfl, .nil⟩, .start n⟩
  refine hr.ends (I := Turns n ro) (c := fun s => s.log.size) h0 rfl Turns.next
    (fun h hs => (counted_step h.counted hs).2) (fun h => h.counted.size_le) ?_ ?_
  · intro s h hstuck
    exact h.counted.size_eq_iff.2 (h.through hstuck)
  · intro s h hend
    obtain ⟨hi, hj⟩ := h.counted.size_eq_iff.1 hend
    obtain ⟨t, hR, hinv⟩ := h.turn
    have hsound : Exchange.Sound (Reply ro) s.log := hR.log ▸ hinv.sound
    have hcounted := h.counted
    rw [hi, hj] at hcounted
    exact ⟨hi, hj, hsound.complete hcounted⟩

theorem pipes_complete_oneRound :
    ∃ s, Lts.exec (step 1 rodata) (start .zero .zero .zero) oneRound = some s ∧
      Lts.Ends (Lts.Steps (step 1 rodata)) 4
        (fun s => s.i = 1 ∧ s.j = 1 ∧ Exchange.Complete (Reply rodata) 1 s.log) 4 s := by
  obtain ⟨s, hs, -⟩ := Option.map_eq_some_iff.1 oneRound_exec
  exact ⟨s, hs, pipes_complete 1 rodata (Lts.exec_run _ _ hs)⟩

end Pipes

namespace Shmem

/-- How many operations of its round a process has done. -/
def Pc₁.done : Pc₁ → ℕ
  | .fill => 0
  | .copyIn k => 1 + k
  | .wait => 46
  | .copyOut k => 47 + k

def Pc₂.done : Pc₂ → ℕ
  | .wait => 0
  | .copyOut k => 1 + k
  | .copyIn k => 46 + k

/-- A `memcpy` does not leave the record. -/
def Pc₁.Inside : Pc₁ → Prop
  | .copyIn k | .copyOut k => k ≤ 44
  | _ => True

def Pc₂.Inside : Pc₂ → Prop
  | .copyIn k | .copyOut k => k ≤ 44
  | _ => True

def Pc₁.asked : Pc₁ → Bool
  | .fill => false
  | _ => true

/-- The requests that process 2 has answered: it counts the one it still copies in later. -/
def Pc₂.answered (j : ℕ) : Pc₂ → ℕ
  | .copyIn _ => j + 1
  | _ => j

theorem Pc₁.Inside.done_le {p : Pc₁} (h : p.Inside) : p.done ≤ 91 := by
  cases p <;> simp only [Pc₁.Inside, Pc₁.done] at h ⊢ <;> omega

theorem Pc₂.Inside.done_le {p : Pc₂} (h : p.Inside) : p.done ≤ 90 := by
  cases p <;> simp only [Pc₂.Inside, Pc₂.done] at h ⊢ <;> omega

theorem Pc₂.wait_of_done {p : Pc₂} (h : p.done = 0) : p = .wait := by
  cases p with
  | wait => rfl
  | copyOut k | copyIn k =>
    simp only [Pc₂.done] at h
    omega

/-- The operations of both processes so far. -/
def State.done (s : State) : ℕ := 92 * s.i + s.pc₁.done + (91 * s.j + s.pc₂.done)

/-- The loop counters and the bytes copied, with the history that belongs to them. -/
structure Counts (n : ℕ) (s : State) : Prop where
  inside₁ : s.pc₁.Inside
  inside₂ : s.pc₂.Inside
  rounds₁ : 92 * s.i + s.pc₁.done ≤ 92 * n
  rounds₂ : 91 * s.j + s.pc₂.done ≤ 91 * n
  counted : Exchange.Counted n s.log s.i (s.pc₂.answered s.j) s.pc₁.asked false

/-- In turn, with loop counters that fit the history. -/
structure Turns (n : ℕ) (s : State) : Prop where
  turn : Exchange.Matches Rel format.Reply s
  counts : Counts n s

variable {n : ℕ} {s s' : State} {a : Act}

theorem counts_step (h : Counts n s) (hs : step n s a = some s') (hover : s'.overflow = false) :
    Counts n s' ∧ s'.done = s.done + 1 := by
  obtain ⟨in₁, in₂, r₁, r₂, hc⟩ := h
  unfold State.done
  by_cases hov : s.overflow = true
  · rw [step.eq_def, if_pos hov] at hs
    exact absurd hs.symm (Option.some_ne_none s')
  rw [step.eq_def, if_neg hov] at hs
  cases a with
  | fill is_command command =>
    obtain ⟨⟨hpc, hi⟩, hs⟩ := Option.ite_none_right_eq_some.1 hs
    cases hfill : format.fill s.data_send₁ is_command command with
    | none =>
      rw [hfill] at hs
      obtain rfl := Option.some.inj hs
      cases hover
    | some data_send =>
      rw [hfill] at hs
      obtain rfl := Option.some.inj hs
      rw [hpc] at hc r₁ ⊢
      refine ⟨⟨Nat.zero_le 44, in₂, ?_, r₂, hc.ask hi _⟩, ?_⟩ <;> simp only [Pc₁.done] at r₁ ⊢ <;> omega
  | copyIn₁ k =>
    obtain ⟨⟨hpc, hk⟩, hs⟩ := Option.ite_none_right_eq_some.1 hs
    obtain rfl := Option.some.inj hs
    rw [hpc] at hc r₁ ⊢
    refine ⟨⟨hk, in₂, ?_, r₂, hc⟩, ?_⟩ <;> simp only [Pc₁.done] at r₁ ⊢ <;> omega
  | post₁ =>
    obtain ⟨hpc, hs⟩ := Option.ite_none_right_eq_some.1 hs
    obtain rfl := Option.some.inj hs
    rw [hpc] at hc r₁ ⊢
    refine ⟨⟨trivial, in₂, ?_, r₂, hc⟩, ?_⟩ <;> simp only [Pc₁.done] at r₁ ⊢ <;> omega
  | wait₁ =>
    obtain ⟨⟨hpc, -⟩, hs⟩ := Option.ite_none_right_eq_some.1 hs
    obtain rfl := Option.some.inj hs
    rw [hpc] at hc r₁ ⊢
    refine ⟨⟨Nat.zero_le 44, in₂, ?_, r₂, hc⟩, ?_⟩ <;> simp only [Pc₁.done] at r₁ ⊢ <;> omega
  | copyOut₁ k =>
    obtain ⟨⟨hpc, hk⟩, hs⟩ := Option.ite_none_right_eq_some.1 hs
    obtain rfl := Option.some.inj hs
    rw [hpc] at hc r₁ ⊢
    refine ⟨⟨hk, in₂, ?_, r₂, hc⟩, ?_⟩ <;> simp only [Pc₁.done] at r₁ ⊢ <;> omega
  | receive =>
    obtain ⟨hpc, hs⟩ := Option.ite_none_right_eq_some.1 hs
    obtain rfl := Option.some.inj hs
    rw [hpc] at hc r₁ ⊢
    refine ⟨⟨trivial, in₂, ?_, r₂, hc.report _⟩, ?_⟩ <;> simp only [Pc₁.done] at r₁ ⊢ <;> omega
  | wait₂ =>
    obtain ⟨⟨hpc, hj, -⟩, hs⟩ := Option.ite_none_right_eq_some.1 hs
    obtain rfl := Option.some.inj hs
    rw [hpc] at hc r₂ ⊢
    refine ⟨⟨in₁, Nat.zero_le 44, r₁, ?_, hc⟩, ?_⟩ <;> simp only [Pc₂.done] at r₂ ⊢ <;> omega
  | copyOut₂ k =>
    obtain ⟨⟨hpc, hk⟩, hs⟩ := Option.ite_none_right_eq_some.1 hs
    obtain rfl := Option.some.inj hs
    rw [hpc] at hc r₂ ⊢
    refine ⟨⟨in₁, hk, r₁, ?_, hc⟩, ?_⟩ <;> simp only [Pc₂.done] at r₂ ⊢ <;> omega
  | update response1 =>
    obtain ⟨hpc, hs⟩ := Option.ite_none_right_eq_some.1 hs
    cases hup : statusUpdate response1 (s.buffer₂.field 0 4) (s.buffer₂.bytes.drop 4) with
    | none =>
      simp only [hup] at hs
      obtain rfl := Option.some.inj hs
      cases hover
    | some data_send =>
      simp only [hup] at hs
      obtain rfl := Option.some.inj hs
      rw [hpc] at hc r₂ ⊢
      have hj : s.j < n := by
        simp only [Pc₂.done] at r₂
        omega
      refine ⟨⟨in₁, Nat.zero_le 44, r₁, ?_, (hc.take hj _).answer _⟩, ?_⟩ <;>
        simp only [Pc₂.done] at r₂ ⊢ <;> omega
  | copyIn₂ k =>
    obtain ⟨⟨hpc, hk⟩, hs⟩ := Option.ite_none_right_eq_some.1 hs
    obtain rfl := Option.some.inj hs
    rw [hpc] at hc r₂ ⊢
    refine ⟨⟨in₁, hk, r₁, ?_, hc⟩, ?_⟩ <;> simp only [Pc₂.done] at r₂ ⊢ <;> omega
  | post₂ =>
    obtain ⟨hpc, hs⟩ := Option.ite_none_right_eq_some.1 hs
    obtain rfl := Option.some.inj hs
    rw [hpc] at hc r₂ ⊢
    refine ⟨⟨in₁, trivial, r₁, ?_, hc⟩, ?_⟩ <;> simp only [Pc₂.done] at r₂ ⊢ <;> omega

theorem Turns.next (h : Turns n s) (hs : Lts.When Short (Lts.Steps (step n)) s a s') :
    Turns n s' ∧ s'.done = s.done + 1 := by
  have hturn := h.turn.step (fun hR next => simulates hR next) hs
  have hover : s'.overflow = false := by
    obtain ⟨t, ⟨g, -, -, -, hover⟩, -⟩ := hturn
    exact hover
  obtain ⟨hcounts, hdone⟩ := counts_step h.counts hs.1 hover
  exact ⟨⟨hturn, hcounts⟩, hdone⟩

/-- An operation that a process at its turn can do. -/
theorem not_stuck (hs : ∃ s', step n s a = some s') (hshort : Short s a) :
    ¬ Lts.Stuck (Lts.When Short (Lts.Steps (step n))) s := by
  obtain ⟨s', hs⟩ := hs
  intro hstuck
  exact hstuck a s' ⟨hs, hshort⟩

/-- Process 1 never waits while it copies. -/
theorem copying₁_goes_on (hover : s.overflow = false) {k : ℕ} (hk : k ≤ 44)
    (hpc : s.pc₁ = .copyIn k ∨ s.pc₁ = .copyOut k) :
    ¬ Lts.Stuck (Lts.When Short (Lts.Steps (step n))) s := by
  have hne : ¬ s.overflow = true := by rw [hover]; decide
  rcases Nat.lt_or_eq_of_le hk with hk | rfl
  · rcases hpc with hpc | hpc
    · refine not_stuck (a := .copyIn₁ k) ?_ trivial
      rw [step.eq_def, if_neg hne]
      exact ⟨_, if_pos ⟨hpc, hk⟩⟩
    · refine not_stuck (a := .copyOut₁ k) ?_ trivial
      rw [step.eq_def, if_neg hne]
      exact ⟨_, if_pos ⟨hpc, hk⟩⟩
  · rcases hpc with hpc | hpc
    · refine not_stuck (a := .post₁) ?_ trivial
      rw [step.eq_def, if_neg hne]
      exact ⟨_, if_pos hpc⟩
    · refine not_stuck (a := .receive) ?_ trivial
      rw [step.eq_def, if_neg hne]
      exact ⟨_, if_pos hpc⟩

/-- Process 2 never waits while it copies. -/
theorem copying₂_goes_on (hover : s.overflow = false) {k : ℕ} (hk : k ≤ 44)
    (hpc : s.pc₂ = .copyOut k ∨ s.pc₂ = .copyIn k) :
    ¬ Lts.Stuck (Lts.When Short (Lts.Steps (step n))) s := by
  have hne : ¬ s.overflow = true := by rw [hover]; decide
  rcases Nat.lt_or_eq_of_le hk with hk | rfl
  · rcases hpc with hpc | hpc
    · refine not_stuck (a := .copyOut₂ k) ?_ trivial
      rw [step.eq_def, if_neg hne]
      exact ⟨_, if_pos ⟨hpc, hk⟩⟩
    · refine not_stuck (a := .copyIn₂ k) ?_ trivial
      rw [step.eq_def, if_neg hne]
      exact ⟨_, if_pos ⟨hpc, hk⟩⟩
  · rcases hpc with hpc | hpc
    · refine not_stuck (a := .update .zero) ?_ trivial
      rw [step.eq_def, if_neg hne]
      dsimp only
      rw [if_pos hpc]
      split
      · exact ⟨_, rfl⟩
      · exact ⟨_, rfl⟩
    · refine not_stuck (a := .post₂) ?_ trivial
      rw [step.eq_def, if_neg hne]
      exact ⟨_, if_pos hpc⟩

/-- **Only processes that are through wait for good.** -/
theorem Turns.through (h : Turns n s)
    (hstuck : Lts.Stuck (Lts.When Short (Lts.Steps (step n))) s) : s.i = n ∧ s.j = n := by
  obtain ⟨⟨⟨phase, l⟩, ⟨g, ⟨h1, h2, hs1, hs2, hd⟩, hphase, rfl, hover⟩, hinv⟩,
    in₁, in₂, r₁, r₂, counted⟩ := h
  have hne : ¬ s.overflow = true := by rw [hover]; decide
  obtain rfl : g.phase = phase := hphase
  have hsent := counted.sent
  have hgot := counted.got
  have hreplied := counted.replied
  have hreported := counted.reported
  rw [h1] at in₁ r₁ hsent
  rw [h2] at in₂ r₂ hgot hreplied
  cases g with
  | idle =>
    -- process 1 could fill in its next request
    have hi : ¬ s.i < n := by
      intro hi
      have hfits := message_fits 0
      obtain ⟨q, hq, -⟩ := format.fill_spec s.data_send₁ hfits
      refine not_stuck (a := .fill (isCommand 0) (message 0)) ?_ hfits hstuck
      rw [step.eq_def, if_neg hne]
      simp only [hq]
      exact ⟨_, if_pos ⟨h1, hi⟩⟩
    obtain ⟨-, hrep, -⟩ := hinv
    have hij : s.i = s.j := by
      rw [← hreported, hrep, hreplied]
      rfl
    simp only [Stage.pc₁, Pc₁.done] at r₁
    omega
  | writing₁ q k => exact absurd hstuck (copying₁_goes_on hover in₁ (.inl h1))
  | posted₁ q =>
    -- both processes are in the same round, and process 1 is in the middle of it
    obtain ⟨hq, hrep, hpaired⟩ := hinv
    have hj : s.j < n := by
      have hlen := hpaired.length_eq
      have hqlen := congrArg List.length hq
      rw [List.length_append, List.length_singleton] at hqlen
      have hle := counted.client_le
      rw [h1] at hle
      simp only [Stage.pc₁, Stage.pc₂, Pc₁.asked, Pc₂.answered, Bool.toNat_true] at hle hsent hreplied
      omega
    refine absurd hstuck (not_stuck (a := .wait₂) ?_ trivial)
    rw [step.eq_def, if_neg hne]
    exact ⟨_, if_pos ⟨h2, hj, by rw [hs1]; exact Nat.one_pos⟩⟩
  | reading₂ q k => exact absurd hstuck (copying₂_goes_on hover in₂ (.inl h2))
  | writing₂ r k => exact absurd hstuck (copying₂_goes_on hover in₂ (.inr h2))
  | posted₂ r =>
    refine absurd hstuck (not_stuck (a := .wait₁) ?_ trivial)
    rw [step.eq_def, if_neg hne]
    exact ⟨_, if_pos ⟨h1, by rw [hs2]; exact Nat.one_pos⟩⟩
  | reading₁ r k => exact absurd hstuck (copying₁_goes_on hover in₁ (.inr h1))

/-- **The shared memory programs come to their end.** With short requests no process waits
for good before both have run their `n` rounds, which takes `183 * n` operations; then
process 1 has a reply to each of its requests. -/
theorem shmem_complete (n : ℕ) {m d₁ d₂ : Rec 44} {b₁ b₂ : Rec 100} {as : List Act} {s : State}
    (hr : Lts.Run (Lts.When Short (Lts.Steps (step n))) (start m d₁ d₂ b₁ b₂) as s) :
    Lts.Ends (Lts.When Short (Lts.Steps (step n))) (183 * n)
      (fun s => s.i = n ∧ s.j = n ∧ Exchange.Complete format.Reply n s.log) as.length s := by
  have h0 : Turns n (start m d₁ d₂ b₁ b₂) := by
    refine ⟨⟨Exchange.start, ⟨.idle, ⟨rfl, rfl, rfl, rfl, trivial⟩, rfl, rfl, rfl⟩, rfl, rfl, .nil⟩,
      trivial, trivial, Nat.zero_le _, Nat.zero_le _, .start n⟩
  have hle : ∀ {s : State}, Turns n s → s.done ≤ 183 * n := by
    intro s h
    have h1 := h.counts.rounds₁
    have h2 := h.counts.rounds₂
    unfold State.done
    omega
  refine hr.ends (I := Turns n) (c := State.done) h0 rfl (fun h hs => (h.next hs).1)
    (fun h hs => (h.next hs).2) hle ?_ ?_
  · intro s h hstuck
    obtain ⟨hi, hj⟩ := h.through hstuck
    have hle' := hle h
    unfold State.done at hle' ⊢
    rw [hi, hj] at hle' ⊢
    omega
  · intro s h hend
    obtain ⟨-, -, h1, h2, counted⟩ := h.counts
    have hdone₁ := h.counts.inside₁.done_le
    have hdone₂ := h.counts.inside₂.done_le
    unfold State.done at hend
    have hi : s.i = n := by omega
    have hj : s.j = n := by omega
    have hwait : s.pc₂ = .wait := Pc₂.wait_of_done (by omega)
    obtain ⟨t, ⟨g, -, -, hlog, -⟩, hinv⟩ := h.turn
    have hsound : Exchange.Sound format.Reply s.log := hlog ▸ hinv.sound
    rw [hwait, hi, hj] at counted
    exact ⟨hi, hj, hsound.complete counted⟩

theorem shmem_complete_oneRound :
    ∃ s, Lts.exec (Lts.guarded Short (step 1)) (start .zero .zero .zero .zero .zero) oneRound =
        some s ∧
      Lts.Ends (Lts.When Short (Lts.Steps (step 1))) 183
        (fun s => s.i = 1 ∧ s.j = 1 ∧ Exchange.Complete format.Reply 1 s.log) 183 s := by
  obtain ⟨s, hs, -⟩ := Option.map_eq_some_iff.1 oneRound_exec
  have hlen : oneRound.length = 183 := by decide +kernel
  exact ⟨s, hs, hlen ▸ shmem_complete 1 (Lts.exec_guarded_run hs)⟩

end Shmem

end Aesd
