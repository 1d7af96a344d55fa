import Aesd.Ipc.StatusUpdate
import Aesd.Lib.Exchange

/-!
# The shared memory programs (`HW4/Related Files/IPC_shmem_p1.c`, `IPC_shmem_p2.c`)

Process 1 copies its request into the shared record, posts `sem1` and waits for `sem2`;
process 2 waits for `sem1`, copies the record out, copies its `status_update` in and posts
`sem2`. Each `memcpy` on the shared record goes byte by byte: `copyIn k` and `copyOut k`
have moved `k` bytes. `sem1` and `sem2` start at 0.

The semaphores keep the processes in turns, so no state has both inside a `memcpy`.
-/

namespace Aesd.Shmem

open CString CRecord

/-- `send` of process 1, `res` of process 2. -/
abbrev format : Format where
  size := 44
  room := 40
  greeting := ascii "You sent message:"
  room_le := by decide
  led_lt := by decide
  no_nul := greeting_no_nul

/-- The `status_update` of process 2. -/
def statusUpdate : Rec 44 → CInt → List Byte → Option (Rec 44) := format.statusUpdate

/-- The messages process 1 chooses from. -/
def message : Fin 5 → CStr
  | 0 => ⟨ascii "Hello", hello_no_nul⟩
  | 1 => ⟨ascii "LED ON", led_on_no_nul⟩
  | 2 => ⟨ascii "LED OFF", led_off_no_nul⟩
  | 3 => ⟨ascii "Good morning", good_morning_no_nul⟩
  | 4 => ⟨ascii "Bye Bye", by decide⟩

def isCommand (data : Fin 5) : CInt := if 0 < data ∧ data < 3 then 1 else 0

theorem message_fits : ∀ data : Fin 5, format.Fits (isCommand data) (message data) := by
  decide

inductive Pc₁
  /-- before `data_send` is filled in -/
  | fill
  | copyIn (k : ℕ)
  | wait
  | copyOut (k : ℕ)
deriving DecidableEq

inductive Pc₂
  | wait
  | copyOut (k : ℕ)
  | copyIn (k : ℕ)
deriving DecidableEq

structure State where
  pc₁ : Pc₁
  pc₂ : Pc₂
  /-- the loop counters -/
  i : ℕ
  j : ℕ
  sem1 : ℕ
  sem2 : ℕ
  shared_memory : Rec 44
  data_send₁ : Rec 44
  buffer₁ : Rec 100
  data_send₂ : Rec 44
  buffer₂ : Rec 100
  /-- a string copy has run out of its array -/
  overflow : Bool
  log : Exchange.Log (Rec 44) (Rec 44)
deriving DecidableEq

/-- The semaphores at 0, the rest uninitialised. -/
def start (shared_memory data_send₁ data_send₂ : Rec 44) (buffer₁ buffer₂ : Rec 100) : State :=
  ⟨.fill, .wait, 0, 0, 0, 0, shared_memory, data_send₁, buffer₁, data_send₂, buffer₂, false, .empty⟩

/-- One operation of one process; `memcpy` moves byte `k` of the record. -/
inductive Act
  | fill (is_command : CInt) (command : CStr)
  | copyIn₁ (k : ℕ)
  | post₁
  | wait₁
  | copyOut₁ (k : ℕ)
  /-- process 1 uses the record in its buffer -/
  | receive
  | wait₂
  | copyOut₂ (k : ℕ)
  /-- process 2 uses the record in its buffer -/
  | update (response1 : Rec 44)
  | copyIn₂ (k : ℕ)
  | post₂

/-- One step; after an overflow nothing is defined. -/
def step (n : ℕ) (s : State) (a : Act) : Option State :=
  if s.overflow then none
  else match a with
  | .fill is_command command =>
    if s.pc₁ = .fill ∧ s.i < n then
      match format.fill s.data_send₁ is_command command with
      | none => some { s with overflow := true }
      | some data_send =>
        some { s with pc₁ := .copyIn 0, data_send₁ := data_send, log := s.log.ask data_send }
    else none
  | .copyIn₁ k =>
    if s.pc₁ = .copyIn k ∧ k < 44 then
      some { s with pc₁ := .copyIn (k + 1),
                    shared_memory := s.shared_memory.put k (s.data_send₁.byte k) }
    else none
  | .post₁ =>
    if s.pc₁ = .copyIn 44 then some { s with pc₁ := .wait, sem1 := s.sem1 + 1 } else none
  | .wait₁ =>
    if s.pc₁ = .wait ∧ 0 < s.sem2 then some { s with pc₁ := .copyOut 0, sem2 := s.sem2 - 1 }
    else none
  | .copyOut₁ k =>
    if s.pc₁ = .copyOut k ∧ k < 44 then
      some { s with pc₁ := .copyOut (k + 1),
                    buffer₁ := s.buffer₁.put k (s.shared_memory.byte k) }
    else none
  | .receive =>
    if s.pc₁ = .copyOut 44 then
      some { s with pc₁ := .fill, i := s.i + 1,
                    log := s.log.report (s.buffer₁.cut 44 (by decide)) }
    else none
  | .wait₂ =>
    if s.pc₂ = .wait ∧ s.j < n ∧ 0 < s.sem1 then
      some { s with pc₂ := .copyOut 0, sem1 := s.sem1 - 1 }
    else none
  | .copyOut₂ k =>
    if s.pc₂ = .copyOut k ∧ k < 44 then
      some { s with pc₂ := .copyOut (k + 1),
                    buffer₂ := s.buffer₂.put k (s.shared_memory.byte k) }
    else none
  | .update response1 =>
    if s.pc₂ = .copyOut 44 then
      let s := { s with log := s.log.take (s.buffer₂.cut 44 (by decide)) }
      match statusUpdate response1 (s.buffer₂.field 0 4) (s.buffer₂.bytes.drop 4) with
      | none => some { s with overflow := true }
      | some data_send =>
        some { s with pc₂ := .copyIn 0, data_send₂ := data_send, log := s.log.answer data_send }
    else none
  | .copyIn₂ k =>
    if s.pc₂ = .copyIn k ∧ k < 44 then
      some { s with pc₂ := .copyIn (k + 1),
                    shared_memory := s.shared_memory.put k (s.data_send₂.byte k) }
    else none
  | .post₂ =>
    if s.pc₂ = .copyIn 44 then
      some { s with pc₂ := .wait, j := s.j + 1, sem2 := s.sem2 + 1 }
    else none

/-- The requests fit their array and so do the replies to them. -/
def Short (_ : State) : Act → Prop
  | .fill is_command command => format.Fits is_command command
  | _ => True

instance (s : State) (a : Act) : Decidable (Short s a) := by
  unfold Short
  split <;> infer_instance

/-- Inside a `memcpy` on the shared record: from before its first byte to after its last. -/
def Pc₁.InCopy : Pc₁ → Prop
  | .copyIn _ | .copyOut _ => True
  | _ => False

def Pc₂.InCopy : Pc₂ → Prop
  | .copyIn _ | .copyOut _ => True
  | _ => False

/-! ### The seven stages of a round -/

/-- Where a round is, with the record on its way and how many bytes of it have been copied. -/
inductive Stage
  | idle
  | writing₁ (q : Rec 44) (k : ℕ)
  | posted₁ (q : Rec 44)
  | reading₂ (q : Rec 44) (k : ℕ)
  | writing₂ (r : Rec 44) (k : ℕ)
  | posted₂ (r : Rec 44)
  | reading₁ (r : Rec 44) (k : ℕ)

namespace Stage

def phase : Stage → Exchange.Phase (Rec 44) (Rec 44)
  | .idle => .idle
  | .writing₁ q _ | .posted₁ q | .reading₂ q _ => .asked q
  | .writing₂ r _ | .posted₂ r | .reading₁ r _ => .answered r

def pc₁ : Stage → Pc₁
  | .idle => .fill
  | .writing₁ _ k => .copyIn k
  | .posted₁ _ | .reading₂ _ _ | .writing₂ _ _ | .posted₂ _ => .wait
  | .reading₁ _ k => .copyOut k

def pc₂ : Stage → Pc₂
  | .idle | .writing₁ _ _ | .posted₁ _ | .posted₂ _ | .reading₁ _ _ => .wait
  | .reading₂ _ k => .copyOut k
  | .writing₂ _ k => .copyIn k

def sem1 : Stage → ℕ
  | .posted₁ _ => 1
  | _ => 0

def sem2 : Stage → ℕ
  | .posted₂ _ => 1
  | _ => 0

/-- What the shared record and the variables hold. -/
def Data (s : State) : Stage → Prop
  | .idle => True
  | .writing₁ q k => format.Ready q ∧ s.data_send₁ = q ∧ s.shared_memory.Copied k q
  | .posted₁ q => format.Ready q ∧ s.shared_memory = q
  | .reading₂ q k => format.Ready q ∧ s.shared_memory = q ∧ s.buffer₂.Copied k q
  | .writing₂ r k => s.data_send₂ = r ∧ s.shared_memory.Copied k r
  | .posted₂ r => s.shared_memory = r
  | .reading₁ r k => s.shared_memory = r ∧ s.buffer₁.Copied k r

variable {g : Stage} {k : ℕ}

theorem of_fill (h : g.pc₁ = .fill) : g = .idle := by
  cases g <;> first | rfl | cases h

theorem of_copyIn₁ (h : g.pc₁ = .copyIn k) : ∃ q, g = .writing₁ q k := by
  cases g <;> cases h
  exact ⟨_, rfl⟩

theorem of_copyOut₁ (h : g.pc₁ = .copyOut k) : ∃ r, g = .reading₁ r k := by
  cases g <;> cases h
  exact ⟨_, rfl⟩

theorem of_copyOut₂ (h : g.pc₂ = .copyOut k) : ∃ q, g = .reading₂ q k := by
  cases g <;> cases h
  exact ⟨_, rfl⟩

theorem of_copyIn₂ (h : g.pc₂ = .copyIn k) : ∃ r, g = .writing₂ r k := by
  cases g <;> cases h
  exact ⟨_, rfl⟩

theorem of_sem1 (h : 0 < g.sem1) : ∃ q, g = .posted₁ q := by
  cases g with
  | posted₁ q => exact ⟨q, rfl⟩
  | _ => exact absurd h (lt_irrefl 0)

theorem of_sem2 (h : 0 < g.sem2) : ∃ r, g = .posted₂ r := by
  cases g with
  | posted₂ r => exact ⟨r, rfl⟩
  | _ => exact absurd h (lt_irrefl 0)

theorem not_both_inCopy (g : Stage) : ¬ (g.pc₁.InCopy ∧ g.pc₂.InCopy) := by
  rintro ⟨h1, h2⟩
  cases g with
  | idle | posted₁ q | posted₂ r => exact h1
  | writing₁ q k | reading₁ r k => exact h2
  | reading₂ q k | writing₂ r k => exact h1

end Stage

/-- The state is at stage `g`. -/
structure At (s : State) (g : Stage) : Prop where
  pc₁ : s.pc₁ = g.pc₁
  pc₂ : s.pc₂ = g.pc₂
  sem1 : s.sem1 = g.sem1
  sem2 : s.sem2 = g.sem2
  data : g.Data s

def Rel (s : State) (t : Exchange.State (Rec 44) (Rec 44)) : Prop :=
  ∃ g : Stage, At s g ∧ g.phase = t.phase ∧ s.log = t.log ∧ s.overflow = false

variable {n : ℕ} {s s' : State} {t : Exchange.State (Rec 44) (Rec 44)}

/-- **Every operation moves the round to its next stage.** -/
theorem simulates {a : Act} (h : Rel s t) (hs : Lts.When Short (Lts.Steps (step n)) s a s') :
    ∃ t', Relation.ReflTransGen (Exchange.Step format.Reply) t t' ∧ Rel s' t' := by
  obtain ⟨hs, hshort⟩ := hs
  obtain ⟨phase, l⟩ := t
  obtain ⟨g, ⟨h1, h2, hs1, hs2, hd⟩, hphase, rfl, hover⟩ := h
  have hne : ¬ s.overflow = true := by rw [hover]; decide
  rw [Lts.Steps, step.eq_def, if_neg hne] at hs
  cases a with
  | fill is_command command =>
    obtain ⟨q, hq, hready, -⟩ := format.fill_spec s.data_send₁ hshort
    simp only [hq, Option.ite_none_right_eq_some, Option.some.injEq] at hs
    obtain ⟨⟨hpc, -⟩, rfl⟩ := hs
    obtain rfl := Stage.of_fill (h1.symm.trans hpc)
    obtain rfl := hphase
    exact ⟨_, .single (.ask q _), .writing₁ q 0,
      ⟨rfl, h2, hs1, hs2, hready, rfl, .zero _ _⟩, rfl, rfl, hover⟩
  | copyIn₁ k =>
    simp only [Option.ite_none_right_eq_some, Option.some.injEq] at hs
    obtain ⟨⟨hpc, hk⟩, rfl⟩ := hs
    obtain ⟨q, rfl⟩ := Stage.of_copyIn₁ (h1.symm.trans hpc)
    obtain ⟨hready, rfl, hcopy⟩ := hd
    exact ⟨_, .refl, .writing₁ _ (k + 1),
      ⟨rfl, h2, hs1, hs2, hready, rfl, hcopy.succ hk hk⟩, hphase, rfl, hover⟩
  | post₁ =>
    simp only [Option.ite_none_right_eq_some, Option.some.injEq] at hs
    obtain ⟨hpc, rfl⟩ := hs
    obtain ⟨q, rfl⟩ := Stage.of_copyIn₁ (h1.symm.trans hpc)
    obtain ⟨hready, -, hcopy⟩ := hd
    -- all 44 bytes are in the shared record
    exact ⟨_, .refl, .posted₁ q,
      ⟨rfl, h2, by rw [hs1]; rfl, hs2, hready, hcopy.eq⟩, hphase, rfl, hover⟩
  | wait₁ =>
    simp only [Option.ite_none_right_eq_some, Option.some.injEq] at hs
    obtain ⟨⟨-, hpos⟩, rfl⟩ := hs
    obtain ⟨r, rfl⟩ := Stage.of_sem2 (hs2 ▸ hpos)
    exact ⟨_, .refl, .reading₁ r 0,
      ⟨rfl, h2, hs1, by rw [hs2]; rfl, hd, .zero _ _⟩, hphase, rfl, hover⟩
  | copyOut₁ k =>
    simp only [Option.ite_none_right_eq_some, Option.some.injEq] at hs
    obtain ⟨⟨hpc, hk⟩, rfl⟩ := hs
    obtain ⟨r, rfl⟩ := Stage.of_copyOut₁ (h1.symm.trans hpc)
    obtain ⟨rfl, hcopy⟩ := hd
    exact ⟨_, .refl, .reading₁ _ (k + 1),
      ⟨rfl, h2, hs1, hs2, rfl, hcopy.succ (by omega) hk⟩, hphase, rfl, hover⟩
  | receive =>
    simp only [Option.ite_none_right_eq_some, Option.some.injEq] at hs
    obtain ⟨hpc, rfl⟩ := hs
    obtain ⟨r, rfl⟩ := Stage.of_copyOut₁ (h1.symm.trans hpc)
    obtain rfl := hphase
    have hcut : s.buffer₁.cut 44 (by decide) = r := by
      rw [hd.2.put r (by decide), Rec.cut_put]
    rw [hcut]
    exact ⟨_, .single (.report r _), .idle, ⟨rfl, h2, hs1, hs2, trivial⟩, rfl, rfl, hover⟩
  | wait₂ =>
    simp only [Option.ite_none_right_eq_some, Option.some.injEq] at hs
    obtain ⟨⟨-, -, hpos⟩, rfl⟩ := hs
    obtain ⟨q, rfl⟩ := Stage.of_sem1 (hs1 ▸ hpos)
    exact ⟨_, .refl, .reading₂ q 0,
      ⟨h1, rfl, by rw [hs1]; rfl, hs2, hd.1, hd.2, .zero _ _⟩, hphase, rfl, hover⟩
  | copyOut₂ k =>
    simp only [Option.ite_none_right_eq_some, Option.some.injEq] at hs
    obtain ⟨⟨hpc, hk⟩, rfl⟩ := hs
    obtain ⟨q, rfl⟩ := Stage.of_copyOut₂ (h2.symm.trans hpc)
    obtain ⟨hready, rfl, hcopy⟩ := hd
    exact ⟨_, .refl, .reading₂ _ (k + 1),
      ⟨h1, rfl, hs1, hs2, hready, rfl, hcopy.succ (by omega) hk⟩, hphase, rfl, hover⟩
  | update response1 =>
    simp only [Option.ite_none_right_eq_some] at hs
    obtain ⟨hpc, hs⟩ := hs
    obtain ⟨q, rfl⟩ := Stage.of_copyOut₂ (h2.symm.trans hpc)
    obtain ⟨hready, -, hcopy⟩ := hd
    obtain rfl := hphase
    -- the whole request is in the buffer
    have hbuf := hcopy.put q (by decide)
    have hcut : s.buffer₂.cut 44 (by decide) = q := by rw [hbuf, Rec.cut_put]
    obtain ⟨r, hr, hreply⟩ := hready.reply response1
    rw [← Format.statusUpdate_buffer s.buffer₂ (by decide) hready, ← hbuf] at hr
    simp only [statusUpdate, hr, hcut, Option.some.injEq] at hs
    obtain rfl := hs
    -- the server takes the request and its answer is fixed, though not yet visible
    exact ⟨_, .tail (.single (.take q _)) (.answer q r _ hreply), .writing₂ r 0,
      ⟨h1, rfl, hs1, hs2, rfl, .zero _ _⟩, rfl, rfl, hover⟩
  | copyIn₂ k =>
    simp only [Option.ite_none_right_eq_some, Option.some.injEq] at hs
    obtain ⟨⟨hpc, hk⟩, rfl⟩ := hs
    obtain ⟨r, rfl⟩ := Stage.of_copyIn₂ (h2.symm.trans hpc)
    obtain ⟨rfl, hcopy⟩ := hd
    exact ⟨_, .refl, .writing₂ _ (k + 1),
      ⟨h1, rfl, hs1, hs2, rfl, hcopy.succ hk hk⟩, hphase, rfl, hover⟩
  | post₂ =>
    simp only [Option.ite_none_right_eq_some, Option.some.injEq] at hs
    obtain ⟨hpc, rfl⟩ := hs
    obtain ⟨r, rfl⟩ := Stage.of_copyIn₂ (h2.symm.trans hpc)
    exact ⟨_, .refl, .posted₂ r,
      ⟨h1, rfl, hs1, by rw [hs2]; rfl, hd.2.eq⟩, hphase, rfl, hover⟩

/-- **The shared memory programs**, after any steps of the two processes in any order, with
short requests: never are both inside a `memcpy` on the shared record, no string copy runs
out of its array, and the records pair up round by round. -/
theorem shmem_in_turns (n : ℕ) {m d₁ d₂ : Rec 44} {b₁ b₂ : Rec 100} {as : List Act} {s : State}
    (hr : Lts.Run (Lts.When Short (Lts.Steps (step n))) (start m d₁ d₂ b₁ b₂) as s) :
    ¬ (s.pc₁.InCopy ∧ s.pc₂.InCopy) ∧ s.overflow = false ∧ Exchange.Sound format.Reply s.log := by
  have h0 : Rel (start m d₁ d₂ b₁ b₂) Exchange.start :=
    ⟨.idle, ⟨rfl, rfl, rfl, rfl, trivial⟩, rfl, rfl, rfl⟩
  obtain ⟨t, ⟨g, hat, -, hlog, hover⟩, hsound⟩ :=
    Exchange.sound_of_run h0 (fun h hs => simulates h hs) hr
  rw [← hlog] at hsound
  have hexcl := g.not_both_inCopy
  rw [← hat.pc₁, ← hat.pc₂] at hexcl
  exact ⟨hexcl, hover, hsound⟩

/-- A whole `memcpy`. -/
def memcpy (byteStep : ℕ → Act) : List Act := (List.range 44).map byteStep

/-- One round with the message `LED ON`. -/
def oneRound : List Act :=
  List.flatten [[.fill (isCommand 1) (message 1)], memcpy .copyIn₁, [.post₁, .wait₂],
    memcpy .copyOut₂, [.update .zero], memcpy .copyIn₂, [.post₂, .wait₁], memcpy .copyOut₁,
    [.receive]]

theorem oneRound_exec :
    (Lts.exec (Lts.guarded Short (step 1)) (start .zero .zero .zero .zero .zero) oneRound).map
      (fun s => s.log.reported.map (Rec.text · 4)) = some [ascii "LED is now ON"] := by
  decide +kernel

theorem shmem_in_turns_oneRound :
    ∃ s, Lts.exec (Lts.guarded Short (step 1)) (start .zero .zero .zero .zero .zero) oneRound =
        some s ∧ s.log.reported.map (Rec.text · 4) = [ascii "LED is now ON"] ∧
      ¬ (s.pc₁.InCopy ∧ s.pc₂.InCopy) ∧ s.overflow = false ∧
      Exchange.Sound format.Reply s.log := by
  obtain ⟨s, hs, he⟩ := Option.map_eq_some_iff.1 oneRound_exec
  exact ⟨s, hs, he, shmem_in_turns 1 (Lts.exec_guarded_run hs)⟩

end Aesd.Shmem
