import Aesd.Ipc.Queue
import Aesd.Ipc.Socket
import Aesd.Lib.Progress
import Aesd.Lib.Rounds

/-!
# How the programs that get out of turn end

The message queue and the socket do not keep client and server in turns, so their
histories need not pair up. What still holds in every run, whatever the requests, the
order of the calls and the lengths of the reads:

* `Queue.queue_outcome`: the queue never holds a second message, so no send blocks. The
  client runs all its rounds, and the server is left behind, waiting for good, by as many
  rounds as the client took more of its own requests than the server of its own responses.
* `Socket.socket_outcome`: the programs never wait for each other. Both run all rounds, or
  one does and the other is ended by `SIGPIPE` at a send behind it.

Either pair may stop earlier only where a string copy runs out of its array.
-/

namespace Aesd

open CString CRecord

namespace Queue

def ClientPc.asked : ClientPc → Bool
  | .send => false
  | .receive => true

def ServerPc.serving : ServerPc → Bool
  | .receive => false
  | .send => true

/-- The client takes back a request of its own. -/
def ownRequest (s : State) : Act → Bool
  | .clientReceive => s.queue.head?.any fun e => e.sender = .client
  | _ => false

/-- The server takes back a response of its own. -/
def ownResponse (s : State) : Act → Bool
  | .serverReceive _ => s.queue.head?.any fun e => e.sender = .server
  | _ => false

/-- The requests in the queue. -/
def State.waiting (s : State) : ℕ := s.queue.countP fun e => e.sender = .client

/-- Before an overflow: what the queue holds, by the calls the processes are at. -/
structure Going (n : ℕ) (s : State) : Prop where
  counted : Exchange.Counted n s.log s.i s.j s.client.asked s.server.serving
  queue : s.queue.length + s.server.serving.toNat = s.client.asked.toNat

/-- Going on, or after an overflow with events left over. -/
def Inv (n : ℕ) (s : State) : Prop :=
  if s.overflow then s.log.size + 1 ≤ 4 * n ∧ s.queue.length ≤ 1 else Going n s

/-- The events, an overflow included. -/
def State.events (s : State) : ℕ := s.log.size + s.overflow.toNat

variable {n : ℕ} {s s' : State} {a : Act}

theorem Going.queue_le (h : Going n s) : s.queue.length ≤ 1 := by
  have hq := h.queue
  have hle := s.client.asked.toNat_le
  omega

/-- What a step can do before an overflow. -/
inductive Moves (n : ℕ) (s : State) : Act → State → Prop
  | ask (c : CInt) (m : CStr) (q : Rec 36) (hc : s.client = .send) (hi : s.i < n) :
      Moves n s (.clientSend c m) { s with
        client := .receive, client_data_send := q, queue := s.queue ++ [⟨.client, q⟩],
        log := s.log.ask q }
  | overfill (c : CInt) (m : CStr) (hc : s.client = .send) (hi : s.i < n) :
      Moves n s (.clientSend c m) { s with overflow := true }
  | report (e : Entry) (rest : List Entry) (b : Rec 100) (r : Rec 36) (hq : s.queue = e :: rest)
      (hc : s.client = .receive) :
      Moves n s .clientReceive { s with
        client := .send, i := s.i + 1, queue := rest, client_buffer := b, log := s.log.report r }
  | take (response1 : Rec 36) (e : Entry) (rest : List Entry) (b : Rec 100) (q d : Rec 36)
      (hq : s.queue = e :: rest) (hsv : s.server = .receive) (hj : s.j < n) :
      Moves n s (.serverReceive response1) { s with
        queue := rest, server_buffer := b, log := s.log.take q, server := .send,
        server_data_send := d }
  | overrun (response1 : Rec 36) (e : Entry) (rest : List Entry) (b : Rec 100) (q : Rec 36)
      (hq : s.queue = e :: rest) (hsv : s.server = .receive) (hj : s.j < n) :
      Moves n s (.serverReceive response1) { s with
        queue := rest, server_buffer := b, log := s.log.take q, overflow := true }
  | answer (hsv : s.server = .send) :
      Moves n s .serverSend { s with
        server := .receive, j := s.j + 1, queue := s.queue ++ [⟨.server, s.server_data_send⟩],
        log := s.log.answer s.server_data_send }

theorem step_moves (hs : step n s a = some s') : s.overflow = false ∧ Moves n s a s' := by
  by_cases hover : s.overflow = true
  · rw [step.eq_def, if_pos hover] at hs
    exact absurd hs.symm (Option.some_ne_none s')
  refine ⟨Bool.eq_false_iff.2 hover, ?_⟩
  rw [step.eq_def, if_neg hover] at hs
  cases a with
  | clientSend c m =>
    obtain ⟨⟨hc, hi⟩, hs⟩ := Option.ite_none_right_eq_some.1 hs
    cases hfill : fill s.client_data_send c m with
    | none =>
      rw [hfill] at hs
      obtain rfl := Option.some.inj hs
      exact .overfill c m hc hi
    | some q =>
      rw [hfill] at hs
      obtain rfl := Option.some.inj (Option.ite_none_right_eq_some.1 hs).2
      exact .ask c m q hc hi
  | clientReceive =>
    cases hq : s.queue with
    | nil => simp only [hq, reduceCtorEq] at hs
    | cons e rest =>
      simp only [hq] at hs
      obtain ⟨hc, hs⟩ := Option.ite_none_right_eq_some.1 hs
      obtain rfl := Option.some.inj hs
      exact .report e rest _ _ hq hc
  | serverReceive r =>
    cases hq : s.queue with
    | nil => simp only [hq, reduceCtorEq] at hs
    | cons e rest =>
      simp only [hq] at hs
      obtain ⟨⟨hsv, hj⟩, hs⟩ := Option.ite_none_right_eq_some.1 hs
      split at hs
      · obtain rfl := Option.some.inj hs
        exact .overrun r e rest _ _ hq hsv hj
      · obtain rfl := Option.some.inj hs
        exact .take r e rest _ _ _ hq hsv hj
  | serverSend =>
    obtain ⟨⟨hsv, -⟩, hs⟩ := Option.ite_none_right_eq_some.1 hs
    obtain rfl := Option.some.inj hs
    exact .answer hsv

theorem inv_going (hover : s.overflow = false) (h : Going n s) : Inv n s := by
  unfold Inv
  rwa [if_neg (by rw [hover]; decide)]

theorem Inv.going (h : Inv n s) (hover : s.overflow = false) : Going n s := by
  unfold Inv at h
  rwa [if_neg (by rw [hover]; decide)] at h

theorem Inv.queue_le (h : Inv n s) : s.queue.length ≤ 1 := by
  cases hover : s.overflow with
  | false => exact (h.going hover).queue_le
  | true =>
    unfold Inv at h
    rw [if_pos hover] at h
    exact h.2

theorem Inv.events_le (h : Inv n s) : s.events ≤ 4 * n := by
  unfold State.events
  cases hover : s.overflow with
  | false =>
    have := (h.going hover).counted.size_le
    rwa [Bool.toNat_false, Nat.add_zero]
  | true =>
    unfold Inv at h
    rw [if_pos hover] at h
    exact h.1

theorem inv_over (h : s.log.size < 4 * n) (hq : s.queue.length ≤ 1) :
    Inv n { s with overflow := true } := by
  unfold Inv
  rw [if_pos rfl]
  exact ⟨h, hq⟩

theorem inv_next (h : Inv n s) (hs : step n s a = some s') : Inv n s' := by
  obtain ⟨hover, hm⟩ := step_moves hs
  obtain ⟨hc, hq⟩ := h.going hover
  cases hm with
  | ask c m q hcl hi =>
    rw [hcl] at hc hq
    refine inv_going hover ⟨hc.ask hi q, ?_⟩
    rw [List.length_append, List.length_singleton, Nat.add_right_comm, hq]
    rfl
  | overfill c m hcl hi => exact inv_over (hc.size_lt (.inl hi)) h.queue_le
  | report e rest b r hqu hcl =>
    rw [hcl] at hc hq
    rw [hqu, List.length_cons] at hq
    refine inv_going hover ⟨hc.report r, ?_⟩
    change rest.length + s.server.serving.toNat = 0
    change rest.length + 1 + s.server.serving.toNat = 1 at hq
    omega
  | take r e rest b q d hqu hsv hj =>
    rw [hsv] at hc hq
    rw [hqu, List.length_cons] at hq
    exact inv_going hover ⟨hc.take hj q, hq⟩
  | overrun r e rest b q hqu hsv hj =>
    rw [hsv] at hc
    have hle := h.queue_le
    rw [hqu, List.length_cons] at hle
    exact inv_over (s := { s with queue := rest, server_buffer := b, log := s.log.take q })
      ((hc.take hj q).size_lt (.inr hj)) (Nat.le_of_succ_le hle)
  | answer hsv =>
    rw [hsv] at hc hq
    refine inv_going hover ⟨hc.answer _, ?_⟩
    rw [List.length_append, List.length_singleton]
    exact hq

theorem events_lt (hs : step n s a = some s') : s.events < s'.events := by
  obtain ⟨hover, hm⟩ := step_moves hs
  unfold State.events
  cases hm with
  | ask | report | take | answer | overfill => simp [hover]
  | overrun =>
    rw [Exchange.Log.size_take, hover]
    simp

/-! ### The state in which the programs stop -/

/-- The client is through, and the server waits for a message. -/
structure State.Stopped (n : ℕ) (s : State) : Prop where
  client : s.client = .send
  server : s.server = .receive
  i_eq : s.i = n
  queue : s.queue = []

theorem State.Stopped.stuck (h : s.Stopped n) : Lts.Stuck (Lts.Steps (step n)) s := by
  intro a s' hs
  obtain ⟨-, hm⟩ := step_moves hs
  obtain ⟨hcl, hsv, hi, hqu⟩ := h
  cases hm with
  | ask c m q _ hlt | overfill c m _ hlt => exact absurd hlt (by omega)
  | report e rest b r hq _ | take r e rest b q d hq _ _ | overrun r e rest b q hq _ _ =>
    rw [hqu] at hq
    cases hq
  | answer hsend =>
    rw [hsv] at hsend
    cases hsend

/-- **The client never waits for good**, and the server only for a request that is gone. -/
theorem Going.stopped (h : Going n s) (hover : s.overflow = false)
    (hstuck : Lts.Stuck (Lts.Steps (step n)) s) : s.Stopped n := by
  have hne : ¬ s.overflow = true := by rw [hover]; decide
  have hq := h.queue
  have hle := h.counted.client_le
  -- a server at its send can send
  have hsv : s.server = .receive := by
    cases hsv : s.server with
    | receive => rfl
    | send =>
      have hlen : s.queue.length < queueSize := lt_of_le_of_lt h.queue_le (by decide)
      have hnone := hstuck.eq_none .serverSend
      rw [step.eq_def, if_neg hne] at hnone
      dsimp only at hnone
      rw [if_pos ⟨hsv, hlen⟩] at hnone
      cases hnone
  rw [hsv] at hq
  cases hcl : s.client with
  | receive =>
    -- the one message in the queue is for the taking
    rw [hcl] at hq
    cases hqu : s.queue with
    | nil =>
      rw [hqu] at hq
      exact absurd hq (by decide)
    | cons e rest =>
      have hnone := hstuck.eq_none .clientReceive
      rw [step.eq_def, if_neg hne] at hnone
      simp only [hqu, hcl, if_true, reduceCtorEq] at hnone
  | send =>
    rw [hcl] at hq hle
    have hnil : s.queue = [] := List.length_eq_zero_iff.1 hq
    have hi : ¬ s.i < n := by
      intro hi
      obtain ⟨q, hfill, -⟩ := fill_spec s.client_data_send (message_fits 0)
      have hnone := hstuck.eq_none (.clientSend (isCommand 0) (message 0))
      rw [step.eq_def, if_neg hne] at hnone
      simp only [hfill, hnil] at hnone
      rw [if_pos ⟨hcl, hi⟩, if_pos (by decide)] at hnone
      cases hnone
    have hle' : s.i ≤ n := hle
    exact ⟨hcl, hsv, by omega, hnil⟩

/-- Every request sent is in the queue, or the server took it, or the client did. -/
theorem balance {d₁ d₂ : Rec 36} {b₁ b₂ : Rec 100} {as : List Act}
    (hr : Lts.Run (Lts.Steps (step n)) (start d₁ d₂ b₁ b₂) as s) :
    s.log.sent.length +
        Lts.tally (step n) (fun s a => ownResponse s a = true) (start d₁ d₂ b₁ b₂) as =
      s.waiting + s.log.got.length +
        Lts.tally (step n) (fun s a => ownRequest s a = true) (start d₁ d₂ b₁ b₂) as := by
  induction hr with
  | nil => rfl
  | @snoc as s s' a run next ih =>
    rw [Lts.tally_snoc run, Lts.tally_snoc run]
    obtain ⟨-, hm⟩ := step_moves next
    unfold State.waiting at ih ⊢
    cases hm with
    | ask c m q hcl hi =>
      simp [ownRequest, ownResponse, Exchange.Log.ask] at ih ⊢
      omega
    | overfill c m hcl hi =>
      simp [ownRequest, ownResponse] at ih ⊢
      omega
    | report e rest b r hqu hcl =>
      obtain ⟨sender, data⟩ := e
      cases sender <;> simp [ownRequest, ownResponse, hqu, Exchange.Log.report] at ih ⊢ <;> omega
    | take r e rest b q d hqu hsv hj =>
      obtain ⟨sender, data⟩ := e
      cases sender <;> simp [ownRequest, ownResponse, hqu, Exchange.Log.take] at ih ⊢ <;> omega
    | overrun r e rest b q hqu hsv hj =>
      obtain ⟨sender, data⟩ := e
      cases sender <;> simp [ownRequest, ownResponse, hqu, Exchange.Log.take] at ih ⊢ <;> omega
    | answer hsv =>
      simp [ownRequest, ownResponse, Exchange.Log.answer] at ih ⊢
      omega

/-- **How the message queue programs end.** In every run the queue holds one message at
most, there are at most `4 * n` calls, and there is a way on to a state where nothing can
happen: a copy ran out of its array, or the client is through and the server waits. Then
the server has run as many rounds fewer as the client took more own requests than the
server took own responses, and the rest it waits for will not come. -/
theorem queue_outcome (n : ℕ) {d₁ d₂ : Rec 36} {b₁ b₂ : Rec 100} {as : List Act} {s : State}
    (hr : Lts.Run (Lts.Steps (step n)) (start d₁ d₂ b₁ b₂) as s) :
    s.queue.length ≤ 1 ∧ as.length ≤ 4 * n ∧
      (∃ bs s', Lts.Run (Lts.Steps (step n)) s bs s' ∧ Lts.Stuck (Lts.Steps (step n)) s') ∧
      (Lts.Stuck (Lts.Steps (step n)) s ↔ s.overflow = true ∨ s.Stopped n) ∧
      (s.overflow = false → s.Stopped n →
        s.j + Lts.tally (step n) (fun s a => ownRequest s a = true) (start d₁ d₂ b₁ b₂) as =
          n + Lts.tally (step n) (fun s a => ownResponse s a = true) (start d₁ d₂ b₁ b₂) as) := by
  have h0 : Inv n (start d₁ d₂ b₁ b₂) := inv_going rfl ⟨.start n, rfl⟩
  have h := hr.invariant h0 inv_next
  have hlen := hr.length_add_le (c := State.events) h0 inv_next (fun _ hs => events_lt hs)
  have hle := h.events_le
  refine ⟨h.queue_le, by omega, Lts.extend (c := State.events) inv_next (fun _ hs => events_lt hs)
    Inv.events_le h, ⟨?_, ?_⟩, ?_⟩
  · intro hstuck
    cases hover : s.overflow with
    | true => exact .inl rfl
    | false => exact .inr ((h.going hover).stopped hover hstuck)
  · rintro (hover | hstopped)
    · intro a s' hs
      have hfalse := (step_moves hs).1
      rw [hover] at hfalse
      cases hfalse
    · exact hstopped.stuck
  · intro hover hstopped
    obtain ⟨hclient, hserver, hi, hqueue⟩ := hstopped
    have hbalance := balance hr
    have hcounted := (h.going hover).counted
    have hsent := hcounted.sent
    have hgot := hcounted.got
    have hwaiting : s.waiting = 0 := by
      unfold State.waiting
      rw [hqueue]
      rfl
    rw [hclient, hi] at hsent
    rw [hserver] at hgot
    change _ = n + 0 at hsent
    change _ = s.j + 0 at hgot
    omega

/-- The client takes back its only request: the server waits for it for good. -/
theorem queue_outcome_ownRequest :
    ∃ s, Lts.exec (step 1) (start .zero .zero .zero .zero)
        [.clientSend (isCommand 0) (message 0), .clientReceive] = some s ∧
      s.queue.length ≤ 1 ∧ Lts.Stuck (Lts.Steps (step 1)) s ∧ s.j + 1 = 1 + 0 := by
  have hexec : (Lts.exec (step 1) (start .zero .zero .zero .zero)
      [.clientSend (isCommand 0) (message 0), .clientReceive]).map
        (fun s => (s.client, s.server, s.i, s.queue, s.overflow)) =
      some (.send, .receive, 1, [], false) := by
    decide +kernel
  obtain ⟨s, hs, he⟩ := Option.map_eq_some_iff.1 hexec
  simp only [Prod.mk.injEq] at he
  obtain ⟨hcl, hsv, hi, hqu, hover⟩ := he
  obtain ⟨h1, -, -, h4, h5⟩ := queue_outcome 1 (Lts.exec_run _ _ hs)
  have hstopped : s.Stopped 1 := ⟨hcl, hsv, hi, hqu⟩
  have hbalance := h5 hover hstopped
  have hown : Lts.tally (step 1) (fun s a => ownRequest s a = true) (start .zero .zero .zero .zero)
      [.clientSend (isCommand 0) (message 0), .clientReceive] = 1 := by decide +kernel
  have hres : Lts.tally (step 1) (fun s a => ownResponse s a = true)
      (start .zero .zero .zero .zero) [.clientSend (isCommand 0) (message 0), .clientReceive] = 0 := by
    decide +kernel
  rw [hown, hres] at hbalance
  exact ⟨s, hs, h1, h4.2 (.inr hstopped), hbalance⟩

end Queue

namespace Socket

def ClientPc.asked : ClientPc → Bool
  | .send => false
  | .read => true
  | .killed => false

def ServerPc.serving : ServerPc → Bool
  | .read => false
  | .send => true
  | .killed => true

/-- The client was ended at a send, and the server is through. -/
def State.ClientKilled (n : ℕ) (s : State) : Prop :=
  s.client = .killed ∧ s.i < n ∧ s.serverDone n

def State.ServerKilled (n : ℕ) (s : State) : Prop :=
  s.server = .killed ∧ s.j < n ∧ s.clientDone n

/-- Before an overflow. When both processes are at a read, bytes are in flight: what the
process that sent last has sent is not yet read. -/
structure Going (n : ℕ) (s : State) : Prop where
  counted : Exchange.Counted n s.log s.i s.j s.client.asked s.server.serving
  flight : s.client = .read → s.server = .read → s.to_server ≠ [] ∨ s.to_client ≠ []
  client : s.client = .killed → s.ClientKilled n
  server : s.server = .killed → s.ServerKilled n

/-- The events, an overflow and the end of a process included. -/
def State.events (s : State) : ℕ :=
  s.log.size + s.overflow.toNat + (decide (s.client = .killed)).toNat +
    (decide (s.server = .killed)).toNat

/-- Going on, or after an overflow. -/
def Inv (n : ℕ) (s : State) : Prop :=
  if s.overflow then s.events ≤ 4 * n else Going n s

variable {n : ℕ} {s s' : State} {a : Act}

/-- What a step can do before an overflow. -/
inductive Moves (n : ℕ) (s : State) : Act → State → Prop
  | ask (c : CInt) (m : CStr) (q : Rec 56) (hc : s.client = .send) (hi : s.i < n) :
      Moves n s (.clientSend c m false) { s with
        client := .read, client_data_send := q, to_server := s.to_server ++ q.bytes,
        log := s.log.ask q }
  | overfill (c : CInt) (m : CStr) (broken : Bool) (hc : s.client = .send) (hi : s.i < n) :
      Moves n s (.clientSend c m broken) { s with overflow := true }
  | clientPipe (c : CInt) (m : CStr) (q : Rec 56) (hc : s.client = .send) (hi : s.i < n)
      (hgone : s.serverGone n) :
      Moves n s (.clientSend c m true) { s with client := .killed, client_data_send := q }
  | report (count : ℕ) (rest : List Byte) (b : Rec 1024) (r : Rec 56) (hc : s.client = .read) :
      Moves n s (.clientRead count) { s with
        client := .send, i := s.i + 1, to_client := rest, client_buffer := b,
        log := s.log.report r }
  | take (count : ℕ) (response1 : Rec 56) (rest : List Byte) (b : Rec 1024) (q d : Rec 56)
      (hsv : s.server = .read) (hj : s.j < n) :
      Moves n s (.serverRead count response1) { s with
        to_server := rest, server_buffer := b, log := s.log.take q, server := .send,
        server_data_send := d }
  | overrun (count : ℕ) (response1 : Rec 56) (rest : List Byte) (b : Rec 1024) (q : Rec 56)
      (hsv : s.server = .read) (hj : s.j < n) :
      Moves n s (.serverRead count response1) { s with
        to_server := rest, server_buffer := b, log := s.log.take q, overflow := true }
  | answer (hsv : s.server = .send) :
      Moves n s (.serverSend false) { s with
        server := .read, j := s.j + 1, to_client := s.to_client ++ s.server_data_send.bytes,
        log := s.log.answer s.server_data_send }
  | serverPipe (hsv : s.server = .send) (hgone : s.clientGone n) :
      Moves n s (.serverSend true) { s with server := .killed }

theorem step_moves (hs : step n s a = some s') : s.overflow = false ∧ Moves n s a s' := by
  by_cases hover : s.overflow = true
  · rw [step.eq_def, if_pos hover] at hs
    exact absurd hs.symm (Option.some_ne_none s')
  refine ⟨Bool.eq_false_iff.2 hover, ?_⟩
  rw [step.eq_def, if_neg hover] at hs
  cases a with
  | clientSend c m broken =>
    obtain ⟨⟨hc, hi, hreset⟩, hs⟩ := Option.ite_none_right_eq_some.1 hs
    cases hfill : format.fill s.client_data_send c m with
    | none =>
      rw [hfill] at hs
      obtain rfl := Option.some.inj hs
      exact .overfill c m broken hc hi
    | some q =>
      rw [hfill] at hs
      cases broken with
      | false =>
        obtain rfl := Option.some.inj hs
        exact .ask c m q hc hi
      | true =>
        obtain rfl := Option.some.inj hs
        exact .clientPipe c m q hc hi (hreset rfl).1
  | clientRead count =>
    obtain ⟨⟨hc, -⟩, hs⟩ := Option.ite_none_right_eq_some.1 hs
    obtain rfl := Option.some.inj hs
    exact .report count _ _ _ hc
  | serverRead count r =>
    obtain ⟨⟨hsv, hj, -⟩, hs⟩ := Option.ite_none_right_eq_some.1 hs
    dsimp only at hs
    split at hs
    · obtain rfl := Option.some.inj hs
      exact .overrun count r _ _ _ hsv hj
    · obtain rfl := Option.some.inj hs
      exact .take count r _ _ _ _ hsv hj
  | serverSend broken =>
    obtain ⟨⟨hsv, hreset⟩, hs⟩ := Option.ite_none_right_eq_some.1 hs
    cases broken with
    | false =>
      obtain rfl := Option.some.inj hs
      exact .answer hsv
    | true =>
      obtain rfl := Option.some.inj hs
      exact .serverPipe hsv (hreset rfl).1

theorem inv_going (hover : s.overflow = false) (h : Going n s) : Inv n s := by
  unfold Inv
  rwa [if_neg (by rw [hover]; decide)]

theorem Inv.going (h : Inv n s) (hover : s.overflow = false) : Going n s := by
  unfold Inv at h
  rwa [if_neg (by rw [hover]; decide)] at h

/-- While a process has rounds left, its peer was not ended: that one was ended behind it. -/
theorem Going.server_ne (h : Going n s) (hi : s.i < n) : s.server ≠ .killed := by
  intro hkilled
  obtain ⟨-, -, -, hdone⟩ := h.server hkilled
  omega

theorem Going.client_ne (h : Going n s) (hj : s.j < n) : s.client ≠ .killed := by
  intro hkilled
  obtain ⟨-, -, -, hdone⟩ := h.client hkilled
  omega

theorem Going.events_le (h : Going n s) (hover : s.overflow = false) : s.events ≤ 4 * n := by
  unfold State.events
  rw [hover]
  by_cases hcl : s.client = .killed
  · obtain ⟨-, hi, -⟩ := h.client hcl
    have hlt := h.counted.size_lt (.inl hi)
    simp [hcl, h.server_ne hi]
    omega
  · by_cases hsv : s.server = .killed
    · obtain ⟨-, hj, -⟩ := h.server hsv
      have hlt := h.counted.size_lt (.inr hj)
      simp [hcl, hsv]
      omega
    · have hle := h.counted.size_le
      simp [hcl, hsv]
      omega

theorem Inv.events_le (h : Inv n s) : s.events ≤ 4 * n := by
  cases hover : s.overflow with
  | false => exact (h.going hover).events_le hover
  | true =>
    unfold Inv at h
    rwa [if_pos hover] at h

theorem append_bytes_ne_nil (bytes : List Byte) (r : Rec 56) : bytes ++ r.bytes ≠ [] := by
  refine List.append_ne_nil_of_right_ne_nil _ (List.ne_nil_of_length_pos ?_)
  rw [r.size]
  decide

theorem inv_next (h : Inv n s) (hs : step n s a = some s') : Inv n s' := by
  obtain ⟨hover, hm⟩ := step_moves hs
  have hgoing := h.going hover
  obtain ⟨hc, -, hclient, hserver⟩ := h.going hover
  cases hm with
  | ask c m q hcl hi =>
    rw [hcl] at hc
    refine inv_going hover ⟨hc.ask hi q, fun _ _ => .inl (append_bytes_ne_nil _ q), ?_, ?_⟩
    · intro hkilled
      cases hkilled
    · intro hkilled
      exact absurd hkilled (hgoing.server_ne hi)
  | overfill c m broken hcl hi =>
    have hlt := hc.size_lt (.inl hi)
    have hsv := hgoing.server_ne hi
    unfold Inv State.events
    rw [if_pos rfl]
    simp [hcl, hsv]
    omega
  | clientPipe c m q hcl hi hgone =>
    -- the server was not ended itself, so it is through
    have hdone := hgone.resolve_right (hgoing.server_ne hi)
    rw [hcl] at hc
    refine inv_going hover ⟨hc, ?_, fun _ => ⟨rfl, hi, hdone⟩, ?_⟩
    · intro hread
      cases hread
    · intro hkilled
      exact absurd hkilled (hgoing.server_ne hi)
  | report count rest b r hcl =>
    rw [hcl] at hc
    refine inv_going hover ⟨hc.report r, ?_, ?_, ?_⟩
    · intro hread
      cases hread
    · intro hkilled
      cases hkilled
    · intro hkilled
      obtain ⟨-, -, hsend, -⟩ := hserver hkilled
      rw [hcl] at hsend
      cases hsend
  | take count r rest b q d hsv hj =>
    rw [hsv] at hc
    refine inv_going hover ⟨hc.take hj q, ?_, ?_, ?_⟩
    · intro _ hread
      cases hread
    · intro hkilled
      exact absurd hkilled (hgoing.client_ne hj)
    · intro hkilled
      cases hkilled
  | overrun count r rest b q hsv hj =>
    rw [hsv] at hc
    have hlt := (hc.take hj q).size_lt (.inr hj)
    rw [Exchange.Log.size_take] at hlt
    have hcl := hgoing.client_ne hj
    unfold Inv State.events
    rw [if_pos rfl]
    simp [hcl, hsv]
    omega
  | answer hsv =>
    rw [hsv] at hc
    refine inv_going hover ⟨hc.answer _, fun _ _ => .inr (append_bytes_ne_nil _ _), ?_, ?_⟩
    · intro hkilled
      obtain ⟨-, -, hread, -⟩ := hclient hkilled
      rw [hsv] at hread
      cases hread
    · intro hkilled
      cases hkilled
  | serverPipe hsv hgone =>
    have hj : s.j < n := by
      have hle := hc.server_le
      rw [hsv] at hle
      exact hle
    have hdone := hgone.resolve_right (hgoing.client_ne hj)
    rw [hsv] at hc
    refine inv_going hover ⟨hc, ?_, ?_, fun _ => ⟨rfl, hj, hdone⟩⟩
    · intro _ hread
      cases hread
    · intro hkilled
      exact absurd hkilled (hgoing.client_ne hj)

theorem events_lt (hs : step n s a = some s') : s.events < s'.events := by
  obtain ⟨hover, hm⟩ := step_moves hs
  unfold State.events
  cases hm with
  | ask c m q hc _ => simp [hover, hc]
  | overfill c m broken hc _ => simp [hover, hc]
  | clientPipe c m q hc _ _ => simp [hover, hc]
  | report count rest b r hc => simp [hover, hc]
  | take count r rest b q d hsv _ => simp [hover, hsv]
  | overrun count r rest b q hsv _ =>
    rw [Exchange.Log.size_take, hover]
    simp [hsv]
  | answer hsv => simp [hover, hsv]
  | serverPipe hsv _ => simp [hover, hsv]

/-- A read is never left waiting where bytes are in flight or the peer is done. -/
theorem exists_delivers {stream : List Byte} {closed : Prop} (reset : Prop)
    (h : stream ≠ [] ∨ closed) : ∃ count, Delivers stream closed reset count := by
  by_cases hnil : stream = []
  · exact ⟨0, .inr ⟨rfl, .inl ⟨hnil, h.resolve_left (fun hne => hne hnil)⟩⟩⟩
  · exact ⟨1, .inl ⟨Nat.one_pos, by decide, List.length_pos_of_ne_nil hnil⟩⟩

/-- A process is through with its loop, or ended by `SIGPIPE` behind the other one, which is
through. -/
def State.Ended (n : ℕ) (s : State) : Prop :=
  (s.clientDone n ∧ s.serverDone n) ∨ s.ClientKilled n ∨ s.ServerKilled n

/-- A server that cannot go on is through or ended, or it waits for a client that goes on. -/
theorem Going.server_stuck (h : Going n s) (hover : s.overflow = false)
    (hstuck : Lts.Stuck (Lts.Steps (step n)) s) :
    s.serverDone n ∨ s.ServerKilled n ∨
      (s.server = .read ∧ s.j < n ∧ s.to_server = [] ∧ ¬ s.clientGone n) := by
  have hne : ¬ s.overflow = true := by rw [hover]; decide
  have hserver := h.counted.server_le
  cases hsv : s.server with
  | killed => exact .inr (.inl (h.server hsv))
  | send =>
    have hnone := hstuck.eq_none (.serverSend false)
    rw [step.eq_def, if_neg hne] at hnone
    dsimp only at hnone
    rw [if_pos ⟨hsv, fun hb => absurd hb Bool.false_ne_true⟩] at hnone
    cases hnone
  | read =>
    rw [hsv] at hserver
    have hj : s.j ≤ n := hserver
    rcases Nat.lt_or_eq_of_le hj with hlt | heq
    · refine .inr (.inr ⟨rfl, hlt, ?_⟩)
      by_contra hn
      have hsome : s.to_server ≠ [] ∨ s.clientGone n := (not_and_or.1 hn).imp_right not_not.1
      obtain ⟨count, hdel⟩ := exists_delivers (s.serverReset n) hsome
      have hnone := hstuck.eq_none (.serverRead count .zero)
      rw [step.eq_def, if_neg hne] at hnone
      dsimp only at hnone
      rw [if_pos ⟨hsv, hlt, hdel⟩] at hnone
      split at hnone <;> cases hnone
    · exact .inl ⟨hsv, heq⟩

theorem Going.client_stuck (h : Going n s) (hover : s.overflow = false)
    (hstuck : Lts.Stuck (Lts.Steps (step n)) s) :
    s.clientDone n ∨ s.ClientKilled n ∨
      (s.client = .read ∧ s.to_client = [] ∧ ¬ s.serverGone n) := by
  have hne : ¬ s.overflow = true := by rw [hover]; decide
  have hclient := h.counted.client_le
  cases hcl : s.client with
  | killed => exact .inr (.inl (h.client hcl))
  | send =>
    rw [hcl] at hclient
    have hle : s.i ≤ n := hclient
    have hi : ¬ s.i < n := by
      intro hi
      obtain ⟨q, hfill, -⟩ := format.fill_spec s.client_data_send (message_fits 0)
      have hnone := hstuck.eq_none (.clientSend (isCommand 0) (message 0) false)
      rw [step.eq_def, if_neg hne] at hnone
      simp only [hfill] at hnone
      rw [if_pos ⟨hcl, hi, fun hb => absurd hb Bool.false_ne_true⟩] at hnone
      cases hnone
    exact .inl ⟨hcl, by omega⟩
  | read =>
    refine .inr (.inr ⟨rfl, ?_⟩)
    by_contra hn
    have hsome : s.to_client ≠ [] ∨ s.serverGone n := (not_and_or.1 hn).imp_right not_not.1
    obtain ⟨count, hdel⟩ := exists_delivers (s.clientReset n) hsome
    have hnone := hstuck.eq_none (.clientRead count)
    rw [step.eq_def, if_neg hne] at hnone
    dsimp only at hnone
    rw [if_pos ⟨hcl, hdel⟩] at hnone
    cases hnone

/-- The process that makes a call. -/
theorem Moves.mover (hm : Moves n s a s') :
    (s.client = .send ∧ s.i < n) ∨ s.client = .read ∨ (s.server = .read ∧ s.j < n) ∨
      s.server = .send := by
  cases hm with
  | ask c m q hc hi => exact .inl ⟨hc, hi⟩
  | overfill c m broken hc hi => exact .inl ⟨hc, hi⟩
  | clientPipe c m q hc hi _ => exact .inl ⟨hc, hi⟩
  | report count rest b r hc => exact .inr (.inl hc)
  | take count r rest b q d hsv hj => exact .inr (.inr (.inl ⟨hsv, hj⟩))
  | overrun count r rest b q hsv hj => exact .inr (.inr (.inl ⟨hsv, hj⟩))
  | answer hsv => exact .inr (.inr (.inr hsv))
  | serverPipe hsv _ => exact .inr (.inr (.inr hsv))

/-- **No process waits for good.** -/
theorem Going.ended (h : Going n s) (hover : s.overflow = false)
    (hstuck : Lts.Stuck (Lts.Steps (step n)) s) : s.Ended n := by
  rcases h.client_stuck hover hstuck with hcl | hcl | ⟨hread, hnil, hgone⟩
  · rcases h.server_stuck hover hstuck with hsv | hsv | ⟨-, -, -, hwait⟩
    · exact .inl ⟨hcl, hsv⟩
    · exact .inr (.inr hsv)
    · exact absurd (.inl hcl) hwait
  · exact .inr (.inl hcl)
  · -- the client would read what is in flight, or the end of the stream
    rcases h.server_stuck hover hstuck with hsv | hsv | ⟨hsv, -, hnil', -⟩
    · exact absurd (.inl hsv) hgone
    · exact absurd (.inr hsv.1) hgone
    · exact absurd (h.flight hread hsv) (by tauto)

theorem State.Ended.stuck (h : s.Ended n) : Lts.Stuck (Lts.Steps (step n)) s := by
  intro a s' hs
  have hmover := (step_moves hs).2.mover
  obtain ⟨⟨hcl, hi⟩, hsv, hj⟩ | ⟨hcl, -, hsv, hj⟩ | ⟨hsv, -, hcl, hi⟩ := h
  all_goals
    rw [hcl, hsv] at hmover
    rcases hmover with ⟨h1, h2⟩ | h1 | ⟨h1, h2⟩ | h1 <;> first | omega | cases h1

/-- **How the socket programs end.** In every run, with whatever bytes the reads return and
wherever a reset comes in, there are at most `4 * n` calls, and there is a way on to a state
where nothing can happen: a copy ran out of its array, or both programs are through, or one
is through and a send to it has ended the other. -/
theorem socket_outcome (n : ℕ) {d₁ d₂ : Rec 56} {as : List Act} {s : State}
    (hr : Lts.Run (Lts.Steps (step n)) (start d₁ d₂) as s) :
    as.length ≤ 4 * n ∧
      (∃ bs s', Lts.Run (Lts.Steps (step n)) s bs s' ∧ Lts.Stuck (Lts.Steps (step n)) s') ∧
      (Lts.Stuck (Lts.Steps (step n)) s ↔ s.overflow = true ∨
        (s.clientDone n ∧ s.serverDone n) ∨
        (s.client = .killed ∧ s.i < n ∧ s.serverDone n) ∨
        (s.server = .killed ∧ s.j < n ∧ s.clientDone n)) := by
  have h0 : Inv n (start d₁ d₂) := by
    refine inv_going rfl ⟨.start n, ?_, ?_, ?_⟩ <;> intro hpc <;> cases hpc
  have h := hr.invariant h0 inv_next
  have hlen := hr.length_add_le (c := State.events) h0 inv_next (fun _ hs => events_lt hs)
  have hle := h.events_le
  refine ⟨by omega, Lts.extend (c := State.events) inv_next (fun _ hs => events_lt hs)
    Inv.events_le h, ?_, ?_⟩
  · intro hstuck
    cases hover : s.overflow with
    | true => exact .inl rfl
    | false => exact .inr ((h.going hover).ended hover hstuck)
  · rintro (hover | hended)
    · intro a s' hs
      have hfalse := (step_moves hs).1
      rw [hover] at hfalse
      cases hfalse
    · exact State.Ended.stuck hended

/-- The server spends its two rounds on two bytes of the first request and is gone; the
client's second send ends the client. -/
theorem socket_outcome_killed :
    ∃ s, Lts.exec (step 2) (start .zero .zero)
        [.clientSend (isCommand 0) (message 0) false, .serverRead 1 .zero, .serverSend false,
          .serverRead 1 .zero, .serverSend false, .clientRead 56,
          .clientSend (isCommand 0) (message 0) true] = some s ∧
      s.client = .killed ∧ Lts.Stuck (Lts.Steps (step 2)) s := by
  have hexec : (Lts.exec (step 2) (start .zero .zero)
      [.clientSend (isCommand 0) (message 0) false, .serverRead 1 .zero, .serverSend false,
        .serverRead 1 .zero, .serverSend false, .clientRead 56,
        .clientSend (isCommand 0) (message 0) true]).map
          (fun s => (s.client, s.i, s.server, s.j)) = some (.killed, 1, .read, 2) := by
    decide +kernel
  obtain ⟨s, hs, he⟩ := Option.map_eq_some_iff.1 hexec
  simp only [Prod.mk.injEq] at he
  obtain ⟨hcl, hi, hsv, hj⟩ := he
  have houtcome := (socket_outcome 2 (Lts.exec_run _ _ hs)).2.2
  exact ⟨s, hs, hcl, houtcome.2 (.inr (.inr (.inl ⟨hcl, by omega, hsv, hj⟩)))⟩

end Socket

end Aesd
