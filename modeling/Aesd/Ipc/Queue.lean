import Aesd.Ipc.StatusUpdate
import Aesd.Lib.Exchange

/-!
# The message queue programs (`HW4/Related Files/IPC_msg_p1.c`, `IPC_msg_p2.c`)

The client sends a request and receives, the server receives, calls `status_update` and
sends. Both use the one queue `/my_queue`, a FIFO of at most `queue_size` messages that
gives its oldest message to whichever process calls `mq_receive`. So a process can take
back its own message; entries carry the process that put them (`Sender`), to say so.

* `pairs_up_of_regular`: while every receive takes a message of the other process and the
  requests fit their array, requests and responses pair up.
* `client_takes_own_request`: a run where the client receives first.
-/

namespace Aesd.Queue

open CString CRecord

/-- `data` of the client, `command` of the server. -/
abbrev format : Format where
  size := 36
  room := 30
  greeting := ascii "You sent message:"
  room_le := by decide
  led_lt := by decide
  no_nul := greeting_no_nul

/-- The server's `status_update`. -/
def statusUpdate : Rec 36 → CInt → List Byte → Option (Rec 36) := format.statusUpdate

def queueSize : ℕ := 8

/-- The messages the client chooses from. -/
def message : Fin 5 → CStr
  | 0 => ⟨ascii "Hello", hello_no_nul⟩
  | 1 => ⟨ascii "LED ON", led_on_no_nul⟩
  | 2 => ⟨ascii "LED OFF", led_off_no_nul⟩
  | 3 => ⟨ascii "Good morning", good_morning_no_nul⟩
  | 4 => ⟨ascii "Bye bye", bye_no_nul⟩

def isCommand (data1 : Fin 5) : CInt := if 0 < data1 ∧ data1 < 3 then 1 else 0

/-- The client's own messages fit, `Good morning` exactly. -/
theorem message_fits : ∀ data1 : Fin 5, format.Fits (isCommand data1) (message data1) := by
  decide

inductive Sender
  | client
  | server
deriving DecidableEq

structure Entry where
  sender : Sender
  data : Rec 36
deriving DecidableEq

inductive ClientPc
  | send
  | receive
deriving DecidableEq

inductive ServerPc
  | receive
  | send
deriving DecidableEq

structure State where
  client : ClientPc
  server : ServerPc
  /-- the loop counters of client and server -/
  i : ℕ
  j : ℕ
  queue : List Entry
  client_data_send : Rec 36
  client_buffer : Rec 100
  server_data_send : Rec 36
  server_buffer : Rec 100
  /-- a string copy has run out of its array -/
  overflow : Bool
  log : Exchange.Log (Rec 36) (Rec 36)
deriving DecidableEq

/-- Both processes at their loops with the queue open and empty. -/
def start (client_data_send server_data_send : Rec 36) (client_buffer server_buffer : Rec 100) :
    State :=
  ⟨.send, .receive, 0, 0, [], client_data_send, client_buffer, server_data_send, server_buffer,
    false, .empty⟩

/-- One call of `mq_send` or `mq_receive`; the client's request is filled in before its
send, the server's response after its receive, in an uninitialised `response1`. -/
inductive Act
  | clientSend (is_command : CInt) (message : CStr)
  | clientReceive
  | serverReceive (response1 : Rec 36)
  | serverSend

/-- The client copies the message before it sets `is_command`. -/
def fill (data_send : Rec 36) (is_command : CInt) (message : CStr) : Option (Rec 36) :=
  (data_send.strcpy 4 30 message.bytes).map fun data_send => data_send.setField 0 4 is_command

/-- One step. A send blocks on a full queue, a receive on an empty one; after an overflow
nothing is defined. -/
def step (n : ℕ) (s : State) (a : Act) : Option State :=
  if s.overflow then none
  else match a with
  | .clientSend is_command message =>
    if s.client = .send ∧ s.i < n then
      match fill s.client_data_send is_command message with
      | none => some { s with overflow := true }
      | some data_send =>
        if s.queue.length < queueSize then
          some { s with client := .receive, client_data_send := data_send,
                        queue := s.queue ++ [⟨.client, data_send⟩], log := s.log.ask data_send }
        else none
    else none
  | .clientReceive =>
    match s.queue with
    | [] => none
    | e :: rest =>
      if s.client = .receive then
        let buffer := s.client_buffer.put 0 e.data.bytes
        some { s with client := .send, i := s.i + 1, queue := rest, client_buffer := buffer,
                      log := s.log.report (buffer.cut 36 (by decide)) }
      else none
  | .serverReceive response1 =>
    match s.queue with
    | [] => none
    | e :: rest =>
      if s.server = .receive ∧ s.j < n then
        let buffer := s.server_buffer.put 0 e.data.bytes
        let s := { s with queue := rest, server_buffer := buffer,
                          log := s.log.take (buffer.cut 36 (by decide)) }
        match statusUpdate response1 (buffer.field 0 4) (buffer.bytes.drop 4) with
        | none => some { s with overflow := true }
        | some data_send => some { s with server := .send, server_data_send := data_send }
      else none
  | .serverSend =>
    if s.server = .send ∧ s.queue.length < queueSize then
      some { s with server := .receive, j := s.j + 1,
                    queue := s.queue ++ [⟨.server, s.server_data_send⟩],
                    log := s.log.answer s.server_data_send }
    else none

/-- What the two programs are for: the server receives requests of the client only, and
what the client receives in a round is the `status_update` of that round's request. -/
def PairsUp (l : Exchange.Log (Rec 36) (Rec 36)) : Prop :=
  (∀ q ∈ l.got, q ∈ l.sent) ∧
    ∀ (i : ℕ) (r : Rec 36), l.reported[i]? = some r → ∃ q, l.sent[i]? = some q ∧ format.Reply q r

/-- Every receive takes a message of the other process, and the requests fit. -/
def Regular (s : State) : Act → Prop
  | .clientSend is_command message => format.Fits is_command message
  | .clientReceive => ∀ e ∈ s.queue.head?, e.sender = .server
  | .serverReceive _ => ∀ e ∈ s.queue.head?, e.sender = .client
  | .serverSend => True

instance (s : State) : ∀ a, Decidable (Regular s a)
  | .clientSend is_command message => inferInstanceAs (Decidable (format.Fits is_command message))
  | .clientReceive => inferInstanceAs (Decidable (∀ e ∈ s.queue.head?, e.sender = .server))
  | .serverReceive _ => inferInstanceAs (Decidable (∀ e ∈ s.queue.head?, e.sender = .client))
  | .serverSend => inferInstanceAs (Decidable True)

/-- The program counters and the queue in each turn. -/
def InTurn (s : State) : Exchange.Phase (Rec 36) (Rec 36) → Prop
  | .idle => s.client = .send ∧ s.server = .receive ∧ s.queue = []
  | .asked q =>
    s.client = .receive ∧ s.server = .receive ∧ s.queue = [⟨.client, q⟩] ∧ format.Ready q
  | .serving q =>
    s.client = .receive ∧ s.server = .send ∧ s.queue = [] ∧ format.Reply q s.server_data_send
  | .answered r => s.client = .receive ∧ s.server = .receive ∧ s.queue = [⟨.server, r⟩]

structure Rel (s : State) (t : Exchange.State (Rec 36) (Rec 36)) : Prop where
  turn : InTurn s t.phase
  log : s.log = t.log
  overflow : s.overflow = false

variable {n : ℕ} {s s' : State} {t : Exchange.State (Rec 36) (Rec 36)}

theorem fill_spec (r : Rec 36) {c : CInt} {m : CStr} (h : format.Fits c m) :
    ∃ q, fill r c m = some q ∧ format.Ready q := by
  have hm : text m.bytes = m.bytes := text_eq_self m.no_nul
  have hlt : (text m.bytes).length < 30 := by rw [hm]; exact h.1
  obtain ⟨r', hr, ht, -⟩ := Rec.text_strcpy r (o := 4) (by decide) hlt
  have h4 : 0 + (toLe 4 c.toNat).length ≤ 36 := by rw [length_toLe]; decide
  have htext : (r'.setField 0 4 c).text 4 = m.bytes := by
    rw [Rec.setField, Rec.text_put_after r' h4 (by rw [length_toLe]), ht, hm]
  have hcmd : (r'.setField 0 4 c).field 0 4 = c := Rec.field_put r' (by decide) c
  refine ⟨_, by rw [fill, hr]; rfl, ⟨?_, ?_⟩⟩
  · rw [htext]
    have h1 : m.bytes.length < 30 := h.1
    show 4 + m.bytes.length < 36
    omega
  · rw [htext, hcmd]
    exact h.2

/-! ### Whose turn it is -/

theorem InTurn.of_clientSend {p : Exchange.Phase (Rec 36) (Rec 36)} (h : InTurn s p)
    (hc : s.client = .send) : p = .idle := by
  cases p with
  | idle => rfl
  | asked q | serving q | answered r => exact absurd (hc.symm.trans h.1) (by decide)

/-- A message in the queue is the request asked or the response given. -/
theorem InTurn.of_head {p : Exchange.Phase (Rec 36) (Rec 36)} (h : InTurn s p) {e : Entry}
    {rest : List Entry} (hq : s.queue = e :: rest) :
    rest = [] ∧ (p = .asked e.data ∧ e.sender = .client ∨
      p = .answered e.data ∧ e.sender = .server) := by
  cases p with
  | idle => exact absurd (hq.symm.trans h.2.2) (List.cons_ne_nil _ _)
  | serving q => exact absurd (hq.symm.trans h.2.2.1) (List.cons_ne_nil _ _)
  | asked q =>
    obtain ⟨rfl, rfl⟩ := List.cons_eq_cons.1 (hq.symm.trans h.2.2.1)
    exact ⟨rfl, .inl ⟨rfl, rfl⟩⟩
  | answered r =>
    obtain ⟨rfl, rfl⟩ := List.cons_eq_cons.1 (hq.symm.trans h.2.2)
    exact ⟨rfl, .inr ⟨rfl, rfl⟩⟩

theorem InTurn.of_serverSend {p : Exchange.Phase (Rec 36) (Rec 36)} (h : InTurn s p)
    (hc : s.server = .send) : ∃ q, p = .serving q := by
  cases p with
  | idle | asked q | answered r => exact absurd (hc.symm.trans h.2.1) (by decide)
  | serving q => exact ⟨q, rfl⟩

/-! ### The simulation -/

/-- **A regular step is a step of the exchange in turns.** -/
theorem simulates {a : Act} (h : Rel s t) (hs : Lts.When Regular (Lts.Steps (step n)) s a s') :
    ∃ t', Relation.ReflTransGen (Exchange.Step format.Reply) t t' ∧ Rel s' t' := by
  obtain ⟨hs, hreg⟩ := hs
  obtain ⟨phase, l⟩ := t
  obtain ⟨turn, rfl, hover⟩ := h
  have hne : ¬ s.overflow = true := by rw [hover]; decide
  rw [Lts.Steps, step.eq_def, if_neg hne] at hs
  cases a with
  | clientSend is_command message =>
    obtain ⟨q, hq, hready⟩ := fill_spec s.client_data_send hreg
    simp only [hq, Option.ite_none_right_eq_some, Option.some.injEq] at hs
    obtain ⟨⟨hc, -⟩, -, rfl⟩ := hs
    obtain rfl := turn.of_clientSend hc
    obtain ⟨-, hsv, hqu⟩ := turn
    refine ⟨_, .single (.ask q _), ⟨⟨rfl, hsv, ?_, hready⟩, rfl, hover⟩⟩
    rw [hqu, List.nil_append]
  | clientReceive =>
    cases hqu : s.queue with
    | nil => simp [hqu] at hs
    | cons e rest =>
      simp only [hqu, Option.ite_none_right_eq_some, Option.some.injEq] at hs
      obtain ⟨hc, rfl⟩ := hs
      have hsend : e.sender = .server := hreg e (by rw [hqu]; rfl)
      -- the message is no request of the client's own
      obtain ⟨rfl, ⟨rfl, hcl⟩ | ⟨rfl, -⟩⟩ := turn.of_head hqu
      · exact absurd (hsend.symm.trans hcl) (by decide)
      · rw [Rec.cut_put]
        exact ⟨_, .single (.report _ _), ⟨⟨rfl, turn.2.1, rfl⟩, rfl, hover⟩⟩
  | serverReceive response1 =>
    cases hqu : s.queue with
    | nil => simp [hqu] at hs
    | cons e rest =>
      have hcl : e.sender = .client := hreg e (by rw [hqu]; rfl)
      -- the message is no response of the server's own
      obtain ⟨rfl, ⟨rfl, -⟩ | ⟨rfl, hsend⟩⟩ := turn.of_head hqu
      · obtain ⟨hc, -, -, hready⟩ := turn
        obtain ⟨r, hr, hreply⟩ := hready.reply response1
        rw [← Format.statusUpdate_buffer s.server_buffer (by decide) hready] at hr
        simp only [hqu, statusUpdate, hr, Option.ite_none_right_eq_some, Option.some.injEq,
          Rec.cut_put] at hs
        obtain ⟨-, rfl⟩ := hs
        exact ⟨_, .single (.take _ _), ⟨⟨hc, rfl, rfl, hreply⟩, rfl, hover⟩⟩
      · exact absurd (hcl.symm.trans hsend) (by decide)
  | serverSend =>
    simp only [Option.ite_none_right_eq_some, Option.some.injEq] at hs
    obtain ⟨⟨hsv, -⟩, rfl⟩ := hs
    obtain ⟨q, rfl⟩ := turn.of_serverSend hsv
    obtain ⟨hc, -, hqu, hreply⟩ := turn
    refine ⟨_, .single (.answer q _ _ hreply), ⟨⟨hc, rfl, ?_⟩, rfl, hover⟩⟩
    rw [hqu, List.nil_append]

theorem pairsUp_of_sound {l : Exchange.Log (Rec 36) (Rec 36)}
    (h : Exchange.Sound format.Reply l) : PairsUp l :=
  ⟨fun _ hq => h.mem_sent hq, fun _ _ hr => h.paired hr⟩

/-- **The message queue programs pair up** in every run whose receives take messages of the
other process and whose requests fit. -/
theorem pairs_up_of_regular (n : ℕ) {d₁ d₂ : Rec 36} {b₁ b₂ : Rec 100} {as : List Act} {s : State}
    (hr : Lts.Run (Lts.When Regular (Lts.Steps (step n))) (start d₁ d₂ b₁ b₂) as s) :
    s.overflow = false ∧ PairsUp s.log := by
  have h0 : Rel (start d₁ d₂ b₁ b₂) Exchange.start := ⟨⟨rfl, rfl, rfl⟩, rfl, rfl⟩
  obtain ⟨t, h, hsound⟩ := Exchange.sound_of_run h0 (fun h hs => simulates h hs) hr
  rw [← h.log] at hsound
  exact ⟨h.overflow, pairsUp_of_sound hsound⟩

/-- One round with the server already waiting. -/
def oneRound : List Act :=
  [.clientSend (isCommand 1) (message 1), .serverReceive .zero, .serverSend, .clientReceive]

theorem oneRound_exec :
    (Lts.exec (Lts.guarded Regular (step 1)) (start .zero .zero .zero .zero) oneRound).map
      (fun s => s.log.reported.map (Rec.text · 4)) = some [ascii "LED is now ON"] := by
  decide +kernel

theorem pairs_up_oneRound :
    ∃ s, Lts.exec (Lts.guarded Regular (step 1)) (start .zero .zero .zero .zero) oneRound = some s ∧
      s.log.reported.map (Rec.text · 4) = [ascii "LED is now ON"] ∧
      s.overflow = false ∧ PairsUp s.log := by
  obtain ⟨s, hs, he⟩ := Option.map_eq_some_iff.1 oneRound_exec
  exact ⟨s, hs, he, pairs_up_of_regular 1 (Lts.exec_guarded_run hs)⟩

/-! ### A client that receives first -/

/-- The client's request with the message `Hello`. -/
def hello : Rec 36 := ⟨toLe 4 0 ++ ascii "Hello" ++ List.replicate 27 0, by decide⟩

theorem own_request_exec :
    (Lts.exec (step 1) (start .zero .zero .zero .zero)
      [.clientSend (isCommand 0) (message 0), .clientReceive]).map
        (fun s => (s.log.sent, s.log.reported)) = some ([hello], [hello]) := by
  decide +kernel

/-- The client takes back its own request before the server has looked at the queue. -/
theorem client_takes_own_request :
    ¬ ∀ (n : ℕ) (d₁ d₂ : Rec 36) (b₁ b₂ : Rec 100) (as : List Act) (s : State),
      Lts.Run (Lts.Steps (step n)) (start d₁ d₂ b₁ b₂) as s → PairsUp s.log := by
  intro h
  obtain ⟨s, hs, he⟩ := Option.map_eq_some_iff.1 own_request_exec
  rw [Prod.mk.injEq] at he
  obtain ⟨q, hq, hreply⟩ :=
    (h 1 .zero .zero .zero .zero _ s (Lts.exec_run _ _ hs)).2 0 hello (by rw [he.2]; rfl)
  rw [he.1] at hq
  obtain rfl := Option.some.inj hq
  have hready : format.Ready hello := ⟨by decide, .inr (by decide)⟩
  exact Format.not_reply_self hready (by decide) (by decide) hreply

end Aesd.Queue
