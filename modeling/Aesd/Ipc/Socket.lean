import Aesd.Ipc.StatusUpdate
import Aesd.Lib.Exchange

/-!
# The socket programs (`HW4/Related Files/IPC_sockets_client.c`, `IPC_sockets_server.c`)

Client and server exchange `send_data` structures over one TCP connection, a stream of
bytes in each direction. A `read` returns any non-empty prefix of at most 1024 of the bytes
in flight, and none when the peer is gone and nothing is left. Both programs ignore the
count and take the structure at the start of their buffer, which is zero at first and is
used again in every round.

A process is gone when it is through with its loop, or ended. If it leaves bytes unread,
its side resets the connection. Until the reset comes in, a `send` to it still succeeds;
after that a `read` returns nothing, and a `send` raises `SIGPIPE`, which neither program
handles: it ends the process.

* `pairs_up_of_whole`: while every read returns one whole structure and the requests fit
  their array, requests and responses pair up.
* `server_acts_on_part`: a run where the first read returns one byte.
-/

namespace Aesd.Socket

open CString CRecord

/-- `send_data`; two bytes of padding follow the array. -/
abbrev format : Format where
  size := 56
  room := 50
  greeting := ascii "You sent the message - "
  room_le := by decide
  led_lt := by decide
  no_nul := by decide

/-- The server's `status_update`. -/
def statusUpdate : Rec 56 → CInt → List Byte → Option (Rec 56) := format.statusUpdate

/-- The messages the client chooses from. -/
def message : Fin 5 → CStr
  | 0 => ⟨ascii "Hello", hello_no_nul⟩
  | 1 => ⟨ascii "I am client", by decide⟩
  | 2 => ⟨ascii "LED ON", led_on_no_nul⟩
  | 3 => ⟨ascii "LED OFF", led_off_no_nul⟩
  | 4 => ⟨ascii "Bye bye", bye_no_nul⟩

def isCommand (data : Fin 5) : CInt := if 1 < data ∧ data < 4 then 1 else 0

theorem message_fits : ∀ data : Fin 5, format.Fits (isCommand data) (message data) := by
  decide

inductive ClientPc
  | send
  | read
  /-- ended by `SIGPIPE` -/
  | killed
deriving DecidableEq

inductive ServerPc
  | read
  | send
  | killed
deriving DecidableEq

structure State where
  client : ClientPc
  server : ServerPc
  /-- the loop counters of client and server -/
  i : ℕ
  j : ℕ
  /-- the bytes in flight -/
  to_server : List Byte
  to_client : List Byte
  client_data_send : Rec 56
  client_buffer : Rec 1024
  server_data_send : Rec 56
  server_buffer : Rec 1024
  /-- a string copy has run out of its array -/
  overflow : Bool
  log : Exchange.Log (Rec 56) (Rec 56)
deriving DecidableEq

/-- Connected, with both buffers zero. -/
def start (client_data_send server_data_send : Rec 56) : State :=
  ⟨.send, .read, 0, 0, [], [], client_data_send, .zero, server_data_send, .zero, false, .empty⟩

/-- A process leaves its loop after `n` rounds and its socket is closed. -/
def State.clientDone (n : ℕ) (s : State) : Prop := s.client = .send ∧ s.i = n

def State.serverDone (n : ℕ) (s : State) : Prop := s.server = .read ∧ s.j = n

instance (n : ℕ) (s : State) : Decidable (s.clientDone n) := inferInstanceAs (Decidable (_ ∧ _))

instance (n : ℕ) (s : State) : Decidable (s.serverDone n) := inferInstanceAs (Decidable (_ ∧ _))

/-- The process has closed its socket. -/
def State.clientGone (n : ℕ) (s : State) : Prop := s.clientDone n ∨ s.client = .killed

def State.serverGone (n : ℕ) (s : State) : Prop := s.serverDone n ∨ s.server = .killed

/-- The connection is reset for the client: the server is gone and has left bytes unread. -/
def State.clientReset (n : ℕ) (s : State) : Prop := s.serverGone n ∧ s.to_server ≠ []

def State.serverReset (n : ℕ) (s : State) : Prop := s.clientGone n ∧ s.to_client ≠ []

instance (n : ℕ) (s : State) : Decidable (s.clientGone n) := inferInstanceAs (Decidable (_ ∨ _))

instance (n : ℕ) (s : State) : Decidable (s.serverGone n) := inferInstanceAs (Decidable (_ ∨ _))

instance (n : ℕ) (s : State) : Decidable (s.clientReset n) := inferInstanceAs (Decidable (_ ∧ _))

instance (n : ℕ) (s : State) : Decidable (s.serverReset n) := inferInstanceAs (Decidable (_ ∧ _))

/-- A `read` of up to 1024 bytes may put `count` bytes into the buffer. -/
def Delivers (stream : List Byte) (closed reset : Prop) (count : ℕ) : Prop :=
  (0 < count ∧ count ≤ 1024 ∧ count ≤ stream.length) ∨
    (count = 0 ∧ ((stream = [] ∧ closed) ∨ reset))

instance (stream : List Byte) (closed reset : Prop) [Decidable closed] [Decidable reset]
    (count : ℕ) : Decidable (Delivers stream closed reset count) :=
  inferInstanceAs (Decidable (_ ∨ _))

/-- What a `read` leaves to be read: behind a reset nothing comes in. -/
def unread (stream : List Byte) (count : ℕ) : List Byte :=
  if count = 0 then [] else stream.drop count

/-- One call of `send` or `read`. The network chooses how many bytes a read returns, and
whether a reset has come in before a send (`broken`). -/
inductive Act
  | clientSend (is_command : CInt) (message : CStr) (broken : Bool)
  | clientRead (count : ℕ)
  | serverRead (count : ℕ) (response1 : Rec 56)
  | serverSend (broken : Bool)

/-- One step; after an overflow nothing is defined. -/
def step (n : ℕ) (s : State) (a : Act) : Option State :=
  if s.overflow then none
  else match a with
  | .clientSend is_command message broken =>
    if s.client = .send ∧ s.i < n ∧ (broken = true → s.clientReset n) then
      match format.fill s.client_data_send is_command message with
      | none => some { s with overflow := true }
      | some data_send =>
        if broken then some { s with client := .killed, client_data_send := data_send }
        else
          some { s with client := .read, client_data_send := data_send,
                        to_server := s.to_server ++ data_send.bytes, log := s.log.ask data_send }
    else none
  | .clientRead count =>
    if s.client = .read ∧ Delivers s.to_client (s.serverGone n) (s.clientReset n) count then
      let buffer := s.client_buffer.put 0 (s.to_client.take count)
      some { s with client := .send, i := s.i + 1, to_client := unread s.to_client count,
                    client_buffer := buffer, log := s.log.report (buffer.cut 56 (by decide)) }
    else none
  | .serverRead count response1 =>
    if s.server = .read ∧ s.j < n ∧
        Delivers s.to_server (s.clientGone n) (s.serverReset n) count then
      let buffer := s.server_buffer.put 0 (s.to_server.take count)
      let s := { s with to_server := unread s.to_server count, server_buffer := buffer,
                        log := s.log.take (buffer.cut 56 (by decide)) }
      match statusUpdate response1 (buffer.field 0 4) (buffer.bytes.drop 4) with
      | none => some { s with overflow := true }
      | some data_send => some { s with server := .send, server_data_send := data_send }
    else none
  | .serverSend broken =>
    if s.server = .send ∧ (broken = true → s.serverReset n) then
      if broken then some { s with server := .killed }
      else
        some { s with server := .read, j := s.j + 1,
                      to_client := s.to_client ++ s.server_data_send.bytes,
                      log := s.log.answer s.server_data_send }
    else none

/-- What the two programs are for: the server acts on the requests of the client, round by
round, and the client reports the `status_update` of its request. -/
structure PairsUp (l : Exchange.Log (Rec 56) (Rec 56)) : Prop where
  acted : ∀ (i : ℕ) (q : Rec 56), l.got[i]? = some q → l.sent[i]? = some q
  only : ∀ q ∈ l.got, q ∈ l.sent
  reported : ∀ (i : ℕ) (r : Rec 56), l.reported[i]? = some r →
    ∃ q, l.sent[i]? = some q ∧ format.Reply q r

/-- Every read returns one structure, and the requests fit. -/
def Whole (_ : State) : Act → Prop
  | .clientSend is_command message _ => format.Fits is_command message
  | .clientRead count => count = format.size
  | .serverRead count _ => count = format.size
  | .serverSend _ => True

instance (s : State) : ∀ a, Decidable (Whole s a)
  | .clientSend is_command message _ => inferInstanceAs (Decidable (format.Fits is_command message))
  | .clientRead count => inferInstanceAs (Decidable (count = format.size))
  | .serverRead count _ => inferInstanceAs (Decidable (count = format.size))
  | .serverSend _ => inferInstanceAs (Decidable True)

/-- The program counters and the bytes in flight in each turn. -/
def InTurn (s : State) : Exchange.Phase (Rec 56) (Rec 56) → Prop
  | .idle => s.client = .send ∧ s.server = .read ∧ s.to_server = [] ∧ s.to_client = []
  | .asked q =>
    s.client = .read ∧ s.server = .read ∧ s.to_server = q.bytes ∧ s.to_client = [] ∧
      format.Ready q
  | .serving q =>
    s.client = .read ∧ s.server = .send ∧ s.to_server = [] ∧ s.to_client = [] ∧
      format.Reply q s.server_data_send
  | .answered r =>
    s.client = .read ∧ s.server = .read ∧ s.to_server = [] ∧ s.to_client = r.bytes

structure Rel (s : State) (t : Exchange.State (Rec 56) (Rec 56)) : Prop where
  turn : InTurn s t.phase
  log : s.log = t.log
  overflow : s.overflow = false

variable {n : ℕ} {s s' : State} {t : Exchange.State (Rec 56) (Rec 56)}

/-! ### Whose turn it is -/

theorem Delivers.ne_nil {stream : List Byte} {closed reset : Prop}
    (h : Delivers stream closed reset format.size) : stream ≠ [] := by
  rintro rfl
  rcases h with ⟨-, -, h⟩ | ⟨h, -⟩
  · exact absurd h (by decide)
  · exact absurd h (by decide)

theorem unread_whole (stream : List Byte) : unread stream format.size = stream.drop format.size :=
  if_neg (by decide)

theorem InTurn.of_clientSend {p : Exchange.Phase (Rec 56) (Rec 56)} (h : InTurn s p)
    (hc : s.client = .send) : p = .idle := by
  cases p with
  | idle => rfl
  | asked q | serving q | answered r => exact absurd (hc.symm.trans h.1) (by decide)

theorem InTurn.of_clientRead {p : Exchange.Phase (Rec 56) (Rec 56)} (h : InTurn s p)
    (hne : s.to_client ≠ []) : ∃ r, p = .answered r := by
  cases p with
  | idle => exact absurd h.2.2.2 hne
  | asked q | serving q => exact absurd h.2.2.2.1 hne
  | answered r => exact ⟨r, rfl⟩

theorem InTurn.of_serverRead {p : Exchange.Phase (Rec 56) (Rec 56)} (h : InTurn s p)
    (hne : s.to_server ≠ []) : ∃ q, p = .asked q := by
  cases p with
  | idle | serving q | answered r => exact absurd h.2.2.1 hne
  | asked q => exact ⟨q, rfl⟩

theorem InTurn.of_serverSend {p : Exchange.Phase (Rec 56) (Rec 56)} (h : InTurn s p)
    (hc : s.server = .send) : ∃ q, p = .serving q := by
  cases p with
  | idle | asked q | answered r => exact absurd (hc.symm.trans h.2.1) (by decide)
  | serving q => exact ⟨q, rfl⟩

/-! ### The simulation -/

/-- **With whole reads each step is a step of the exchange in turns.** -/
theorem simulates {a : Act} (h : Rel s t) (hs : Lts.When Whole (Lts.Steps (step n)) s a s') :
    ∃ t', Relation.ReflTransGen (Exchange.Step format.Reply) t t' ∧ Rel s' t' := by
  obtain ⟨hs, hwhole⟩ := hs
  obtain ⟨phase, l⟩ := t
  obtain ⟨turn, rfl, hover⟩ := h
  have hne : ¬ s.overflow = true := by rw [hover]; decide
  rw [Lts.Steps, step.eq_def, if_neg hne] at hs
  cases a with
  | clientSend is_command message broken =>
    obtain ⟨q, hq, hready, -⟩ := format.fill_spec s.client_data_send hwhole
    simp only [hq, Option.ite_none_right_eq_some] at hs
    obtain ⟨⟨hc, -, hreset⟩, hs⟩ := hs
    obtain rfl := turn.of_clientSend hc
    obtain ⟨-, hsv, h1, h2⟩ := turn
    -- the server has read all there was, so there is no reset
    have hbroken : ¬ broken = true := fun hb => (hreset hb).2 h1
    rw [if_neg hbroken] at hs
    obtain rfl := Option.some.inj hs
    refine ⟨_, .single (.ask q _), ⟨⟨rfl, hsv, ?_, h2, hready⟩, rfl, hover⟩⟩
    rw [h1, List.nil_append]
  | clientRead count =>
    obtain rfl : count = format.size := hwhole
    simp only [Option.ite_none_right_eq_some, Option.some.injEq] at hs
    obtain ⟨⟨-, hdel⟩, rfl⟩ := hs
    -- there are bytes for the client, so the server has answered
    obtain ⟨r, rfl⟩ := turn.of_clientRead hdel.ne_nil
    obtain ⟨-, hsv, h1, h2⟩ := turn
    have htake : s.to_client.take format.size = r.bytes := by
      rw [h2, List.take_of_length_le r.size.le]
    have hdrop : unread s.to_client format.size = [] := by
      rw [unread_whole, h2, List.drop_of_length_le r.size.le]
    rw [htake, hdrop, Rec.cut_put]
    exact ⟨_, .single (.report r _), ⟨⟨rfl, hsv, h1, rfl⟩, rfl, hover⟩⟩
  | serverRead count response1 =>
    obtain rfl : count = format.size := hwhole
    simp only [Option.ite_none_right_eq_some] at hs
    obtain ⟨⟨-, -, hdel⟩, hs⟩ := hs
    -- there are bytes for the server, so the client has asked
    obtain ⟨q, rfl⟩ := turn.of_serverRead hdel.ne_nil
    obtain ⟨hc, -, h1, h2, hready⟩ := turn
    have htake : s.to_server.take format.size = q.bytes := by
      rw [h1, List.take_of_length_le q.size.le]
    have hdrop : unread s.to_server format.size = [] := by
      rw [unread_whole, h1, List.drop_of_length_le q.size.le]
    obtain ⟨r, hr, hreply⟩ := hready.reply response1
    rw [← Format.statusUpdate_buffer s.server_buffer (by decide) hready] at hr
    simp only [htake, hdrop, statusUpdate, hr, Rec.cut_put, Option.some.injEq] at hs
    obtain rfl := hs
    exact ⟨_, .single (.take q _), ⟨⟨hc, rfl, rfl, h2, hreply⟩, rfl, hover⟩⟩
  | serverSend broken =>
    simp only [Option.ite_none_right_eq_some] at hs
    obtain ⟨⟨hsv, hreset⟩, hs⟩ := hs
    obtain ⟨q, rfl⟩ := turn.of_serverSend hsv
    obtain ⟨hc, -, h1, h2, hreply⟩ := turn
    have hbroken : ¬ broken = true := fun hb => (hreset hb).2 h2
    rw [if_neg hbroken] at hs
    obtain rfl := Option.some.inj hs
    refine ⟨_, .single (.answer q _ _ hreply), ⟨⟨hc, rfl, h1, ?_⟩, rfl, hover⟩⟩
    rw [h2, List.nil_append]

theorem pairsUp_of_sound {l : Exchange.Log (Rec 56) (Rec 56)}
    (h : Exchange.Sound format.Reply l) : PairsUp l :=
  ⟨h.received, fun _ hq => h.mem_sent hq, fun _ _ hr => h.paired hr⟩

/-- **The socket programs pair up** in every run whose reads return whole structures and
whose requests fit. -/
theorem pairs_up_of_whole (n : ℕ) {d₁ d₂ : Rec 56} {as : List Act} {s : State}
    (hr : Lts.Run (Lts.When Whole (Lts.Steps (step n))) (start d₁ d₂) as s) :
    s.overflow = false ∧ PairsUp s.log := by
  have h0 : Rel (start d₁ d₂) Exchange.start := ⟨⟨rfl, rfl, rfl, rfl⟩, rfl, rfl⟩
  obtain ⟨t, h, hsound⟩ := Exchange.sound_of_run h0 (fun h hs => simulates h hs) hr
  rw [← h.log] at hsound
  exact ⟨h.overflow, pairsUp_of_sound hsound⟩

/-- One round with whole reads. -/
def oneRound : List Act :=
  [.clientSend (isCommand 2) (message 2) false, .serverRead 56 .zero, .serverSend false,
    .clientRead 56]

theorem oneRound_exec :
    (Lts.exec (Lts.guarded Whole (step 1)) (start .zero .zero) oneRound).map
      (fun s => s.log.reported.map (Rec.text · 4)) = some [ascii "LED is now ON"] := by
  decide +kernel

theorem pairs_up_of_whole_oneRound :
    ∃ s, Lts.exec (Lts.guarded Whole (step 1)) (start .zero .zero) oneRound = some s ∧
      s.log.reported.map (Rec.text · 4) = [ascii "LED is now ON"] ∧
      s.overflow = false ∧ PairsUp s.log := by
  obtain ⟨s, hs, he⟩ := Option.map_eq_some_iff.1 oneRound_exec
  exact ⟨s, hs, he, pairs_up_of_whole 1 (Lts.exec_guarded_run hs)⟩

/-! ### A read of one byte -/

/-- The client's request with the message `Hello`. -/
def hello : Rec 56 := ⟨toLe 4 0 ++ ascii "Hello" ++ List.replicate 47 0, by decide⟩

theorem one_byte_exec :
    (Lts.exec (step 1) (start .zero .zero)
      [.clientSend (isCommand 0) (message 0) false, .serverRead 1 .zero]).map
        (fun s => (s.log.sent, s.log.got)) = some ([hello], [.zero]) := by
  decide +kernel

/-- The server acts on a request that was never sent: the one byte it read, then zeros. -/
theorem server_acts_on_part :
    ¬ ∀ (n : ℕ) (d₁ d₂ : Rec 56) (as : List Act) (s : State),
      Lts.Run (Lts.Steps (step n)) (start d₁ d₂) as s → PairsUp s.log := by
  intro h
  obtain ⟨s, hs, he⟩ := Option.map_eq_some_iff.1 one_byte_exec
  rw [Prod.mk.injEq] at he
  have hmem := (h 1 .zero .zero _ s (Lts.exec_run _ _ hs)).only .zero (by rw [he.2]; simp)
  rw [he.1, List.mem_singleton] at hmem
  exact absurd hmem (by decide)

end Aesd.Socket
