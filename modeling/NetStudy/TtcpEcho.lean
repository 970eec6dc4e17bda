/-
# The echo client and server of `ttcp`

One connection of `echo_client.cc` and `echo.cc` over two bounded channels, `c2s` of
capacity `A` and `s2c` of capacity `B`.  The client sends the whole message with
`sendAll` before it takes any byte with `receiveAll`; the server thread repeats
`receiveSome` into a buffer of 4096 bytes and `sendAll` of what it got.

A step moves bytes between one side and one channel (a blocking `send` moves some as
room appears), or lets one side leave a loop.  `Conserved` accounts for every byte of the
message, in order: received, on the way back, not yet sent back by the server, on the way
there, not yet sent by the client.
-/
import NetStudy.BoundedChannel
import NetStudy.Transition

namespace TtcpEcho

open Transition

/-! ## The two sides -/

/-- `sizeof(buf)` of the server thread. -/
abbrev bufSize : ℕ := 4096

/-- Where the client is: in `sendAll` (line 35) with `written` bytes sent, in
`receiveAll` (line 66) with what it has received, or at its end. -/
inductive Client
  | sendAll (written : ℕ)
  | receiveAll (received : List UInt8)
  | closed (received : List UInt8)
  deriving DecidableEq

/-- Where the server thread is: in `receiveSome` (line 38), in `sendAll` (line 40) with
`written` bytes of `buf` sent, or at its end. -/
inductive Server
  | receiveSome
  | sendAll (buf : List UInt8) (written : ℕ)
  | ended
  deriving DecidableEq

/-- What the client has received. -/
def Client.received : Client → List UInt8
  | sendAll _ => []
  | receiveAll received => received
  | closed received => received

/-- What the client has still to send of the message. -/
def Client.unsent (message : List UInt8) : Client → List UInt8
  | sendAll written => message.drop written
  | _ => []

/-- What the server has read and not sent back. -/
def Server.unsent : Server → List UInt8
  | sendAll buf written => buf.drop written
  | _ => []

/-- A connection. -/
structure State (A B : ℕ) where
  client : Client
  server : Server
  c2s : Channel UInt8 A
  s2c : Channel UInt8 B

variable {A B : ℕ}

/-! ## The steps -/

/-- The steps.  A number says how many bytes are moved. -/
inductive Move
  | clientSend (k : ℕ)
  | clientSent
  | clientRecv (k : ℕ)
  | clientClose
  | serverRecv (k : ℕ)
  | serverSend (k : ℕ)
  | serverSent
  | serverEnd

/-- The `while` of `sendAll`, in the client: bytes are moved while `written < len`. -/
def clientSend (message : List UInt8) (k : ℕ) (s : State A B) : Option (State A B) :=
  match s.client with
  | Client.sendAll written =>
      if 1 ≤ k ∧ written + k ≤ message.length then
        (s.c2s.send ((message.drop written).take k)).map
          (fun c2s => { s with client := Client.sendAll (written + k), c2s := c2s })
      else none
  | _ => none

/-- `sendAll` has sent everything, and the client goes on to `receiveAll`. -/
def clientSent (message : List UInt8) (s : State A B) : Option (State A B) :=
  match s.client with
  | Client.sendAll written =>
      if message.length ≤ written then some { s with client := Client.receiveAll [] } else none
  | _ => none

/-- `recv` with `MSG_WAITALL` takes what is there until it has as many bytes as were
sent. -/
def clientRecv (message : List UInt8) (k : ℕ) (s : State A B) : Option (State A B) :=
  match s.client with
  | Client.receiveAll received =>
      if 1 ≤ k ∧ received.length + k ≤ message.length then
        (s.s2c.recv k).map
          (fun r => { s with client := Client.receiveAll (received ++ r.1), s2c := r.2 })
      else none
  | _ => none

/-- `receiveAll` has everything, and the client ends and closes the connection. -/
def clientClose (message : List UInt8) (s : State A B) : Option (State A B) :=
  match s.client with
  | Client.receiveAll received =>
      if message.length ≤ received.length then some { s with client := Client.closed received }
      else none
  | _ => none

/-- `receiveSome` takes between 1 and 4096 bytes that are there. -/
def serverRecv (k : ℕ) (s : State A B) : Option (State A B) :=
  match s.server with
  | Server.receiveSome =>
      if 1 ≤ k ∧ k ≤ bufSize then
        (s.c2s.recv k).map (fun r => { s with server := Server.sendAll r.1 0, c2s := r.2 })
      else none
  | _ => none

/-- The `while` of `sendAll`, in the server. -/
def serverSend (k : ℕ) (s : State A B) : Option (State A B) :=
  match s.server with
  | Server.sendAll buf written =>
      if 1 ≤ k ∧ written + k ≤ buf.length then
        (s.s2c.send ((buf.drop written).take k)).map
          (fun s2c => { s with server := Server.sendAll buf (written + k), s2c := s2c })
      else none
  | _ => none

/-- `sendAll` has sent everything; then `nw` is `nr`, and the loop goes on. -/
def serverSent (s : State A B) : Option (State A B) :=
  match s.server with
  | Server.sendAll buf written =>
      if buf.length ≤ written then some { s with server := Server.receiveSome } else none
  | _ => none

/-- `receiveSome` returns 0 when the client has closed and nothing is left. -/
def serverEnd (s : State A B) : Option (State A B) :=
  match s.client, s.server with
  | Client.closed _, Server.receiveSome =>
      if s.c2s.queue = [] then some { s with server := Server.ended } else none
  | _, _ => none

/-- One step of either side. -/
def echoStep (message : List UInt8) : Move → State A B → Option (State A B)
  | Move.clientSend k, s => clientSend message k s
  | Move.clientSent, s => clientSent message s
  | Move.clientRecv k, s => clientRecv message k s
  | Move.clientClose, s => clientClose message s
  | Move.serverRecv k, s => serverRecv k s
  | Move.serverSend k, s => serverSend k s
  | Move.serverSent, s => serverSent s
  | Move.serverEnd, s => serverEnd s

/-- The connection has just been made. -/
def start (A B : ℕ) : State A B :=
  ⟨Client.sendAll 0, Server.receiveSome, Channel.empty, Channel.empty⟩

/-! ## What a step does -/

section

variable {message : List UInt8} {k : ℕ} {s s' : State A B}

theorem clientSend_eq_some (h : clientSend message k s = some s') :
    ∃ written c2s, s.client = Client.sendAll written ∧ 1 ≤ k ∧ written + k ≤ message.length ∧
      c2s.queue = s.c2s.queue ++ (message.drop written).take k ∧
      s' = { s with client := Client.sendAll (written + k), c2s := c2s } := by
  unfold clientSend at h
  rcases hclient : s.client with written | received | received <;> simp only [hclient] at h
  · split_ifs at h with hk
    obtain ⟨c2s, hsend, rfl⟩ := Option.map_eq_some_iff.mp h
    exact ⟨written, c2s, rfl, hk.1, hk.2, Channel.send_eq_some hsend, rfl⟩
  · cases h
  · cases h

theorem clientSent_eq_some (h : clientSent message s = some s') :
    ∃ written, s.client = Client.sendAll written ∧ message.length ≤ written ∧
      s' = { s with client := Client.receiveAll [] } := by
  unfold clientSent at h
  rcases hclient : s.client with written | received | received <;> simp only [hclient] at h
  · split_ifs at h with hall
    exact ⟨written, rfl, hall, (Option.some.inj h).symm⟩
  · cases h
  · cases h

theorem clientRecv_eq_some (h : clientRecv message k s = some s') :
    ∃ received xs s2c, s.client = Client.receiveAll received ∧ s.s2c.queue = xs ++ s2c.queue ∧
      s' = { s with client := Client.receiveAll (received ++ xs), s2c := s2c } := by
  unfold clientRecv at h
  rcases hclient : s.client with written | received | received <;> simp only [hclient] at h
  · cases h
  · split_ifs at h
    obtain ⟨⟨xs, s2c⟩, hrecv, rfl⟩ := Option.map_eq_some_iff.mp h
    exact ⟨received, xs, s2c, rfl, (Channel.recv_eq_some hrecv).1, rfl⟩
  · cases h

theorem clientClose_eq_some (h : clientClose message s = some s') :
    ∃ received, s.client = Client.receiveAll received ∧ message.length ≤ received.length ∧
      s' = { s with client := Client.closed received } := by
  unfold clientClose at h
  rcases hclient : s.client with written | received | received <;> simp only [hclient] at h
  · cases h
  · split_ifs at h with hall
    exact ⟨received, rfl, hall, (Option.some.inj h).symm⟩
  · cases h

theorem serverRecv_eq_some (h : serverRecv k s = some s') :
    ∃ buf c2s, s.server = Server.receiveSome ∧ s.c2s.queue = buf ++ c2s.queue ∧
      buf.length ≤ bufSize ∧ s' = { s with server := Server.sendAll buf 0, c2s := c2s } := by
  unfold serverRecv at h
  rcases hserver : s.server with _ | ⟨buf, written⟩ | _ <;> simp only [hserver] at h
  · split_ifs at h with hk
    obtain ⟨⟨buf, c2s⟩, hrecv, rfl⟩ := Option.map_eq_some_iff.mp h
    obtain ⟨hqueue, hlen⟩ := Channel.recv_eq_some hrecv
    exact ⟨buf, c2s, rfl, hqueue, hlen.symm ▸ hk.2, rfl⟩
  · cases h
  · cases h

theorem serverSend_eq_some (h : serverSend k s = some s') :
    ∃ buf written s2c, s.server = Server.sendAll buf written ∧
      s2c.queue = s.s2c.queue ++ (buf.drop written).take k ∧
      s' = { s with server := Server.sendAll buf (written + k), s2c := s2c } := by
  unfold serverSend at h
  rcases hserver : s.server with _ | ⟨buf, written⟩ | _ <;> simp only [hserver] at h
  · cases h
  · split_ifs at h
    obtain ⟨s2c, hsend, rfl⟩ := Option.map_eq_some_iff.mp h
    exact ⟨buf, written, s2c, rfl, Channel.send_eq_some hsend, rfl⟩
  · cases h

theorem serverSent_eq_some (h : serverSent s = some s') :
    ∃ buf written, s.server = Server.sendAll buf written ∧ buf.length ≤ written ∧
      s' = { s with server := Server.receiveSome } := by
  unfold serverSent at h
  rcases hserver : s.server with _ | ⟨buf, written⟩ | _ <;> simp only [hserver] at h
  · cases h
  · split_ifs at h with hall
    exact ⟨buf, written, rfl, hall, (Option.some.inj h).symm⟩
  · cases h

theorem serverEnd_eq_some (h : serverEnd s = some s') :
    ∃ received, s.client = Client.closed received ∧ s.server = Server.receiveSome ∧
      s' = { s with server := Server.ended } := by
  unfold serverEnd at h
  rcases hclient : s.client with written | received | received <;> simp only [hclient] at h
  · cases h
  · cases h
  · rcases hserver : s.server with _ | ⟨buf, written⟩ | _ <;> simp only [hserver] at h
    · split_ifs at h
      exact ⟨received, rfl, rfl, (Option.some.inj h).symm⟩
    · cases h
    · cases h

end

/-! ## The invariant -/

/-- The bytes of the message are where they should be. -/
structure Conserved (message : List UInt8) (s : State A B) : Prop where
  bytes : s.client.received ++ s.s2c.queue ++ s.server.unsent ++ s.c2s.queue
    ++ s.client.unsent message = message
  /-- the server holds no more than its buffer -/
  buffer : s.server.unsent.length ≤ bufSize
  /-- the server ends only behind the client -/
  ended : s.server = Server.ended → ∃ received, s.client = Client.closed received
  /-- the client closes only when it has everything -/
  closed : ∀ received, s.client = Client.closed received → message.length ≤ received.length

theorem conserved_start (message : List UInt8) : Conserved message (start A B) where
  bytes := rfl
  buffer := Nat.zero_le _
  ended := fun h => by cases h
  closed := fun _ h => by cases h

theorem take_append_drop_add (xs : List UInt8) (n k : ℕ) :
    (xs.drop n).take k ++ xs.drop (n + k) = xs.drop n := by
  rw [← List.drop_drop]
  exact List.take_append_drop k _

/-- **Every step conserves the message.** -/
theorem conserved_step {message : List UInt8} {m : Move} {s s' : State A B}
    (h : Conserved message s) (hstep : echoStep message m s = some s') :
    Conserved message s' := by
  obtain ⟨client, server, c2s, s2c⟩ := s
  obtain ⟨hbytes, hbuffer, hended, hclosed⟩ := h
  simp only at hbytes hbuffer hended hclosed
  cases m with
  | clientSend k =>
      obtain ⟨written, c2s', rfl, -, -, hqueue, rfl⟩ := clientSend_eq_some hstep
      refine ⟨?_, hbuffer, fun h => ?_, fun _ h => (by cases h)⟩
      · refine Eq.trans ?_ hbytes
        simp only [Client.received, Client.unsent, hqueue, List.append_assoc, take_append_drop_add]
      · obtain ⟨_, hc⟩ := hended h
        cases hc
  | clientSent =>
      obtain ⟨written, rfl, hall, rfl⟩ := clientSent_eq_some hstep
      refine ⟨?_, hbuffer, fun h => ?_, fun _ h => (by cases h)⟩
      · refine Eq.trans ?_ hbytes
        simp only [Client.received, Client.unsent, List.drop_eq_nil_of_le hall]
      · obtain ⟨_, hc⟩ := hended h
        cases hc
  | clientRecv k =>
      obtain ⟨received, xs, s2c', rfl, hqueue, rfl⟩ := clientRecv_eq_some hstep
      refine ⟨?_, hbuffer, fun h => ?_, fun _ h => (by cases h)⟩
      · refine Eq.trans ?_ hbytes
        simp only at hqueue
        simp only [Client.received, Client.unsent, hqueue, List.append_assoc]
      · obtain ⟨_, hc⟩ := hended h
        cases hc
  | clientClose =>
      obtain ⟨received, rfl, hall, rfl⟩ := clientClose_eq_some hstep
      exact ⟨hbytes, hbuffer, fun _ => ⟨received, rfl⟩, fun _ h => by cases h; exact hall⟩
  | serverRecv k =>
      obtain ⟨buf, c2s', rfl, hqueue, hlen, rfl⟩ := serverRecv_eq_some hstep
      refine ⟨?_, hlen, fun h => (by cases h), hclosed⟩
      refine Eq.trans ?_ hbytes
      simp only at hqueue
      simp only [Server.unsent, hqueue, List.drop_zero, List.append_assoc, List.nil_append]
  | serverSend k =>
      obtain ⟨buf, written, s2c', rfl, hqueue, rfl⟩ := serverSend_eq_some hstep
      refine ⟨?_, ?_, fun h => (by cases h), hclosed⟩
      · refine Eq.trans ?_ hbytes
        simp only at hqueue
        simp only [Server.unsent, hqueue, List.append_assoc]
        rw [← List.append_assoc ((buf.drop written).take k), take_append_drop_add]
      · have hdrop : (buf.drop (written + k)).length ≤ (buf.drop written).length := by
          rw [List.length_drop, List.length_drop]
          omega
        exact hdrop.trans hbuffer
  | serverSent =>
      obtain ⟨buf, written, rfl, hall, rfl⟩ := serverSent_eq_some hstep
      refine ⟨?_, Nat.zero_le _, fun h => (by cases h), hclosed⟩
      refine Eq.trans ?_ hbytes
      simp only [Server.unsent, List.drop_eq_nil_of_le hall]
  | serverEnd =>
      obtain ⟨received, rfl, rfl, rfl⟩ := serverEnd_eq_some hstep
      exact ⟨hbytes, hbuffer, fun _ => ⟨received, rfl⟩, hclosed⟩

theorem conserved_of_reachable {message : List UInt8} {s : State A B}
    (h : Reachable (echoStep message) (start A B) s) : Conserved message s :=
  h.invariant (conserved_start message) (fun _ _ _ hs _ hstep => conserved_step hs hstep)

end TtcpEcho
