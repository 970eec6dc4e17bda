/-
# The commands of the echo client (`ttcp/echo_client.cc`)

Behind `sendAll` and before `receiveAll` the client carries out the letters of its third
argument: `s` shuts its side of the connection down, `p` sleeps, `c` closes the connection
and leaves, and any other letter is only reported.  The server thread ends when it has
read everything in front of the end of the stream, or when the connection is gone.

The state holds a connection of `NetStudy.TtcpEcho`, on which the two sides move as there
(`simulates_echo`); what is added is where the client is in between, whether the end of
its stream has been sent, and whether the server thread has ended.

* `client_complete`: `receiveAll` never returns less than was sent, so "Incomplete
  response" is not printed;
* `client_halts`: every run is bounded, and ends with both sides at their end, or in the
  deadlock of `sendAll`, whose threshold the commands do not change.
-/
import NetStudy.Refinement
import NetStudy.TtcpDeadlock

namespace TtcpClient

open Transition TtcpEcho

variable {A B : ℕ}

/-! ## The state -/

/-- Where the client is: in `sendAll` or `receiveAll`, in the loop over the letters of the
command, behind `receiveAll`, or gone through `c`. -/
inductive Stage
  | transfer
  | commands (rest : List UInt8)
  | returned
  | left
  deriving DecidableEq

/-- A connection, the client, whether the client has ended its stream, and whether the
server thread has ended. -/
structure State (A B : ℕ) where
  conn : TtcpEcho.State A B
  stage : Stage
  fin : Bool
  gone : Bool

/-- The connection has just been made. -/
def start (A B : ℕ) : State A B := ⟨TtcpEcho.start A B, Stage.transfer, false, false⟩

/-! ## The steps -/

/-- The steps of the client and of the server thread.  A number says how many bytes are
moved. -/
inductive Move
  | send (k : ℕ)
  | sent
  | command
  | receive
  | recv (k : ℕ)
  | finish
  | short
  | serverRecv (k : ℕ)
  | serverSend (k : ℕ)
  | serverSent
  | serverEnd
  | serverReset

/-- A step of the connection. -/
def State.onConn (message : List UInt8) (m : TtcpEcho.Move) (s : State A B) :
    Option (State A B) :=
  (echoStep message m s.conn).map (fun conn => { s with conn := conn })

/-- Lines 42-63: one letter of the command. -/
def State.command (s : State A B) (cmd : UInt8) (rest : List UInt8) : State A B :=
  if cmd = 115 then { s with stage := Stage.commands rest, fin := true }
  else if cmd = 112 then { s with stage := Stage.commands rest }
  else if cmd = 99 then { s with stage := Stage.left, fin := true }
  else { s with stage := Stage.commands rest }

/-- One step, with the message and the third argument of the client. -/
def step (message cmds : List UInt8) : Move → State A B → Option (State A B)
  | Move.send k, s =>
      if s.stage = Stage.transfer then s.onConn message (TtcpEcho.Move.clientSend k) else none
  | Move.sent, s =>
      if s.stage = Stage.transfer then
        (s.onConn message TtcpEcho.Move.clientSent).map
          (fun s => { s with stage := Stage.commands cmds })
      else none
  | Move.command, s =>
      match s.stage with
      | Stage.commands (cmd :: rest) => some (s.command cmd rest)
      | _ => none
  | Move.receive, s =>
      if s.stage = Stage.commands [] then some { s with stage := Stage.transfer } else none
  | Move.recv k, s =>
      if s.stage = Stage.transfer then s.onConn message (TtcpEcho.Move.clientRecv k) else none
  | Move.finish, s =>
      -- `nr` is `len`; the stream is destroyed at the end of `main`
      match s.conn.client with
      | Client.receiveAll received =>
          if s.stage = Stage.transfer ∧ message.length ≤ received.length then
            some { s with stage := Stage.returned, fin := true }
          else none
      | _ => none
  | Move.short, s =>
      -- the end of the server's stream: `nr` is less than `len`
      match s.conn.client with
      | Client.receiveAll received =>
          if s.stage = Stage.transfer ∧ received.length < message.length ∧ s.gone = true ∧
              s.conn.s2c.queue = [] then
            some { s with stage := Stage.returned, fin := true }
          else none
      | _ => none
  | Move.serverRecv k, s =>
      if s.gone = false then s.onConn message (TtcpEcho.Move.serverRecv k) else none
  | Move.serverSend k, s =>
      if s.gone = false then s.onConn message (TtcpEcho.Move.serverSend k) else none
  | Move.serverSent, s =>
      if s.gone = false then s.onConn message TtcpEcho.Move.serverSent else none
  | Move.serverEnd, s =>
      if s.gone = false ∧ s.conn.server = Server.receiveSome ∧ s.conn.c2s.queue = [] ∧
          s.fin = true then
        some { s with gone := true }
      else none
  | Move.serverReset, s =>
      -- the client has closed with bytes unread: `recv` and `send` return -1
      if s.gone = false ∧ s.stage = Stage.left then some { s with gone := true } else none

/-! ## What a step does -/

variable {message cmds : List UInt8} {s s' : State A B}

/-- A step of the client or the server on the connection. -/
inductive Transfers : TtcpEcho.Move → Bool → Prop
  | send (k : ℕ) : Transfers (TtcpEcho.Move.clientSend k) true
  | recv (k : ℕ) : Transfers (TtcpEcho.Move.clientRecv k) true
  | serverRecv (k : ℕ) : Transfers (TtcpEcho.Move.serverRecv k) false
  | serverSend (k : ℕ) : Transfers (TtcpEcho.Move.serverSend k) false
  | serverSent : Transfers TtcpEcho.Move.serverSent false

/-- The kinds of steps. -/
inductive Stepped (message cmds : List UInt8) (s : State A B) : State A B → Prop
  | transfer {m : TtcpEcho.Move} {client : Bool} {conn : TtcpEcho.State A B}
      (hm : Transfers m client) (hconn : echoStep message m s.conn = some conn)
      (hclient : client = true → s.stage = Stage.transfer)
      (hserver : client = false → s.gone = false) : Stepped message cmds s { s with conn := conn }
  | sent {conn : TtcpEcho.State A B} (hstage : s.stage = Stage.transfer)
      (hconn : echoStep message TtcpEcho.Move.clientSent s.conn = some conn) :
      Stepped message cmds s { s with conn := conn, stage := Stage.commands cmds }
  | command {cmd : UInt8} {rest : List UInt8} (hstage : s.stage = Stage.commands (cmd :: rest)) :
      Stepped message cmds s (s.command cmd rest)
  | receive (hstage : s.stage = Stage.commands []) :
      Stepped message cmds s { s with stage := Stage.transfer }
  | returned {received : List UInt8} (hstage : s.stage = Stage.transfer)
      (hclient : s.conn.client = Client.receiveAll received)
      (hend : message.length ≤ received.length ∨ (s.gone = true ∧ s.conn.s2c.queue = [])) :
      Stepped message cmds s { s with stage := Stage.returned, fin := true }
  | gone (hgone : s.gone = false)
      (hend : (s.conn.server = Server.receiveSome ∧ s.conn.c2s.queue = [] ∧ s.fin = true) ∨
        s.stage = Stage.left) : Stepped message cmds s { s with gone := true }

/-- **What a step does.** -/
theorem stepped_of_step {m : Move} (hs : step message cmds m s = some s') :
    Stepped message cmds s s' := by
  have hon : ∀ {m : TtcpEcho.Move} {client : Bool} {s' : State A B}, Transfers m client →
      (client = true → s.stage = Stage.transfer) → (client = false → s.gone = false) →
      s.onConn message m = some s' → Stepped message cmds s s' := by
    intro m client s' hm hclient hserver h
    obtain ⟨conn, hconn, rfl⟩ := Option.map_eq_some_iff.mp h
    exact Stepped.transfer hm hconn hclient hserver
  cases m with
  | send k =>
      rw [step] at hs
      split_ifs at hs with hstage
      exact hon (Transfers.send k) (fun _ => hstage) (fun h => by cases h) hs
  | sent =>
      rw [step] at hs
      split_ifs at hs with hstage
      obtain ⟨s₁, h, rfl⟩ := Option.map_eq_some_iff.mp hs
      obtain ⟨conn, hconn, rfl⟩ := Option.map_eq_some_iff.mp h
      exact Stepped.sent hstage hconn
  | command =>
      rw [step] at hs
      split at hs
      case h_1 cmd rest hstage =>
        rw [← Option.some.inj hs]
        exact Stepped.command hstage
      case h_2 => cases hs
  | receive =>
      rw [step] at hs
      split_ifs at hs with hstage
      rw [← Option.some.inj hs]
      exact Stepped.receive hstage
  | recv k =>
      rw [step] at hs
      split_ifs at hs with hstage
      exact hon (Transfers.recv k) (fun _ => hstage) (fun h => by cases h) hs
  | finish =>
      rw [step] at hs
      split at hs
      case h_1 received hclient =>
        split_ifs at hs with hend
        rw [← Option.some.inj hs]
        exact Stepped.returned hend.1 hclient (Or.inl hend.2)
      case h_2 => cases hs
  | short =>
      rw [step] at hs
      split at hs
      case h_1 received hclient =>
        split_ifs at hs with hend
        rw [← Option.some.inj hs]
        exact Stepped.returned hend.1 hclient (Or.inr hend.2.2)
      case h_2 => cases hs
  | serverRecv k =>
      rw [step] at hs
      split_ifs at hs with hgone
      exact hon (Transfers.serverRecv k) (fun h => by cases h) (fun _ => hgone) hs
  | serverSend k =>
      rw [step] at hs
      split_ifs at hs with hgone
      exact hon (Transfers.serverSend k) (fun h => by cases h) (fun _ => hgone) hs
  | serverSent =>
      rw [step] at hs
      split_ifs at hs with hgone
      exact hon Transfers.serverSent (fun h => by cases h) (fun _ => hgone) hs
  | serverEnd =>
      rw [step] at hs
      split_ifs at hs with hend
      rw [← Option.some.inj hs]
      exact Stepped.gone hend.1 (Or.inl hend.2)
  | serverReset =>
      rw [step] at hs
      split_ifs at hs with hend
      rw [← Option.some.inj hs]
      exact Stepped.gone hend.1 (Or.inr hend.2)

theorem State.command_conn (s : State A B) (cmd : UInt8) (rest : List UInt8) :
    (s.command cmd rest).conn = s.conn := by
  unfold State.command
  split_ifs <;> rfl

theorem State.command_gone (s : State A B) (cmd : UInt8) (rest : List UInt8) :
    (s.command cmd rest).gone = s.gone := by
  unfold State.command
  split_ifs <;> rfl

theorem State.command_stage (s : State A B) (cmd : UInt8) (rest : List UInt8) :
    (s.command cmd rest).stage = Stage.commands rest ∨
      ((s.command cmd rest).stage = Stage.left ∧ (s.command cmd rest).fin = true) := by
  unfold State.command
  split_ifs
  · exact Or.inl rfl
  · exact Or.inl rfl
  · exact Or.inr ⟨rfl, rfl⟩
  · exact Or.inl rfl

/-- A letter does not take the end of the stream back. -/
theorem State.command_fin (s : State A B) (cmd : UInt8) (rest : List UInt8)
    (h : s.fin = true) : (s.command cmd rest).fin = true := by
  unfold State.command
  split_ifs
  · rfl
  · exact h
  · rfl
  · exact h

/-- **Every step is one of the connection**, or leaves it. -/
theorem simulates_echo (A B : ℕ) (message cmds : List UInt8) :
    Simulates (step (A := A) (B := B) message cmds) (fun _ _ => True) (echoStep message)
      (fun _ _ => True) State.conn := by
  intro s m s' _ hs
  cases stepped_of_step hs with
  | transfer hm hconn => exact Or.inr ⟨_, trivial, hconn⟩
  | sent hstage hconn => exact Or.inr ⟨_, trivial, hconn⟩
  | command hstage => exact Or.inl (s.command_conn _ _)
  | receive hstage => exact Or.inl rfl
  | returned hstage hclient hend => exact Or.inl rfl
  | gone hgone hend => exact Or.inl rfl

/-! ## The invariant -/

/-- Where the client and the server are, against what has happened on the connection. -/
structure Inv (message : List UInt8) (s : State A B) : Prop where
  conserved : Conserved message s.conn
  /-- the client's stream ends behind its last byte -/
  sent : s.fin = true ∨ s.stage ≠ Stage.transfer → ∃ received, s.conn.client = Client.receiveAll received
  fin : s.stage = Stage.returned ∨ s.stage = Stage.left → s.fin = true
  /-- the server thread ends when it has read everything, or the client has left -/
  gone : s.gone = true → s.stage = Stage.left ∨
    (s.fin = true ∧ s.conn.server = Server.receiveSome ∧ s.conn.c2s.queue = [])
  closed : ∀ received, s.conn.client ≠ Client.closed received
  ended : s.conn.server ≠ Server.ended
  returned : s.stage = Stage.returned → s.conn.client.received = message

theorem inv_start (A B : ℕ) (message : List UInt8) : Inv message (start A B) where
  conserved := conserved_start message
  sent := by
    rintro (h | h)
    · cases h
    · exact absurd rfl h
  fin := by
    rintro (h | h) <;> cases h
  gone := fun h => by cases h
  closed := fun _ h => by cases h
  ended := fun h => by cases h
  returned := fun h => by cases h

/-- A step of the client on the connection: it stays in its loop, and the server does not
see more of it than a byte in the channel. -/
theorem transfer_client {m : TtcpEcho.Move} (hm : Transfers m true)
    {c c' : TtcpEcho.State A B} (hc : echoStep message m c = some c') :
    c'.server = c.server ∧
      ((∃ w w', c.client = Client.sendAll w ∧ c'.client = Client.sendAll w') ∨
        ∃ received received', c.client = Client.receiveAll received ∧
          c'.client = Client.receiveAll received' ∧ c'.c2s = c.c2s) := by
  cases hm with
  | send k =>
      obtain ⟨w, c2s, hclient, -, -, -, rfl⟩ := clientSend_eq_some hc
      exact ⟨rfl, Or.inl ⟨w, w + k, hclient, rfl⟩⟩
  | recv k =>
      obtain ⟨received, xs, s2c, hclient, -, rfl⟩ := clientRecv_eq_some hc
      exact ⟨rfl, Or.inr ⟨received, received ++ xs, hclient, rfl, rfl⟩⟩

/-- A step of the server on the connection. -/
theorem transfer_server {m : TtcpEcho.Move} (hm : Transfers m false)
    {c c' : TtcpEcho.State A B} (hc : echoStep message m c = some c') :
    c'.client = c.client ∧ c'.server ≠ Server.ended := by
  cases hm with
  | serverRecv k =>
      obtain ⟨buf, c2s, -, -, -, rfl⟩ := serverRecv_eq_some hc
      exact ⟨rfl, by simp⟩
  | serverSend k =>
      obtain ⟨buf, w, s2c, -, -, rfl⟩ := serverSend_eq_some hc
      exact ⟨rfl, by simp⟩
  | serverSent =>
      obtain ⟨buf, w, -, -, rfl⟩ := serverSent_eq_some hc
      exact ⟨rfl, by simp⟩

/-- A client behind its `sendAll`, with nothing left on the way, has everything. -/
theorem received_of_gone (h : Inv message s) (hgone : s.gone = true)
    (hstage : s.stage ≠ Stage.left) : s.conn.client.received ++ s.conn.s2c.queue = message := by
  obtain ⟨hfin, hserver, hc2s⟩ := (h.gone hgone).resolve_left hstage
  obtain ⟨received, hclient⟩ := h.sent (Or.inl hfin)
  have hbytes := h.conserved.bytes
  rw [hserver, hc2s, hclient] at hbytes
  rw [hclient]
  simpa only [Server.unsent, Client.unsent, List.append_nil] using hbytes

/-- A client in `sendAll` has not ended its stream. -/
theorem Inv.fin_eq_false (h : Inv message s) {w : ℕ} (hw : s.conn.client = Client.sendAll w) :
    s.fin = false := by
  by_contra hfin
  obtain ⟨received, hclient⟩ := h.sent (Or.inl (Bool.eq_true_of_not_eq_false hfin))
  rw [hw] at hclient
  cases hclient

/-- The client moves bytes. -/
theorem Inv.transfer_client (h : Inv message s) (hstage : s.stage = Stage.transfer)
    {m : TtcpEcho.Move} (hm : Transfers m true) {conn : TtcpEcho.State A B}
    (hconn : echoStep message m s.conn = some conn) : Inv message { s with conn := conn } := by
  have hconserved := conserved_step h.conserved hconn
  have hreturned : s.stage ≠ Stage.returned := by
    rw [hstage]
    simp
  obtain ⟨hsame, ⟨w, w', hw, hw'⟩ | ⟨received, received', hr, hr', hc2s⟩⟩ :=
    TtcpClient.transfer_client hm hconn
  · have hfin := h.fin_eq_false hw
    refine ⟨hconserved, ?_, h.fin, ?_, ?_, ?_, fun heq => absurd heq hreturned⟩
    · rintro (hnow | hne)
      · exact absurd (hfin.symm.trans hnow) Bool.false_ne_true
      · exact absurd hstage hne
    · intro hgone
      rcases h.gone hgone with hleft | ⟨hnow, -⟩
      · exact Or.inl hleft
      · exact absurd (hfin.symm.trans hnow) Bool.false_ne_true
    · intro received heq
      rw [hw'] at heq
      cases heq
    · exact fun heq => h.ended (hsame.symm.trans heq)
  · refine ⟨hconserved, fun _ => ⟨received', hr'⟩, h.fin, ?_, ?_, ?_,
      fun heq => absurd heq hreturned⟩
    · intro hgone
      rcases h.gone hgone with hleft | ⟨hfin, hidle, hnil⟩
      · exact Or.inl hleft
      · exact Or.inr ⟨hfin, hsame.trans hidle, (congrArg Channel.queue hc2s).trans hnil⟩
    · intro received heq
      rw [hr'] at heq
      cases heq
    · exact fun heq => h.ended (hsame.symm.trans heq)

/-- The server thread does. -/
theorem Inv.transfer_server (h : Inv message s) (hgone : s.gone = false) {m : TtcpEcho.Move}
    (hm : Transfers m false) {conn : TtcpEcho.State A B}
    (hconn : echoStep message m s.conn = some conn) : Inv message { s with conn := conn } := by
  obtain ⟨hsame, hended⟩ := TtcpClient.transfer_server hm hconn
  refine ⟨conserved_step h.conserved hconn, ?_, h.fin, ?_, ?_, hended, ?_⟩
  · intro hsent
    obtain ⟨received, hclient⟩ := h.sent hsent
    exact ⟨received, hsame.trans hclient⟩
  · exact fun hnow => absurd (hgone.symm.trans hnow) Bool.false_ne_true
  · exact fun received heq => h.closed received (hsame.symm.trans heq)
  · intro hreturned
    show conn.client.received = message
    rw [hsame]
    exact h.returned hreturned

/-- `sendAll` returns, and the command begins. -/
theorem Inv.clientSent (h : Inv message s) (hstage : s.stage = Stage.transfer)
    {conn : TtcpEcho.State A B}
    (hconn : echoStep message TtcpEcho.Move.clientSent s.conn = some conn) :
    Inv message { s with conn := conn, stage := Stage.commands cmds } := by
  have hconserved := conserved_step h.conserved hconn
  obtain ⟨w, hw, -, rfl⟩ := clientSent_eq_some hconn
  refine ⟨hconserved, fun _ => ⟨[], rfl⟩, ?_, ?_, fun _ heq => (by cases heq), h.ended,
    fun heq => (by cases heq)⟩
  · rintro (heq | heq) <;> cases heq
  · intro hgone
    obtain ⟨hfin, -⟩ := (h.gone hgone).resolve_left (by rw [hstage]; simp)
    exact absurd ((h.fin_eq_false hw).symm.trans hfin) Bool.false_ne_true

/-- A letter of the command. -/
theorem Inv.command (h : Inv message s) {cmd : UInt8} {rest : List UInt8}
    (hstage : s.stage = Stage.commands (cmd :: rest)) : Inv message (s.command cmd rest) := by
  have hsent := h.sent (Or.inr (by rw [hstage]; simp))
  refine ⟨?_, ?_, ?_, ?_, ?_, ?_, ?_⟩
  · rw [s.command_conn]
    exact h.conserved
  · rw [s.command_conn]
    exact fun _ => hsent
  · rintro (heq | heq) <;> rcases s.command_stage cmd rest with hnext | ⟨hnext, hfin⟩
    · rw [hnext] at heq
      cases heq
    · exact hfin
    · rw [hnext] at heq
      cases heq
    · exact hfin
  · rw [s.command_gone, s.command_conn]
    intro hgone
    obtain ⟨hfin, hrest⟩ := (h.gone hgone).resolve_left (by rw [hstage]; simp)
    exact Or.inr ⟨s.command_fin cmd rest hfin, hrest⟩
  · rw [s.command_conn]
    exact h.closed
  · rw [s.command_conn]
    exact h.ended
  · rcases s.command_stage cmd rest with hnext | ⟨hnext, -⟩ <;> rw [hnext] <;> intro heq <;>
      cases heq

/-- `receiveAll` returns everything, also where it meets the end of the server's stream. -/
theorem Inv.receiveAll (h : Inv message s) (hstage : s.stage = Stage.transfer)
    {received : List UInt8} (hclient : s.conn.client = Client.receiveAll received)
    (hend : message.length ≤ received.length ∨ (s.gone = true ∧ s.conn.s2c.queue = [])) :
    Inv message { s with stage := Stage.returned, fin := true } := by
  have hnot : s.stage ≠ Stage.left := by
    rw [hstage]
    simp
  refine ⟨h.conserved, fun _ => ⟨received, hclient⟩, fun _ => rfl, ?_, h.closed, h.ended, ?_⟩
  · intro hgone
    exact Or.inr ⟨rfl, ((h.gone hgone).resolve_left hnot).2⟩
  · intro _
    rcases hend with hall | ⟨hgone, hnil⟩
    · exact received_of_finished h.conserved ⟨received, Or.inl hclient, hall⟩
    · -- the server has ended, and nothing is on its way back
      have hreceived := received_of_gone h hgone hnot
      rw [hnil, List.append_nil] at hreceived
      exact hreceived

/-- **The invariant is kept.** -/
theorem Inv.step (h : Inv message s) {m : Move} (hs : step message cmds m s = some s') :
    Inv message s' := by
  cases stepped_of_step hs with
  | @transfer m client conn hm hconn hclient hserver =>
      cases client with
      | true => exact h.transfer_client (hclient rfl) hm hconn
      | false => exact h.transfer_server (hserver rfl) hm hconn
  | sent hstage hconn => exact h.clientSent hstage hconn
  | command hstage => exact h.command hstage
  | receive hstage =>
      have hsent := h.sent (Or.inr (by rw [hstage]; simp))
      refine ⟨h.conserved, fun _ => hsent, ?_, ?_, h.closed, h.ended, fun heq => by cases heq⟩
      · rintro (heq | heq) <;> cases heq
      · intro hgone
        exact Or.inr ((h.gone hgone).resolve_left (by rw [hstage]; simp))
  | returned hstage hclient hend => exact h.receiveAll hstage hclient hend
  | gone hgone hend =>
      refine ⟨h.conserved, h.sent, h.fin, fun _ => ?_, h.closed, h.ended, h.returned⟩
      rcases hend with ⟨hserver, hc2s, hfin⟩ | hleft
      · exact Or.inr ⟨hfin, hserver, hc2s⟩
      · exact Or.inl hleft

theorem inv_of_reachable (h : Reachable (step message cmds) (start A B) s) : Inv message s :=
  h.invariant (inv_start A B message) (fun _ _ _ hinv _ hs => hinv.step hs)

/-- **The response is complete.**  For any message, any command and any order of the steps,
the client that has come to the end of `main` holds exactly what it has sent. -/
theorem client_complete (h : Reachable (step message cmds) (start A B) s)
    (hreturned : s.stage = Stage.returned) : s.conn.client.received = message :=
  (inv_of_reachable h).returned hreturned

/-- With `sx` the server thread has ended before the client takes the first byte back. -/
theorem client_complete_shutdown :
    ∃ s : State 3 3, Reachable (step [83, 83] [115, 120]) (start 3 3) s ∧
      s.stage = Stage.returned ∧ s.conn.client.received = [83, 83] := by
  obtain ⟨s, hreach, hs⟩ : ∃ s : State 3 3, Reachable (step [83, 83] [115, 120]) (start 3 3) s ∧
      s.stage = Stage.returned :=
    exists_reach_of_run [.send 2, .sent, .command, .serverRecv 2, .serverSend 1, .serverSend 1,
      .serverSent, .serverEnd, .command, .receive, .recv 1, .recv 1, .finish] (by decide +kernel)
  exact ⟨s, hreach, hs, client_complete hreach hs⟩

/-! ## Runs are bounded -/

/-- Whether the server has still to leave `sendAll`. -/
def sending : Server → ℕ
  | Server.sendAll _ _ => 1
  | _ => 0

/-- What the bytes of a connection have still to do: each takes up to four moves, and each
piece brings the server into `sendAll` once. -/
def weight (message : List UInt8) (c : TtcpEcho.State A B) : ℕ :=
  2 * (4 * (c.client.unsent message).length + 3 * c.c2s.queue.length
    + 2 * c.server.unsent.length + c.s2c.queue.length) + sending c.server

/-- What the client has still to do beside it. -/
def Stage.turns (cmds : List UInt8) (client : Client) : Stage → ℕ
  | transfer =>
      match client with
      | Client.sendAll _ => cmds.length + 3
      | _ => 1
  | commands rest => rest.length + 2
  | returned => 0
  | left => 0

/-- What is left of a run. -/
def State.measure (message cmds : List UInt8) (s : State A B) : ℕ :=
  weight message s.conn + s.stage.turns cmds s.conn.client + (!s.gone).toNat

/-- A move of at least one byte takes something off the weight. -/
theorem weight_transfer {m : TtcpEcho.Move} {client : Bool} (hm : Transfers m client)
    {c c' : TtcpEcho.State A B} (hc : echoStep message m c = some c') :
    weight message c' + 1 ≤ weight message c := by
  obtain ⟨client, server, c2s, s2c⟩ := c
  cases hm with
  | send k =>
      obtain ⟨w, c2s', rfl, hk, hle, hqueue, rfl⟩ := clientSend_eq_some hc
      simp only [weight, Client.unsent, hqueue, List.length_append, List.length_take,
        List.length_drop]
      omega
  | recv k =>
      simp only [echoStep, clientRecv] at hc
      rcases client with w | received | received
      · cases hc
      · simp only at hc
        split_ifs at hc with hk
        obtain ⟨⟨xs, s2c'⟩, hrecv, rfl⟩ := Option.map_eq_some_iff.mp hc
        obtain ⟨hqueue, hlen⟩ := Channel.recv_eq_some hrecv
        simp only [weight, Client.unsent, hqueue, List.length_append]
        omega
      · cases hc
  | serverRecv k =>
      simp only [echoStep, serverRecv] at hc
      rcases server with _ | ⟨buf, w⟩ | _
      · simp only at hc
        split_ifs at hc with hk
        obtain ⟨⟨buf, c2s'⟩, hrecv, rfl⟩ := Option.map_eq_some_iff.mp hc
        obtain ⟨hqueue, hlen⟩ := Channel.recv_eq_some hrecv
        simp only [weight, Server.unsent, sending, hqueue, List.length_append, List.drop_zero,
          List.length_nil]
        omega
      · cases hc
      · cases hc
  | serverSend k =>
      simp only [echoStep, serverSend] at hc
      rcases server with _ | ⟨buf, w⟩ | _
      · cases hc
      · simp only at hc
        split_ifs at hc with hk
        obtain ⟨s2c', hsend, rfl⟩ := Option.map_eq_some_iff.mp hc
        simp only [weight, Server.unsent, sending, Channel.send_eq_some hsend,
          List.length_append, List.length_take, List.length_drop]
        omega
      · cases hc
  | serverSent =>
      obtain ⟨buf, w, rfl, hall, rfl⟩ := serverSent_eq_some hc
      simp only [weight, Server.unsent, sending, List.drop_eq_nil_of_le hall, List.length_nil]
      omega

/-- A move on the connection leaves the client's turns as they are. -/
theorem turns_transfer (cmds : List UInt8) (stage : Stage) {m : TtcpEcho.Move} {client : Bool}
    (hm : Transfers m client) {c c' : TtcpEcho.State A B}
    (hc : echoStep message m c = some c') :
    stage.turns cmds c'.client = stage.turns cmds c.client := by
  cases client with
  | true =>
      obtain ⟨-, ⟨w, w', hw, hw'⟩ | ⟨received, received', hr, hr', -⟩⟩ := transfer_client hm hc
      · rw [hw, hw']
        cases stage <;> rfl
      · rw [hr, hr']
        cases stage <;> rfl
  | false => rw [(transfer_server hm hc).1]

/-- **Every step takes something off the measure.** -/
theorem measure_step (h : Inv message s) {m : Move} (hs : step message cmds m s = some s') :
    s'.measure message cmds + 1 ≤ s.measure message cmds := by
  cases stepped_of_step hs with
  | @transfer m client conn hm hconn hclient hserver =>
      have hweight := weight_transfer hm hconn
      have hturns := turns_transfer cmds s.stage hm hconn
      show weight message conn + s.stage.turns cmds conn.client + (!s.gone).toNat + 1 ≤ _
      rw [hturns, State.measure]
      omega
  | @sent conn hstage hconn =>
      obtain ⟨w, hw, hall, rfl⟩ := clientSent_eq_some hconn
      simp only [State.measure, weight, hw, hstage, Stage.turns, Client.unsent, List.length_nil]
      omega
  | @command cmd rest hstage =>
      rw [State.measure, State.measure, s.command_conn, s.command_gone, hstage]
      have hturns : (s.command cmd rest).stage.turns cmds s.conn.client ≤ rest.length + 2 := by
        rcases s.command_stage cmd rest with hnext | ⟨hnext, -⟩
        · rw [hnext]
          exact le_rfl
        · rw [hnext]
          exact Nat.zero_le _
      have hbefore : (Stage.commands (cmd :: rest)).turns cmds s.conn.client
          = rest.length + 3 := rfl
      omega
  | receive hstage =>
      obtain ⟨received, hclient⟩ := h.sent (Or.inr (by rw [hstage]; simp))
      simp only [State.measure, hstage, hclient, Stage.turns, List.length_nil]
      omega
  | @returned received hstage hclient hend =>
      simp only [State.measure, hstage, hclient, Stage.turns]
      omega
  | gone hgone hend =>
      simp only [State.measure, hgone, Bool.not_false, Bool.not_true, Bool.toNat_true,
        Bool.toNat_false]
      omega

/-! ## How a run ends -/

/-- The server thread has ended, and the client is at its end or has left. -/
def State.Over (s : State A B) : Prop :=
  s.gone = true ∧ (s.stage = Stage.returned ∨ s.stage = Stage.left)

/-- No step is possible. -/
def Stuck (message cmds : List UInt8) (s : State A B) : Prop :=
  ∀ m, step message cmds m s = none

/-- While the client is in `sendAll` or has still to receive, and the server thread runs,
the connection is stuck as well. -/
theorem Stuck.conn (h : Stuck message cmds s) (hstage : s.stage = Stage.transfer)
    (hgone : s.gone = false)
    (hless : ∀ received, s.conn.client = Client.receiveAll received →
      received.length < message.length)
    (hclosed : ∀ received, s.conn.client ≠ Client.closed received) :
    TtcpEcho.Stuck message s.conn := by
  intro m
  cases m with
  | clientSend k =>
      have hsend := h (Move.send k)
      rw [step, if_pos hstage] at hsend
      exact Option.map_eq_none_iff.mp hsend
  | clientSent =>
      have hsent := h Move.sent
      rw [step, if_pos hstage] at hsent
      exact Option.map_eq_none_iff.mp (Option.map_eq_none_iff.mp hsent)
  | clientRecv k =>
      have hrecv := h (Move.recv k)
      rw [step, if_pos hstage] at hrecv
      exact Option.map_eq_none_iff.mp hrecv
  | clientClose =>
      simp only [echoStep, clientClose]
      split
      case h_1 received hreceived => rw [if_neg (not_le.mpr (hless received hreceived))]
      case h_2 => rfl
  | serverRecv k =>
      have hrecv := h (Move.serverRecv k)
      rw [step, if_pos hgone] at hrecv
      exact Option.map_eq_none_iff.mp hrecv
  | serverSend k =>
      have hsend := h (Move.serverSend k)
      rw [step, if_pos hgone] at hsend
      exact Option.map_eq_none_iff.mp hsend
  | serverSent =>
      have hsent := h Move.serverSent
      rw [step, if_pos hgone] at hsent
      exact Option.map_eq_none_iff.mp hsent
  | serverEnd =>
      simp only [echoStep, serverEnd]
      split
      case h_1 received hreceived _ => exact absurd hreceived (hclosed received)
      case h_2 => rfl

/-- A client that is stuck is not at a letter of the command, or behind the last one. -/
theorem Stuck.not_commands (h : Stuck message cmds s) (rest : List UInt8) :
    s.stage ≠ Stage.commands rest := by
  intro hstage
  cases rest with
  | nil =>
      have hreceive := h Move.receive
      rw [step, if_pos hstage] at hreceive
      cases hreceive
  | cons cmd rest =>
      have hcommand := h Move.command
      simp only [step, hstage] at hcommand
      cases hcommand

/-- A client that is stuck in `receiveAll` has not received everything. -/
theorem Stuck.length_lt (h : Stuck message cmds s) (hstage : s.stage = Stage.transfer)
    {received : List UInt8} (hclient : s.conn.client = Client.receiveAll received) :
    received.length < message.length := by
  by_contra hless
  have hfinish := h Move.finish
  simp only [step, hclient] at hfinish
  rw [if_pos ⟨hstage, not_lt.mp hless⟩] at hfinish
  cases hfinish

/-- Behind the end of the server thread, what a client in `receiveAll` waits for is in the
channel. -/
theorem Stuck.not_transfer_of_gone (hstuck : Stuck message cmds s) (h : Inv message s)
    (hgone : s.gone = true) : s.stage ≠ Stage.transfer := by
  intro hstage
  have hnot : s.stage ≠ Stage.left := by
    rw [hstage]
    simp
  obtain ⟨hfin, -⟩ := (h.gone hgone).resolve_left hnot
  obtain ⟨received, hclient⟩ := h.sent (Or.inl hfin)
  have hless := hstuck.length_lt hstage hclient
  have hreceived := received_of_gone h hgone hnot
  rw [hclient] at hreceived
  have hne : s.conn.s2c.queue ≠ [] := by
    intro hnil
    rw [hnil, List.append_nil] at hreceived
    exact absurd (congrArg List.length hreceived) hless.ne
  obtain ⟨conn, hconn⟩ := exists_clientRecv hclient hless hne
  have hrecv := hstuck (Move.recv 1)
  rw [step, if_pos hstage, State.onConn, hconn] at hrecv
  cases hrecv

/-- Behind the return of the client, the server thread goes on until it has read the end of
the stream. -/
theorem Stuck.gone_of_returned (hstuck : Stuck message cmds s) (h : Inv message s)
    (hstage : s.stage = Stage.returned) : s.gone = true := by
  by_contra hne
  have hgone : s.gone = false := Bool.eq_false_of_not_eq_true hne
  rcases hserver : s.conn.server with _ | ⟨buf, w⟩ | _
  · by_cases hnil : s.conn.c2s.queue = []
    · have hend := hstuck Move.serverEnd
      rw [step, if_pos ⟨hgone, hserver, hnil, h.fin (Or.inl hstage)⟩] at hend
      cases hend
    · obtain ⟨conn, buf, hconn, -⟩ := exists_serverRecv message hserver hnil
      have hrecv := hstuck (Move.serverRecv 1)
      rw [step, if_pos hgone, State.onConn, hconn] at hrecv
      cases hrecv
  · -- everything has come back, so nothing of the piece is unsent
    have hall : buf.length ≤ w := by
      have hlen := h.conserved.length
      rw [h.returned hstage, hserver] at hlen
      simp only [Server.unsent, List.length_drop] at hlen
      omega
    have hsent := hstuck Move.serverSent
    rw [step, if_pos hgone, State.onConn, serverSent_eq message hserver hall] at hsent
    cases hsent
  · exact h.ended hserver

/-- The server thread does not outlive a client that has left. -/
theorem Stuck.gone_of_left (hstuck : Stuck message cmds s) (hstage : s.stage = Stage.left) :
    s.gone = true := by
  by_contra hne
  have hreset := hstuck Move.serverReset
  rw [step, if_pos ⟨Bool.eq_false_of_not_eq_true hne, hstage⟩] at hreset
  cases hreset

/-- **Where a run can end**: both sides are at their end, or the client is in `sendAll` and
the message is too long for what lies between the two. -/
theorem over_or_deadlock (hA : 1 ≤ A) (hB : 1 ≤ B) (h : Inv message s)
    (hstuck : Stuck message cmds s) :
    s.Over ∨ (A + B + 2 ≤ message.length ∧ ∃ w, s.conn.client = Client.sendAll w) := by
  rcases hstage : s.stage with _ | rest | _ | _
  · have hgone : s.gone = false :=
      Bool.eq_false_of_not_eq_true fun hgone => hstuck.not_transfer_of_gone h hgone hstage
    have hconn := hstuck.conn hstage hgone (fun _ => hstuck.length_lt hstage) h.closed
    rcases hclient : s.conn.client with w | received | received
    · exact Or.inr ⟨length_of_stuck_sending hA h.conserved hconn hclient, w, rfl⟩
    · have hless := hstuck.length_lt hstage hclient
      exact (not_stuck_receiving hB h.conserved hconn hclient hless).elim
    · exact absurd hclient (h.closed received)
  · exact absurd hstage (hstuck.not_commands rest)
  · exact Or.inl ⟨hstuck.gone_of_returned h hstage, Or.inl hstage⟩
  · exact Or.inl ⟨hstuck.gone_of_left hstage, Or.inr hstage⟩

/-- **A run of the connection in which the client stays in `sendAll`** is one of the whole,
whatever the command. -/
theorem reach_of_sending {c : TtcpEcho.State A B}
    (h : Reachable (echoStep message) (TtcpEcho.start A B) c) {w : ℕ}
    (hclient : c.client = Client.sendAll w) :
    Reachable (step message cmds) (start A B) ⟨c, Stage.transfer, false, false⟩ := by
  induction h generalizing w with
  | start => exact Reach.start
  | @next c c' m hreach _ hstep ih =>
      have hlift : ∀ (m' : Move) {w : ℕ}, c.client = Client.sendAll w →
          step message cmds m' ⟨c, Stage.transfer, false, false⟩
            = some ⟨c', Stage.transfer, false, false⟩ →
          Reachable (step message cmds) (start A B) ⟨c', Stage.transfer, false, false⟩ :=
        fun _ _ hw hs => (ih hw).next trivial hs
      cases m with
      | clientSend k =>
          obtain ⟨w', c2s, hw', -⟩ := clientSend_eq_some hstep
          refine hlift (Move.send k) hw' ?_
          rw [step, if_pos rfl, State.onConn, hstep, Option.map_some]
      | clientSent =>
          obtain ⟨w', -, -, rfl⟩ := clientSent_eq_some hstep
          cases hclient
      | clientRecv k =>
          obtain ⟨received, xs, s2c, -, -, rfl⟩ := clientRecv_eq_some hstep
          cases hclient
      | clientClose =>
          obtain ⟨received, -, -, rfl⟩ := clientClose_eq_some hstep
          cases hclient
      | serverRecv k =>
          obtain ⟨buf, c2s, -, -, -, rfl⟩ := serverRecv_eq_some hstep
          refine hlift (Move.serverRecv k) hclient ?_
          rw [step, if_pos rfl, State.onConn, hstep, Option.map_some]
      | serverSend k =>
          obtain ⟨buf, w', s2c, -, -, rfl⟩ := serverSend_eq_some hstep
          refine hlift (Move.serverSend k) hclient ?_
          rw [step, if_pos rfl, State.onConn, hstep, Option.map_some]
      | serverSent =>
          obtain ⟨buf, w', -, -, rfl⟩ := serverSent_eq_some hstep
          refine hlift Move.serverSent hclient ?_
          rw [step, if_pos rfl, State.onConn, hstep, Option.map_some]
      | serverEnd =>
          obtain ⟨received, hclosed, -, rfl⟩ := serverEnd_eq_some hstep
          exact absurd (hclient.symm.trans hclosed) (by simp)

/-- The deadlock of the connection is one of the whole. -/
theorem exists_stuck (hA : 1 ≤ A) (hB : 1 ≤ B) (cmds : List UInt8)
    (hlen : A + B + 2 ≤ message.length) :
    ∃ s : State A B, Reachable (step message cmds) (start A B) s ∧ Stuck message cmds s ∧
      ¬ s.Over := by
  obtain ⟨c, hreach, hless, hstuck⟩ := exists_deadlocked (B := B) hA hlen
  have hconserved := conserved_of_reachable hreach
  obtain ⟨w, hclient⟩ : ∃ w, c.client = Client.sendAll w := by
    rcases hclient : c.client with w | received | received
    · exact ⟨w, rfl⟩
    · rw [hclient] at hless
      exact (not_stuck_receiving hB hconserved hstuck hclient hless).elim
    · rw [hclient] at hless
      exact absurd (hconserved.closed received hclient) (not_le.mpr hless)
  refine ⟨⟨c, Stage.transfer, false, false⟩, reach_of_sending hreach hclient, ?_, ?_⟩
  · intro m
    cases m with
    | send k => simp only [step, State.onConn, hstuck _, Option.map_none, ite_self]
    | sent => simp only [step, State.onConn, hstuck _, Option.map_none, ite_self]
    | command => rfl
    | receive => rfl
    | recv k => simp only [step, State.onConn, hstuck _, Option.map_none, ite_self]
    | finish => simp only [step, hclient]
    | short => simp only [step, hclient]
    | serverRecv k => simp only [step, State.onConn, hstuck _, Option.map_none, ite_self]
    | serverSend k => simp only [step, State.onConn, hstuck _, Option.map_none, ite_self]
    | serverSent => simp only [step, State.onConn, hstuck _, Option.map_none, ite_self]
    | serverEnd => simp [step]
    | serverReset => simp [step]
  · rintro ⟨hgone, -⟩
    cases hgone

/-- **Every run ends.**  For all capacities from 1 on, every message and every command: a run
has at most `8 * len` steps and one for each letter and four more; where it cannot go on,
the server thread has ended and the client has returned or left through `c`, or the client
is in `sendAll`; and the second happens in some run exactly if the message has at least
`A + B + 2` bytes, whatever the command. -/
theorem client_halts (hA : 1 ≤ A) (hB : 1 ≤ B) (message cmds : List UInt8) :
    (∀ moves (s : State A B), run (step message cmds) moves (start A B) = some s →
      moves.length ≤ 8 * message.length + cmds.length + 4 ∧
      (Stuck message cmds s → s.Over ∨ ∃ w, s.conn.client = Client.sendAll w)) ∧
    ((∃ s : State A B, Reachable (step message cmds) (start A B) s ∧ Stuck message cmds s ∧
      ¬ s.Over) ↔ A + B + 2 ≤ message.length) := by
  refine ⟨fun moves s hrun => ⟨?_, ?_⟩, ?_, exists_stuck hA hB cmds⟩
  · have hle := run_length_le (I := Inv message) (fun _ _ _ h hs => h.step hs)
      (fun _ _ _ h hs => measure_step h hs) (inv_start A B message) hrun
    have hfirst : (start A B).measure message cmds = 8 * message.length + cmds.length + 4 := by
      simp only [State.measure, weight, start, TtcpEcho.start, Client.unsent, Server.unsent,
        sending, Stage.turns, Channel.empty, List.drop_zero, List.length_nil, Bool.not_false,
        Bool.toNat_true]
      omega
    omega
  · intro hstuck
    have hinv := inv_of_reachable (reachable_of_run hrun)
    exact (over_or_deadlock hA hB hinv hstuck).imp id And.right
  · rintro ⟨s, hreach, hstuck, hover⟩
    exact ((over_or_deadlock hA hB (inv_of_reachable hreach) hstuck).resolve_left hover).1

/-- With channels of one byte each, four bytes and `c`: the client never comes to its
command. -/
theorem client_halts_one : ∃ s : State 1 1,
    Reachable (step (List.replicate 4 83) [99]) (start 1 1) s ∧
      Stuck (List.replicate 4 83) [99] s ∧ ¬ s.Over :=
  (client_halts (A := 1) (B := 1) le_rfl le_rfl (List.replicate 4 83) [99]).2.mpr (by decide)

end TtcpClient
