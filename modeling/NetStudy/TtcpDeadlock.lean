/-
# The deadlock of the echo client, and its threshold

The client takes nothing back before it has sent everything.  So the bytes it has sent
must fit into the two channels and the server's buffer, and if they do not, the client
and the server wait for each other in `sendAll`.

* Stuck, with something still to send on both sides, there are `A` bytes in one channel,
  `B` in the other, and at least one byte on each side (`length_of_deadlocked`).
* A server that takes one byte at a time gets there as soon as the message is that long
  (`exists_deadlocked`).
* A message that exceeds the channels and the whole buffer is never sent
  (`not_finished_of_long`).
-/
import NetStudy.TtcpEcho

namespace TtcpEcho

open Transition

variable {A B : ℕ} {message : List UInt8} {s : State A B}

/-! ## When a step is possible -/

/-- The client can send a byte while there is room. -/
theorem exists_clientSend (message : List UInt8) {w : ℕ} (hclient : s.client = Client.sendAll w)
    (hw : w < message.length) (hroom : s.c2s.queue.length < A) :
    ∃ s', echoStep message (Move.clientSend 1) s = some s' ∧
      s'.client = Client.sendAll (w + 1) ∧ s'.server = s.server ∧
      s'.c2s.queue.length = s.c2s.queue.length + 1 ∧ s'.s2c = s.s2c := by
  have hlen : ((message.drop w).take 1).length = 1 := by
    rw [List.length_take, List.length_drop]
    omega
  obtain ⟨c2s, hsend, hqueue⟩ :=
    Channel.exists_send s.c2s ((message.drop w).take 1) (by rw [hlen]; exact hroom)
  refine ⟨{ s with client := Client.sendAll (w + 1), c2s := c2s }, ?_, rfl, rfl, ?_, rfl⟩
  · simp only [echoStep, clientSend, hclient]
    rw [if_pos ⟨le_rfl, hw⟩, hsend]
    rfl
  · show c2s.queue.length = _
    rw [hqueue, List.length_append, hlen]

/-- The client can take a byte that is there. -/
theorem exists_clientRecv {received : List UInt8} (hclient : s.client = Client.receiveAll received)
    (hless : received.length < message.length) (hne : s.s2c.queue ≠ []) :
    ∃ s', echoStep message (Move.clientRecv 1) s = some s' := by
  obtain ⟨s2c, hrecv, -⟩ := Channel.exists_recv s.s2c 1 (List.length_pos_iff.mpr hne)
  refine ⟨{ s with client := Client.receiveAll (received ++ s.s2c.queue.take 1), s2c := s2c }, ?_⟩
  simp only [echoStep, clientRecv, hclient]
  rw [if_pos ⟨le_rfl, hless⟩, hrecv]
  rfl

/-- The server can take a byte that is there. -/
theorem exists_serverRecv (message : List UInt8) (hserver : s.server = Server.receiveSome)
    (hne : s.c2s.queue ≠ []) :
    ∃ s' buf, echoStep message (Move.serverRecv 1) s = some s' ∧
      s'.client = s.client ∧ s'.server = Server.sendAll buf 0 ∧ buf.length = 1 ∧
      s'.c2s.queue.length + 1 = s.c2s.queue.length ∧ s'.s2c = s.s2c := by
  have hpos := List.length_pos_iff.mpr hne
  obtain ⟨c2s, hrecv, hqueue⟩ := Channel.exists_recv s.c2s 1 hpos
  refine ⟨{ s with server := Server.sendAll (s.c2s.queue.take 1) 0, c2s := c2s },
    s.c2s.queue.take 1, ?_, rfl, rfl, List.length_take_of_le hpos, ?_, rfl⟩
  · simp only [echoStep, serverRecv, hserver]
    rw [if_pos ⟨le_rfl, by decide⟩, hrecv]
    rfl
  · show c2s.queue.length + 1 = _
    rw [hqueue, List.length_drop]
    omega

/-- The server can send a byte while there is room. -/
theorem exists_serverSend (message : List UInt8) {buf : List UInt8} {w : ℕ}
    (hserver : s.server = Server.sendAll buf w) (hw : w < buf.length)
    (hroom : s.s2c.queue.length < B) :
    ∃ s', echoStep message (Move.serverSend 1) s = some s' ∧
      s'.client = s.client ∧ s'.server = Server.sendAll buf (w + 1) ∧
      s'.c2s = s.c2s ∧ s'.s2c.queue.length = s.s2c.queue.length + 1 := by
  have hlen : ((buf.drop w).take 1).length = 1 := by
    rw [List.length_take, List.length_drop]
    omega
  obtain ⟨s2c, hsend, hqueue⟩ :=
    Channel.exists_send s.s2c ((buf.drop w).take 1) (by rw [hlen]; exact hroom)
  refine ⟨{ s with server := Server.sendAll buf (w + 1), s2c := s2c }, ?_, rfl, rfl, rfl, ?_⟩
  · simp only [echoStep, serverSend, hserver]
    rw [if_pos ⟨le_rfl, hw⟩, hsend]
    rfl
  · show s2c.queue.length = _
    rw [hqueue, List.length_append, hlen]

/-- The server leaves `sendAll` when everything is sent. -/
theorem serverSent_eq (message : List UInt8) {buf : List UInt8} {w : ℕ}
    (hserver : s.server = Server.sendAll buf w) (hall : buf.length ≤ w) :
    echoStep message Move.serverSent s = some { s with server := Server.receiveSome } := by
  simp only [echoStep, serverSent, hserver]
  rw [if_pos hall]

/-- So does the client. -/
theorem clientSent_eq {w : ℕ} (hclient : s.client = Client.sendAll w)
    (hall : message.length ≤ w) :
    echoStep message Move.clientSent s = some { s with client := Client.receiveAll [] } := by
  simp only [echoStep, clientSent, hclient]
  rw [if_pos hall]

/-! ## Deadlock -/

/-- Neither side can step. -/
def Stuck (message : List UInt8) (s : State A B) : Prop := ∀ m, echoStep message m s = none

/-- The client has not received everything, and neither side can step. -/
def Deadlocked (message : List UInt8) (s : State A B) : Prop :=
  s.client.received.length < message.length ∧ Stuck message s

/-- `receiveAll` has all the bytes it has been asked for, and the client goes on to its
end. -/
def Finished (message : List UInt8) (s : State A B) : Prop :=
  ∃ received, (s.client = Client.receiveAll received ∨ s.client = Client.closed received) ∧
    message.length ≤ received.length

theorem Stuck.not_some {m : Move} {s' : State A B} (h : Stuck message s)
    (hstep : echoStep message m s = some s') : False := by
  rw [h m] at hstep
  cases hstep

/-- A stuck server that is in `receiveSome` has nothing to read. -/
theorem Stuck.c2s_eq_nil (h : Stuck message s) (hserver : s.server = Server.receiveSome) :
    s.c2s.queue = [] := by
  by_contra hne
  obtain ⟨s', buf, hstep, -⟩ := exists_serverRecv message hserver hne
  exact h.not_some hstep

/-- A stuck server that is in `sendAll` has something to send and no room for it. -/
theorem Stuck.sendAll_full (h : Stuck message s) {buf : List UInt8} {w : ℕ}
    (hserver : s.server = Server.sendAll buf w) : w < buf.length ∧ B ≤ s.s2c.queue.length := by
  have hw : w < buf.length := by
    by_contra hall
    exact h.not_some (serverSent_eq message hserver (by omega))
  refine ⟨hw, ?_⟩
  by_contra hroom
  obtain ⟨s', hstep, -⟩ := exists_serverSend message hserver hw (by omega)
  exact h.not_some hstep

/-- A stuck client that is in `sendAll` has something to send and no room for it. -/
theorem Stuck.client_full (h : Stuck message s) {w : ℕ} (hclient : s.client = Client.sendAll w) :
    w < message.length ∧ A ≤ s.c2s.queue.length := by
  have hw : w < message.length := by
    by_contra hall
    exact h.not_some (clientSent_eq hclient (by omega))
  refine ⟨hw, ?_⟩
  by_contra hroom
  obtain ⟨s', hstep, -⟩ := exists_clientSend message hclient hw (by omega)
  exact h.not_some hstep

/-- The lengths of the parts of the message. -/
theorem Conserved.length (h : Conserved message s) :
    s.client.received.length + s.s2c.queue.length + s.server.unsent.length + s.c2s.queue.length
      + (s.client.unsent message).length = message.length := by
  have hlen := congrArg List.length h.bytes
  simp only [List.length_append] at hlen
  exact hlen

/-- A client that is stuck in `sendAll` leaves at least one byte unsent on each side. -/
theorem length_of_stuck_sending (hA : 1 ≤ A) (h : Conserved message s) (hstuck : Stuck message s)
    {w : ℕ} (hclient : s.client = Client.sendAll w) : A + B + 2 ≤ message.length := by
  obtain ⟨hw, hc2s⟩ := hstuck.client_full hclient
  have hlen := h.length
  rw [hclient] at hlen
  simp only [Client.unsent, List.length_drop] at hlen
  rcases hserver : s.server with _ | ⟨buf, v⟩ | _
  · -- a server in `receiveSome` would have a full channel to read from
    have hnil := hstuck.c2s_eq_nil hserver
    rw [hnil, List.length_nil] at hc2s
    omega
  · obtain ⟨hv, hs2c⟩ := hstuck.sendAll_full hserver
    rw [hserver] at hlen
    simp only [Server.unsent, List.length_drop] at hlen
    omega
  · obtain ⟨received, hclosed⟩ := h.ended hserver
    rw [hclient] at hclosed
    cases hclosed

/-- A client in `receiveAll` is never stuck: what it waits for is on its way. -/
theorem not_stuck_receiving (hB : 1 ≤ B) (h : Conserved message s) (hstuck : Stuck message s)
    {received : List UInt8} (hclient : s.client = Client.receiveAll received)
    (hless : received.length < message.length) : False := by
  -- nothing has come back, so the server holds nothing, and nothing is unsent
  have hs2c : s.s2c.queue = [] := by
    by_contra hne
    obtain ⟨s', hstep⟩ := exists_clientRecv hclient hless hne
    exact hstuck.not_some hstep
  have hlen := h.length
  rw [hclient, hs2c] at hlen
  simp only [Client.received, Client.unsent, List.length_nil] at hlen
  rcases hserver : s.server with _ | ⟨buf, v⟩ | _
  · rw [hserver, hstuck.c2s_eq_nil hserver] at hlen
    simp only [Server.unsent, List.length_nil] at hlen
    omega
  · obtain ⟨-, hfull⟩ := hstuck.sendAll_full hserver
    rw [hs2c, List.length_nil] at hfull
    omega
  · obtain ⟨received', hclosed⟩ := h.ended hserver
    rw [hclient] at hclosed
    cases hclosed

/-- **A deadlock takes `A + B + 2` bytes.** -/
theorem length_of_deadlocked (hA : 1 ≤ A) (hB : 1 ≤ B) (h : Conserved message s)
    (hdead : Deadlocked message s) : A + B + 2 ≤ message.length := by
  obtain ⟨hless, hstuck⟩ := hdead
  rcases hclient : s.client with w | received | received
  · exact length_of_stuck_sending hA h hstuck hclient
  · rw [hclient] at hless
    exact (not_stuck_receiving hB h hstuck hclient hless).elim
  · rw [hclient] at hless
    exact absurd (h.closed received hclient) (Nat.not_le.mpr hless)

/-! ## A run into the deadlock -/

/-- Byte by byte, `j` bytes are sent there and back until they fill the channel to the
client. -/
theorem exists_echoed (message : List UInt8) (hA : 1 ≤ A) {j : ℕ} (hj : j ≤ B) (hlen : j ≤ message.length) :
    ∃ s : State A B, Reachable (echoStep message) (start A B) s ∧
      s.client = Client.sendAll j ∧ s.server = Server.receiveSome ∧
      s.c2s.queue.length = 0 ∧ s.s2c.queue.length = j := by
  induction j with
  | zero => exact ⟨start A B, Reach.start, rfl, rfl, rfl, rfl⟩
  | succ j ih =>
      -- one more byte is sent, read and sent back
      obtain ⟨s, hreach, hclient, hserver, hc2s, hs2c⟩ := ih (by omega) (by omega)
      obtain ⟨s₁, hstep₁, hclient₁, hserver₁, hc2s₁, hs2c₁⟩ :=
        exists_clientSend message hclient (by omega) (by omega)
      obtain ⟨s₂, buf, hstep₂, hclient₂, hserver₂, hbuf, hc2s₂, hs2c₂⟩ :=
        exists_serverRecv message (hserver₁.trans hserver)
          (List.length_pos_iff.mp (by omega))
      obtain ⟨s₃, hstep₃, hclient₃, hserver₃, hc2s₃, hs2c₃⟩ :=
        exists_serverSend message hserver₂ (by omega) (by rw [hs2c₂, hs2c₁]; omega)
      have hstep₄ := serverSent_eq message hserver₃ (by omega)
      refine ⟨{ s₃ with server := Server.receiveSome }, ?_, ?_, rfl, ?_, ?_⟩
      · exact (((hreach.next trivial hstep₁).next trivial hstep₂).next trivial hstep₃).next
          trivial hstep₄
      · show s₃.client = _
        rw [hclient₃, hclient₂, hclient₁]
      · show s₃.c2s.queue.length = 0
        rw [hc2s₃]
        omega
      · show s₃.s2c.queue.length = j + 1
        rw [hs2c₃, hs2c₂, hs2c₁, hs2c]

/-- Then the server takes one more byte, which it cannot send back, and the client fills
the channel to the server. -/
theorem exists_filled (message : List UInt8) (B : ℕ) (hA : 1 ≤ A) {i : ℕ} (hi : i ≤ A) (hlen : B + 1 + i ≤ message.length) :
    ∃ (s : State A B) (buf : List UInt8), Reachable (echoStep message) (start A B) s ∧
      s.client = Client.sendAll (B + 1 + i) ∧ s.server = Server.sendAll buf 0 ∧
      buf.length = 1 ∧ s.c2s.queue.length = i ∧ s.s2c.queue.length = B := by
  induction i with
  | zero =>
      obtain ⟨s, hreach, hclient, hserver, hc2s, hs2c⟩ :=
        exists_echoed message hA (le_refl B) (by omega)
      obtain ⟨s₁, hstep₁, hclient₁, hserver₁, hc2s₁, hs2c₁⟩ :=
        exists_clientSend message hclient (by omega) (by omega)
      obtain ⟨s₂, buf, hstep₂, hclient₂, hserver₂, hbuf, hc2s₂, hs2c₂⟩ :=
        exists_serverRecv message (hserver₁.trans hserver)
          (List.length_pos_iff.mp (by omega))
      refine ⟨s₂, buf, (hreach.next trivial hstep₁).next trivial hstep₂, ?_, hserver₂, hbuf,
        by omega, ?_⟩
      · rw [hclient₂, hclient₁]
      · rw [hs2c₂, hs2c₁, hs2c]
  | succ i ih =>
      obtain ⟨s, buf, hreach, hclient, hserver, hbuf, hc2s, hs2c⟩ := ih (by omega) (by omega)
      obtain ⟨s₁, hstep₁, hclient₁, hserver₁, hc2s₁, hs2c₁⟩ :=
        exists_clientSend message hclient (by omega) (by omega)
      refine ⟨s₁, buf, hreach.next trivial hstep₁, hclient₁, hserver₁.trans hserver, hbuf,
        by omega, ?_⟩
      rw [hs2c₁, hs2c]

/-- Both sides are in `sendAll`, with something to send and both channels full. -/
theorem stuck_of_full {buf : List UInt8} {w v : ℕ} (hclient : s.client = Client.sendAll w)
    (hw : w < message.length) (hc2s : s.c2s.queue.length = A)
    (hserver : s.server = Server.sendAll buf v) (hv : v < buf.length)
    (hs2c : s.s2c.queue.length = B) : Stuck message s := by
  intro m
  cases m with
  | clientSend k =>
      simp only [echoStep, clientSend, hclient]
      split_ifs with hk
      · have hlen : ((message.drop w).take k).length = k := by
          rw [List.length_take, List.length_drop]
          omega
        rw [Channel.send_eq_none (by omega)]
        rfl
      · rfl
  | clientSent =>
      simp only [echoStep, clientSent, hclient]
      rw [if_neg (by omega)]
  | clientRecv k => simp only [echoStep, clientRecv, hclient]
  | clientClose => simp only [echoStep, clientClose, hclient]
  | serverRecv k => simp only [echoStep, serverRecv, hserver]
  | serverSend k =>
      simp only [echoStep, serverSend, hserver]
      split_ifs with hk
      · have hlen : ((buf.drop v).take k).length = k := by
          rw [List.length_take, List.length_drop]
          omega
        rw [Channel.send_eq_none (by omega)]
        rfl
      · rfl
  | serverSent =>
      simp only [echoStep, serverSent, hserver]
      rw [if_neg (by omega)]
  | serverEnd => simp only [echoStep, serverEnd, hclient]

/-- **`A + B + 2` bytes are enough for a deadlock.** -/
theorem exists_deadlocked (hA : 1 ≤ A) (hlen : A + B + 2 ≤ message.length) :
    ∃ s : State A B, Reachable (echoStep message) (start A B) s ∧ Deadlocked message s := by
  obtain ⟨s, buf, hreach, hclient, hserver, hbuf, hc2s, hs2c⟩ :=
    exists_filled message B hA (le_refl A) (by omega)
  refine ⟨s, hreach, ?_, stuck_of_full hclient (by omega) hc2s hserver (by omega) hs2c⟩
  rw [hclient]
  show 0 < message.length
  omega

/-! ## Long messages -/

/-- What the client has sent is in the channels or in the server's buffer, as long as it
has received nothing. -/
theorem sent_le (h : Conserved message s) {w : ℕ} (hclient : s.client = Client.sendAll w)
    (hw : w ≤ message.length) : w ≤ A + B + bufSize := by
  have hlen := h.length
  have hbuffer := h.buffer
  have hc2s := s.c2s.bounded
  have hs2c := s.s2c.bounded
  rw [hclient] at hlen
  simp only [Client.received, Client.unsent, List.length_nil, List.length_drop] at hlen
  omega

/-- **A long message keeps the client in `sendAll`.** -/
theorem sending_of_long (hlong : A + B + bufSize < message.length)
    (h : Reachable (echoStep message) (start A B) s) :
    Conserved message s ∧ ∃ w, s.client = Client.sendAll w ∧ w ≤ message.length := by
  apply h.invariant
  · exact ⟨conserved_start message, 0, rfl, Nat.zero_le _⟩
  · rintro s m s' ⟨hconserved, w, hclient, hw⟩ - hstep
    refine ⟨conserved_step hconserved hstep, ?_⟩
    cases m with
    | clientSend k =>
        obtain ⟨v, c2s, hv, -, hle, -, rfl⟩ := clientSend_eq_some hstep
        exact ⟨v + k, rfl, hle⟩
    | clientSent =>
        -- everything would have been sent, more than there is room for
        obtain ⟨v, hv, hall, -⟩ := clientSent_eq_some hstep
        have hsent := sent_le hconserved hclient hw
        rw [hclient] at hv
        obtain rfl := Client.sendAll.inj hv
        omega
    | clientRecv k =>
        obtain ⟨received, xs, s2c, hreceived, -, -⟩ := clientRecv_eq_some hstep
        rw [hclient] at hreceived
        cases hreceived
    | clientClose =>
        obtain ⟨received, hreceived, -, -⟩ := clientClose_eq_some hstep
        rw [hclient] at hreceived
        cases hreceived
    | serverRecv k =>
        obtain ⟨buf, c2s, -, -, -, rfl⟩ := serverRecv_eq_some hstep
        exact ⟨w, hclient, hw⟩
    | serverSend k =>
        obtain ⟨buf, v, s2c, -, -, rfl⟩ := serverSend_eq_some hstep
        exact ⟨w, hclient, hw⟩
    | serverSent =>
        obtain ⟨buf, v, -, -, rfl⟩ := serverSent_eq_some hstep
        exact ⟨w, hclient, hw⟩
    | serverEnd =>
        obtain ⟨received, -, -, rfl⟩ := serverEnd_eq_some hstep
        exact ⟨w, hclient, hw⟩

theorem not_finished_of_long (hlong : A + B + bufSize < message.length)
    (h : Reachable (echoStep message) (start A B) s) : ¬ Finished message s := by
  obtain ⟨-, w, hclient, -⟩ := sending_of_long hlong h
  rintro ⟨received, hreceived | hclosed, -⟩
  · rw [hclient] at hreceived
    cases hreceived
  · rw [hclient] at hclosed
    cases hclosed

/-- A client that has finished holds the message. -/
theorem received_of_finished (h : Conserved message s) (hfinished : Finished message s) :
    s.client.received = message := by
  obtain ⟨received, hclient, hall⟩ := hfinished
  have hprefix : s.client.received <+: message := by
    refine ⟨s.s2c.queue ++ s.server.unsent ++ s.c2s.queue ++ s.client.unsent message, ?_⟩
    rw [← List.append_assoc, ← List.append_assoc, ← List.append_assoc]
    exact h.bytes
  have hreceived : s.client.received = received := by
    rcases hclient with hclient | hclient <;> rw [hclient] <;> rfl
  exact hprefix.eq_of_length_le (hreceived ▸ hall)

/-! ## The threshold -/

/-- **The deadlock threshold.**  For all capacities from 1 on and every message: a
deadlock is reachable exactly for messages of at least `A + B + 2` bytes; with more than
`A + B + 4096` bytes no run lets the client finish; and a client that finishes holds the
message. -/
theorem echo_deadlock_iff (A B : ℕ) (hA : 1 ≤ A) (hB : 1 ≤ B) (message : List UInt8) :
    ((∃ s : State A B, Reachable (echoStep message) (start A B) s ∧ Deadlocked message s) ↔
      A + B + 2 ≤ message.length) ∧
    (A + B + 4096 < message.length →
      ∀ s : State A B, Reachable (echoStep message) (start A B) s → ¬ Finished message s) ∧
    (∀ s : State A B, Reachable (echoStep message) (start A B) s → Finished message s →
      s.client.received = message) := by
  refine ⟨⟨?_, exists_deadlocked hA⟩, ?_, ?_⟩
  · rintro ⟨s, hs, hdead⟩
    exact length_of_deadlocked hA hB (conserved_of_reachable hs) hdead
  · intro hlong s hs
    exact not_finished_of_long hlong hs
  · intro s hs hfinished
    exact received_of_finished (conserved_of_reachable hs) hfinished

/-- With channels of one byte, a message of four bytes can deadlock. -/
theorem echo_deadlock_iff_one : ∃ s : State 1 1,
    Reachable (echoStep (List.replicate 4 83)) (start 1 1) s ∧
      Deadlocked (List.replicate 4 83) s :=
  (echo_deadlock_iff 1 1 le_rfl le_rfl (List.replicate 4 83)).1.mpr (by decide)

end TtcpEcho
