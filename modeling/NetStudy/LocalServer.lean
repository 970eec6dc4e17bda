/-
# The iterative server (`localSocket/server.c`)

The server accepts a client, sends back in upper case what it reads until the client has
ended its stream, and accepts the next one.  It does not close the descriptor of a client.

Clients connect and send at any time; they wait in the order in which they have connected.
A client that closes with bytes of it unread leaves a socket on which the server's `write`
raises SIGPIPE, when it has read those bytes.  A `read` of a client that has been accepted does
not fail, and the line that `printf` writes for each client is left out of the standard
output.

* `local_in_order`: each client gets exactly its own bytes in upper case, one client after
  the other, and what stands in `buf` from others is never sent;
* `local_limit`: the descriptors are used up, and no client behind the last one that gets a
  descriptor is ever served; from then on every turn stores a byte behind `sun_path`.
-/
import NetStudy.CharBuffer
import NetStudy.Transition
import NetStudy.SelectServer

namespace LocalServer

open Transition CharBuffer
open SelectServers (toUpper)

/-- The size of `buf`. -/
abbrev BUFSIZ : ℕ := 8192

/-- The size of `sun_path`. -/
abbrev pathSize : ℕ := 108

/-! ## The clients and the server -/

/-- A client: what it has sent, what of it has not been read, what has been written to it,
whether it has ended its stream, and whether it has closed altogether. -/
structure Peer where
  sent : List UInt8
  unread : List UInt8
  written : List UInt8
  ended : Bool
  gone : Bool

/-- A client that has sent nothing. -/
def Peer.fresh : Peer := ⟨[], [], [], false, false⟩

/-- The clients in the order in which they connect, how many have connected and have been
accepted, the one in the inner loop, the array `buf`, the standard output, the number of
stores behind the end of `sun_path`, and whether a signal has ended the process. -/
structure State where
  peer : ℕ → Peer
  connected : ℕ
  accepted : ℕ
  serving : Option ℕ
  buf : List UInt8
  stdout : List UInt8
  outside : ℕ
  killed : Bool

/-- Behind `listen`.  What stands in `buf` is arbitrary. -/
def start (junk : List UInt8) : State := ⟨fun _ => Peer.fresh, 0, 0, none, junk, [], 0, false⟩

/-! ## The steps -/

/-- What can happen: a client connects, sends a byte or more, ends its stream, or closes;
`accept` with the length of the client's address; `read` with what it returns. -/
inductive Move
  | connect
  | send (k : ℕ) (b : UInt8) (bs : List UInt8)
  | finish (k : ℕ)
  | close (k : ℕ)
  | accept (addrlen : ℕ)
  | read (n : ℕ)

/-- One client changes. -/
def State.setPeer (s : State) (k : ℕ) (p : Peer) : State :=
  { s with peer := Function.update s.peer k p }

/-- The store of line 40 at index `len`. -/
def State.terminate (s : State) (len : ℕ) : State :=
  if len < pathSize then s else { s with outside := s.outside + 1 }

/-- Lines 36-45: `accept`, with four descriptors open beside those of the clients.  If there
is no descriptor left it returns -1 and leaves `len` at `sizeof(cli_addr)`, and the first
`read` fails. -/
def State.accept (limit : ℕ) (s : State) (addrlen : ℕ) : Option State :=
  if s.serving = none then
    if 4 + s.accepted < limit then
      if s.accepted < s.connected then
        some ({ s with serving := some s.accepted, accepted := s.accepted + 1 }.terminate
          (addrlen - 2))
      else none
    else some (s.terminate (2 + pathSize - 2))
  else none

/-- The array behind `read`, and behind the loop over all of it. -/
def upper (buf bytes : List UInt8) : List UInt8 := (put buf bytes).map toUpper

/-- `read` has given `n` bytes of the client `k`, and all of the array is converted. -/
def State.fill (s : State) (k n : ℕ) : State :=
  { s with
    peer := Function.update s.peer k { s.peer k with unread := (s.peer k).unread.drop n }
    buf := upper s.buf ((s.peer k).unread.take n) }

/-- The `write` of `n` bytes of the array to the client `k`, and the one to the standard output.
The first one raises SIGPIPE if the client has gone. -/
def State.reply (s : State) (k n : ℕ) : State :=
  if (s.peer k).gone then { s with killed := true }
  else
    { s with
      peer := Function.update s.peer k
        { s.peer k with written := (s.peer k).written ++ s.buf.take n }
      stdout := s.stdout ++ s.buf.take n }

/-- Lines 45-54. -/
def State.read (s : State) (n : ℕ) : Option State :=
  match s.serving with
  | none => none
  | some k =>
      if n = 0 then
        if (s.peer k).unread = [] ∧ (s.peer k).ended = true then some { s with serving := none }
        else none
      else if n ≤ BUFSIZ ∧ n ≤ (s.peer k).unread.length then some ((s.fill k n).reply k n)
      else none

/-- One step, with the limit on the number of open descriptors. -/
def step (limit : ℕ) (m : Move) (s : State) : Option State :=
  if s.killed then none
  else
    match m with
    | Move.connect => some { s with connected := s.connected + 1 }
    | Move.send k b bs =>
        if k < s.connected ∧ (s.peer k).ended = false then
          some (s.setPeer k { s.peer k with
            sent := (s.peer k).sent ++ b :: bs, unread := (s.peer k).unread ++ b :: bs })
        else none
    | Move.finish k =>
        if k < s.connected then some (s.setPeer k { s.peer k with ended := true }) else none
    | Move.close k =>
        if k < s.connected then
          some (s.setPeer k { s.peer k with ended := true, gone := true })
        else none
    | Move.accept addrlen => s.accept limit addrlen
    | Move.read n => s.read n

/-! ## What one step keeps -/

/-- What has been read of a client has been written to it in upper case. -/
def Peer.Echoed (p : Peer) : Prop := ∃ done, p.sent = done ++ p.unread ∧ p.written = done.map toUpper

/-- The client has gone, and what has been read of it last has not been written. -/
def Peer.Lost (p : Peer) : Prop :=
  p.gone = true ∧ ∃ done piece, piece ≠ [] ∧ p.sent = done ++ piece ++ p.unread ∧
    p.written = done.map toUpper

theorem Peer.echoed_fresh : Peer.fresh.Echoed := ⟨[], rfl, rfl⟩

/-- **What is sent of `buf`** is what has been read, in upper case. -/
theorem take_upper (buf bytes : List UInt8) :
    (upper buf bytes).take bytes.length = bytes.map toUpper := by
  rw [upper, put, List.map_append, List.take_left']
  exact List.length_map _

/-- The order of service. -/
structure InOrder (s : State) : Prop where
  /-- Every client gets its own bytes, -/
  echoed : ∀ k, s.killed = false ∨ s.serving ≠ some k → (s.peer k).Echoed
  /-- but for a last piece of the one whose answer has raised SIGPIPE. -/
  lost : s.killed = true → ∃ k, s.serving = some k ∧ (s.peer k).Lost
  /-- The one in the inner loop is the last one accepted. -/
  current : ∀ k, s.serving = some k → k + 1 = s.accepted
  /-- Those in front of it have got everything. -/
  served : ∀ k < s.accepted, s.serving ≠ some k →
    (s.peer k).unread = [] ∧ (s.peer k).ended = true
  /-- Those behind it have got nothing. -/
  waiting : ∀ k, s.accepted ≤ k → (s.peer k).written = []
  /-- The standard output has one client after the other. -/
  stdout : s.stdout = (List.range s.accepted).flatMap (fun k => (s.peer k).written)

theorem inOrder_start (junk : List UInt8) : InOrder (start junk) where
  echoed := fun _ _ => Peer.echoed_fresh
  lost := fun h => by cases h
  current := fun _ h => by cases h
  served := fun _ h => absurd h (Nat.not_lt_zero _)
  waiting := fun _ _ => rfl
  stdout := rfl

/-- What has been written to a client is the start of what it has sent, in upper case, also if
a piece of it is lost. -/
theorem InOrder.written_start {s : State} (h : InOrder s) (k : ℕ) :
    (s.peer k).written <+: (s.peer k).sent.map toUpper := by
  have hall : ∃ done rest, (s.peer k).sent = done ++ rest ∧
      (s.peer k).written = done.map toUpper := by
    by_cases hok : s.killed = false ∨ s.serving ≠ some k
    · obtain ⟨done, hsent, hwritten⟩ := h.echoed k hok
      exact ⟨done, _, hsent, hwritten⟩
    · push Not at hok
      obtain ⟨j, hj, -, done, piece, -, hsent, hwritten⟩ := h.lost (by simpa using hok.1)
      obtain rfl : j = k := Option.some.inj (hj.symm.trans hok.2)
      exact ⟨done, _, by rw [hsent, List.append_assoc], hwritten⟩
  obtain ⟨done, rest, hsent, hwritten⟩ := hall
  rw [hsent, hwritten, List.map_append]
  exact List.prefix_append _ _

/-- A client does something at its end, which the server has not seen yet. -/
theorem InOrder.setPeer {s : State} (h : InOrder s) (hlive : s.killed = false) {k : ℕ} {p : Peer}
    (hp : (s.peer k).Echoed → p.Echoed) (hwritten : p.written = (s.peer k).written)
    (hserved : (s.peer k).unread = [] ∧ (s.peer k).ended = true →
      p.unread = [] ∧ p.ended = true) : InOrder (s.setPeer k p) := by
  have hsame : ∀ j, (Function.update s.peer k p j).written = (s.peer j).written := by
    intro j
    by_cases hj : j = k
    · rw [hj, Function.update_self, hwritten]
    · rw [Function.update_of_ne hj]
  refine ⟨?_, fun hkilled => ?_, h.current, ?_, ?_, ?_⟩
  · intro j hok
    show (Function.update s.peer k p j).Echoed
    by_cases hj : j = k
    · rw [hj, Function.update_self]
      exact hp (h.echoed k (Or.inl hlive))
    · rw [Function.update_of_ne hj]
      exact h.echoed j hok
  · exact absurd (hlive.symm.trans hkilled) Bool.false_ne_true
  · intro j hlt hne
    show (Function.update s.peer k p j).unread = [] ∧ (Function.update s.peer k p j).ended = true
    by_cases hj : j = k
    · subst hj
      rw [Function.update_self]
      exact hserved (h.served j hlt hne)
    · rw [Function.update_of_ne hj]
      exact h.served j hlt hne
  · intro j hle
    exact (hsame j).trans (h.waiting j hle)
  · show s.stdout = (List.range s.accepted).flatMap _
    rw [h.stdout]
    exact List.flatMap_congr (fun j _ => (hsame j).symm)

/-- The next client is accepted. -/
theorem InOrder.next {s : State} (h : InOrder s) (hlive : s.killed = false)
    (hidle : s.serving = none) (n : ℕ) :
    InOrder { s with serving := some s.accepted, accepted := s.accepted + 1, outside := n } := by
  refine ⟨fun k _ => h.echoed k (Or.inl hlive), fun hkilled => ?_, ?_, ?_, ?_, ?_⟩
  · exact absurd (hlive.symm.trans hkilled) Bool.false_ne_true
  · intro k hk
    exact congrArg (· + 1) (Option.some.inj hk).symm
  · intro k hlt hne
    have hne : s.accepted ≠ k := fun heq => hne (congrArg some heq)
    have hlt : k < s.accepted := by
      change k < s.accepted + 1 at hlt
      omega
    exact h.served k hlt (by rw [hidle]; simp)
  · exact fun k hle => h.waiting k (Nat.le_of_succ_le hle)
  · show s.stdout = (List.range (s.accepted + 1)).flatMap _
    rw [List.range_succ, List.flatMap_append, List.flatMap_singleton,
      h.waiting s.accepted le_rfl, List.append_nil]
    exact h.stdout

/-- The client in the inner loop changes, and the standard output with what is written to it. -/
theorem InOrder.setServed {s : State} (h : InOrder s) {k : ℕ} (hserving : s.serving = some k)
    (hlive : s.killed = false) {p : Peer} (bytes buf : List UInt8) (killed : Bool)
    (hp : killed = false → p.Echoed) (hlost : killed = true → p.Lost)
    (hwritten : p.written = (s.peer k).written ++ bytes) :
    InOrder { s with
      peer := Function.update s.peer k p
      buf := buf
      stdout := s.stdout ++ bytes
      killed := killed } := by
  have hcurrent := h.current k hserving
  refine ⟨?_, ?_, h.current, ?_, ?_, ?_⟩
  · intro j hok
    show (Function.update s.peer k p j).Echoed
    by_cases hj : j = k
    · subst hj
      rw [Function.update_self]
      exact hp (hok.resolve_right (fun hne => hne hserving))
    · rw [Function.update_of_ne hj]
      exact h.echoed j (Or.inl hlive)
  · intro hkilled
    refine ⟨k, hserving, ?_⟩
    show (Function.update s.peer k p k).Lost
    rw [Function.update_self]
    exact hlost hkilled
  · intro j hlt hne
    have hj : j ≠ k := fun heq => hne (heq ▸ hserving)
    show (Function.update s.peer k p j).unread = [] ∧ (Function.update s.peer k p j).ended = true
    rw [Function.update_of_ne hj]
    exact h.served j hlt hne
  · intro j (hle : s.accepted ≤ j)
    show (Function.update s.peer k p j).written = []
    rw [Function.update_of_ne (by omega)]
    exact h.waiting j hle
  · -- it is the last one on the standard output
    show s.stdout ++ bytes = (List.range s.accepted).flatMap
      (fun j => (Function.update s.peer k p j).written)
    rw [h.stdout, ← hcurrent, List.range_succ, List.flatMap_append, List.flatMap_append,
      List.flatMap_singleton, List.flatMap_singleton, Function.update_self, hwritten,
      List.append_assoc]
    congr 1
    apply List.flatMap_congr
    intro j hj
    rw [Function.update_of_ne (List.mem_range.mp hj).ne]

/-- What a `read` with its two `write`s leaves, in one state. -/
theorem reply_fill (s : State) {k n : ℕ} (hle : n ≤ (s.peer k).unread.length) :
    (s.fill k n).reply k n
      = if (s.peer k).gone then
          { s with
            peer := Function.update s.peer k { s.peer k with unread := (s.peer k).unread.drop n }
            buf := upper s.buf ((s.peer k).unread.take n)
            killed := true }
        else
          { s with
            peer := Function.update s.peer k { s.peer k with
              unread := (s.peer k).unread.drop n
              written := (s.peer k).written ++ ((s.peer k).unread.take n).map toUpper }
            buf := upper s.buf ((s.peer k).unread.take n)
            stdout := s.stdout ++ ((s.peer k).unread.take n).map toUpper } := by
  -- what is written are the bytes that have been read
  have hout : (upper s.buf ((s.peer k).unread.take n)).take n
      = ((s.peer k).unread.take n).map toUpper := by
    have htake := take_upper s.buf ((s.peer k).unread.take n)
    rw [List.length_take_of_le hle] at htake
    exact htake
  have hpeer : (s.fill k n).peer k = { s.peer k with unread := (s.peer k).unread.drop n } :=
    Function.update_self _ _ _
  rw [State.reply, hpeer]
  show (if (s.peer k).gone then _ else _ : State) = _
  split_ifs
  · rfl
  · rw [← hout]
    simp only [State.fill, Function.update_idem]

/-- A `read` of the client in the inner loop. -/
theorem InOrder.read {s s' : State} (h : InOrder s) (hlive : s.killed = false) {n : ℕ}
    (hs : s.read n = some s') : InOrder s' := by
  unfold State.read at hs
  split at hs
  case h_1 => cases hs
  case h_2 k hserving =>
    obtain ⟨done, hsent, hwritten⟩ := h.echoed k (Or.inl hlive)
    split_ifs at hs with hzero hend hread
    · -- the client has ended its stream
      rw [← Option.some.inj hs]
      refine ⟨fun j _ => h.echoed j (Or.inl hlive), fun hkilled => ?_, fun _ hk => (by cases hk),
        ?_, h.waiting, h.stdout⟩
      · exact absurd (hlive.symm.trans hkilled) Bool.false_ne_true
      · intro j hlt _
        by_cases hj : j = k
        · rw [hj]
          exact hend
        · refine h.served j hlt (fun heq => hj ?_)
          exact Option.some.inj (heq.symm.trans hserving)
    · have hcut : (s.peer k).sent
          = done ++ (s.peer k).unread.take n ++ (s.peer k).unread.drop n := by
        rw [List.append_assoc, List.take_append_drop, hsent]
      rw [← Option.some.inj hs, reply_fill s hread.2]
      split_ifs with hgone
      · -- the bytes have been read, and the answer raises SIGPIPE
        have hpiece : (s.peer k).unread.take n ≠ [] := by
          rw [← List.length_pos_iff, List.length_take_of_le hread.2]
          omega
        have hkeep := h.setServed hserving hlive
          (p := { s.peer k with unread := (s.peer k).unread.drop n }) []
          (upper s.buf ((s.peer k).unread.take n)) true (fun hnot => (by cases hnot))
          (fun _ => ⟨hgone, done, _, hpiece, hcut, hwritten⟩) (List.append_nil _).symm
        rw [List.append_nil] at hkeep
        exact hkeep
      · have hechoed : Peer.Echoed { s.peer k with
            unread := (s.peer k).unread.drop n
            written := (s.peer k).written ++ ((s.peer k).unread.take n).map toUpper } := by
          refine ⟨done ++ (s.peer k).unread.take n, hcut, ?_⟩
          show (s.peer k).written ++ _ = _
          rw [hwritten, List.map_append]
        exact h.setServed hserving hlive _ (upper s.buf ((s.peer k).unread.take n)) s.killed
          (fun _ => hechoed)
          (fun hkilled => absurd (hlive.symm.trans hkilled) Bool.false_ne_true) rfl

/-- A store behind the array changes none of this. -/
theorem InOrder.terminate {s : State} (h : InOrder s) (len : ℕ) : InOrder (s.terminate len) := by
  unfold State.terminate
  split_ifs
  · exact h
  · exact ⟨h.echoed, h.lost, h.current, h.served, h.waiting, h.stdout⟩

/-- **Every step keeps the order.** -/
theorem InOrder.step {limit : ℕ} {s s' : State} (h : InOrder s) {m : Move}
    (hs : step limit m s = some s') : InOrder s' := by
  unfold LocalServer.step at hs
  split_ifs at hs with hkilled
  have hlive : s.killed = false := Bool.eq_false_of_not_eq_true hkilled
  cases m with
  | connect =>
      rw [← Option.some.inj hs]
      exact ⟨h.echoed, h.lost, h.current, h.served, h.waiting, h.stdout⟩
  | send k b bs =>
      simp only at hs
      split_ifs at hs with hopen
      rw [← Option.some.inj hs]
      refine h.setPeer hlive ?_ rfl ?_
      · rintro ⟨done, hsent, hwritten⟩
        refine ⟨done, ?_, hwritten⟩
        show (s.peer k).sent ++ b :: bs = _
        rw [hsent, List.append_assoc]
      · rintro ⟨-, hended⟩
        exact absurd (hopen.2.symm.trans hended) Bool.false_ne_true
  | finish k =>
      simp only at hs
      split_ifs at hs
      rw [← Option.some.inj hs]
      exact h.setPeer hlive id rfl (fun hserved => ⟨hserved.1, rfl⟩)
  | close k =>
      simp only at hs
      split_ifs at hs
      rw [← Option.some.inj hs]
      exact h.setPeer hlive id rfl (fun hserved => ⟨hserved.1, rfl⟩)
  | accept addrlen =>
      simp only [State.accept] at hs
      split_ifs at hs with hidle
      · rw [← Option.some.inj hs]
        exact (h.next hlive hidle s.outside).terminate _
      · rw [← Option.some.inj hs]
        exact h.terminate _
  | read n => exact h.read hlive hs

/-- **One client after the other.**  In every run, whatever the clients do and however `read`
cuts what they send: each client has got exactly its own bytes in upper case, those before
the one in the inner loop all of them, those behind it none; and the standard output has
them in that order.  If SIGPIPE has ended the process, the one in the inner loop has gone, and
what had been read of it last is the only piece that has not been written. -/
theorem local_in_order {limit : ℕ} {junk : List UInt8} {s : State}
    (h : Reachable (step limit) (start junk) s) : InOrder s :=
  h.invariant (inOrder_start junk) (fun _ _ _ hinv _ hs => hinv.step hs)

/-! ## The descriptors -/

/-- The condition on a step: the address of a client that is accepted has room for its NUL. -/
def NamesFit (_ : State) : Move → Prop
  | Move.accept addrlen => addrlen - 2 < pathSize
  | _ => True

instance (s : State) (m : Move) : Decidable (NamesFit s m) := by
  cases m <;> unfold NamesFit <;> infer_instance

/-- How many clients have been accepted, and when a byte is stored behind the array. -/
structure Limited (limit : ℕ) (s : State) : Prop where
  accepted : 4 + s.accepted ≤ limit
  outside : 0 < s.outside → 4 + s.accepted = limit ∧ s.serving = none

theorem Limited.step {limit : ℕ} {s s' : State} (h : Limited limit s) {m : Move}
    (hfit : NamesFit s m) (hs : step limit m s = some s') : Limited limit s' := by
  unfold LocalServer.step at hs
  split_ifs at hs
  cases m with
  | connect =>
      rw [← Option.some.inj hs]
      exact ⟨h.accepted, h.outside⟩
  | send k b bs =>
      simp only at hs
      split_ifs at hs
      rw [← Option.some.inj hs]
      exact ⟨h.accepted, h.outside⟩
  | finish k =>
      simp only at hs
      split_ifs at hs
      rw [← Option.some.inj hs]
      exact ⟨h.accepted, h.outside⟩
  | close k =>
      simp only at hs
      split_ifs at hs
      rw [← Option.some.inj hs]
      exact ⟨h.accepted, h.outside⟩
  | accept addrlen =>
      simp only [State.accept] at hs
      split_ifs at hs with hidle hfree
      · have hfit : addrlen - 2 < pathSize := hfit
        rw [← Option.some.inj hs, State.terminate, if_pos hfit]
        refine ⟨hfree, fun hpos => ?_⟩
        have := (h.outside hpos).1
        omega
      · rw [← Option.some.inj hs]
        have haccepted := h.accepted
        unfold State.terminate
        split_ifs
        · exact h
        · exact ⟨haccepted, fun _ => ⟨by change 4 + s.accepted = limit; omega, hidle⟩⟩
  | read n =>
      simp only [State.read] at hs
      split at hs
      case h_1 => cases hs
      case h_2 k hserving =>
        have hnone : ¬ 0 < s.outside := by
          intro hpos
          rw [(h.outside hpos).2] at hserving
          cases hserving
        split_ifs at hs with hzero hend hread
        · rw [← Option.some.inj hs]
          exact ⟨h.accepted, fun hpos => absurd hpos hnone⟩
        · rw [← Option.some.inj hs, reply_fill s hread.2]
          split_ifs <;> exact ⟨h.accepted, fun hpos => absurd hpos hnone⟩

/-- **The last client.**  With at most `limit` descriptors, and addresses that fit: no more
than `limit - 4` clients are accepted, and no client behind them gets a byte, whether or not
those in front have long gone; a store behind `sun_path` happens only when all descriptors
are used up and nobody is served, and then at every turn of the loop. -/
theorem local_limit {limit : ℕ} (hlimit : 4 ≤ limit) {junk : List UInt8} {s : State}
    (h : Reach (step limit) NamesFit (start junk) s) :
    (4 + s.accepted ≤ limit ∧ ∀ k, limit ≤ 4 + k → (s.peer k).written = []) ∧
      (0 < s.outside → 4 + s.accepted = limit ∧ s.serving = none) ∧
      (4 + s.accepted = limit → s.serving = none → s.killed = false →
        ∀ addrlen, step limit (Move.accept addrlen) s
          = some { s with outside := s.outside + 1 }) := by
  have hlimited : Limited limit s :=
    h.invariant ⟨hlimit, fun hpos => absurd hpos (Nat.lt_irrefl 0)⟩
      (fun _ _ _ hinv hok hs => hinv.step hok hs)
  have horder := local_in_order (h.weaken (fun _ _ _ => trivial))
  refine ⟨⟨hlimited.accepted, fun k hk => horder.waiting k ?_⟩, hlimited.outside, ?_⟩
  · have := hlimited.accepted
    omega
  · intro hfull hidle hlive addrlen
    have hnot : ¬ s.killed = true := by
      rw [hlive]
      exact Bool.false_ne_true
    rw [step, if_neg hnot]
    show s.accept limit addrlen = _
    rw [State.accept, if_pos hidle, if_neg (by omega), State.terminate, if_neg (by decide)]

/-! ## Two clients -/

/-- Two clients send at once, the second one first. -/
def twoClients : List Move :=
  [.connect, .connect, .send 1 120 [121], .accept 12, .send 0 97 [98, 99], .read 2, .finish 0,
    .read 1, .read 0, .accept 2, .read 2]

/-- The first client is served first; and one that has gone when its bytes are read ends the
process. -/
theorem local_in_order_twoClients :
    (∃ s, Reachable (step 8) (start []) s ∧
      (s.stdout = [65, 66, 67, 88, 89] ∧ s.serving = some 1) ∧ InOrder s) ∧
    ∃ s, Reachable (step 8) (start []) s ∧
      (s.killed = true ∧ (s.peer 0).unread = [] ∧ (s.peer 0).written = []) ∧ InOrder s := by
  constructor
  · obtain ⟨s, hreach, hs⟩ : ∃ s, Reachable (step 8) (start []) s ∧
        (s.stdout = [65, 66, 67, 88, 89] ∧ s.serving = some 1) :=
      exists_reach_of_run twoClients (by decide +kernel)
    exact ⟨s, hreach, hs, local_in_order hreach⟩
  · obtain ⟨s, hreach, hs⟩ : ∃ s, Reachable (step 8) (start []) s ∧
        (s.killed = true ∧ (s.peer 0).unread = [] ∧ (s.peer 0).written = []) :=
      exists_reach_of_run [.connect, .send 0 97 [98, 99], .close 0, .accept 12, .read 3]
        (by decide +kernel)
    exact ⟨s, hreach, hs, local_in_order hreach⟩

/-- With five descriptors the second one never is, though the first one has gone. -/
theorem local_limit_twoClients :
    ∃ s, Reach (step 5) NamesFit (start []) s ∧
      (s.outside = 2 ∧ (s.peer 1).unread = [120, 121]) ∧
      ((s.peer 1).written = [] ∧ 4 + s.accepted = 5) := by
  obtain ⟨s, hreach, hs⟩ : ∃ s, Reach (step 5) NamesFit (start []) s ∧
      (s.outside = 2 ∧ (s.peer 1).unread = [120, 121]) :=
    exists_reach_of_run
      [.connect, .connect, .send 1 120 [121], .accept 12, .send 0 97 [98, 99], .read 3,
        .close 0, .read 0, .accept 12, .accept 12] (by decide +kernel)
  obtain ⟨⟨-, hlate⟩, houtside, -⟩ := local_limit (by decide) hreach
  exact ⟨s, hreach, hs, hlate 1 (by decide), (houtside (by rw [hs.1]; decide)).1⟩

end LocalServer
