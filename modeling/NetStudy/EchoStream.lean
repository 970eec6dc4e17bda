/-
# The echo thread under short reads, short writes and failures (`ttcp`)

`TcpStream::sendAll` and the loop of the connection thread in `echo.cc`, over a socket
whose every `send` takes some of the bytes offered, or none, or fails.  Both functions
write a log of what has happened on the socket: the pieces that `receiveSome` has
returned, and the calls of `send` with the bytes offered and the result.

A moment of a run is a prefix of its log.

* `sendAll_exact`: `sendAll` returns the length of what the socket has taken, which is a
  prefix of the buffer, and all of it unless a `send` did not take anything;
* `echo_exact`: what is received is the stream, piece by piece; at every moment the bytes
  taken are a prefix of those received, nothing happens behind a `send` that has failed, and
  without one the whole stream is received and sent back.
-/
import NetStudy.Transition

namespace TtcpStream

/-! ## The socket -/

/-- What happens on the socket: `receiveSome` returns a piece, `send` is called. -/
inductive Event
  | received (piece : List UInt8)
  | sent (offered : List UInt8) (nw : ℤ)
  deriving DecidableEq

/-- The bytes that an event brings in. -/
def Event.bytesIn : Event → List UInt8
  | received piece => piece
  | sent _ _ => []

/-- The bytes that the socket takes in an event: the first `nw` of those offered. -/
def Event.bytesOut : Event → List UInt8
  | received _ => []
  | sent offered nw => offered.take nw.toNat

/-- The piece that an event brings in. -/
def Event.piece : Event → Option (List UInt8)
  | received piece => some piece
  | sent _ _ => none

/-- The pieces returned by `receiveSome` so far. -/
def pieces (log : List Event) : List (List UInt8) := log.filterMap Event.piece

/-- The bytes received so far. -/
def received (log : List Event) : List UInt8 := log.flatMap Event.bytesIn

/-- The bytes taken by the socket so far. -/
def accepted (log : List Event) : List UInt8 := log.flatMap Event.bytesOut

/-- The socket's answers: to a `send` of some bytes behind a log it is -1, 0, or a number
of bytes up to those offered. -/
structure Sender where
  send : List Event → List UInt8 → ℤ
  ge : ∀ log offered, -1 ≤ send log offered
  le : ∀ log offered, send log offered ≤ offered.length

/-! ## `sendAll` -/

variable (S : Sender)

/-- The loop of `sendAll`, lines 46-57, with `written` bytes sent. -/
def sendLoop (buf : List UInt8) (written : ℕ) (log : List Event) : ℕ × List Event :=
  if written < buf.length then
    if 0 < S.send log (buf.drop written) then
      sendLoop buf (written + (S.send log (buf.drop written)).toNat)
        (log ++ [Event.sent (buf.drop written) (S.send log (buf.drop written))])
    else (written, log ++ [Event.sent (buf.drop written) (S.send log (buf.drop written))])
  else (written, log)
termination_by buf.length - written
decreasing_by omega

/-- `TcpStream::sendAll`. -/
def sendAll (buf : List UInt8) (log : List Event) : ℕ × List Event := sendLoop S buf 0 log

/-! ## The connection thread -/

/-- `sizeof(buf)`. -/
abbrev bufSize : ℕ := 4096

/-- What `receiveSome` returns while the loop goes on. -/
abbrev Piece : Type := { bs : List UInt8 // 1 ≤ bs.length ∧ bs.length ≤ bufSize }

/-- How the loop ends: `receiveSome` has returned 0 or -1, or line 43. -/
inductive Ending
  | noMore
  | short
  deriving DecidableEq

/-- The loop of lines 38-45, over the pieces that `receiveSome` has still to return. -/
def echo : List Piece → List Event → Ending × List Event
  | [], log => (Ending.noMore, log)
  | p :: ps, log =>
      if (sendAll S p.1 (log ++ [Event.received p.1])).1 < p.1.length then
        (Ending.short, (sendAll S p.1 (log ++ [Event.received p.1])).2)
      else echo ps (sendAll S p.1 (log ++ [Event.received p.1])).2

/-! ## Logs -/

/-- Every call of `send` in the log has taken something. -/
def AllTaken (log : List Event) : Prop := ∀ offered nw, Event.sent offered nw ∈ log → 0 < nw

/-- Nothing happens behind a `send` that takes nothing. -/
def FailsLast (log : List Event) : Prop :=
  ∀ pre offered nw post, log = pre ++ Event.sent offered nw :: post → nw ≤ 0 → post = []

/-- Every call of `send` in the log has given what the socket answers there. -/
def Answered (log : List Event) : Prop :=
  ∀ pre offered nw post, log = pre ++ Event.sent offered nw :: post → nw = S.send pre offered

/-- At every moment the bytes taken are a prefix of the bytes received. -/
def InOrder (log : List Event) : Prop := ∀ moment, moment <+: log → accepted moment <+: received moment

theorem received_append (log log' : List Event) :
    received (log ++ log') = received log ++ received log' :=
  List.flatMap_append

theorem accepted_append (log log' : List Event) :
    accepted (log ++ log') = accepted log ++ accepted log' :=
  List.flatMap_append

theorem pieces_append (log log' : List Event) :
    pieces (log ++ log') = pieces log ++ pieces log' :=
  List.filterMap_append

/-- What has been received are the pieces, one behind the other. -/
theorem received_eq_flatten (log : List Event) : received log = (pieces log).flatten := by
  induction log with
  | nil => rfl
  | cons e log ih =>
      rw [received, List.flatMap_cons, ← received, ih]
      cases e with
      | received piece => rfl
      | sent offered nw => rfl

/-- A moment has not taken more than the whole log. -/
theorem accepted_of_moment {moment log : List Event} (h : moment <+: log) :
    accepted moment <+: accepted log := by
  obtain ⟨rest, rfl⟩ := h
  rw [accepted_append]
  exact List.prefix_append _ _

/-- A moment of two logs, one after the other, lies in the first or in the second. -/
theorem moment_append {moment log log' : List Event} (h : moment <+: log ++ log') :
    moment <+: log ∨ ∃ m, moment = log ++ m ∧ m <+: log' := by
  rcases List.prefix_or_prefix_of_prefix h (List.prefix_append log log') with hlog | ⟨m, rfl⟩
  · exact Or.inl hlog
  · exact Or.inr ⟨m, rfl, (List.prefix_append_right_inj log).mp h⟩

/-! ## What `sendAll` does -/

/-- What the loop of `sendAll` adds to the log, from `written` on to the result `r`. -/
structure Sends (buf : List UInt8) (written r : ℕ) (sends : List Event) : Prop where
  only : ∀ e ∈ sends, ∃ offered nw, e = Event.sent offered nw
  ge : written ≤ r
  le : r ≤ buf.length
  bytes : accepted sends = (buf.drop written).take (r - written)
  all : r = buf.length ↔ AllTaken sends
  last : FailsLast sends
  count : sends.length ≤ buf.length - written

/-- The loop stops at once: everything has been sent. -/
theorem sends_done {buf : List UInt8} {written : ℕ} (h : written = buf.length) :
    Sends buf written written [] where
  only := fun _ he => absurd he List.not_mem_nil
  ge := le_rfl
  le := h.le
  bytes := by rw [Nat.sub_self, List.take_zero]; rfl
  all := ⟨fun _ _ _ he => absurd he List.not_mem_nil, fun _ => h⟩
  last := by
    intro pre offered nw post heq
    simp at heq
  count := Nat.zero_le _

/-- A `send` that takes nothing is the last one. -/
theorem sends_failed {buf offered : List UInt8} {written : ℕ} {nw : ℤ}
    (h : written < buf.length) (hnw : nw ≤ 0) :
    Sends buf written written [Event.sent offered nw] where
  only := by
    intro e he
    exact ⟨offered, nw, List.mem_singleton.mp he⟩
  ge := le_rfl
  le := h.le
  bytes := by
    have hzero : nw.toNat = 0 := by omega
    rw [Nat.sub_self, List.take_zero]
    show offered.take nw.toNat ++ [] = []
    rw [hzero, List.take_zero, List.append_nil]
  all := by
    constructor
    · intro heq
      omega
    · intro hall
      have := hall offered nw (List.mem_singleton_self _)
      omega
  last := by
    intro pre offered' nw' post heq _
    cases pre with
    | nil =>
        simp only [List.nil_append, List.cons.injEq] at heq
        exact heq.2.symm
    | cons e pre =>
        simp at heq
  count := by
    show 1 ≤ buf.length - written
    omega

/-- A `send` that takes some bytes, and the rest of the loop. -/
theorem Sends.cons {buf : List UInt8} {written r : ℕ} {nw : ℤ} {sends : List Event}
    (hpos : 0 < nw) (hle : nw ≤ (buf.drop written).length)
    (h : Sends buf (written + nw.toNat) r sends) :
    Sends buf written r (Event.sent (buf.drop written) nw :: sends) where
  only := by
    intro e he
    rcases List.mem_cons.mp he with rfl | he
    · exact ⟨_, _, rfl⟩
    · exact h.only e he
  ge := by
    have := h.ge
    omega
  le := h.le
  bytes := by
    have hge := h.ge
    show (buf.drop written).take nw.toNat ++ accepted sends = _
    rw [h.bytes, ← List.drop_drop, ← List.take_add]
    congr 1
    omega
  all := by
    rw [h.all]
    constructor
    · intro hall offered nw' he
      rcases List.mem_cons.mp he with heq | he
      · rw [Event.sent.injEq] at heq
        rw [heq.2]
        exact hpos
      · exact hall offered nw' he
    · intro hall offered nw' he
      exact hall offered nw' (List.mem_cons_of_mem _ he)
  last := by
    intro pre offered nw' post heq hnw'
    cases pre with
    | nil =>
        simp only [List.nil_append, List.cons.injEq, Event.sent.injEq] at heq
        omega
    | cons e pre =>
        simp only [List.cons_append, List.cons.injEq] at heq
        exact h.last pre offered nw' post heq.2 hnw'
  count := by
    have := h.count
    rw [List.length_drop] at hle
    rw [List.length_cons]
    omega

/-- The loop of `sendAll`. -/
theorem sendLoop_sends {buf : List UInt8} {written : ℕ} (log : List Event)
    (h : written ≤ buf.length) :
    ∃ sends, (sendLoop S buf written log).2 = log ++ sends ∧
      Sends buf written (sendLoop S buf written log).1 sends := by
  fun_induction sendLoop S buf written log with
  | case1 written log hlt hpos ih =>
      have hle := S.le log (buf.drop written)
      rw [List.length_drop] at hle
      obtain ⟨sends, hlog, hsends⟩ := ih (by omega)
      refine ⟨_, ?_, hsends.cons hpos (S.le log (buf.drop written))⟩
      rw [hlog, List.append_assoc]
      rfl
  | case2 written log hlt hpos => exact ⟨_, rfl, sends_failed hlt (by omega)⟩
  | case3 written log hlt => exact ⟨[], (List.append_nil _).symm, sends_done (by omega)⟩

/-- **`sendAll`** makes at most `len` calls of `send` and returns the number of bytes that
they have taken, which are the first ones of the buffer; it returns `len` exactly if each
of them has taken something. -/
theorem sendAll_exact (buf : List UInt8) (log : List Event) :
    ∃ sends, (sendAll S buf log).2 = log ++ sends ∧ Sends buf 0 (sendAll S buf log).1 sends ∧
      accepted sends = buf.take (sendAll S buf log).1 := by
  obtain ⟨sends, hlog, hsends⟩ := sendLoop_sends S log (Nat.zero_le buf.length)
  exact ⟨sends, hlog, hsends, hsends.bytes⟩

/-! ## What the connection thread does -/

/-- Calls of `send` bring nothing in. -/
theorem Sends.received_eq {buf : List UInt8} {written r : ℕ} {sends m : List Event}
    (h : Sends buf written r sends) (hm : m <+: sends) : received m = [] := by
  rw [received, List.flatMap_eq_nil_iff]
  intro e he
  obtain ⟨offered, nw, rfl⟩ := h.only e (hm.subset he)
  rfl

/-- The state of the thread between two turns of its loop: all that has been received has
been taken. -/
structure Settled (log : List Event) : Prop where
  even : accepted log = received log
  ordered : InOrder log
  allTaken : AllTaken log

theorem settled_nil : Settled [] := by
  refine ⟨rfl, ?_, fun _ _ he => absurd he List.not_mem_nil⟩
  intro moment hm
  rw [List.prefix_nil.mp hm]
  exact List.prefix_rfl

/-- One turn keeps the order, however it goes. -/
theorem Settled.inOrder {log sends : List Event} {piece : List UInt8} {r : ℕ} (h : Settled log)
    (hsends : Sends piece 0 r sends) : InOrder (log ++ [Event.received piece] ++ sends) := by
  have hin : received [Event.received piece] = piece := List.append_nil _
  have hout : accepted [Event.received piece] = [] := rfl
  intro moment hmoment
  rcases moment_append hmoment with hlog | ⟨m, rfl, hm⟩
  · rcases List.prefix_concat_iff.mp hlog with rfl | hlog
    · rw [accepted_append, received_append, hout, h.even, List.append_nil]
      exact List.prefix_append _ _
    · exact h.ordered moment hlog
  · -- in the middle of `sendAll`
    rw [accepted_append, accepted_append, hout, List.append_nil, received_append, received_append,
      hin, hsends.received_eq hm, List.append_nil, h.even]
    refine (List.prefix_append_right_inj _).mpr ?_
    have htake := accepted_of_moment hm
    rw [hsends.bytes, List.drop_zero] at htake
    exact htake.trans (List.take_prefix _ _)

/-- A turn that does not leave the loop settles everything again. -/
theorem Settled.next {log sends : List Event} {piece : List UInt8} {r : ℕ} (h : Settled log)
    (hsends : Sends piece 0 r sends) (hr : r = piece.length) :
    Settled (log ++ [Event.received piece] ++ sends) := by
  refine ⟨?_, h.inOrder hsends, ?_⟩
  · have hall : accepted sends = piece := by
      rw [hsends.bytes, List.drop_zero, hr, Nat.sub_zero, List.take_length]
    rw [accepted_append, accepted_append, received_append, received_append, h.even, hall,
      hsends.received_eq List.prefix_rfl]
    show received log ++ [] ++ piece = received log ++ (piece ++ []) ++ []
    simp only [List.append_nil]
  · intro offered nw he
    rcases List.mem_append.mp he with he | he
    · rcases List.mem_append.mp he with he | he
      · exact h.allTaken offered nw he
      · rw [List.mem_singleton] at he
        cases he
    · exact hsends.all.mp hr offered nw he

/-- A log in which every `send` takes something has no failed one. -/
theorem AllTaken.failsLast {log : List Event} (h : AllTaken log) : FailsLast log := by
  intro pre offered nw post heq hnw
  have := h offered nw (by rw [heq]; exact List.mem_append_right _ List.mem_cons_self)
  omega

/-- Nothing follows a failed `send` of the last turn. -/
theorem AllTaken.append_failsLast {log sends : List Event} (h : AllTaken log)
    (hsends : FailsLast sends) : FailsLast (log ++ sends) := by
  intro pre offered nw post heq hnw
  rcases List.append_eq_append_iff.mp heq with ⟨m, hpre, hrest⟩ | ⟨m, hlog, hrest⟩
  · exact hsends m offered nw post hrest hnw
  · cases m with
    | nil =>
        rw [List.nil_append] at hrest
        exact hsends [] offered nw post hrest.symm hnw
    | cons e m =>
        rw [List.cons_append, List.cons.injEq] at hrest
        have := h offered nw (by rw [hlog, ← hrest.1]; exact List.mem_append_right _ List.mem_cons_self)
        omega

/-- What a run of the loop ends in. -/
structure Echoed (e : Ending) (log : List Event) : Prop where
  ordered : InOrder log
  last : FailsLast log
  complete : e = Ending.noMore → accepted log = received log
  short : e = Ending.short → ∃ offered nw, Event.sent offered nw ∈ log ∧ nw ≤ 0

/-- The loop from a settled state on. -/
theorem Settled.echo {log : List Event} (h : Settled log) (ps : List Piece) :
    Echoed (echo S ps log).1 (echo S ps log).2 := by
  induction ps generalizing log with
  | nil =>
      refine ⟨h.ordered, h.allTaken.failsLast, fun _ => h.even, ?_⟩
      intro hshort
      cases hshort
  | cons p ps ih =>
      obtain ⟨sends, hlog, hsends, -⟩ := sendAll_exact S p.1 (log ++ [Event.received p.1])
      rw [TtcpStream.echo]
      split_ifs with hlt
      · rw [hlog]
        have hbefore : AllTaken (log ++ [Event.received p.1]) := by
          intro offered nw he
          rcases List.mem_append.mp he with he | he
          · exact h.allTaken offered nw he
          · rw [List.mem_singleton] at he
            cases he
        refine ⟨h.inOrder hsends, hbefore.append_failsLast hsends.last, ?_, fun _ => ?_⟩
        · intro hmore
          cases hmore
        · by_contra hno
          push Not at hno
          refine absurd (hsends.all.mpr ?_) (by omega)
          intro offered nw he
          exact hno offered nw (List.mem_append_right _ he)
      · rw [hlog]
        exact ih (h.next hsends (le_antisymm hsends.le (not_lt.mp hlt)))

/-! ## What is received -/

/-- What a loop over these pieces has received: the first of them, and all if it ends at the
end of the stream. -/
structure Reads (ps : List Piece) (e : Ending) (log : List Event) : Prop where
  pieces : pieces log <+: ps.map Subtype.val
  stream : received log <+: ps.flatMap Subtype.val
  all : e = Ending.noMore → received log = ps.flatMap Subtype.val

theorem Sends.pieces_eq {buf : List UInt8} {written r : ℕ} {sends : List Event}
    (h : Sends buf written r sends) : pieces sends = [] := by
  rw [pieces, List.filterMap_eq_nil_iff]
  intro e he
  obtain ⟨offered, nw, rfl⟩ := h.only e he
  rfl

/-- **The loop receives its pieces** one after the other, until it ends. -/
theorem exists_pieces_echo (ps : List Piece) (log : List Event) :
    ∃ taken rest, ps = taken ++ rest ∧
      pieces (echo S ps log).2 = pieces log ++ taken.map Subtype.val ∧
      ((echo S ps log).1 = Ending.noMore → rest = []) := by
  induction ps generalizing log with
  | nil => exact ⟨[], [], rfl, (List.append_nil _).symm, fun _ => rfl⟩
  | cons p ps ih =>
      obtain ⟨sends, hlog, hsends, -⟩ := sendAll_exact S p.1 (log ++ [Event.received p.1])
      have hturn : pieces (log ++ [Event.received p.1] ++ sends) = pieces log ++ [p.1] := by
        rw [pieces_append, pieces_append, hsends.pieces_eq, List.append_nil]
        rfl
      rw [echo, hlog]
      split_ifs
      · refine ⟨[p], ps, rfl, hturn, ?_⟩
        intro hmore
        cases hmore
      · obtain ⟨taken, rest, hps, htaken, hrest⟩ := ih (log ++ [Event.received p.1] ++ sends)
        refine ⟨p :: taken, rest, congrArg (p :: ·) hps, ?_, hrest⟩
        rw [htaken, hturn, List.append_assoc]
        rfl

theorem reads_echo (ps : List Piece) : Reads ps (echo S ps []).1 (echo S ps []).2 := by
  obtain ⟨taken, rest, hps, htaken, hrest⟩ := exists_pieces_echo S ps []
  have hreceived : received (echo S ps []).2 = taken.flatMap Subtype.val := by
    rw [received_eq_flatten, htaken, List.flatMap_def]
    rfl
  refine ⟨?_, ?_, ?_⟩
  · rw [htaken, hps, List.map_append]
    exact List.prefix_append _ _
  · rw [hreceived, hps, List.flatMap_append]
    exact List.prefix_append _ _
  · intro hmore
    rw [hreceived, hps, hrest hmore, List.append_nil]

/-- An event is added, a call of `send` with the socket's answer. -/
theorem Answered.concat {log : List Event} (h : Answered S log) {e : Event}
    (he : ∀ offered nw, e = Event.sent offered nw → nw = S.send log offered) :
    Answered S (log ++ [e]) := by
  intro pre offered nw post heq
  rcases Transition.concat_eq_append_cons heq with ⟨rfl, hlast⟩ | ⟨post', hlog⟩
  · exact he offered nw hlast.symm
  · exact h pre offered nw post' hlog

theorem Answered.send {log : List Event} (h : Answered S log) (offered : List UInt8) :
    Answered S (log ++ [Event.sent offered (S.send log offered)]) := by
  refine h.concat S ?_
  intro offered' nw heq
  obtain ⟨rfl, rfl⟩ := Event.sent.inj heq
  rfl

theorem Answered.sendLoop {buf : List UInt8} {written : ℕ} {log : List Event}
    (h : Answered S log) : Answered S (sendLoop S buf written log).2 := by
  fun_induction TtcpStream.sendLoop S buf written log with
  | case1 written log hlt hpos ih => exact ih (h.send S _)
  | case2 written log hlt hpos => exact h.send S _
  | case3 written log hlt => exact h

/-- **The log of the loop** has the socket's answers. -/
theorem Answered.echo {log : List Event} (h : Answered S log) (ps : List Piece) :
    Answered S (echo S ps log).2 := by
  induction ps generalizing log with
  | nil => exact h
  | cons p ps ih =>
      have hreceived : Answered S (log ++ [Event.received p.1]) :=
        h.concat S (fun offered nw heq => by cases heq)
      have hsends : Answered S (sendAll S p.1 (log ++ [Event.received p.1])).2 :=
        hreceived.sendLoop S
      rw [TtcpStream.echo]
      split_ifs
      · exact hsends
      · exact ih hsends

/-- **The echo is exact**, for every stream, every way of cutting it into pieces and every
outcome of the calls of `send`: every `sendAll` takes a prefix of its buffer and returns
its length; what is received are the pieces of the stream, one after the other; at every
moment the bytes taken are a prefix of those received; nothing follows a `send` that has
failed; and a loop that ends at the end of the stream has received and sent all of it. -/
theorem echo_exact (pieces : List Piece) :
    (∀ buf log, ∃ sends, (sendAll S buf log).2 = log ++ sends ∧
        Sends buf 0 (sendAll S buf log).1 sends ∧
        accepted sends = buf.take (sendAll S buf log).1) ∧
      Echoed (echo S pieces []).1 (echo S pieces []).2 ∧
      Reads pieces (echo S pieces []).1 (echo S pieces []).2 ∧
      Answered S (echo S pieces []).2 := by
  refine ⟨sendAll_exact S, settled_nil.echo S pieces, reads_echo S pieces, ?_⟩
  refine Answered.echo S ?_ pieces
  intro pre offered nw post heq
  simp at heq

/-- A socket that takes two bytes at most, and after five events nothing. -/
def tiring : Sender where
  send := fun log offered => if log.length < 5 then min 2 offered.length else 0
  ge := by
    intro log offered
    split_ifs <;> omega
  le := by
    intro log offered
    split_ifs <;> omega

/-- Two pieces of three bytes. -/
def twoPieces : List Piece := [⟨[97, 98, 99], by decide⟩, ⟨[100, 101, 102], by decide⟩]

/-- Of the two pieces five bytes are taken, and the loop ends. -/
theorem echo_exact_twoPieces :
    ((echo tiring twoPieces []).1 = Ending.short ∧
      accepted (echo tiring twoPieces []).2 = [97, 98, 99, 100, 101]) ∧
    Echoed (echo tiring twoPieces []).1 (echo tiring twoPieces []).2 ∧
    Reads twoPieces (echo tiring twoPieces []).1 (echo tiring twoPieces []).2 ∧
    Answered tiring (echo tiring twoPieces []).2 := by
  refine ⟨?_, (echo_exact tiring twoPieces).2⟩
  simp [echo, sendAll, sendLoop, tiring, twoPieces, accepted, Event.bytesOut]

end TtcpStream
