/-
# A thread for each connection (`ttcp/echo.cc`)

The loop of `main` accepts a connection, whose stream it owns through a `unique_ptr`, and
starts a thread to which it moves the pointer; the thread sends back what it receives and
deletes the stream at its end.  Threads take their steps in any order.

The pointer is null if `accept` has failed, and nobody looks: `main` or the new thread
calls a member function through it, and the process dies.

* `echo_descriptors`: the descriptors that are open belong to the listener, to the threads
  that run, and to the stream that `main` holds;
* `echo_threads`: what each thread has sent back of what it has received;
* `echo_lives`: the process does not die while each `accept` succeeds and each thread can
  be started.
-/
import NetStudy.AcceptedStreams
import NetStudy.EchoStream

namespace TtcpServer

open Transition TtcpSocket TtcpStream

/-! ## The state -/

/-- Where `main` is: in `accept` (line 28), behind it with a stream or with a null pointer,
or the process has died. -/
inductive Stage
  | accepting
  | accepted (stream : Bool)
  | dead
  deriving DecidableEq

/-- Where the thread of a connection is: not started, started with a null pointer, in
`receiveSome` (line 38), in `sendAll` (line 40) with `written` bytes of `buf` sent, or at
its end. -/
inductive Thread
  | unborn
  | null
  | receiving
  | sending (buf : List UInt8) (written : ℕ)
  | ended
  deriving DecidableEq

/-- The objects, `main` with its `count`, the threads, and what has happened on the socket
of each. -/
structure State where
  sockets : TtcpSocket.State Obj
  stage : Stage
  count : ℕ
  thread : ℕ → Thread
  log : ℕ → List Event

/-- Behind the constructor of the acceptor, whose descriptor is `lfd`. -/
def start (lfd : ℕ) : State :=
  ⟨TtcpSocket.start.created lfd Obj.listenSock, Stage.accepting, 0, fun _ => Thread.unborn,
    fun _ => []⟩

/-! ## The steps -/

/-- What can happen: `accept` returns a descriptor or -1, the thread is started or
`std::thread` throws, and in the thread of a connection `receiveSome` returns a piece, or 0
or -1, a `send` returns `nw`, or a null pointer is followed. -/
inductive Move
  | accept (sockfd : ℕ)
  | acceptFails
  | start
  | startFails
  | receive (no : ℕ) (piece : Piece)
  | noMore (no : ℕ)
  | send (no : ℕ) (nw : ℤ)
  | null (no : ℕ)

/-- `Acceptor::accept` with a descriptor. -/
def State.accept (s : State) (sockfd : ℕ) : Option State :=
  if s.stage = Stage.accepting then
    (run TtcpSocket.step (acceptOps (s.count + 1) sockfd) s.sockets).map
      (fun sockets => { s with
        sockets := sockets, stage := Stage.accepted true, count := s.count + 1 })
  else none

/-- `Acceptor::accept` without one: the pointer is null. -/
def State.acceptFails (s : State) : Option State :=
  if s.stage = Stage.accepting then
    (TtcpSocket.step (.use .listenSock) s.sockets).map
      (fun sockets => { s with
        sockets := sockets, stage := Stage.accepted false, count := s.count + 1 })
  else none

/-- Lines 30-46: `setTcpNoDelay`, if it was asked for, and the start of the thread. -/
def State.start (nodelay : Bool) (s : State) : Option State :=
  match s.stage with
  | Stage.accepted true =>
      (run TtcpSocket.step (if nodelay then [.use (.stream s.count)] else []) s.sockets).map
        (fun sockets => { s with
          sockets := sockets, stage := Stage.accepting
          thread := Function.update s.thread s.count Thread.receiving })
  | Stage.accepted false =>
      if nodelay then some { s with stage := Stage.dead }
      else some { s with
        stage := Stage.accepting, thread := Function.update s.thread s.count Thread.null }
  | _ => none

/-- The exception of `std::thread` is not caught. -/
def State.startFails (s : State) : Option State :=
  match s.stage with
  | Stage.accepted _ => some { s with stage := Stage.dead }
  | _ => none

/-- `receiveSome` returns a piece, and `sendAll` begins. -/
def State.receive (s : State) (no : ℕ) (piece : Piece) : Option State :=
  match s.thread no with
  | Thread.receiving =>
      (TtcpSocket.step (.use (.stream no)) s.sockets).map
        (fun sockets => { s with
          sockets := sockets
          thread := Function.update s.thread no (Thread.sending piece.1 0)
          log := Function.update s.log no (s.log no ++ [Event.received piece.1]) })
  | _ => none

/-- `receiveSome` returns 0 or -1: the thread ends, and its stream is deleted. -/
def State.noMore (s : State) (no : ℕ) : Option State :=
  match s.thread no with
  | Thread.receiving =>
      (run TtcpSocket.step [.use (.stream no), .destroy (.stream no)] s.sockets).map
        (fun sockets => { s with
          sockets := sockets, thread := Function.update s.thread no Thread.ended })
  | _ => none

/-- Where the thread is behind a `send` that has returned `nw`: `sendAll` goes on, or the
loop does, or both are left. -/
def sent (buf : List UInt8) (written : ℕ) (nw : ℤ) : Thread :=
  if 0 < nw then
    if written + nw.toNat < buf.length then Thread.sending buf (written + nw.toNat)
    else Thread.receiving
  else Thread.ended

/-- A `send` of `sendAll`.  If it takes nothing, `nw` is less than `nr` in line 41, and the
thread ends. -/
def State.send (s : State) (no : ℕ) (nw : ℤ) : Option State :=
  match s.thread no with
  | Thread.sending buf written =>
      if -1 ≤ nw ∧ nw ≤ (buf.drop written).length then
        (run TtcpSocket.step (if 0 < nw then [.use (.stream no)]
            else [.use (.stream no), .destroy (.stream no)]) s.sockets).map
          (fun sockets => { s with
            sockets := sockets
            thread := Function.update s.thread no (sent buf written nw)
            log := Function.update s.log no
              (s.log no ++ [Event.sent (buf.drop written) nw]) })
      else none
  | _ => none

/-- The first call in a thread whose pointer is null. -/
def State.null (s : State) (no : ℕ) : Option State :=
  match s.thread no with
  | Thread.null => some { s with stage := Stage.dead }
  | _ => none

/-- One step of `main` or of a thread. -/
def step (nodelay : Bool) (m : Move) (s : State) : Option State :=
  if s.stage = Stage.dead then none
  else
    match m with
    | Move.accept sockfd => s.accept sockfd
    | Move.acceptFails => s.acceptFails
    | Move.start => s.start nodelay
    | Move.startFails => s.startFails
    | Move.receive no piece => s.receive no piece
    | Move.noMore no => s.noMore no
    | Move.send no nw => s.send no nw
    | Move.null no => s.null no

/-! ## What a step does -/

/-- The kinds of steps of a process that is alive, with what each does to the sockets. -/
inductive Stepped (nodelay : Bool) (s : State) : Move → State → Prop
  | accept {sockfd : ℕ} {sockets : TtcpSocket.State Obj} (hstage : s.stage = Stage.accepting)
      (hrun : run TtcpSocket.step (acceptOps (s.count + 1) sockfd) s.sockets = some sockets) :
      Stepped nodelay s (Move.accept sockfd)
        { s with sockets := sockets, stage := Stage.accepted true, count := s.count + 1 }
  | acceptFails {sockets : TtcpSocket.State Obj} (hstage : s.stage = Stage.accepting)
      (huse : TtcpSocket.step (.use .listenSock) s.sockets = some sockets) :
      Stepped nodelay s Move.acceptFails
        { s with sockets := sockets, stage := Stage.accepted false, count := s.count + 1 }
  | start {sockets : TtcpSocket.State Obj} (hstage : s.stage = Stage.accepted true)
      (hrun : run TtcpSocket.step (if nodelay then [.use (.stream s.count)] else []) s.sockets
        = some sockets) :
      Stepped nodelay s Move.start
        { s with
          sockets := sockets, stage := Stage.accepting
          thread := Function.update s.thread s.count Thread.receiving }
  | startNull (hstage : s.stage = Stage.accepted false) :
      Stepped nodelay s Move.start
        { s with
          stage := Stage.accepting, thread := Function.update s.thread s.count Thread.null }
  | dies {m : Move} (hcause : m = Move.startFails ∨ s.stage = Stage.accepted false ∨
      ∃ no, s.thread no = Thread.null) : Stepped nodelay s m { s with stage := Stage.dead }
  | receive {no : ℕ} {piece : Piece} {sockets : TtcpSocket.State Obj}
      (hthread : s.thread no = Thread.receiving)
      (huse : TtcpSocket.step (.use (.stream no)) s.sockets = some sockets) :
      Stepped nodelay s (Move.receive no piece)
        { s with
          sockets := sockets
          thread := Function.update s.thread no (Thread.sending piece.1 0)
          log := Function.update s.log no (s.log no ++ [Event.received piece.1]) }
  | noMore {no : ℕ} {sockets : TtcpSocket.State Obj} (hthread : s.thread no = Thread.receiving)
      (hrun : run TtcpSocket.step [.use (.stream no), .destroy (.stream no)] s.sockets
        = some sockets) :
      Stepped nodelay s (Move.noMore no)
        { s with sockets := sockets, thread := Function.update s.thread no Thread.ended }
  | send {no : ℕ} {nw : ℤ} {buf : List UInt8} {written : ℕ} {sockets : TtcpSocket.State Obj}
      (hthread : s.thread no = Thread.sending buf written)
      (hrun : run TtcpSocket.step (if 0 < nw then [.use (.stream no)]
        else [.use (.stream no), .destroy (.stream no)]) s.sockets = some sockets) :
      Stepped nodelay s (Move.send no nw)
        { s with
          sockets := sockets
          thread := Function.update s.thread no (sent buf written nw)
          log := Function.update s.log no (s.log no ++ [Event.sent (buf.drop written) nw]) }

/-- **What a step does**, and that a dead process takes none. -/
theorem stepped_of_step {nodelay : Bool} {s s' : State} {m : Move}
    (hs : step nodelay m s = some s') : s.stage ≠ Stage.dead ∧ Stepped nodelay s m s' := by
  unfold step at hs
  split_ifs at hs with hlive
  refine ⟨hlive, ?_⟩
  cases m with
  | accept sockfd =>
      simp only [State.accept] at hs
      split_ifs at hs with hstage
      obtain ⟨sockets, hrun, rfl⟩ := Option.map_eq_some_iff.mp hs
      exact Stepped.accept hstage hrun
  | acceptFails =>
      simp only [State.acceptFails] at hs
      split_ifs at hs with hstage
      obtain ⟨sockets, huse, rfl⟩ := Option.map_eq_some_iff.mp hs
      exact Stepped.acceptFails hstage huse
  | start =>
      simp only [State.start] at hs
      split at hs
      case h_1 hstage =>
        obtain ⟨sockets, hrun, rfl⟩ := Option.map_eq_some_iff.mp hs
        exact Stepped.start hstage hrun
      case h_2 hstage =>
        split_ifs at hs
        · rw [← Option.some.inj hs]
          exact Stepped.dies (Or.inr (Or.inl hstage))
        · rw [← Option.some.inj hs]
          exact Stepped.startNull hstage
      case h_3 => cases hs
  | startFails =>
      simp only [State.startFails] at hs
      split at hs
      · rw [← Option.some.inj hs]
        exact Stepped.dies (Or.inl rfl)
      · cases hs
  | receive no piece =>
      simp only [State.receive] at hs
      split at hs
      case h_1 hthread =>
        obtain ⟨sockets, huse, rfl⟩ := Option.map_eq_some_iff.mp hs
        exact Stepped.receive hthread huse
      case h_2 => cases hs
  | noMore no =>
      simp only [State.noMore] at hs
      split at hs
      case h_1 hthread =>
        obtain ⟨sockets, hrun, rfl⟩ := Option.map_eq_some_iff.mp hs
        exact Stepped.noMore hthread hrun
      case h_2 => cases hs
  | send no nw =>
      simp only [State.send] at hs
      split at hs
      case h_1 buf written hthread =>
        by_cases hnw : -1 ≤ nw ∧ nw ≤ (buf.drop written).length
        · rw [if_pos hnw] at hs
          obtain ⟨sockets, hrun, rfl⟩ := Option.map_eq_some_iff.mp hs
          exact Stepped.send hthread hrun
        · rw [if_neg hnw] at hs
          cases hs
      case h_2 => cases hs
  | null no =>
      simp only [State.null] at hs
      split at hs
      case h_1 hthread =>
        rw [← Option.some.inj hs]
        exact Stepped.dies (Or.inr (Or.inr ⟨no, hthread⟩))
      case h_2 => cases hs

/-! ## Who holds a stream -/

/-- The thread has a stream. -/
def Thread.running : Thread → Bool
  | receiving => true
  | sending _ _ => true
  | _ => false

/-- The connection has a stream: its thread runs, or `main` is about to start it. -/
def State.Holds (s : State) (no : ℕ) : Prop :=
  (s.thread no).running = true ∨ (s.stage = Stage.accepted true ∧ no = s.count)

/-- The invariant while the process is alive. -/
structure Inv (lfd : ℕ) (s : State) : Prop where
  holding : Holding lfd s.Holds s.sockets
  unborn : ∀ no, s.count < no → s.thread no = Thread.unborn
  unstarted : ∀ b, s.stage = Stage.accepted b → s.thread s.count = Thread.unborn

theorem inv_start (lfd : ℕ) : Inv lfd (start lfd) where
  holding := by
    refine (holding_created lfd).congr (fun no => ⟨False.elim, ?_⟩)
    rintro (hrunning | ⟨hstage, -⟩)
    · cases hrunning
    · cases hstage
  unborn := fun _ _ => rfl
  unstarted := fun _ h => by cases h

/-- A thread that runs is none of those that `main` has still to start. -/
theorem Inv.of_running {lfd : ℕ} {s : State} (h : Inv lfd s) {no : ℕ}
    (hrunning : (s.thread no).running = true) :
    no ≤ s.count ∧ ∀ b, s.stage = Stage.accepted b → no ≠ s.count := by
  constructor
  · by_contra hlt
    rw [h.unborn no (not_le.mp hlt)] at hrunning
    cases hrunning
  · rintro b hstage rfl
    rw [h.unstarted b hstage] at hrunning
    cases hrunning

/-- A thread that goes on keeps its stream. -/
theorem Inv.goOn {lfd : ℕ} {s : State} (h : Inv lfd s) {no : ℕ} {t : Thread}
    {log : ℕ → List Event} (hrunning : (s.thread no).running = true) (ht : t.running = true) :
    Inv lfd { s with thread := Function.update s.thread no t, log := log } := by
  obtain ⟨hle, hne⟩ := h.of_running hrunning
  refine ⟨h.holding.congr (fun j => ?_), ?_, ?_⟩
  · by_cases hj : j = no
    · subst hj
      simp only [State.Holds, Function.update_self, hrunning, ht]
    · simp only [State.Holds, Function.update_of_ne hj]
  · intro j (hj : s.count < j)
    show Function.update s.thread no t j = _
    rw [Function.update_of_ne (by omega)]
    exact h.unborn j hj
  · intro b hstage
    show Function.update s.thread no t s.count = _
    rw [Function.update_of_ne (hne b hstage).symm]
    exact h.unstarted b hstage

/-- **A thread that ends deletes its stream.** -/
theorem Inv.finish {lfd : ℕ} {s : State} (h : Inv lfd s) {no : ℕ}
    (hrunning : (s.thread no).running = true) (log : ℕ → List Event) :
    run TtcpSocket.step [.use (.stream no), .destroy (.stream no)] s.sockets
        = some (streamDeleted s.sockets no) ∧
      Inv lfd { s with
        sockets := streamDeleted s.sockets no
        thread := Function.update s.thread no Thread.ended, log := log } := by
  obtain ⟨hle, hne⟩ := h.of_running hrunning
  obtain ⟨hstep, hholding⟩ := h.holding.delete (show s.Holds no from Or.inl hrunning)
  have huse := step_use h.holding.inv ((h.holding.stream no).mpr (Or.inl hrunning))
  refine ⟨by simp only [run, huse, hstep, Option.bind_some], hholding.congr (fun j => ?_), ?_, ?_⟩
  · by_cases hj : j = no
    · subst hj
      simp only [State.Holds, Function.update_self, ne_eq, not_true_eq_false, and_false,
        false_iff, not_or, Thread.running, Bool.false_eq_true, not_false_eq_true, true_and]
      rintro ⟨hstage, heq⟩
      exact hne true hstage heq
    · simp only [State.Holds, Function.update_of_ne hj, ne_eq, hj, not_false_eq_true, and_true]
  · intro j (hj : s.count < j)
    show Function.update s.thread no Thread.ended j = _
    rw [Function.update_of_ne (by omega)]
    exact h.unborn j hj
  · intro b hstage
    show Function.update s.thread no Thread.ended s.count = _
    rw [Function.update_of_ne (hne b hstage).symm]
    exact h.unstarted b hstage

/-- `Acceptor::accept` has returned a stream. -/
theorem Inv.accept {lfd : ℕ} {s : State} (h : Inv lfd s) (hstage : s.stage = Stage.accepting)
    {sockfd : ℕ} {sockets : TtcpSocket.State Obj}
    (hrun : run TtcpSocket.step (acceptOps (s.count + 1) sockfd) s.sockets = some sockets) :
    Inv lfd
      { s with sockets := sockets, stage := Stage.accepted true, count := s.count + 1 } := by
  have hfree : ¬ s.Holds (s.count + 1) := by
    rintro (hrunning | ⟨-, heq⟩)
    · have := (h.of_running hrunning).1
      omega
    · omega
  obtain ⟨-, hholding⟩ := h.holding.accept hfree hrun
  refine ⟨hholding.congr (fun j => ?_), ?_, ?_⟩
  · simp only [State.Holds, hstage, reduceCtorEq, false_and, or_false, true_and]
  · exact fun j hj => h.unborn j (Nat.lt_of_succ_lt hj)
  · exact fun _ _ => h.unborn _ (Nat.lt_succ_self _)

/-- `Acceptor::accept` has returned a null pointer. -/
theorem Inv.acceptFails {lfd : ℕ} {s : State} (h : Inv lfd s)
    (hstage : s.stage = Stage.accepting) :
    Inv lfd { s with stage := Stage.accepted false, count := s.count + 1 } := by
  refine ⟨h.holding.congr (fun j => ?_), ?_, ?_⟩
  · simp only [State.Holds, hstage, reduceCtorEq, Stage.accepted.injEq, false_and]
  · exact fun j hj => h.unborn j (Nat.lt_of_succ_lt hj)
  · exact fun _ _ => h.unborn _ (Nat.lt_succ_self _)

/-- The thread is started, with the stream or with a null pointer. -/
theorem Inv.start {lfd : ℕ} {s : State} (h : Inv lfd s) {b : Bool}
    (hstage : s.stage = Stage.accepted b) {t : Thread} (ht : t.running = b) :
    Inv lfd
      { s with stage := Stage.accepting, thread := Function.update s.thread s.count t } := by
  have hunborn : (s.thread s.count).running = false := by
    rw [h.unstarted b hstage]
    rfl
  refine ⟨h.holding.congr (fun j => ?_), ?_, fun b hb => by cases hb⟩
  · by_cases hj : j = s.count
    · subst hj
      simp [State.Holds, hstage, ht, hunborn]
    · simp [State.Holds, hj]
  · intro j (hj : s.count < j)
    show Function.update s.thread s.count t j = _
    rw [Function.update_of_ne hj.ne']
    exact h.unborn j hj

/-- A member function of a stream that exists changes nothing. -/
theorem Inv.use {lfd : ℕ} {s : State} (h : Inv lfd s) {no : ℕ} (hholds : s.Holds no)
    {sockets : TtcpSocket.State Obj}
    (huse : TtcpSocket.step (.use (.stream no)) s.sockets = some sockets) :
    sockets = s.sockets := by
  rw [step_use h.holding.inv ((h.holding.stream no).mpr hholds)] at huse
  exact (Option.some.inj huse).symm

/-- **The invariant is kept** by every step behind which the process is alive. -/
theorem Inv.step {lfd : ℕ} {nodelay : Bool} {s s' : State} (h : Inv lfd s) {m : Move}
    (hs : step nodelay m s = some s') (hlive : s'.stage ≠ Stage.dead) : Inv lfd s' := by
  cases (stepped_of_step hs).2 with
  | accept hstage hrun => exact h.accept hstage hrun
  | acceptFails hstage huse =>
      rw [step_use h.holding.inv h.holding.listener.1] at huse
      rw [← Option.some.inj huse]
      exact h.acceptFails hstage
  | start hstage hrun =>
      cases nodelay with
      | false =>
          rw [← Option.some.inj hrun]
          exact h.start hstage rfl
      | true =>
          obtain ⟨sockets, huse, hrest⟩ := Option.bind_eq_some_iff.mp hrun
          rw [← Option.some.inj hrest, h.use (Or.inr ⟨hstage, rfl⟩) huse]
          exact h.start hstage rfl
  | startNull hstage => exact h.start hstage rfl
  | dies hcause => exact absurd rfl hlive
  | @receive no piece sockets hthread huse =>
      have hrunning : (s.thread no).running = true := by
        rw [hthread]
        rfl
      rw [h.use (Or.inl hrunning) huse]
      exact h.goOn hrunning rfl
  | @noMore no sockets hthread hrun =>
      have hrunning : (s.thread no).running = true := by
        rw [hthread]
        rfl
      obtain ⟨hfinish, hinv⟩ := h.finish hrunning s.log
      rw [hfinish] at hrun
      rw [← Option.some.inj hrun]
      exact hinv
  | @send no nw buf written sockets hthread hrun =>
      have hrunning : (s.thread no).running = true := by
        rw [hthread]
        rfl
      by_cases hpos : 0 < nw
      · rw [if_pos hpos] at hrun
        obtain ⟨sockets', huse, hrest⟩ := Option.bind_eq_some_iff.mp hrun
        rw [← Option.some.inj hrest, h.use (Or.inl hrunning) huse, sent, if_pos hpos]
        refine h.goOn hrunning ?_
        split_ifs <;> rfl
      · obtain ⟨hfinish, hinv⟩ := h.finish hrunning _
        rw [if_neg hpos, hfinish] at hrun
        rw [← Option.some.inj hrun, sent, if_neg hpos]
        exact hinv

theorem inv_of_reachable {lfd : ℕ} {nodelay : Bool} {s : State}
    (h : Reachable (step nodelay) (start lfd) s) : s.stage ≠ Stage.dead → Inv lfd s := by
  refine h.invariant (I := fun s => s.stage ≠ Stage.dead → Inv lfd s) (fun _ => inv_start lfd) ?_
  intro s m s' hinv _ hs hlive
  exact (hinv (stepped_of_step hs).1).step hs hlive

/-- **The descriptors of the echo server.**  While the process is alive, whatever has
happened: every descriptor that was handed over and is not closed has one owner, and none
is used or closed behind its close; the streams that exist are those of the threads that
run and of the connection that `main` is about to pass on; the descriptors that are open
are the listener and theirs; and each has been closed as often as it was accepted, less
one if it is open. -/
theorem echo_descriptors {lfd : ℕ} {nodelay : Bool} {s : State}
    (h : Reachable (step nodelay) (start lfd) s) (hlive : s.stage ≠ Stage.dead) :
    Owned s.sockets ∧ (∀ no, Obj.stream no ∈ s.sockets.alive ↔ s.Holds no) ∧
      (∀ fd, fd ∈ s.sockets.opened ↔
        fd = lfd ∨ ∃ no, s.Holds no ∧ s.sockets.sockfd (.stream no) = fd) ∧
      (∀ no no', s.Holds no → s.Holds no' →
        s.sockets.sockfd (.stream no) = s.sockets.sockfd (.stream no') → no = no') ∧
      ∀ fd, s.sockets.handed.count fd
        = s.sockets.closed.count fd + if fd ∈ s.sockets.opened then 1 else 0 := by
  have hholding := (inv_of_reachable h hlive).holding
  refine ⟨hholding.inv.owned, hholding.stream, hholding.opened_iff, ?_, hholding.balance⟩
  intro no no' hno hno' heq
  exact Obj.stream.inj
    (hholding.injective ((hholding.stream no).mpr hno) ((hholding.stream no').mpr hno') heq)

/-! ## What the threads send back -/

/-- What a thread has received and is about to send. -/
def Thread.unsent : Thread → List UInt8
  | sending buf written => buf.drop written
  | _ => []

/-- What has happened on the socket of a thread. -/
structure Echoing (t : Thread) (log : List Event) : Prop where
  /-- What has been received has been sent back, in order, but for the last piece or a
  part of it; nothing of it is lost unless a `send` has failed. -/
  rest : ∃ rest, received log = accepted log ++ rest ∧ rest.length ≤ bufSize ∧
    (AllTaken log → rest = t.unsent)
  /-- A thread in which a `send` has failed has ended, -/
  taken : t ≠ Thread.ended → AllTaken log
  /-- and it was the last thing that happened. -/
  last : FailsLast log

theorem Echoing.start : Echoing Thread.unborn [] where
  rest := ⟨[], rfl, Nat.zero_le _, fun _ => rfl⟩
  taken := fun _ _ _ he => absurd he List.not_mem_nil
  last := AllTaken.failsLast (fun _ _ he => absurd he List.not_mem_nil)

/-- A thread that has nothing to send comes to another point where it has nothing to
send. -/
theorem Echoing.moveOn {t t' : Thread} {log : List Event} (h : Echoing t log)
    (hunsent : t.unsent = t'.unsent) (ht : t ≠ Thread.ended) : Echoing t' log := by
  refine ⟨?_, fun _ => h.taken ht, h.last⟩
  rw [← hunsent]
  exact h.rest

/-- A piece is received. -/
theorem Echoing.receive {log : List Event} (h : Echoing Thread.receiving log) (piece : Piece) :
    Echoing (Thread.sending piece.1 0) (log ++ [Event.received piece.1]) := by
  have htaken : AllTaken log := h.taken (by decide)
  have hall : AllTaken (log ++ [Event.received piece.1]) := by
    intro offered nw he
    rcases List.mem_append.mp he with he | he
    · exact htaken offered nw he
    · cases List.mem_singleton.mp he
  obtain ⟨rest, hreceived, -, hrest⟩ := h.rest
  obtain rfl : rest = [] := hrest htaken
  refine ⟨⟨piece.1, ?_, piece.2.2, fun _ => rfl⟩, fun _ => hall, hall.failsLast⟩
  rw [received_append, accepted_append, hreceived]
  show accepted log ++ [] ++ (piece.1 ++ []) = accepted log ++ [] ++ piece.1
  rw [List.append_nil piece.1]

/-- Nothing happens behind a single `send`. -/
theorem failsLast_singleton (e : Event) : FailsLast [e] := by
  intro pre offered nw post heq _
  have hlen := congrArg List.length heq
  simp only [List.length_append, List.length_cons, List.length_nil] at hlen
  exact List.length_eq_zero_iff.mp (by omega)

/-- A `send` returns. -/
theorem Echoing.send {buf : List UInt8} {written : ℕ} {log : List Event}
    (h : Echoing (Thread.sending buf written) log) (nw : ℤ) :
    Echoing (sent buf written nw) (log ++ [Event.sent (buf.drop written) nw]) := by
  have htaken : AllTaken log := h.taken (by rintro ⟨⟩)
  obtain ⟨rest, hreceived, hlen, hrest⟩ := h.rest
  have hrest : rest = buf.drop written := hrest htaken
  have hin : received (log ++ [Event.sent (buf.drop written) nw]) = received log := by
    rw [received_append]
    exact List.append_nil _
  have hout : accepted (log ++ [Event.sent (buf.drop written) nw])
      = accepted log ++ (buf.drop written).take nw.toNat := by
    rw [accepted_append]
    show accepted log ++ ((buf.drop written).take nw.toNat ++ []) = _
    rw [List.append_nil]
  have hsplit : received log = accepted log ++ (buf.drop written).take nw.toNat
      ++ buf.drop (written + nw.toNat) := by
    rw [hreceived, hrest, List.append_assoc, ← List.drop_drop, List.take_append_drop]
  have hshort : (buf.drop (written + nw.toNat)).length ≤ bufSize := by
    rw [hrest, List.length_drop] at hlen
    rw [List.length_drop]
    omega
  by_cases hpos : 0 < nw
  · have hall : AllTaken (log ++ [Event.sent (buf.drop written) nw]) := by
      intro offered nw' he
      rcases List.mem_append.mp he with he | he
      · exact htaken offered nw' he
      · cases List.mem_singleton.mp he
        exact hpos
    refine ⟨⟨buf.drop (written + nw.toNat), by rw [hin, hout, hsplit], hshort, fun _ => ?_⟩,
      fun _ => hall, hall.failsLast⟩
    rw [sent, if_pos hpos]
    split_ifs with hlt
    · rfl
    · exact List.drop_eq_nil_of_le (not_lt.mp hlt)
  · -- the failed `send` is the last entry, and takes nothing
    have hfails : ¬ AllTaken (log ++ [Event.sent (buf.drop written) nw]) := by
      intro hall
      exact hpos (hall _ nw (List.mem_append_right _ (List.mem_singleton_self _)))
    refine ⟨⟨buf.drop (written + nw.toNat), by rw [hin, hout, hsplit], hshort,
      fun hall => absurd hall hfails⟩, ?_, ?_⟩
    · rw [sent, if_neg hpos]
      exact fun hne => absurd rfl hne
    · exact htaken.append_failsLast (failsLast_singleton _)

/-- One thread takes a step, the others do not. -/
theorem echoing_update {s : State} (h : ∀ no, Echoing (s.thread no) (s.log no)) {no : ℕ}
    {t : Thread} {log : List Event} (hno : Echoing t log) (j : ℕ) :
    Echoing (Function.update s.thread no t j) (Function.update s.log no log j) := by
  by_cases hj : j = no
  · rw [hj, Function.update_self, Function.update_self]
    exact hno
  · rw [Function.update_of_ne hj, Function.update_of_ne hj]
    exact h j

/-- The same for a step that adds nothing to the log. -/
theorem echoing_moveOn {s : State} (h : ∀ no, Echoing (s.thread no) (s.log no)) {no : ℕ}
    {t : Thread} (hno : Echoing t (s.log no)) (j : ℕ) :
    Echoing (Function.update s.thread no t j) (s.log j) := by
  have hupdate : Echoing (Function.update s.thread no t j)
      (Function.update s.log no (s.log no) j) := echoing_update h hno j
  rw [Function.update_eq_self] at hupdate
  exact hupdate

/-- **Every step keeps what is said about each thread.** -/
theorem echoing_step {nodelay : Bool} {s s' : State} (h : ∀ no, Echoing (s.thread no) (s.log no))
    (hunborn : ∀ b, s.stage = Stage.accepted b → s.thread s.count = Thread.unborn) {m : Move}
    (hs : step nodelay m s = some s') : ∀ no, Echoing (s'.thread no) (s'.log no) := by
  have hnew : ∀ b t, s.stage = Stage.accepted b → t.unsent = [] → Echoing t (s.log s.count) := by
    intro b t hstage ht
    have hold := h s.count
    rw [hunborn b hstage] at hold
    exact hold.moveOn ht.symm (by decide)
  cases (stepped_of_step hs).2 with
  | accept hstage hrun => exact h
  | acceptFails hstage huse => exact h
  | start hstage hrun => exact echoing_moveOn h (hnew true _ hstage rfl)
  | startNull hstage => exact echoing_moveOn h (hnew false _ hstage rfl)
  | dies hcause => exact h
  | @receive no piece sockets hthread huse =>
      have hno := h no
      rw [hthread] at hno
      exact echoing_update h (hno.receive piece)
  | @noMore no sockets hthread hrun =>
      have hno := h no
      rw [hthread] at hno
      exact echoing_moveOn h (hno.moveOn rfl (by decide))
  | @send no nw buf written sockets hthread hrun =>
      have hno := h no
      rw [hthread] at hno
      exact echoing_update h (hno.send nw)

/-- **What the threads send back**, in any order of their steps: what has been accepted by
the socket of a connection is a prefix of what has been received on it, short of it by at
most one piece; nothing is lost unless a `send` fails, and then nothing follows. -/
theorem echo_threads {lfd : ℕ} {nodelay : Bool} {s : State}
    (h : Reachable (step nodelay) (start lfd) s) (no : ℕ) :
    Echoing (s.thread no) (s.log no) := by
  have hall : (s.stage ≠ Stage.dead → Inv lfd s) ∧ ∀ no, Echoing (s.thread no) (s.log no) := by
    refine h.invariant
      (I := fun s => (s.stage ≠ Stage.dead → Inv lfd s) ∧ ∀ no, Echoing (s.thread no) (s.log no))
      ⟨fun _ => inv_start lfd, fun _ => Echoing.start⟩ ?_
    rintro s m s' ⟨hinv, hechoing⟩ - hs
    have hbefore : Inv lfd s := hinv (stepped_of_step hs).1
    exact ⟨hbefore.step hs, echoing_step hechoing hbefore.unstarted hs⟩
  exact hall.2 no

/-! ## Whether the process lives -/

/-- `accept` returns -1, or a thread cannot be started. -/
def Move.fails : Move → Bool
  | acceptFails => true
  | startFails => true
  | _ => false

/-- The condition on a step. -/
def NoFailure (_ : State) (m : Move) : Prop := m.fails = false

instance (s : State) (m : Move) : Decidable (NoFailure s m) :=
  inferInstanceAs (Decidable (_ = false))

/-- Every connection accepted so far has a stream, or has ended. -/
structure Serving (s : State) : Prop where
  stage : s.stage ≠ Stage.dead ∧ s.stage ≠ Stage.accepted false
  pointer : ∀ no, s.thread no ≠ Thread.null
  served : ∀ no, 1 ≤ no → no ≤ s.count → s.Holds no ∨ s.thread no = Thread.ended

theorem serving_start (lfd : ℕ) : Serving (start lfd) where
  stage := by simp [start]
  pointer := fun _ h => by cases h
  served := by
    intro no hpos hle
    exact absurd (hpos.trans hle) (Nat.not_succ_le_zero 0)

/-- A thread that runs takes a step. -/
theorem Serving.thread {s : State} (h : Serving s) (no : ℕ) {t : Thread}
    (ht : t.running = true ∨ t = Thread.ended) (sockets : TtcpSocket.State Obj)
    (log : ℕ → List Event) :
    Serving { s with
      sockets := sockets, thread := Function.update s.thread no t, log := log } := by
  refine ⟨h.stage, ?_, ?_⟩
  · intro j
    show Function.update s.thread no t j ≠ _
    by_cases hj : j = no
    · rw [hj, Function.update_self]
      rintro rfl
      rcases ht with ht | ht <;> cases ht
    · rw [Function.update_of_ne hj]
      exact h.pointer j
  · intro j hpos hle
    show ((Function.update s.thread no t j).running = true ∨ _)
      ∨ Function.update s.thread no t j = Thread.ended
    by_cases hj : j = no
    · rw [hj, Function.update_self]
      rcases ht with ht | ht
      · exact Or.inl (Or.inl ht)
      · exact Or.inr ht
    · rw [Function.update_of_ne hj]
      exact h.served j hpos hle

/-- A stream is accepted: `main` holds it. -/
theorem Serving.accept {s : State} (h : Serving s) (hstage : s.stage = Stage.accepting)
    (sockets : TtcpSocket.State Obj) :
    Serving
      { s with sockets := sockets, stage := Stage.accepted true, count := s.count + 1 } := by
  refine ⟨by simp, h.pointer, ?_⟩
  intro no hpos (hle : no ≤ s.count + 1)
  by_cases hno : no = s.count + 1
  · exact Or.inl (Or.inr ⟨rfl, hno⟩)
  · rcases h.served no hpos (by omega) with hholds | hended
    · refine Or.inl (Or.inl (hholds.resolve_right ?_))
      rintro ⟨hbefore, -⟩
      rw [hstage] at hbefore
      cases hbefore
    · exact Or.inr hended

/-- The thread is started: the stream is its own. -/
theorem Serving.start {s : State} (h : Serving s) (sockets : TtcpSocket.State Obj) :
    Serving { s with
      sockets := sockets, stage := Stage.accepting
      thread := Function.update s.thread s.count Thread.receiving } := by
  obtain ⟨-, hpointer, hserved⟩ :=
    h.thread s.count (t := Thread.receiving) (Or.inl rfl) sockets s.log
  refine ⟨by simp, hpointer, ?_⟩
  intro no hpos hle
  rcases hserved no hpos hle with (hrunning | ⟨-, rfl⟩) | hended
  · exact Or.inl (Or.inl hrunning)
  · left
    left
    show (Function.update s.thread s.count Thread.receiving s.count).running = true
    rw [Function.update_self]
    rfl
  · exact Or.inr hended

/-- **Every step that does not fail keeps the connections served.** -/
theorem Serving.step {nodelay : Bool} {s s' : State} (h : Serving s) {m : Move}
    (hok : m.fails = false) (hs : step nodelay m s = some s') : Serving s' := by
  cases (stepped_of_step hs).2 with
  | accept hstage hrun => exact h.accept hstage _
  | acceptFails hstage huse => cases hok
  | start hstage hrun => exact h.start _
  | startNull hstage => exact absurd hstage h.stage.2
  | dies hcause =>
      rcases hcause with rfl | hstage | ⟨no, hthread⟩
      · cases hok
      · exact absurd hstage h.stage.2
      · exact absurd hthread (h.pointer no)
  | receive hthread huse => exact h.thread _ (Or.inl rfl) _ _
  | noMore hthread hrun => exact h.thread _ (Or.inr rfl) _ s.log
  | send hthread hrun =>
      refine h.thread _ ?_ _ _
      rw [sent]
      split_ifs
      · exact Or.inl rfl
      · exact Or.inl rfl
      · exact Or.inr rfl

/-- **The process lives** while each `accept` returns a descriptor and each thread can be
started, and then every connection accepted has its stream until its thread has ended. -/
theorem echo_lives {lfd : ℕ} {nodelay : Bool} {s : State}
    (h : Reach (step nodelay) NoFailure (start lfd) s) : Serving s :=
  h.invariant (serving_start lfd) (fun _ _ _ hserving hok hs => hserving.step hok hs)

/-! ## Two clients -/

/-- Two connections: the first client is served and closes, the second one has gone when
it is answered. -/
def twoClients : List Move :=
  [.accept 4, .start, .receive 1 ⟨[104, 105], by decide⟩, .accept 5, .send 1 1, .start,
    .receive 2 ⟨[104], by decide⟩, .send 1 1, .send 2 (-1), .noMore 1]

/-- The descriptors of both are closed, the listener is open. -/
theorem echo_descriptors_twoClients :
    ∃ s, Reachable (step true) (start 3) s ∧
      (s.sockets.closed = [5, 4] ∧ s.sockets.opened = {3} ∧ s.stage = Stage.accepting) ∧
      Owned s.sockets := by
  obtain ⟨s, hreach, hs⟩ : ∃ s, Reachable (step true) (start 3) s ∧
      (s.sockets.closed = [5, 4] ∧ s.sockets.opened = {3} ∧ s.stage = Stage.accepting) :=
    exists_reach_of_run twoClients (by decide +kernel)
  exact ⟨s, hreach, hs, (echo_descriptors hreach (by rw [hs.2.2]; decide)).1⟩

/-- What the first client sent has been sent back, what the second one sent has not. -/
theorem echo_threads_twoClients :
    ∃ s, Reachable (step true) (start 3) s ∧
      (accepted (s.log 1) = [104, 105] ∧ accepted (s.log 2) = [] ∧ received (s.log 2) = [104]) ∧
      Echoing (s.thread 1) (s.log 1) := by
  obtain ⟨s, hreach, hs⟩ : ∃ s, Reachable (step true) (start 3) s ∧
      (accepted (s.log 1) = [104, 105] ∧ accepted (s.log 2) = [] ∧ received (s.log 2) = [104]) :=
    exists_reach_of_run twoClients (by decide +kernel)
  exact ⟨s, hreach, hs, echo_threads hreach 1⟩

/-- The process is alive behind these steps, and dies behind an `accept` that fails. -/
theorem echo_lives_twoClients :
    (∃ s, Reach (step true) NoFailure (start 3) s ∧ s.count = 2 ∧ Serving s) ∧
      ∃ s, Reachable (step false) (start 3) s ∧ s.stage = Stage.dead := by
  constructor
  · obtain ⟨s, hreach, hs⟩ : ∃ s, Reach (step true) NoFailure (start 3) s ∧ s.count = 2 :=
      exists_reach_of_run twoClients (by decide +kernel)
    exact ⟨s, hreach, hs, echo_lives hreach⟩
  · exact exists_reach_of_run (twoClients ++ [.acceptFails, .start, .null 3]) (by decide +kernel)

end TtcpServer
