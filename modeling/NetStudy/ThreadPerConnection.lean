/-
# One thread for each connection (`socket/pthreadserver.c`)

`main` accepts a connection, stores its descriptor in the variable `cfd`, whose storage is
the same in every turn of the loop, and starts a thread with the address of that variable.
The thread copies the descriptor, and then reads and writes back in a loop; when it reads
the end of the file it closes the descriptor and goes on.

The steps are those of `main`, of the threads, and of the clients.  The k-th thread is
the one created behind the k-th `accept`.  The histories say what each thread has read
from and written to each connection, and which threads have used their descriptor after
closing it.

* `perConnection_of_reach`: while every thread has copied its descriptor before the next
  one is stored, and no client closes its side, every thread serves its own connection;
* `misrouted_and_reused`: what happens otherwise.
-/
import NetStudy.Transition
import NetStudy.Descriptors

namespace PthreadServer

open Transition Descriptors

/-! ## `thread_work` -/

/-- The statement a thread executes next. -/
inductive Pc
  /-- 9: `*arg` is copied. -/
  | start
  /-- 12: the call of `read`. -/
  | read
  /-- 15: the call of `close`. -/
  | close
  /-- 18: the call of `write`. -/
  | write
  deriving DecidableEq

/-- A thread: its variables, with the `size` bytes that it has read in `buf`, and whether
it has closed its descriptor. -/
structure Thread where
  pc : Pc
  cfd : ℕ
  size : ℤ
  buf : List UInt8
  closed : Bool

/-! ## The process and its clients -/

/-- The connections, the variable `cfd` of `main`, whether `main` is about to start a
thread, the threads that have been created, and the clients: the bytes that have arrived
and not been read, and whether the client has closed. -/
structure State where
  fds : Table ℕ
  cfd : ℕ
  creating : Bool
  created : ℕ
  thread : ℕ → Thread
  incoming : ℕ → List UInt8
  ended : ℕ → Bool
  arrived : ℕ → List UInt8
  readBy : ℕ → ℕ → List UInt8
  writtenBy : ℕ → ℕ → List UInt8
  reused : List ℕ

/-- The steps.  A label carries the descriptor that `accept` returns, and what `read`
returns. -/
inductive Move
  | accept (cfd : ℕ)
  | create
  | copyArg (t : ℕ)
  | read (t : ℕ) (size : ℤ)
  | close (t : ℕ)
  | write (t : ℕ)
  | arrive (k : ℕ) (bytes : List UInt8)
  | hangUp (k : ℕ)

/-- One thread changes. -/
def State.set (s : State) (t : ℕ) (l : Thread) : State :=
  { s with thread := Function.update s.thread t l }

/-- A call on its descriptor by a thread that has closed it. -/
def State.use (s : State) (t : ℕ) : State :=
  if (s.thread t).closed then { s with reused := s.reused ++ [t] } else s

/-- Bytes are added to the history of a thread and a connection. -/
def record (h : ℕ → ℕ → List UInt8) (t k : ℕ) (bytes : List UInt8) : ℕ → ℕ → List UInt8 :=
  Function.update h t (Function.update (h t) k (h t k ++ bytes))

/-- Line 41: the lowest descriptor from `base` on that is not in use. -/
def State.accept (base : ℕ) (s : State) (cfd : ℕ) : Option State :=
  if s.creating = false ∧ base ≤ cfd ∧ s.fds.conn cfd = none ∧
      (∀ d < cfd, base ≤ d → s.fds.conn d ≠ none) then
    some { s with fds := s.fds.accept cfd, cfd := cfd, creating := true }
  else none

/-- Line 44. -/
def State.create (s : State) : Option State :=
  if s.creating then some { s with creating := false, created := s.created + 1 } else none

/-- The thread behind a `read`: line 13 goes to the `close`, or past it to the `write`. -/
def Thread.afterRead (l : Thread) (size : ℤ) (buf : List UInt8) : Thread :=
  { l with pc := if size = 0 then Pc.close else Pc.write, size := size, buf := buf }

/-- Line 12.  `read` returns -1, 0 at the end of what a client has sent, or the number of
bytes that it has taken; on a number with nothing behind it, only -1. -/
def State.read (s : State) (t : ℕ) (size : ℤ) : Option State :=
  match s.fds.conn (s.thread t).cfd with
  | none => if size = -1 then some ((s.use t).set t ((s.thread t).afterRead size [])) else none
  | some k =>
      if size = -1 ∨ (size = 0 ∧ s.incoming k = [] ∧ s.ended k = true) ∨
          (0 < size ∧ size ≤ (s.incoming k).length) then
        some { (s.use t).set t ((s.thread t).afterRead size ((s.incoming k).take size.toNat)) with
          incoming := Function.update s.incoming k ((s.incoming k).drop size.toNat)
          readBy := record s.readBy t k ((s.incoming k).take size.toNat) }
      else none

/-- Line 15. -/
def State.close (s : State) (t : ℕ) : State :=
  { s.set t { s.thread t with pc := Pc.write, closed := true } with
    fds := s.fds.close (s.thread t).cfd }

/-- Line 18: `size` bytes of `buf` go to what is behind the descriptor; a negative `size`
is refused. -/
def State.write (s : State) (t : ℕ) : State :=
  match s.fds.conn (s.thread t).cfd with
  | none => (s.use t).set t { s.thread t with pc := Pc.read }
  | some k =>
      { (s.use t).set t { s.thread t with pc := Pc.read } with
        writtenBy := record s.writtenBy t k ((s.thread t).buf.take (s.thread t).size.toNat) }

/-- One step.  The descriptors below `base` are the standard streams and the listener. -/
def step (base : ℕ) : Move → State → Option State
  | .accept cfd, s => s.accept base cfd
  | .create, s => s.create
  | .copyArg t, s =>
      if t < s.created ∧ (s.thread t).pc = Pc.start then
        some (s.set t { s.thread t with pc := Pc.read, cfd := s.cfd })
      else none
  | .read t size, s =>
      if t < s.created ∧ (s.thread t).pc = Pc.read then s.read t size else none
  | .close t, s =>
      if t < s.created ∧ (s.thread t).pc = Pc.close then some (s.close t) else none
  | .write t, s =>
      if t < s.created ∧ (s.thread t).pc = Pc.write then some (s.write t) else none
  | .arrive k bytes, s =>
      if s.ended k then none
      else some { s with
        incoming := Function.update s.incoming k (s.incoming k ++ bytes)
        arrived := Function.update s.arrived k (s.arrived k ++ bytes) }
  | .hangUp k, s => some { s with ended := Function.update s.ended k true }

/-- No client yet. -/
def start : State :=
  ⟨Table.empty, 0, false, 0, fun _ => ⟨Pc.start, 0, 0, [], false⟩, fun _ => [], fun _ => false,
    fun _ => [], fun _ _ => [], fun _ _ => [], []⟩

/-! ## Every thread serves its own connection -/

/-- What a thread has read and not yet written back. -/
def Thread.inHand (l : Thread) : List UInt8 :=
  if l.pc = Pc.write then l.buf.take l.size.toNat else []

/-- Every byte that arrives on the k-th connection is read by the k-th thread and written
back to that connection only, and nobody uses a descriptor that it has closed. -/
structure PerConnection (s : State) : Prop where
  read_own : ∀ t k, t ≠ k → s.readBy t k = []
  written_own : ∀ t k, t ≠ k → s.writtenBy t k = []
  arrived : ∀ k, s.arrived k = s.readBy k k ++ s.incoming k
  echoed : ∀ k, s.readBy k k = s.writtenBy k k ++ (s.thread k).inHand
  reused : s.reused = []

/-- The condition on a step: `accept` stores a descriptor only when every thread has
copied its own, and no `read` returns 0. -/
def CopiedAndOpen (s : State) : Move → Prop
  | .accept _ => ∀ t < s.created, (s.thread t).pc ≠ Pc.start
  | .read _ size => size ≠ 0
  | _ => True

instance (s : State) (a : Move) : Decidable (CopiedAndOpen s a) := by
  unfold CopiedAndOpen
  split <;> infer_instance

/-- What is behind the descriptor of a thread, or of `main` as long as the thread that is
to copy it has not done so. -/
structure ServerInv (s : State) : Prop where
  perConnection : PerConnection s
  fds : s.fds.Ok
  count : s.fds.count = s.created + if s.creating then 1 else 0
  stored : s.creating = true → s.fds.conn s.cfd = some s.created
  fresh : ∀ t, s.created ≤ t → s.thread t = ⟨Pc.start, 0, 0, [], false⟩
  starting : ∀ t < s.created, (s.thread t).pc = Pc.start → s.fds.conn s.cfd = some t
  serving : ∀ t < s.created, (s.thread t).pc ≠ Pc.start → s.fds.conn (s.thread t).cfd = some t
  running : ∀ t, (s.thread t).pc ≠ Pc.close ∧ (s.thread t).closed = false

theorem serverInv_start : ServerInv start where
  perConnection := ⟨fun _ _ _ => rfl, fun _ _ _ => rfl, fun _ => rfl, fun _ => rfl, rfl⟩
  fds := Table.ok_empty
  count := rfl
  stored := fun h => by cases h
  fresh := fun _ _ => rfl
  starting := fun t h => absurd h (Nat.not_lt_zero t)
  serving := fun t h => absurd h (Nat.not_lt_zero t)
  running := fun _ => ⟨(fun hpc => by cases hpc), rfl⟩

/-! ## The steps of `main` -/

/-- **`accept` finds every descriptor copied**, and its own is new. -/
theorem ServerInv.accept {s s' : State} {base cfd : ℕ} (h : ServerInv s)
    (hcopied : ∀ t < s.created, (s.thread t).pc ≠ Pc.start)
    (hs : s.accept base cfd = some s') : ServerInv s' := by
  unfold State.accept at hs
  split_ifs at hs with hguard
  obtain ⟨hidle, -, hfree, -⟩ := hguard
  rw [← Option.some.inj hs]
  have hcount : s.fds.count = s.created := by
    rw [h.count, hidle]
    rfl
  obtain ⟨hread, hwritten, harrived, hechoed, hreused⟩ := h.perConnection
  refine ⟨⟨hread, hwritten, harrived, hechoed, hreused⟩, h.fds.accept cfd, ?_, ?_, h.fresh, ?_, ?_, h.running⟩
  · show s.fds.count + 1 = s.created + 1
    rw [hcount]
  · intro _
    show (s.fds.accept cfd).conn cfd = some s.created
    rw [s.fds.conn_accept_self, hcount]
  · intro t ht hpc
    exact absurd hpc (hcopied t ht)
  · intro t ht hpc
    exact Table.conn_accept_of_some hfree (h.serving t ht hpc)

/-- The new thread starts with the descriptor that `main` has stored last. -/
theorem ServerInv.create {s s' : State} (h : ServerInv s) (hs : s.create = some s') :
    ServerInv s' := by
  unfold State.create at hs
  split_ifs at hs with hcreating
  rw [← Option.some.inj hs]
  have hnew : s.thread s.created = ⟨Pc.start, 0, 0, [], false⟩ := h.fresh s.created le_rfl
  obtain ⟨hread, hwritten, harrived, hechoed, hreused⟩ := h.perConnection
  refine ⟨⟨hread, hwritten, harrived, hechoed, hreused⟩, h.fds, ?_, ?_, ?_, ?_, ?_, h.running⟩
  · show s.fds.count = s.created + 1 + 0
    rw [h.count, hcreating]
    rfl
  · intro hno
    cases hno
  · intro t ht
    exact h.fresh t (Nat.le_of_succ_le ht)
  · intro t ht hpc
    rcases Nat.lt_succ_iff_lt_or_eq.mp ht with ht | rfl
    · exact h.starting t ht hpc
    · exact h.stored hcreating
  · intro t ht hpc
    rcases Nat.lt_succ_iff_lt_or_eq.mp ht with ht | rfl
    · exact h.serving t ht hpc
    · rw [hnew] at hpc
      exact absurd rfl hpc

/-! ## The steps of a thread -/

theorem record_self (h : ℕ → ℕ → List UInt8) (t k : ℕ) (bytes : List UInt8) :
    record h t k bytes t k = h t k ++ bytes := by
  rw [record, Function.update_self, Function.update_self]

theorem record_of_ne (h : ℕ → ℕ → List UInt8) {t k u j : ℕ} (bytes : List UInt8)
    (hne : u ≠ t ∨ j ≠ k) : record h t k bytes u j = h u j := by
  rw [record]
  by_cases hut : u = t
  · subst hut
    rw [Function.update_self, Function.update_of_ne (hne.resolve_left (fun h => h rfl))]
  · rw [Function.update_of_ne hut]

/-- A thread that has its descriptor goes on with it. -/
theorem ServerInv.set {s s' : State} (h : ServerInv s) {t : ℕ} {l : Thread} (ht : t < s.created)
    (hpc : l.pc ≠ Pc.start) (hconn : s.fds.conn l.cfd = some t)
    (hrunning : l.pc ≠ Pc.close ∧ l.closed = false) (hfds : s'.fds = s.fds) (hcfd : s'.cfd = s.cfd)
    (hcreating : s'.creating = s.creating) (hcreated : s'.created = s.created)
    (hthread : s'.thread = Function.update s.thread t l) (hper : PerConnection s') :
    ServerInv s' := by
  refine ⟨hper, ?_, ?_, ?_, ?_, ?_, ?_, ?_⟩
  · rw [hfds]
    exact h.fds
  · rw [hfds, hcreated, hcreating]
    exact h.count
  · rw [hcreating, hfds, hcfd, hcreated]
    exact h.stored
  · intro u hu
    rw [hcreated] at hu
    rw [hthread, Function.update_of_ne (by omega)]
    exact h.fresh u hu
  · intro u hu hpc'
    rw [hthread] at hpc'
    rw [hfds, hcfd]
    by_cases hut : u = t
    · rw [hut, Function.update_self] at hpc'
      exact absurd hpc' hpc
    · rw [Function.update_of_ne hut] at hpc'
      exact h.starting u (hcreated ▸ hu) hpc'
  · intro u hu hpc'
    rw [hthread] at hpc' ⊢
    rw [hfds]
    by_cases hut : u = t
    · rw [hut, Function.update_self]
      exact hconn
    · rw [Function.update_of_ne hut] at hpc' ⊢
      exact h.serving u (hcreated ▸ hu) hpc'
  · intro u
    rw [hthread]
    by_cases hut : u = t
    · rw [hut, Function.update_self]
      exact hrunning
    · rw [Function.update_of_ne hut]
      exact h.running u

/-- A thread that has not closed its descriptor may use it. -/
theorem ServerInv.use_eq {s : State} (h : ServerInv s) (t : ℕ) : s.use t = s := by
  rw [State.use, (h.running t).2]
  rfl

/-- The copy of the descriptor. -/
theorem ServerInv.copyArg {s : State} (h : ServerInv s) {t : ℕ} (ht : t < s.created)
    (hpc : (s.thread t).pc = Pc.start) :
    ServerInv (s.set t { s.thread t with pc := Pc.read, cfd := s.cfd }) := by
  obtain ⟨hread, hwritten, harrived, hechoed, hreused⟩ := h.perConnection
  refine h.set ht (l := { s.thread t with pc := Pc.read, cfd := s.cfd })
    (show Pc.read ≠ Pc.start by decide) (h.starting t ht hpc)
    ⟨show Pc.read ≠ Pc.close by decide, (h.running t).2⟩ rfl rfl rfl rfl rfl
    ⟨hread, hwritten, harrived, ?_, hreused⟩
  intro k
  show s.readBy k k = s.writtenBy k k ++ (Function.update s.thread t _ k).inHand
  by_cases hkt : k = t
  · subst hkt
    rw [Function.update_self, hechoed k, Thread.inHand, hpc]
    rfl
  · rw [Function.update_of_ne hkt]
    exact hechoed k

/-- **A `read` takes bytes of the thread's own connection**, and they are in its hands
then. -/
theorem ServerInv.read {s s' : State} (h : ServerInv s) {t : ℕ} {size : ℤ} (ht : t < s.created)
    (hpc : (s.thread t).pc = Pc.read) (hsize : size ≠ 0) (hs : s.read t size = some s') :
    ServerInv s' := by
  obtain ⟨hread, hwritten, harrived, hechoed, hreused⟩ := h.perConnection
  have hconn := h.serving t ht (by rw [hpc]; decide)
  unfold State.read at hs
  simp only [hconn, h.use_eq t] at hs
  split_ifs at hs
  rw [← Option.some.inj hs]
  have hafter : ((s.thread t).afterRead size ((s.incoming t).take size.toNat)).pc = Pc.write :=
    if_neg hsize
  refine h.set ht (l := (s.thread t).afterRead size ((s.incoming t).take size.toNat))
    (by rw [hafter]; decide) hconn ⟨by rw [hafter]; decide, (h.running t).2⟩ rfl rfl rfl rfl rfl ?_
  refine ⟨?_, hwritten, ?_, ?_, hreused⟩
  · intro u k huk
    show record s.readBy t t _ u k = []
    rw [record_of_ne s.readBy _ (by omega)]
    exact hread u k huk
  · intro k
    show s.arrived k = record s.readBy t t _ k k ++ Function.update s.incoming t _ k
    by_cases hkt : k = t
    · subst hkt
      rw [record_self, Function.update_self, List.append_assoc, List.take_append_drop]
      exact harrived k
    · rw [record_of_ne s.readBy _ (Or.inl hkt), Function.update_of_ne hkt]
      exact harrived k
  · intro k
    show record s.readBy t t _ k k = s.writtenBy k k ++ (Function.update s.thread t _ k).inHand
    by_cases hkt : k = t
    · subst hkt
      have hnone : (s.thread k).inHand = [] := by
        rw [Thread.inHand, hpc]
        rfl
      rw [record_self, Function.update_self, hechoed k, hnone, List.append_nil, Thread.inHand,
        if_pos hafter]
      show _ = s.writtenBy k k ++ ((s.incoming k).take size.toNat).take size.toNat
      rw [List.take_take, Nat.min_self]
    · rw [record_of_ne s.readBy _ (Or.inl hkt), Function.update_of_ne hkt]
      exact hechoed k

/-- **A `write` gives them back** to the thread's own connection. -/
theorem ServerInv.write {s : State} (h : ServerInv s) {t : ℕ} (ht : t < s.created)
    (hpc : (s.thread t).pc = Pc.write) : ServerInv (s.write t) := by
  obtain ⟨hread, hwritten, harrived, hechoed, hreused⟩ := h.perConnection
  have hconn := h.serving t ht (by rw [hpc]; decide)
  unfold State.write
  simp only [hconn, h.use_eq t]
  refine h.set ht (l := { s.thread t with pc := Pc.read }) (show Pc.read ≠ Pc.start by decide)
    hconn ⟨show Pc.read ≠ Pc.close by decide, (h.running t).2⟩ rfl rfl rfl rfl rfl ?_
  refine ⟨hread, ?_, harrived, ?_, hreused⟩
  · intro u k huk
    show record s.writtenBy t t _ u k = []
    rw [record_of_ne s.writtenBy _ (by omega)]
    exact hwritten u k huk
  · intro k
    show s.readBy k k = record s.writtenBy t t _ k k ++ (Function.update s.thread t _ k).inHand
    by_cases hkt : k = t
    · subst hkt
      rw [record_self, Function.update_self, hechoed k, Thread.inHand, if_pos hpc, Thread.inHand,
        if_neg (show ¬ Pc.read = Pc.write by decide), List.append_nil]
    · rw [record_of_ne s.writtenBy _ (Or.inl hkt), Function.update_of_ne hkt]
      exact hechoed k

/-! ## Runs -/

/-- What arrives on a connection waits there. -/
theorem ServerInv.arrive {s : State} (h : ServerInv s) (k : ℕ) (bytes : List UInt8) :
    ServerInv { s with
      incoming := Function.update s.incoming k (s.incoming k ++ bytes)
      arrived := Function.update s.arrived k (s.arrived k ++ bytes) } := by
  obtain ⟨hread, hwritten, harrived, hechoed, hreused⟩ := h.perConnection
  refine ⟨⟨hread, hwritten, ?_, hechoed, hreused⟩, h.fds, h.count, h.stored, h.fresh, h.starting,
    h.serving, h.running⟩
  intro j
  show Function.update s.arrived k _ j = s.readBy j j ++ Function.update s.incoming k _ j
  by_cases hjk : j = k
  · subst hjk
    rw [Function.update_self, Function.update_self, harrived j, List.append_assoc]
  · rw [Function.update_of_ne hjk, Function.update_of_ne hjk]
    exact harrived j

/-- One step that meets the condition. -/
theorem ServerInv.step {base : ℕ} {s s' : State} (h : ServerInv s) {a : Move}
    (hok : CopiedAndOpen s a) (hs : step base a s = some s') : ServerInv s' := by
  cases a with
  | accept cfd => exact h.accept hok hs
  | create => exact h.create hs
  | copyArg t =>
      rw [PthreadServer.step] at hs
      split_ifs at hs with hguard
      rw [← Option.some.inj hs]
      exact h.copyArg hguard.1 hguard.2
  | read t size =>
      rw [PthreadServer.step] at hs
      split_ifs at hs with hguard
      exact h.read hguard.1 hguard.2 hok hs
  | close t =>
      rw [PthreadServer.step] at hs
      split_ifs at hs with hguard
      -- nobody has come to the `close`
      exact absurd hguard.2 (h.running t).1
  | write t =>
      rw [PthreadServer.step] at hs
      split_ifs at hs with hguard
      rw [← Option.some.inj hs]
      exact h.write hguard.1 hguard.2
  | arrive k bytes =>
      rw [PthreadServer.step] at hs
      split_ifs at hs
      rw [← Option.some.inj hs]
      exact h.arrive k bytes
  | hangUp k =>
      rw [PthreadServer.step, Option.some.injEq] at hs
      rw [← hs]
      obtain ⟨hread, hwritten, harrived, hechoed, hreused⟩ := h.perConnection
      exact ⟨⟨hread, hwritten, harrived, hechoed, hreused⟩, h.fds, h.count, h.stored, h.fresh,
        h.starting, h.serving, h.running⟩

/-- **One thread for each connection**, in every run in which `accept` stores a descriptor
only when all threads have copied theirs, and no `read` returns 0. -/
theorem perConnection_of_reach {base : ℕ} {s : State}
    (h : Reach (step base) CopiedAndOpen start s) : PerConnection s := by
  have hinv : ServerInv s :=
    h.invariant serverInv_start (fun _ _ _ hinv hok hstep => hinv.step hok hstep)
  exact hinv.perConnection

/-- Two clients, each with its thread. -/
theorem perConnection_twoClients :
    ∃ s, PerConnection s ∧ s.writtenBy 0 0 = [65] ∧ s.writtenBy 1 1 = [66] := by
  obtain ⟨s, hreach, hend⟩ : ∃ s, Reach (step 4) CopiedAndOpen start s ∧
      s.writtenBy 0 0 = [65] ∧ s.writtenBy 1 1 = [66] :=
    exists_reach_of_run
      [.accept 4, .create, .copyArg 0, .accept 5, .arrive 1 [66], .create, .copyArg 1, .read 1 1,
        .arrive 0 [65], .read 0 1, .write 1, .write 0] (by decide)
  exact ⟨s, perConnection_of_reach hreach, hend⟩

/-- A second client that is accepted before the first thread has copied its descriptor is
served by that thread; and a client that leaves has its descriptor written to after it has
been closed. -/
theorem misrouted_and_reused :
    (∃ s, Reachable (step 4) start s ∧ s.readBy 0 1 = [65] ∧ ¬ PerConnection s) ∧
      ∃ s, Reachable (step 4) start s ∧ s.reused = [0] ∧ ¬ PerConnection s := by
  constructor
  · obtain ⟨s, hreach, hread⟩ : ∃ s, Reachable (step 4) start s ∧ s.readBy 0 1 = [65] :=
      exists_reach_of_run [.accept 4, .create, .accept 5, .copyArg 0, .arrive 1 [65], .read 0 1]
        (by decide)
    refine ⟨s, hreach, hread, ?_⟩
    intro hper
    have hown := hper.read_own 0 1 (by decide)
    rw [hread] at hown
    cases hown
  · obtain ⟨s, hreach, hreused⟩ : ∃ s, Reachable (step 4) start s ∧ s.reused = [0] :=
      exists_reach_of_run
        [.accept 4, .create, .copyArg 0, .hangUp 0, .read 0 0, .close 0, .write 0] (by decide)
    refine ⟨s, hreach, hreused, ?_⟩
    intro hper
    have hnone := hper.reused
    rw [hreused] at hnone
    cases hnone

end PthreadServer
