/-
# The streams of the echo server (`ttcp/comm/Acceptor.cc`, `ttcp/echo.cc`)

The `Socket` objects of `echo.cc`: the member `listenSock_` of the acceptor, the temporary
in `Acceptor::accept`, and the member `sock_` of the stream of each connection.  What the
acceptor and the threads do to them are runs of the system in `NetStudy.SocketOwnership`.

`Holding lfd H s` says that the listener and the streams of the connections in `H` are
the objects that are alive, and that the descriptors that are open are theirs.
-/
import NetStudy.Refinement
import NetStudy.SocketOwnership

namespace TtcpServer

open Transition TtcpSocket

/-! ## The objects -/

/-- The objects of class `Socket`.  The connections are numbered as in the messages. -/
inductive Obj
  | listenSock
  | temporary
  | stream (no : ℕ)
  deriving DecidableEq

/-- `Acceptor::accept` when `accept` has returned `sockfd`: a temporary is constructed,
`sock_` of the new stream is move constructed from it, and it is destroyed. -/
def acceptOps (no sockfd : ℕ) : List (Op Obj) :=
  [.use .listenSock, .obtain sockfd, .construct .temporary sockfd,
    .moveConstruct (.stream no) .temporary, .destroy .temporary]

/-- The objects behind `Acceptor::accept`. -/
def streamMade (s : TtcpSocket.State Obj) (no : ℕ) (sockfd : ℤ) : TtcpSocket.State Obj :=
  ⟨insert (.stream no) s.alive,
    Function.update (Function.update (Function.update s.sockfd .temporary sockfd) (.stream no)
      sockfd) .temporary (-1),
    insert sockfd s.opened, s.handed ++ [sockfd], s.closed, s.misused⟩

/-- The objects when the stream of a connection has been deleted. -/
def streamDeleted (s : TtcpSocket.State Obj) (no : ℕ) : TtcpSocket.State Obj :=
  ⟨s.alive.erase (.stream no), s.sockfd, s.opened.erase (s.sockfd (.stream no)), s.handed,
    s.closed ++ [s.sockfd (.stream no)], s.misused⟩

theorem sockfd_streamMade (s : TtcpSocket.State Obj) (no : ℕ) (sockfd : ℤ) (o : Obj) :
    (streamMade s no sockfd).sockfd o = Function.update (Function.update
      (Function.update s.sockfd .temporary sockfd) (.stream no) sockfd) .temporary (-1) o := rfl

/-- What `createTCP` and the constructor put into an object. -/
theorem sockfd_created {O : Type*} [DecidableEq O] (s : TtcpSocket.State O) (sockfd : ℤ) (o : O) :
    (s.created sockfd o).sockfd o = sockfd :=
  Function.update_self _ _ _

/-- A member function that calls the system, on an object that is alive. -/
theorem step_use {s : TtcpSocket.State Obj} (h : OwnerInv s) {o : Obj} (ho : o ∈ s.alive) :
    TtcpSocket.step (.use o) s = some s := by
  rw [TtcpSocket.step, if_pos ho, h.call_eq ho]

/-- **`Acceptor::accept` hands the descriptor to the stream**; the temporary closes nothing. -/
theorem run_acceptOps {s : TtcpSocket.State Obj} (h : OwnerInv s) {no sockfd : ℕ}
    (hlisten : Obj.listenSock ∈ s.alive) (htemporary : Obj.temporary ∉ s.alive)
    (hstream : Obj.stream no ∉ s.alive) (hfd : (sockfd : ℤ) ∉ s.opened) :
    run TtcpSocket.step (acceptOps no sockfd) s = some (streamMade s no sockfd) := by
  have hmem : Obj.temporary ∈ (s.created sockfd Obj.temporary).alive := Finset.mem_insert_self _ _
  have hself := sockfd_created s sockfd Obj.temporary
  have hnew : Obj.stream no ∉ (s.created sockfd Obj.temporary).alive := by
    intro hin
    rcases Finset.mem_insert.mp hin with heq | hin
    · cases heq
    · exact hstream hin
  -- the state in which `sock_` has taken the descriptor over
  generalize hs₁ : (⟨insert (Obj.stream no) (insert Obj.temporary s.alive),
    Function.update (Function.update (Function.update s.sockfd .temporary sockfd) (.stream no)
      sockfd) .temporary (-1),
    insert (sockfd : ℤ) s.opened, s.handed ++ [(sockfd : ℤ)], s.closed, s.misused⟩ :
      TtcpSocket.State Obj) = s₁
  have hmove : TtcpSocket.step (.moveConstruct (.stream no) .temporary)
      (s.created sockfd Obj.temporary) = some s₁ := by
    rw [TtcpSocket.step, if_pos hmem, State.moveConstruct, hself, State.init,
      if_pos ⟨hnew, Int.natCast_nonneg sockfd⟩, ← hs₁]
    rfl
  have hdestroy : TtcpSocket.step (.destroy .temporary) s₁
      = some { s₁ with alive := s₁.alive.erase Obj.temporary } := by
    have hin : Obj.temporary ∈ s₁.alive := by
      rw [← hs₁]
      exact Finset.mem_insert_of_mem (Finset.mem_insert_self _ _)
    have hminus : s₁.sockfd Obj.temporary = -1 := by
      rw [← hs₁]
      simp only [Function.update_self]
    rw [TtcpSocket.step, if_pos hin, State.destroy, if_neg (by rw [hminus]; decide)]
  have hleft : { s₁ with alive := s₁.alive.erase Obj.temporary } = streamMade s no sockfd := by
    rw [← hs₁, streamMade]
    congr 1
    rw [Finset.erase_insert_of_ne (by simp), Finset.erase_insert htemporary]
  rw [acceptOps, run, step_use h hlisten, Option.bind_some, run_created h hfd htemporary]
  simp only [run, hmove, hdestroy, hleft, Option.bind_some]

/-- The stream of a connection is deleted: its destructor closes the descriptor. -/
theorem step_delete {s : TtcpSocket.State Obj} (h : OwnerInv s) {no : ℕ}
    (hstream : Obj.stream no ∈ s.alive) (hfd : 0 ≤ s.sockfd (.stream no)) :
    TtcpSocket.step (.destroy (.stream no)) s = some (streamDeleted s no) := by
  rw [TtcpSocket.step, if_pos hstream, State.destroy, if_pos hfd, State.close, h.call_eq hstream]
  rfl

/-! ## Who is alive -/

/-- The objects that are alive are the listener and the streams of the connections in `H`;
each owns a descriptor, and no other descriptors are open. -/
structure Holding (lfd : ℕ) (H : ℕ → Prop) (s : TtcpSocket.State Obj) : Prop where
  reached : Reachable TtcpSocket.step TtcpSocket.start s
  listener : Obj.listenSock ∈ s.alive ∧ s.sockfd .listenSock = lfd
  temporary : Obj.temporary ∉ s.alive
  stream : ∀ no, Obj.stream no ∈ s.alive ↔ H no
  owns : ∀ o ∈ s.alive, 0 ≤ s.sockfd o
  owned : ∀ fd ∈ s.opened, ∃ o ∈ s.alive, s.sockfd o = fd

theorem Holding.inv {lfd : ℕ} {H : ℕ → Prop} {s : TtcpSocket.State Obj} (h : Holding lfd H s) :
    OwnerInv s :=
  ownerInv_of_reachable h.reached

/-- The set of connections may be described in another way. -/
theorem Holding.congr {lfd : ℕ} {H H' : ℕ → Prop} {s : TtcpSocket.State Obj}
    (h : Holding lfd H s) (heq : ∀ no, H no ↔ H' no) : Holding lfd H' s :=
  ⟨h.reached, h.listener, h.temporary, fun no => (h.stream no).trans (heq no), h.owns, h.owned⟩

/-- The constructor of `Acceptor`. -/
theorem holding_created (lfd : ℕ) :
    Holding lfd (fun _ => False) (TtcpSocket.start.created lfd Obj.listenSock) := by
  have hreach : run TtcpSocket.step [.obtain lfd, .construct Obj.listenSock lfd] TtcpSocket.start
      = some (TtcpSocket.start.created lfd Obj.listenSock) := by
    rw [run_created ownerInv_start (Finset.notMem_empty _) (Finset.notMem_empty _)]
    rfl
  refine ⟨reachable_of_run hreach, ⟨Finset.mem_insert_self _ _, sockfd_created _ _ _⟩, ?_,
    ?_, ?_, ?_⟩
  · rintro hin
    cases Finset.mem_singleton.mp hin
  · intro no
    constructor
    · intro hin
      cases Finset.mem_singleton.mp hin
    · exact False.elim
  · intro o ho
    obtain rfl := Finset.mem_singleton.mp ho
    rw [sockfd_created]
    exact Int.natCast_nonneg lfd
  · intro fd hfd
    obtain rfl := Finset.mem_singleton.mp hfd
    exact ⟨Obj.listenSock, Finset.mem_insert_self _ _, sockfd_created _ _ _⟩

/-- **A connection is accepted.** -/
theorem Holding.accept {lfd : ℕ} {H : ℕ → Prop} {s s' : TtcpSocket.State Obj}
    (h : Holding lfd H s) {no sockfd : ℕ} (hno : ¬ H no)
    (hrun : run TtcpSocket.step (acceptOps no sockfd) s = some s') :
    s' = streamMade s no sockfd ∧ Holding lfd (fun j => H j ∨ j = no) s' := by
  have hstream : Obj.stream no ∉ s.alive := fun hin => hno ((h.stream no).mp hin)
  have hfd : (sockfd : ℤ) ∉ s.opened := by
    intro hin
    rw [acceptOps, run, step_use h.inv h.listener.1, Option.bind_some, run, TtcpSocket.step,
      if_neg (not_not.mpr hin)] at hrun
    cases hrun
  have hs' : s' = streamMade s no sockfd :=
    Option.some.inj (hrun.symm.trans (run_acceptOps h.inv h.listener.1 h.temporary hstream hfd))
  refine ⟨hs', ?_⟩
  subst hs'
  have hreach := h.reached.trans (reachable_of_run hrun)
  -- only the temporary and the new stream have another descriptor
  have hsame : ∀ o, o ≠ Obj.temporary → o ≠ Obj.stream no →
      (streamMade s no sockfd).sockfd o = s.sockfd o := by
    intro o htemporary hother
    rw [sockfd_streamMade, Function.update_of_ne htemporary, Function.update_of_ne hother,
      Function.update_of_ne htemporary]
  have hnew : (streamMade s no sockfd).sockfd (.stream no) = sockfd := by
    rw [sockfd_streamMade, Function.update_of_ne (by simp), Function.update_self]
  have hold : ∀ o ∈ s.alive, (streamMade s no sockfd).sockfd o = s.sockfd o := by
    intro o ho
    refine hsame o ?_ ?_
    · rintro rfl
      exact h.temporary ho
    · rintro rfl
      exact hstream ho
  refine ⟨hreach, ⟨Finset.mem_insert_of_mem h.listener.1, ?_⟩, ?_, ?_, ?_, ?_⟩
  · rw [hold _ h.listener.1]
    exact h.listener.2
  · intro hin
    rcases Finset.mem_insert.mp hin with heq | hin
    · cases heq
    · exact h.temporary hin
  · intro j
    rw [streamMade, Finset.mem_insert, Obj.stream.injEq, h.stream j]
    exact or_comm
  · intro o ho
    rcases Finset.mem_insert.mp ho with rfl | ho
    · rw [hnew]
      exact Int.natCast_nonneg sockfd
    · rw [hold o ho]
      exact h.owns o ho
  · intro fd hin
    rcases Finset.mem_insert.mp hin with rfl | hin
    · exact ⟨_, Finset.mem_insert_self _ _, hnew⟩
    · obtain ⟨o, ho, rfl⟩ := h.owned fd hin
      exact ⟨o, Finset.mem_insert_of_mem ho, hold o ho⟩

/-- **A stream is deleted.** -/
theorem Holding.delete {lfd : ℕ} {H : ℕ → Prop} {s : TtcpSocket.State Obj}
    (h : Holding lfd H s) {no : ℕ} (hno : H no) :
    TtcpSocket.step (.destroy (.stream no)) s = some (streamDeleted s no) ∧
      Holding lfd (fun j => H j ∧ j ≠ no) (streamDeleted s no) := by
  have hstream := (h.stream no).mpr hno
  have hstep := step_delete h.inv hstream (h.owns _ hstream)
  refine ⟨hstep, h.reached.next trivial hstep, ⟨?_, h.listener.2⟩, ?_, ?_, ?_, ?_⟩
  · exact Finset.mem_erase.mpr ⟨by simp, h.listener.1⟩
  · exact fun hin => h.temporary (Finset.mem_of_mem_erase hin)
  · intro j
    rw [streamDeleted, Finset.mem_erase, h.stream j, and_comm, Ne, Obj.stream.injEq]
  · exact fun o ho => h.owns o (Finset.mem_of_mem_erase ho)
  · intro fd hin
    obtain ⟨hne, hin⟩ := Finset.mem_erase.mp hin
    obtain ⟨o, ho, rfl⟩ := h.owned fd hin
    refine ⟨o, Finset.mem_erase.mpr ⟨?_, ho⟩, rfl⟩
    rintro rfl
    exact hne rfl

/-- What follows about the descriptors. -/
theorem Holding.opened_iff {lfd : ℕ} {H : ℕ → Prop} {s : TtcpSocket.State Obj}
    (h : Holding lfd H s) (fd : ℤ) :
    fd ∈ s.opened ↔ fd = lfd ∨ ∃ no, H no ∧ s.sockfd (.stream no) = fd := by
  constructor
  · intro hin
    obtain ⟨o, ho, rfl⟩ := h.owned fd hin
    cases o with
    | listenSock => exact Or.inl h.listener.2
    | temporary => exact absurd ho h.temporary
    | stream no => exact Or.inr ⟨no, (h.stream no).mp ho, rfl⟩
  · rintro (rfl | ⟨no, hno, rfl⟩)
    · exact h.inv.opened .listenSock _ (Int.natCast_nonneg lfd) h.listener
    · have hstream := (h.stream no).mpr hno
      exact h.inv.opened _ _ (h.owns _ hstream) ⟨hstream, rfl⟩

/-- Two objects that are alive own different descriptors. -/
theorem Holding.injective {lfd : ℕ} {H : ℕ → Prop} {s : TtcpSocket.State Obj}
    (h : Holding lfd H s) {o u : Obj} (ho : o ∈ s.alive) (hu : u ∈ s.alive)
    (heq : s.sockfd o = s.sockfd u) : o = u :=
  h.inv.unique o u _ (h.owns o ho) ⟨ho, rfl⟩ ⟨hu, heq.symm⟩

/-- A descriptor has been handed over once more than it has been closed while it is open,
and as often otherwise. -/
theorem Holding.balance {lfd : ℕ} {H : ℕ → Prop} {s : TtcpSocket.State Obj}
    (h : Holding lfd H s) (fd : ℤ) :
    s.handed.count fd = s.closed.count fd + if fd ∈ s.opened then 1 else 0 := by
  split_ifs with hin
  · obtain ⟨o, ho, rfl⟩ := h.owned fd hin
    exact h.inv.counts o _ (h.owns o ho) ⟨ho, rfl⟩
  · refine h.inv.unowned fd (fun hfd o ho => hin ?_)
    exact h.inv.opened o fd hfd ho

end TtcpServer
