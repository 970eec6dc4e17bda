/-
# What is registered with epoll (`http/myhttpd.c` and `epoll/server.c`)

Both servers wait for events and go through the array that `epoll_wait` has filled: an
event without `EPOLLIN` is skipped, the listener's makes them accept a client and register
it, a client's makes them read, and at the end of the file remove the client from epoll
and close it.

The array is a snapshot: while it is gone through, connections are closed, others are
accepted, and numbers are used again.  Its entries carry the connection for which they
were reported, and a log records the calls of `epoll_ctl` and `close` with the connection
that they hit, and the events handled.

* `RegistryOk` says what is registered, in which order a connection is removed and
  closed, and that every event is handled for the connection for which it was reported;
* `registryOk_of_reachable`: it holds in every state of both servers.
-/
import NetStudy.Transition
import NetStudy.Descriptors
import NetStudy.DoRead
import Mathlib.Data.Finset.Basic

namespace EpollServers

open Transition Descriptors

/-! ## The kernel's side -/

/-- An entry of the array: the descriptor, whether `EPOLLIN` is among the events, and the
connection that was behind the descriptor, with none for the listener. -/
structure Event where
  fd : ℕ
  epollin : Bool
  conn : Option ℕ
  deriving DecidableEq

/-- What the log records: `EPOLL_CTL_DEL` and `close` with the connection behind the
descriptor, and an event that is handled, with the connection for which it was reported
and the one behind its descriptor now. -/
inductive Call
  | ctlDel (conn : Option ℕ)
  | close (conn : Option ℕ)
  | handle (reported conn : Option ℕ)
  deriving DecidableEq

/-- The connections behind the descriptors, the descriptors registered, the entries of the
array that have still to be gone through, and the log. -/
structure Registry where
  fds : Table ℕ
  registered : Finset ℕ
  batch : List Event
  log : List Call

/-- `EPOLL_CTL_ADD`. -/
def Registry.ctlAdd (fd : ℕ) (s : Registry) : Registry :=
  { s with registered := insert fd s.registered }

/-- `EPOLL_CTL_DEL`. -/
def Registry.ctlDel (fd : ℕ) (s : Registry) : Registry :=
  { s with
    registered := s.registered.erase fd
    log := s.log ++ [Call.ctlDel (s.fds.conn fd)] }

/-- `close`. -/
def Registry.close (fd : ℕ) (s : Registry) : Registry :=
  { s with
    fds := s.fds.close fd
    registered := s.registered.erase fd
    log := s.log ++ [Call.close (s.fds.conn fd)] }

/-- `accept` with the result `cfd`, a number that is not in use.  Both servers exit if it
is negative. -/
def Registry.accept (lfd : ℕ) (cfd : ℤ) (s : Registry) : Option Registry :=
  if 0 ≤ cfd ∧ cfd.toNat ≠ lfd ∧ s.fds.conn cfd.toNat = none then
    some { s with fds := s.fds.accept cfd.toNat }
  else none

/-! ## The loop over the events -/

/-- What a server does with the listener's event and the result of `accept`, and with a
client's event and an answer of type `α` to its read. -/
structure Handlers (α : Type*) where
  listener : ℕ → ℤ → Registry → Option Registry
  client : α → ℕ → Registry → Option Registry

/-- The steps: `epoll_wait` with the descriptors that it reports and whether `EPOLLIN` is
among their events; and the next entry of the array, with what `accept` or the read
answers. -/
inductive Label (α : Type*)
  | wait (events : List (ℕ × Bool))
  | handle (cfd : ℤ) (answer : α)

/-- `epoll_wait`, which reports registered descriptors, each of them once. -/
def Registry.wait (events : List (ℕ × Bool)) (s : Registry) : Option Registry :=
  if s.batch = [] ∧ (events.map Prod.fst).Nodup ∧ ∀ e ∈ events, e.1 ∈ s.registered then
    some { s with batch := events.map (fun e => ⟨e.1, e.2, s.fds.conn e.1⟩) }
  else none

/-- The entry is taken up. -/
def Registry.handling (e : Event) (rest : List Event) (s : Registry) : Registry :=
  { s with batch := rest, log := s.log ++ [Call.handle e.conn (s.fds.conn e.fd)] }

variable {α : Type*}

/-- The body of the loop. -/
def dispatch (H : Handlers α) (lfd : ℕ) (cfd : ℤ) (answer : α) (s : Registry) : Option Registry :=
  match s.batch with
  | [] => none
  | e :: rest =>
      if e.epollin = false then some { s with batch := rest }
      else if e.fd = lfd then H.listener lfd cfd (s.handling e rest)
      else H.client answer e.fd (s.handling e rest)

/-- One step of a server. -/
def eventLoop (H : Handlers α) (lfd : ℕ) : Label α → Registry → Option Registry
  | .wait events, s => s.wait events
  | .handle cfd answer, s => dispatch H lfd cfd answer s

/-- The listener has been registered. -/
def start (lfd : ℕ) : Registry := ⟨Table.empty, {lfd}, [], []⟩

/-! ## `http/myhttpd.c` -/

namespace Httpd

open MyHttpd

/-- `closefd`. -/
def closefd (cfd : ℕ) (s : Registry) : Registry := (s.ctlDel cfd).close cfd

/-- `do_accept`. -/
def doAccept (lfd : ℕ) (cfd : ℤ) (s : Registry) : Option Registry :=
  (s.accept lfd cfd).map (Registry.ctlAdd cfd.toNat)

/-- `do_read`, with its outcome for the descriptor. -/
def doRead (out : Outcome) (cfd : ℕ) (s : Registry) : Option Registry :=
  match out with
  | Outcome.closed => some (closefd cfd s)
  | _ => some s

/-- A call of `do_read` that returns has the outcome `closed` exactly if its first
`get_line` returned 0. -/
theorem outcome_closed_iff {σ : Type*} {K : Sock σ} {fuel : ℕ} {junk : Locals} {k k' : σ}
    {out : Outcome} (h : MyHttpd.doRead K fuel junk k = some (out, k')) :
    out = Outcome.closed ↔ (getLine K 1024 k).1.ret = 0 := by
  unfold MyHttpd.doRead at h
  split_ifs at h with hret
  · constructor
    · exact fun _ => hret
    · exact fun _ => (congrArg Prod.fst (Option.some.inj h)).symm
  · obtain ⟨k₁, -, heq⟩ := Option.map_eq_some_iff.mp h
    obtain ⟨rfl, -⟩ := Prod.mk.inj heq
    constructor
    · intro hclosed
      unfold act at hclosed
      split_ifs at hclosed
    · exact fun hzero => absurd hzero hret

/-- `epoll_run`. -/
def epollRun (lfd : ℕ) : Label Outcome → Registry → Option Registry :=
  eventLoop ⟨doAccept, doRead⟩ lfd

end Httpd

/-! ## `epoll/server.c` -/

namespace EpollServer

/-- Lines 66-74. -/
def acceptClient (lfd : ℕ) (cfd : ℤ) (s : Registry) : Option Registry :=
  (s.accept lfd cfd).map (Registry.ctlAdd cfd.toNat)

/-- Lines 77-86, with what `Read` returns; below 0 it exits. -/
def readClient (n : ℤ) (sofd : ℕ) (s : Registry) : Option Registry :=
  if n < 0 then none
  else if n = 0 then some ((s.ctlDel sofd).close sofd)
  else some s

/-- The loop of `main`. -/
def main (lfd : ℕ) : Label ℤ → Registry → Option Registry := eventLoop ⟨acceptClient, readClient⟩ lfd

end EpollServer

/-! ## The law -/

/-- The order of the calls. -/
structure LogOk (log : List Call) : Prop where
  /-- A connection is closed at most once. -/
  closed_once : ∀ k, log.count (Call.close (some k)) ≤ 1
  /-- What is closed is a connection, and it has been removed from epoll before. -/
  deleted_first : ∀ pre c post, log = pre ++ Call.close c :: post →
    ∃ k, c = some k ∧ Call.ctlDel (some k) ∈ pre
  /-- An event is handled for the connection for which it was reported. -/
  handled : ∀ reported conn, Call.handle reported conn ∈ log → conn = reported

/-- What holds between any two events. -/
structure RegistryOk (lfd : ℕ) (s : Registry) : Prop where
  /-- The listener and the accepted descriptors that are open are registered, and no others. -/
  registered : ∀ fd, fd ∈ s.registered ↔ fd = lfd ∨ s.fds.conn fd ≠ none
  log : LogOk s.log
  /-- The entries that remain are for connections that are still there. -/
  pending : ∀ e ∈ s.batch, e.fd ∈ s.registered ∧ s.fds.conn e.fd = e.conn

/-- The law, and what keeps it. -/
structure RegistryInv (lfd : ℕ) (s : Registry) : Prop extends RegistryOk lfd s where
  fds : s.fds.Ok
  listener : s.fds.conn lfd = none
  nodup : (s.batch.map Event.fd).Nodup
  gone : ∀ k, Call.close (some k) ∈ s.log → k < s.fds.count ∧ ∀ fd, s.fds.conn fd ≠ some k

/-! ## The log grows -/

/-- A call that is not a `close` may be added, if an event is handled as it should be. -/
theorem LogOk.concat {log : List Call} (h : LogOk log) {x : Call}
    (hclose : ∀ c, x ≠ Call.close c) (hhandle : ∀ r c, x = Call.handle r c → c = r) :
    LogOk (log ++ [x]) := by
  refine ⟨?_, ?_, ?_⟩
  · intro k
    rw [List.count_append, List.count_singleton, if_neg (by simpa using hclose (some k))]
    exact h.closed_once k
  · intro pre c post heq
    rcases concat_eq_append_cons heq with ⟨-, hx⟩ | ⟨post', hlog⟩
    · exact absurd hx.symm (hclose c)
    · exact h.deleted_first pre c post' hlog
  · intro r c hmem
    rcases List.mem_append.mp hmem with hmem | hmem
    · exact h.handled r c hmem
    · exact hhandle r c (List.mem_singleton.mp hmem).symm

/-- **A connection that has been removed from epoll may be closed**, once. -/
theorem LogOk.close {log : List Call} (h : LogOk log) {k : ℕ}
    (hnew : Call.close (some k) ∉ log) (hdel : Call.ctlDel (some k) ∈ log) :
    LogOk (log ++ [Call.close (some k)]) := by
  refine ⟨?_, ?_, ?_⟩
  · intro j
    rw [List.count_append, List.count_singleton]
    split_ifs with hj
    · have hjk : k = j := by simpa using hj
      rw [← hjk, List.count_eq_zero_of_not_mem hnew]
    · exact h.closed_once j
  · intro pre c post heq
    rcases concat_eq_append_cons heq with ⟨rfl, hx⟩ | ⟨post', hlog⟩
    · rw [Call.close.injEq] at hx
      exact ⟨k, hx, hdel⟩
    · exact h.deleted_first pre c post' hlog
  · intro r c hmem
    rcases List.mem_append.mp hmem with hmem | hmem
    · exact h.handled r c hmem
    · cases List.mem_singleton.mp hmem

/-! ## The handlers keep the law -/

theorem registryInv_start (lfd : ℕ) : RegistryInv lfd (start lfd) where
  registered := by
    intro fd
    rw [start, Finset.mem_singleton]
    simp [Table.empty]
  log := ⟨fun _ => Nat.zero_le _, fun pre c post h => by simp [start] at h,
    fun _ _ h => absurd h List.not_mem_nil⟩
  pending := fun _ h => absurd h List.not_mem_nil
  fds := Table.ok_empty
  listener := rfl
  nodup := List.nodup_nil
  gone := fun _ h => absurd h List.not_mem_nil

/-- A batch is a snapshot of what is registered. -/
theorem RegistryInv.wait {lfd : ℕ} {s s' : Registry} (h : RegistryInv lfd s)
    {events : List (ℕ × Bool)} (hs : s.wait events = some s') : RegistryInv lfd s' := by
  unfold Registry.wait at hs
  split_ifs at hs with hguard
  obtain ⟨-, hnodup, hreg⟩ := hguard
  rw [← Option.some.inj hs]
  refine ⟨⟨h.registered, h.log, ?_⟩, h.fds, h.listener, ?_, h.gone⟩
  · intro e he
    obtain ⟨ev, hev, rfl⟩ := List.mem_map.mp he
    exact ⟨hreg ev hev, rfl⟩
  · show ((events.map _).map Event.fd).Nodup
    rw [List.map_map]
    exact hnodup

/-- An entry is passed over. -/
theorem RegistryInv.skip {lfd : ℕ} {s : Registry} (h : RegistryInv lfd s) {e : Event}
    {rest : List Event} (hbatch : s.batch = e :: rest) :
    RegistryInv lfd { s with batch := rest } := by
  have hsub : ∀ e' ∈ rest, e' ∈ s.batch := by
    intro e' he'
    rw [hbatch]
    exact List.mem_cons_of_mem e he'
  have hnodup := h.nodup
  rw [hbatch, List.map_cons, List.nodup_cons] at hnodup
  exact ⟨⟨h.registered, h.log, fun e' he' => h.pending e' (hsub e' he')⟩, h.fds, h.listener,
    hnodup.2, h.gone⟩

/-- **An entry is taken up for the connection for which it was reported.** -/
theorem RegistryInv.handling {lfd : ℕ} {s : Registry} (h : RegistryInv lfd s) {e : Event}
    {rest : List Event} (hbatch : s.batch = e :: rest) :
    RegistryInv lfd (s.handling e rest) := by
  have hconn := (h.pending e (by rw [hbatch]; exact List.mem_cons_self)).2
  obtain ⟨⟨hreg, -, hpending⟩, hfds, hlistener, hnodup, -⟩ := h.skip hbatch
  refine ⟨⟨hreg, ?_, hpending⟩, hfds, hlistener, hnodup, ?_⟩
  · refine h.log.concat (fun c => by simp) ?_
    intro r c heq
    rw [Call.handle.injEq] at heq
    rw [← heq.1, ← heq.2, hconn]
  · intro k hmem
    rcases List.mem_append.mp hmem with hmem | hmem
    · exact h.gone k hmem
    · cases List.mem_singleton.mp hmem

/-- **A client is accepted and registered.**  Its number was not in use, so that no entry
of the batch is for it. -/
theorem RegistryInv.accept {lfd : ℕ} {s s' : Registry} (h : RegistryInv lfd s) {cfd : ℤ}
    (hs : (s.accept lfd cfd).map (Registry.ctlAdd cfd.toNat) = some s') : RegistryInv lfd s' := by
  obtain ⟨s₁, haccept, rfl⟩ := Option.map_eq_some_iff.mp hs
  unfold Registry.accept at haccept
  split_ifs at haccept with hguard
  obtain ⟨-, hlfd, hfree⟩ := hguard
  rw [← Option.some.inj haccept]
  have hnotin : cfd.toNat ∉ s.registered := by
    rw [h.registered]
    rintro (heq | hne)
    · exact hlfd heq
    · exact hne hfree
  have hother : ∀ {fd}, fd ≠ cfd.toNat → (s.fds.accept cfd.toNat).conn fd = s.fds.conn fd :=
    fun hne => s.fds.conn_accept_of_ne hne
  refine ⟨⟨?_, h.log, ?_⟩, h.fds.accept _, ?_, h.nodup, ?_⟩
  · intro fd
    show fd ∈ insert cfd.toNat s.registered ↔ fd = lfd ∨ (s.fds.accept cfd.toNat).conn fd ≠ none
    rw [Finset.mem_insert, h.registered]
    by_cases hfd : fd = cfd.toNat
    · rw [hfd, s.fds.conn_accept_self]
      simp
    · rw [hother hfd]
      simp [hfd]
  · intro e he
    obtain ⟨hreg, hconn⟩ := h.pending e he
    refine ⟨Finset.mem_insert_of_mem hreg, ?_⟩
    have hne : e.fd ≠ cfd.toNat := by
      intro heq
      exact hnotin (heq ▸ hreg)
    show (s.fds.accept cfd.toNat).conn e.fd = e.conn
    rw [hother hne, hconn]
  · show (s.fds.accept cfd.toNat).conn lfd = none
    rw [hother (Ne.symm hlfd), h.listener]
  · intro k hmem
    obtain ⟨hlt, hnone⟩ := h.gone k hmem
    refine ⟨Nat.lt_succ_of_lt hlt, ?_⟩
    intro fd hfd
    rcases Table.conn_accept_eq_some hfd with ⟨-, hk⟩ | ⟨-, hfd⟩
    · omega
    · exact hnone fd hfd

/-- **A client is removed and closed.**  No other entry of the batch is for its number. -/
theorem RegistryInv.close {lfd : ℕ} {s : Registry} (h : RegistryInv lfd s) {fd : ℕ}
    (hne : fd ≠ lfd) (hreg : fd ∈ s.registered) (hbatch : fd ∉ s.batch.map Event.fd) :
    RegistryInv lfd ((s.ctlDel fd).close fd) := by
  obtain ⟨k, hk⟩ : ∃ k, s.fds.conn fd = some k :=
    Option.ne_none_iff_exists'.mp (((h.registered fd).mp hreg).resolve_left hne)
  have hlog : ((s.ctlDel fd).close fd).log
      = s.log ++ [Call.ctlDel (some k)] ++ [Call.close (some k)] := by
    show s.log ++ [Call.ctlDel (s.fds.conn fd)] ++ [Call.close (s.fds.conn fd)] = _
    rw [hk]
  have hnew : Call.close (some k) ∉ s.log := fun hmem => (h.gone k hmem).2 fd hk
  have hother : ∀ {d}, d ≠ fd → (s.fds.close fd).conn d = s.fds.conn d :=
    fun hd => s.fds.conn_close_of_ne hd
  refine ⟨⟨?_, ?_, ?_⟩, h.fds.close fd, ?_, h.nodup, ?_⟩
  · intro d
    show d ∈ (s.registered.erase fd).erase fd ↔ d = lfd ∨ (s.fds.close fd).conn d ≠ none
    rw [Finset.erase_idem, Finset.mem_erase, h.registered]
    by_cases hd : d = fd
    · rw [hd, s.fds.conn_close_self]
      simp [hne]
    · rw [hother hd]
      simp [hd]
  · rw [hlog]
    refine LogOk.close ?_ ?_ (List.mem_append_right _ (List.mem_singleton_self _))
    · refine h.log.concat (fun c => by simp) ?_
      intro r c heq
      cases heq
    · intro hmem
      rcases List.mem_append.mp hmem with hmem | hmem
      · exact hnew hmem
      · cases List.mem_singleton.mp hmem
  · intro e he
    obtain ⟨hereg, heconn⟩ := h.pending e he
    have hefd : e.fd ≠ fd := by
      intro heq
      exact hbatch (heq ▸ List.mem_map_of_mem he)
    refine ⟨?_, ?_⟩
    · show e.fd ∈ (s.registered.erase fd).erase fd
      rw [Finset.erase_idem]
      exact Finset.mem_erase.mpr ⟨hefd, hereg⟩
    · show (s.fds.close fd).conn e.fd = e.conn
      rw [hother hefd, heconn]
  · show (s.fds.close fd).conn lfd = none
    rw [hother hne.symm, h.listener]
  · intro j hmem
    rw [hlog] at hmem
    rcases List.mem_append.mp hmem with hmem | hmem
    · rcases List.mem_append.mp hmem with hmem | hmem
      · obtain ⟨hlt, hnone⟩ := h.gone j hmem
        exact ⟨hlt, fun d hd => hnone d (Table.conn_close_eq_some hd).2⟩
      · cases List.mem_singleton.mp hmem
    · have hjk : j = k := by simpa using hmem
      rw [hjk]
      refine ⟨h.fds.lt hk, ?_⟩
      intro d hd
      obtain ⟨hdne, hd⟩ := Table.conn_close_eq_some hd
      exact hdne (h.fds.inj hd hk)

/-! ## Runs -/

/-- Handlers that keep the law, the one of a client where no other entry is for its
number. -/
structure Handlers.Keep (H : Handlers α) : Prop where
  listener : ∀ {lfd cfd s s'}, RegistryInv lfd s → H.listener lfd cfd s = some s' → RegistryInv lfd s'
  client : ∀ {lfd answer fd s s'}, RegistryInv lfd s → fd ≠ lfd → fd ∈ s.registered →
    fd ∉ s.batch.map Event.fd → H.client answer fd s = some s' → RegistryInv lfd s'

/-- One step of a server with such handlers. -/
theorem RegistryInv.step {H : Handlers α} (hH : H.Keep) {lfd : ℕ} {s s' : Registry}
    (h : RegistryInv lfd s) {a : Label α} (hs : eventLoop H lfd a s = some s') :
    RegistryInv lfd s' := by
  cases a with
  | wait events => exact h.wait hs
  | handle cfd answer =>
      change dispatch H lfd cfd answer s = some s' at hs
      unfold dispatch at hs
      rcases hbatch : s.batch with _ | ⟨e, rest⟩ <;> simp only [hbatch] at hs
      · cases hs
      · split_ifs at hs with hin hlfd
        · rw [← Option.some.inj hs]
          exact h.skip hbatch
        · exact hH.listener (h.handling hbatch) hs
        · have hreg := (h.pending e (by rw [hbatch]; exact List.mem_cons_self)).1
          have hnodup := h.nodup
          rw [hbatch, List.map_cons, List.nodup_cons] at hnodup
          exact hH.client (h.handling hbatch) hlfd hreg hnodup.1 hs

theorem registryOk_of_keep {H : Handlers α} (hH : H.Keep) {lfd : ℕ} {s : Registry}
    (h : Reachable (eventLoop H lfd) (start lfd) s) : RegistryOk lfd s := by
  have hinv : RegistryInv lfd s :=
    h.invariant (registryInv_start lfd) (fun _ _ _ hinv _ hstep => hinv.step hH hstep)
  exact hinv.toRegistryOk

theorem httpd_keep : Handlers.Keep ⟨Httpd.doAccept, Httpd.doRead⟩ where
  listener := fun h hs => h.accept hs
  client := by
    intro lfd out fd s s' h hne hreg hbatch hs
    cases out with
    | closed =>
        rw [← Option.some.inj hs]
        exact h.close hne hreg hbatch
    | ignored =>
        rw [← Option.some.inj hs]
        exact h
    | request method file =>
        rw [← Option.some.inj hs]
        exact h

theorem epollServer_keep : Handlers.Keep ⟨EpollServer.acceptClient, EpollServer.readClient⟩ where
  listener := fun h hs => h.accept hs
  client := by
    intro lfd n fd s s' h hne hreg hbatch hs
    change EpollServer.readClient n fd s = some s' at hs
    unfold EpollServer.readClient at hs
    split_ifs at hs
    · rw [← Option.some.inj hs]
      exact h.close hne hreg hbatch
    · rw [← Option.some.inj hs]
      exact h

/-- **The registry and the batch**, in every run of `epoll_run` and of `epoll/server.c`. -/
theorem registryOk_of_reachable (lfd : ℕ) :
    (∀ s, Reachable (Httpd.epollRun lfd) (start lfd) s → RegistryOk lfd s) ∧
      ∀ s, Reachable (EpollServer.main lfd) (start lfd) s → RegistryOk lfd s :=
  ⟨fun _ h => registryOk_of_keep httpd_keep h, fun _ h => registryOk_of_keep epollServer_keep h⟩

/-- Two clients come as descriptors 5 and 6.  A batch reports them and the listener: the first
one is closed, and the client that is accepted behind that gets its number. -/
def numberReused {α : Type*} (accepted closed : α) : List (Label α) :=
  [.wait [(3, true)], .handle 5 accepted, .wait [(3, true)], .handle 6 accepted,
    .wait [(5, true), (3, true), (6, true)], .handle 0 closed, .handle 5 accepted]

/-- Descriptor 5 is the third connection then, and the entry of the second one is left. -/
theorem registryOk_of_reachable_numberReused :
    (∃ s, Reachable (Httpd.epollRun 3) (start 3) s ∧
      (s.fds.conn 5 = some 2 ∧ Call.close (some 0) ∈ s.log ∧ s.batch = [⟨6, true, some 1⟩]) ∧
      RegistryOk 3 s) ∧
    ∃ s, Reachable (EpollServer.main 3) (start 3) s ∧
      (s.fds.conn 5 = some 2 ∧ Call.close (some 0) ∈ s.log ∧ s.batch = [⟨6, true, some 1⟩]) ∧
      RegistryOk 3 s := by
  constructor
  · obtain ⟨s, hreach, hs⟩ : ∃ s, Reachable (Httpd.epollRun 3) (start 3) s ∧
        (s.fds.conn 5 = some 2 ∧ Call.close (some 0) ∈ s.log ∧ s.batch = [⟨6, true, some 1⟩]) :=
      exists_reach_of_run (numberReused MyHttpd.Outcome.ignored MyHttpd.Outcome.closed)
        (by decide +kernel)
    exact ⟨s, hreach, hs, (registryOk_of_reachable 3).1 s hreach⟩
  · obtain ⟨s, hreach, hs⟩ : ∃ s, Reachable (EpollServer.main 3) (start 3) s ∧
        (s.fds.conn 5 = some 2 ∧ Call.close (some 0) ∈ s.log ∧ s.batch = [⟨6, true, some 1⟩]) :=
      exists_reach_of_run (numberReused 1 0) (by decide +kernel)
    exact ⟨s, hreach, hs, (registryOk_of_reachable 3).2 s hreach⟩

end EpollServers
