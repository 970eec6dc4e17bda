/-
# Copying what clients send to the standard output (`epoll/server.c`, `epoll_et/server2.c`)

The two programs are one loop.  Each event of a client makes it read once, remove and close
the client at the end of the file, and write what it has read to the standard output.
`epoll/server.c` reads up to 1024 bytes and registers clients with `EPOLLIN`,
`epoll_et/server2.c` reads up to 3 and registers them with `EPOLLIN | EPOLLET`.

The registry is that of `epoll/server.c` (`EpollServer.main`); here every connection has a
stream of bytes behind it, which arrives at any time, also before the connection is accepted
and between two events of a batch.  The k-th connection is the k-th that is accepted.  A
read that fails ends the program, and the messages of `printf` are left out.

* `stdout_exact`: in every run of both, the output holds what each client has sent, in order,
  but for what is unread, and no read blocks.
-/
import NetStudy.EpollRegistry
import NetStudy.Readiness
import NetStudy.Refinement

namespace StdoutServers

open Transition EpollServers Readiness

/-! ## The system -/

/-- The registry, what has arrived for each connection, and the histories: what each client
has sent, in how many arrivals, how often the server has read it, and what has been written
to the standard output, with the connection that it was read from. -/
structure State where
  reg : Registry
  source : ℕ → Source UInt8
  sent : ℕ → List UInt8
  arrivals : ℕ → ℕ
  reads : ℕ → ℕ
  out : List (ℕ × List UInt8)

/-- What has been written from the connection `k`. -/
def State.written (s : State) (k : ℕ) : List UInt8 :=
  (s.out.filter (fun e => e.1 == k)).flatMap Prod.snd

/-- The listener has been registered. -/
def start (lfd : ℕ) : State :=
  ⟨EpollServers.start lfd, fun _ => Source.empty, fun _ => [], fun _ => 0, fun _ => 0, []⟩

/-- What can happen: bytes arrive, at least one; a client hangs up; `epoll_wait`, with the
descriptors that it reports and whether `EPOLLIN` is among their events; and the next entry
of the array, with what `Accept` or `Read` returns. -/
inductive Move
  | arrive (k : ℕ) (b : UInt8) (bs : List UInt8)
  | hangUp (k : ℕ)
  | wait (events : List (ℕ × Bool))
  | handle (cfd : ℤ) (n : ℕ)

/-- Bytes arrive. -/
def State.arrive (s : State) (k : ℕ) (bytes : List UInt8) : State :=
  { s with
    source := Function.update s.source k ((s.source k).arrive bytes)
    sent := Function.update s.sent k (s.sent k ++ bytes)
    arrivals := Function.update s.arrivals k (s.arrivals k + 1) }

/-- The end of the file arrives. -/
def State.hangUp (s : State) (k : ℕ) : State :=
  { s with
    source := Function.update s.source k (s.source k).finish
    arrivals := Function.update s.arrivals k (s.arrivals k + 1) }

/-- The size of the array. -/
abbrev OPEN_MAX : ℕ := 1024

/-- Whether `epoll_wait` may report this: the listener at any time, a client with `EPOLLIN`
as its trigger says, and without it only where it cannot be read. -/
def State.mayReport (t : Trigger) (lfd : ℕ) (s : State) (e : ℕ × Bool) : Bool :=
  if e.1 = lfd then true
  else
    match s.reg.fds.conn e.1 with
    | none => false
    | some k => if e.2 then (s.source k).reportable t else !(s.source k).readable

/-- Whether the connection `k` is among those reported with `EPOLLIN`. -/
def State.reported (s : State) (events : List (ℕ × Bool)) (k : ℕ) : Bool :=
  events.any (fun e => e.2 && s.reg.fds.conn e.1 == some k)

/-- The reports of these entries have been delivered. -/
def State.delivered (s : State) (events : List (ℕ × Bool)) (k : ℕ) : Source UInt8 :=
  if s.reported events k then (s.source k).report else s.source k

/-- `epoll_wait`. -/
def State.wait (t : Trigger) (lfd : ℕ) (events : List (ℕ × Bool)) (s : State) : Option State :=
  if events ≠ [] ∧ events.length ≤ OPEN_MAX ∧ events.all (s.mayReport t lfd) = true then
    (s.reg.wait events).map (fun reg => { s with reg := reg, source := s.delivered events })
  else none

/-- `Read` and the `write` of what it has read. -/
def State.copy (s : State) (k n : ℕ) : State :=
  { s with
    source := Function.update s.source k ((s.source k).take n)
    reads := Function.update s.reads k (s.reads k + 1)
    out := s.out ++ [(k, (s.source k).unread.take n)] }

/-- What an entry of the array does to the connections: nothing without `EPOLLIN`, the
listener's registers the next one, a client's reads it. -/
def State.serve (size lfd n : ℕ) (e : Event) (s : State) : Option State :=
  if e.epollin = false then some s
  else if e.fd = lfd then
    some { s with
      source := Function.update s.source s.reg.fds.count (s.source s.reg.fds.count).register }
  else
    match s.reg.fds.conn e.fd with
    | none => none
    | some k => if (s.source k).Gives size n then some (s.copy k n) else none

/-- The next entry of the array. -/
def State.handle (size lfd : ℕ) (cfd : ℤ) (n : ℕ) (s : State) : Option State :=
  match s.reg.batch with
  | [] => none
  | e :: _ =>
      (s.serve size lfd n e).bind (fun s' =>
        (EpollServer.main lfd (.handle cfd n) s.reg).map (fun reg => { s' with reg := reg }))

/-- One step, with the trigger of the clients and the size of a read. -/
def step (t : Trigger) (size lfd : ℕ) : Move → State → Option State
  | .arrive k b bs, s => if (s.source k).ended then none else some (s.arrive k (b :: bs))
  | .hangUp k, s => if (s.source k).ended then none else some (s.hangUp k)
  | .wait events, s => s.wait t lfd events
  | .handle cfd n, s => s.handle size lfd cfd n

/-- `epoll/server.c`. -/
def levelServer (lfd : ℕ) : Move → State → Option State := step Trigger.level 1024 lfd

/-- `epoll_et/server2.c`. -/
def edgeServer (lfd : ℕ) : Move → State → Option State := step Trigger.edge 3 lfd

/-! ## What a step does -/

/-- What handling an entry does. -/
inductive State.Handled (size lfd : ℕ) (s : State) : ℕ → State → Prop
  | skip {n : ℕ} {e : Event} {rest : List Event} (hbatch : s.reg.batch = e :: rest)
      (hin : e.epollin = false) :
      Handled size lfd s n { s with reg := { s.reg with batch := rest } }
  | accept {n c : ℕ} {e : Event} {rest : List Event} (hbatch : s.reg.batch = e :: rest)
      (hfd : e.fd = lfd) (hfree : s.reg.fds.conn c = none) :
      Handled size lfd s n { s with
        reg := ({ s.reg.handling e rest with fds := s.reg.fds.accept c } : Registry).ctlAdd c
        source := Function.update s.source s.reg.fds.count
          (s.source s.reg.fds.count).register }
  | read {n k : ℕ} {e : Event} {rest : List Event} (hbatch : s.reg.batch = e :: rest)
      (hin : e.epollin = true) (hne : e.fd ≠ lfd) (hconn : s.reg.fds.conn e.fd = some k)
      (hgives : (s.source k).Gives size n) :
      Handled size lfd s n { s.copy k n with
        reg := if n = 0 then ((s.reg.handling e rest).ctlDel e.fd).close e.fd
          else s.reg.handling e rest }

/-- **An entry is handled in one of these ways.** -/
theorem handled_of_handle {size lfd n : ℕ} {cfd : ℤ} {s s' : State}
    (h : s.handle size lfd cfd n = some s') : s.Handled size lfd n s' := by
  unfold State.handle at h
  rcases hbatch : s.reg.batch with _ | ⟨e, rest⟩ <;> simp only [hbatch] at h
  · cases h
  · obtain ⟨s₁, hserve, hmain⟩ := Option.bind_eq_some_iff.mp h
    obtain ⟨reg, hreg, rfl⟩ := Option.map_eq_some_iff.mp hmain
    change dispatch _ lfd cfd (n : ℤ) s.reg = some reg at hreg
    unfold dispatch at hreg
    simp only [hbatch] at hreg
    unfold State.serve at hserve
    by_cases hin : e.epollin = false
    · rw [if_pos hin] at hserve hreg
      rw [← Option.some.inj hserve, ← Option.some.inj hreg]
      exact State.Handled.skip hbatch hin
    · rw [if_neg hin] at hserve hreg
      by_cases hfd : e.fd = lfd
      · rw [if_pos hfd] at hserve hreg
        rw [← Option.some.inj hserve]
        obtain ⟨r, haccept, rfl⟩ := Option.map_eq_some_iff.mp hreg
        unfold Registry.accept at haccept
        split_ifs at haccept with hguard
        rw [← Option.some.inj haccept]
        exact State.Handled.accept hbatch hfd hguard.2.2
      · rw [if_neg hfd] at hserve hreg
        rcases hconn : s.reg.fds.conn e.fd with _ | k <;> simp only [hconn] at hserve
        · cases hserve
        · split_ifs at hserve with hgives
          rw [← Option.some.inj hserve]
          change EpollServer.readClient n e.fd (s.reg.handling e rest) = some reg at hreg
          have hresult : reg = if n = 0 then ((s.reg.handling e rest).ctlDel e.fd).close e.fd
              else s.reg.handling e rest := by
            unfold EpollServer.readClient at hreg
            rw [if_neg (by omega)] at hreg
            by_cases hzero : n = 0
            · rw [if_pos (by omega)] at hreg
              rw [if_pos hzero]
              exact (Option.some.inj hreg).symm
            · rw [if_neg (by omega)] at hreg
              rw [if_neg hzero]
              exact (Option.some.inj hreg).symm
          rw [hresult]
          exact State.Handled.read hbatch (by simpa using hin) hfd hconn hgives

/-- What a step does. -/
inductive State.Stepped (t : Trigger) (size lfd : ℕ) (s : State) : Move → State → Prop
  | arrive {k : ℕ} {b : UInt8} {bs : List UInt8} (hopen : (s.source k).ended = false) :
      Stepped t size lfd s (.arrive k b bs) (s.arrive k (b :: bs))
  | hangUp {k : ℕ} (hopen : (s.source k).ended = false) :
      Stepped t size lfd s (.hangUp k) (s.hangUp k)
  | wait {events : List (ℕ × Bool)} (hempty : s.reg.batch = [])
      (hnodup : (events.map Prod.fst).Nodup) (hmay : ∀ ev ∈ events, s.mayReport t lfd ev = true) :
      Stepped t size lfd s (.wait events) { s with
        reg := { s.reg with batch := events.map (fun e => ⟨e.1, e.2, s.reg.fds.conn e.1⟩) }
        source := s.delivered events }
  | handle {cfd : ℤ} {n : ℕ} {s' : State} (h : s.Handled size lfd n s') :
      Stepped t size lfd s (.handle cfd n) s'

/-- **A step is one of these.** -/
theorem stepped_of_step {t : Trigger} {size lfd : ℕ} {s s' : State} {m : Move}
    (hs : step t size lfd m s = some s') : s.Stepped t size lfd m s' := by
  cases m with
  | arrive k b bs =>
      rw [step] at hs
      split_ifs at hs with hended
      rw [← Option.some.inj hs]
      exact State.Stepped.arrive (Bool.eq_false_of_not_eq_true hended)
  | hangUp k =>
      rw [step] at hs
      split_ifs at hs with hended
      rw [← Option.some.inj hs]
      exact State.Stepped.hangUp (Bool.eq_false_of_not_eq_true hended)
  | wait events =>
      rw [step, State.wait] at hs
      split_ifs at hs with hguard
      obtain ⟨reg, hwait, rfl⟩ := Option.map_eq_some_iff.mp hs
      unfold Registry.wait at hwait
      split_ifs at hwait with hready
      rw [← Option.some.inj hwait]
      exact State.Stepped.wait hready.1 hready.2.1 (List.all_eq_true.mp hguard.2.2)
  | handle cfd n => exact State.Stepped.handle (handled_of_handle hs)

/-- **The registry is that of `epoll/server.c`**: every step is one of its steps there, or
none. -/
theorem simulates_main (t : Trigger) (size lfd : ℕ) :
    Simulates (step t size lfd) (fun _ _ => True) (EpollServer.main lfd) (fun _ _ => True)
      State.reg := by
  intro s m s' _ h
  cases m with
  | arrive k b bs =>
      rw [step] at h
      split_ifs at h
      left
      rw [← Option.some.inj h]
      rfl
  | hangUp k =>
      rw [step] at h
      split_ifs at h
      left
      rw [← Option.some.inj h]
      rfl
  | wait events =>
      rw [step, State.wait] at h
      split_ifs at h
      obtain ⟨reg, hreg, rfl⟩ := Option.map_eq_some_iff.mp h
      exact Or.inr ⟨.wait events, trivial, hreg⟩
  | handle cfd n =>
      rw [step, State.handle] at h
      rcases hbatch : s.reg.batch with _ | ⟨e, rest⟩ <;> simp only [hbatch] at h
      · cases h
      · obtain ⟨s₁, -, hmain⟩ := Option.bind_eq_some_iff.mp h
        obtain ⟨reg, hreg, rfl⟩ := Option.map_eq_some_iff.mp hmain
        exact Or.inr ⟨.handle cfd n, trivial, hreg⟩

/-! ## The invariant -/

/-- What holds in every state of both servers. -/
structure StdoutInv (lfd : ℕ) (s : State) : Prop where
  reg : RegistryInv lfd s.reg
  /-- Nothing of what a client sends is lost, moved or made up. -/
  bytes : ∀ k, s.written k ++ (s.source k).unread = s.sent k
  /-- A connection is closed behind its last byte. -/
  closed : ∀ k, Call.close (some k) ∈ s.reg.log →
    (s.source k).unread = [] ∧ (s.source k).ended = true
  /-- What waits in the array can be read. -/
  pending : ∀ e ∈ s.reg.batch, e.epollin = true → ∀ k, e.conn = some k →
    (s.source k).readable = true
  /-- What has been accepted is open, or has been closed. -/
  accounted : ∀ k < s.reg.fds.count,
    (∃ fd, s.reg.fds.conn fd = some k) ∨ Call.close (some k) ∈ s.reg.log

theorem written_copy_self (s : State) (k n : ℕ) :
    (s.copy k n).written k = s.written k ++ (s.source k).unread.take n := by
  simp [State.written, State.copy]

theorem written_copy_of_ne (s : State) {j k : ℕ} (n : ℕ) (h : j ≠ k) :
    (s.copy k n).written j = s.written j := by
  simp [State.written, State.copy, h.symm]

theorem stdoutInv_start (lfd : ℕ) : StdoutInv lfd (start lfd) where
  reg := registryInv_start lfd
  bytes := fun _ => rfl
  closed := fun _ h => absurd h List.not_mem_nil
  pending := fun _ h => absurd h List.not_mem_nil
  accounted := fun _ h => absurd h (Nat.not_lt_zero _)

/-- The registry's part of the invariant, in a state that a step has led to. -/
theorem StdoutInv.reg_step {t : Trigger} {size lfd : ℕ} {s s' : State} (h : StdoutInv lfd s)
    {m : Move} (hs : step t size lfd m s = some s') : RegistryInv lfd s'.reg := by
  rcases simulates_main t size lfd s m s' trivial hs with heq | ⟨b, -, hb⟩
  · rw [heq]
    exact h.reg
  · exact h.reg.step epollServer_keep hb

/-- **Arrivals** at one connection, with the bytes that its client has sent. -/
theorem StdoutInv.setSource {lfd : ℕ} {s : State} (h : StdoutInv lfd s) {k : ℕ}
    {source : Source UInt8} {bytes : List UInt8} (arrivals : ℕ → ℕ)
    (hopen : (s.source k).ended = false)
    (hunread : source.unread = (s.source k).unread ++ bytes)
    (hreadable : (s.source k).readable = true → source.readable = true) :
    StdoutInv lfd { s with
      source := Function.update s.source k source
      sent := Function.update s.sent k (s.sent k ++ bytes)
      arrivals := arrivals } := by
  refine ⟨h.reg, ?_, ?_, ?_, h.accounted⟩
  · intro j
    have hj := h.bytes j
    show s.written j ++ (Function.update s.source k source j).unread
      = Function.update s.sent k (s.sent k ++ bytes) j
    by_cases hjk : j = k
    · subst hjk
      rw [Function.update_self, Function.update_self, hunread, ← List.append_assoc, hj]
    · rw [Function.update_of_ne hjk, Function.update_of_ne hjk, hj]
  · intro j hclose
    have hj := h.closed j hclose
    have hjk : j ≠ k := by
      rintro rfl
      rw [hopen] at hj
      exact absurd hj.2 (by decide)
    show (Function.update s.source k source j).unread = [] ∧
      (Function.update s.source k source j).ended = true
    rw [Function.update_of_ne hjk]
    exact hj
  · intro e he hin j hconn
    have hj := h.pending e he hin j hconn
    show (Function.update s.source k source j).readable = true
    by_cases hjk : j = k
    · subst hjk
      rw [Function.update_self]
      exact hreadable hj
    · rw [Function.update_of_ne hjk]
      exact hj

/-- A source that is reported keeps what it holds. -/
theorem unread_delivered (s : State) (events : List (ℕ × Bool)) (k : ℕ) :
    (s.delivered events k).unread = (s.source k).unread := by
  unfold State.delivered
  split_ifs <;> rfl

theorem ended_delivered (s : State) (events : List (ℕ × Bool)) (k : ℕ) :
    (s.delivered events k).ended = (s.source k).ended := by
  unfold State.delivered
  split_ifs <;> rfl

theorem readable_delivered (s : State) (events : List (ℕ × Bool)) (k : ℕ) :
    (s.delivered events k).readable = (s.source k).readable := by
  unfold State.delivered
  split_ifs <;> rfl

theorem State.reported_iff {s : State} {events : List (ℕ × Bool)} {k : ℕ} :
    s.reported events k = true ↔
      ∃ ev ∈ events, ev.2 = true ∧ s.reg.fds.conn ev.1 = some k := by
  unfold State.reported
  rw [List.any_eq_true]
  simp only [Bool.and_eq_true, beq_iff_eq]

/-- A client that is reported with `EPOLLIN` may be reported. -/
theorem StdoutInv.reportable {t : Trigger} {lfd k : ℕ} {s : State} (h : StdoutInv lfd s)
    {ev : ℕ × Bool} (hmay : s.mayReport t lfd ev = true) (hin : ev.2 = true)
    (hconn : s.reg.fds.conn ev.1 = some k) : (s.source k).reportable t = true := by
  -- the listener has no connection behind it
  have hne : ev.1 ≠ lfd := by
    intro heq
    rw [heq, h.reg.listener] at hconn
    cases hconn
  unfold State.mayReport at hmay
  rw [if_neg hne, hconn] at hmay
  simpa only [hin, if_true] using hmay

/-- **`epoll_wait`** puts into the array what can be read. -/
theorem StdoutInv.wait {t : Trigger} {lfd : ℕ} {s : State} (h : StdoutInv lfd s)
    {events : List (ℕ × Bool)} (hmay : ∀ ev ∈ events, s.mayReport t lfd ev = true)
    {reg : Registry}
    (hreg : reg = { s.reg with
      batch := events.map (fun e => ⟨e.1, e.2, s.reg.fds.conn e.1⟩) })
    (hinv : RegistryInv lfd reg) :
    StdoutInv lfd { s with reg := reg, source := s.delivered events } := by
  subst hreg
  refine ⟨hinv, ?_, ?_, ?_, h.accounted⟩
  · intro k
    show s.written k ++ (s.delivered events k).unread = s.sent k
    rw [unread_delivered]
    exact h.bytes k
  · intro k hclose
    show (s.delivered events k).unread = [] ∧ (s.delivered events k).ended = true
    rw [unread_delivered, ended_delivered]
    exact h.closed k hclose
  · intro e he hin k hconn
    obtain ⟨ev, hev, rfl⟩ := List.mem_map.mp he
    show (s.delivered events k).readable = true
    rw [readable_delivered]
    exact Source.readable_of_reportable (h.reportable (hmay ev hev) hin hconn)

/-- The array loses its first entry. -/
theorem StdoutInv.pending_tail {lfd : ℕ} {s : State} (h : StdoutInv lfd s) {e : Event}
    {rest : List Event} (hbatch : s.reg.batch = e :: rest) :
    ∀ e' ∈ rest, e' ∈ s.reg.batch ∧ e'.fd ≠ e.fd := by
  have hnodup := h.reg.nodup
  rw [hbatch, List.map_cons, List.nodup_cons] at hnodup
  intro e' he'
  constructor
  · rw [hbatch]
    exact List.mem_cons_of_mem e he'
  · intro heq
    exact hnodup.1 (heq ▸ List.mem_map_of_mem he')

/-- What the log says of a `close` is not changed by an event taken up. -/
theorem mem_log_handling (r : Registry) (e : Event) (rest : List Event) (k : ℕ) :
    Call.close (some k) ∈ (r.handling e rest).log ↔ Call.close (some k) ∈ r.log := by
  simp [Registry.handling]

/-- A read takes its entry from the array, -/
theorem batch_read (r : Registry) (e : Event) (rest : List Event) (n : ℕ) :
    (if n = 0 then ((r.handling e rest).ctlDel e.fd).close e.fd
      else r.handling e rest).batch = rest := by
  split_ifs <;> rfl

/-- accepts nobody, -/
theorem count_read (r : Registry) (e : Event) (rest : List Event) (n : ℕ) :
    (if n = 0 then ((r.handling e rest).ctlDel e.fd).close e.fd
      else r.handling e rest).fds.count = r.fds.count := by
  split_ifs <;> rfl

/-- and closes the connection if it returns 0. -/
theorem mem_log_read {r : Registry} {e : Event} {rest : List Event} {j k n : ℕ}
    (hconn : r.fds.conn e.fd = some k) :
    Call.close (some j) ∈ (if n = 0 then ((r.handling e rest).ctlDel e.fd).close e.fd
      else r.handling e rest).log ↔ Call.close (some j) ∈ r.log ∨ (n = 0 ∧ j = k) := by
  by_cases hn : n = 0
  · rw [if_pos hn]
    simp [Registry.handling, Registry.ctlDel, Registry.close, hconn, hn]
  · rw [if_neg hn, mem_log_handling]
    simp [hn]

/-- **A client is read**, and closed behind its last byte. -/
theorem StdoutInv.read {size lfd n k : ℕ} {s : State} (h : StdoutInv lfd s) {e : Event}
    {rest : List Event} (hbatch : s.reg.batch = e :: rest)
    (hconn : s.reg.fds.conn e.fd = some k) (hgives : (s.source k).Gives size n) {reg : Registry}
    (hreg : reg = if n = 0 then ((s.reg.handling e rest).ctlDel e.fd).close e.fd
      else s.reg.handling e rest)
    (hinv : RegistryInv lfd reg) : StdoutInv lfd { s.copy k n with reg := reg } := by
  have hother : ∀ {j}, j ≠ k → (s.copy k n).source j = s.source j :=
    fun hjk => Function.update_of_ne hjk _ _
  have hself : (s.copy k n).source k = (s.source k).take n := Function.update_self _ _ _
  have hbatch' : reg.batch = rest := hreg ▸ batch_read s.reg e rest n
  have hlog : ∀ j, Call.close (some j) ∈ reg.log ↔
      Call.close (some j) ∈ s.reg.log ∨ (n = 0 ∧ j = k) := fun j => hreg ▸ mem_log_read hconn
  refine ⟨hinv, ?_, ?_, ?_, ?_⟩
  · intro j
    show (s.copy k n).written j ++ ((s.copy k n).source j).unread = s.sent j
    rw [← h.bytes j]
    by_cases hjk : j = k
    · rw [hjk, written_copy_self, hself, Source.unread_take, List.append_assoc,
        List.take_append_drop]
    · rw [written_copy_of_ne s n hjk, hother hjk]
  · intro j hclose
    show ((s.copy k n).source j).unread = [] ∧ ((s.copy k n).source j).ended = true
    rcases (hlog j).mp hclose with hbefore | ⟨hn, rfl⟩
    · have hjk : j ≠ k := by
        rintro rfl
        exact (h.reg.gone j hbefore).2 e.fd hconn
      rw [hother hjk]
      exact h.closed j hbefore
    · -- the read has returned 0
      rcases hgives with ⟨-, hnil, hended⟩ | ⟨hpos, -, -⟩
      · rw [hself]
        exact ⟨by rw [Source.unread_take, hnil, List.drop_nil], hended⟩
      · omega
  · intro e' he' hin j hj
    change e' ∈ reg.batch at he'
    rw [hbatch'] at he'
    obtain ⟨hmem, hfd⟩ := h.pending_tail hbatch e' he'
    -- another descriptor is another connection
    have hjk : j ≠ k := by
      rintro rfl
      have hconn' := (h.reg.pending e' hmem).2
      rw [hj] at hconn'
      exact hfd (h.reg.fds.inj hconn' hconn)
    show ((s.copy k n).source j).readable = true
    rw [hother hjk]
    exact h.pending e' hmem hin j hj
  · intro j hlt
    change j < reg.fds.count at hlt
    rw [hreg, count_read] at hlt
    show (∃ fd, reg.fds.conn fd = some j) ∨ Call.close (some j) ∈ reg.log
    rw [hlog j]
    rcases h.accounted j hlt with ⟨fd, hfd⟩ | hclose
    · by_cases hn : n = 0
      · by_cases hfe : fd = e.fd
        · rw [hfe, hconn] at hfd
          exact Or.inr (Or.inr ⟨hn, (Option.some.inj hfd).symm⟩)
        · refine Or.inl ⟨fd, ?_⟩
          rw [hreg, if_pos hn]
          exact (s.reg.fds.conn_close_of_ne hfe).trans hfd
      · refine Or.inl ⟨fd, ?_⟩
        rw [hreg, if_neg hn]
        exact hfd
    · exact Or.inr (Or.inl hclose)

/-- **A client is accepted**: the next connection is open. -/
theorem StdoutInv.accept {lfd c : ℕ} {s : State} (h : StdoutInv lfd s) {e : Event}
    {rest : List Event} (hbatch : s.reg.batch = e :: rest) (hfree : s.reg.fds.conn c = none)
    {reg : Registry}
    (hreg : reg = ({ s.reg.handling e rest with fds := s.reg.fds.accept c } : Registry).ctlAdd c)
    (hinv : RegistryInv lfd reg) :
    StdoutInv lfd { s with
      reg := reg
      source := Function.update s.source s.reg.fds.count
        (s.source s.reg.fds.count).register } := by
  have hsource : ∀ j, (Function.update s.source s.reg.fds.count
        (s.source s.reg.fds.count).register j).unread = (s.source j).unread ∧
      (Function.update s.source s.reg.fds.count
        (s.source s.reg.fds.count).register j).ended = (s.source j).ended ∧
      (Function.update s.source s.reg.fds.count
        (s.source s.reg.fds.count).register j).readable = (s.source j).readable := by
    intro j
    by_cases hj : j = s.reg.fds.count
    · subst hj
      rw [Function.update_self]
      exact ⟨rfl, rfl, rfl⟩
    · rw [Function.update_of_ne hj]
      exact ⟨rfl, rfl, rfl⟩
  have hlog : ∀ {j}, Call.close (some j) ∈ reg.log ↔ Call.close (some j) ∈ s.reg.log := by
    intro j
    rw [hreg]
    exact mem_log_handling s.reg e rest j
  refine ⟨hinv, ?_, ?_, ?_, ?_⟩
  · intro j
    show s.written j ++ (Function.update s.source _ _ j).unread = s.sent j
    rw [(hsource j).1]
    exact h.bytes j
  · intro j hclose
    have hj := h.closed j (hlog.mp hclose)
    exact ⟨(hsource j).1.trans hj.1, (hsource j).2.1.trans hj.2⟩
  · intro e' he' hin j hj
    change e' ∈ reg.batch at he'
    rw [hreg] at he'
    exact (hsource j).2.2.trans (h.pending e' (h.pending_tail hbatch e' he').1 hin j hj)
  · intro j hlt
    change j < reg.fds.count at hlt
    show (∃ fd, reg.fds.conn fd = some j) ∨ Call.close (some j) ∈ reg.log
    rw [hlog]
    rw [hreg] at hlt ⊢
    change j < s.reg.fds.count + 1 at hlt
    show (∃ fd, (s.reg.fds.accept c).conn fd = some j) ∨ _
    by_cases hj : j = s.reg.fds.count
    · exact Or.inl ⟨c, by rw [hj, s.reg.fds.conn_accept_self]⟩
    · rcases h.accounted j (by omega) with ⟨fd, hfd⟩ | hclose
      · exact Or.inl ⟨fd, Descriptors.Table.conn_accept_of_some hfree hfd⟩
      · exact Or.inr hclose

/-- **Every step** keeps the invariant. -/
theorem StdoutInv.step {t : Trigger} {size lfd : ℕ} {s s' : State} (h : StdoutInv lfd s)
    {m : Move} (hs : step t size lfd m s = some s') : StdoutInv lfd s' := by
  have hreg := h.reg_step hs
  cases stepped_of_step hs with
  | arrive hopen => exact h.setSource _ hopen rfl (fun hr => Source.readable_arrive hr _)
  | @hangUp k hopen =>
      have hkeep := h.setSource (Function.update s.arrivals k (s.arrivals k + 1)) hopen
        (List.append_nil (s.source k).finish.unread).symm (fun _ => Source.readable_finish _)
      rw [List.append_nil, Function.update_eq_self] at hkeep
      exact hkeep
  | wait hempty hnodup hmay => exact h.wait hmay rfl hreg
  | handle hhandled =>
      cases hhandled with
      | skip hbatch hin =>
          exact ⟨hreg, h.bytes, h.closed,
            fun e he => h.pending e (h.pending_tail hbatch e he).1, h.accounted⟩
      | accept hbatch hfd hfree => exact h.accept hbatch hfree rfl hreg
      | read hbatch hin hne hconn hgives => exact h.read hbatch hconn hgives rfl hreg

theorem stdoutInv_of_reach {ok : State → Move → Prop} {t : Trigger} {size lfd : ℕ} {s : State}
    (h : Reach (StdoutServers.step t size lfd) ok (start lfd) s) : StdoutInv lfd s :=
  h.invariant (stdoutInv_start lfd) (fun _ _ _ hinv _ hs => hinv.step hs)

/-! ## What the output holds -/

/-- The law of both servers. -/
structure StdoutOk (next : Move → State → Option State) (lfd : ℕ) (s : State) : Prop where
  registry : RegistryOk lfd s.reg
  /-- What has been written from a client is what it has sent, but for what is unread. -/
  output : ∀ k, s.written k ++ (s.source k).unread = s.sent k
  /-- A client is closed when it has hung up and everything has been written. -/
  closed : ∀ k, Call.close (some k) ∈ s.reg.log →
    (s.source k).ended = true ∧ s.written k = s.sent k
  /-- The read of the next entry does not block. -/
  returns : ∀ e rest, s.reg.batch = e :: rest → e.epollin = true → e.fd ≠ lfd →
    ∃ n s', next (.handle 0 n) s = some s'

/-- A client whose end the server has seen. -/
theorem StdoutInv.written_of_closed {lfd : ℕ} {s : State} (h : StdoutInv lfd s) {k : ℕ}
    (hclose : Call.close (some k) ∈ s.reg.log) : s.written k = s.sent k := by
  rw [← h.bytes k, (h.closed k hclose).1, List.append_nil]

theorem StdoutInv.stdoutOk {t : Trigger} {size lfd : ℕ} (hsize : 1 ≤ size) {s : State}
    (h : StdoutInv lfd s) : StdoutOk (StdoutServers.step t size lfd) lfd s where
  registry := h.reg.toRegistryOk
  output := h.bytes
  closed := fun k hclose => ⟨(h.closed k hclose).2, h.written_of_closed hclose⟩
  returns := by
    intro e rest hbatch hin hne
    have hmem : e ∈ s.reg.batch := by
      rw [hbatch]
      exact List.mem_cons_self
    obtain ⟨hregistered, hconn⟩ := h.reg.pending e hmem
    obtain ⟨k, hk⟩ : ∃ k, s.reg.fds.conn e.fd = some k :=
      Option.ne_none_iff_exists'.mp (((h.reg.registered e.fd).mp hregistered).resolve_left hne)
    obtain ⟨n, hgives⟩ :=
      Source.exists_gives hsize (h.pending e hmem hin k (hconn.symm.trans hk))
    have hserve : s.serve size lfd n e = some (s.copy k n) := by
      unfold State.serve
      rw [if_neg (by rw [hin]; decide), if_neg hne, hk]
      exact if_pos hgives
    have hmain : ∃ reg, EpollServer.main lfd (.handle 0 n) s.reg = some reg := by
      refine Option.isSome_iff_exists.mp ?_
      show (dispatch _ lfd 0 (n : ℤ) s.reg).isSome = true
      unfold dispatch
      simp only [hbatch]
      rw [if_neg (by rw [hin]; decide), if_neg hne]
      show (EpollServer.readClient n e.fd _).isSome = true
      unfold EpollServer.readClient
      rw [if_neg (by omega)]
      split_ifs <;> rfl
    obtain ⟨reg, hreg⟩ := hmain
    refine ⟨n, { s.copy k n with reg := reg }, ?_⟩
    show s.handle size lfd 0 n = _
    unfold State.handle
    simp only [hbatch]
    rw [hserve, Option.bind_some, hreg, Option.map_some]

/-- **Both servers copy their clients to the standard output**: in every run, whatever the
sizes of the reads and the order of arrivals, nothing is lost or moved, a client is closed
behind its last byte only, and no read blocks. -/
theorem stdout_exact (lfd : ℕ) :
    (∀ s, Reachable (levelServer lfd) (start lfd) s → StdoutOk (levelServer lfd) lfd s) ∧
      ∀ s, Reachable (edgeServer lfd) (start lfd) s → StdoutOk (edgeServer lfd) lfd s :=
  ⟨fun _ h => (stdoutInv_of_reach h).stdoutOk (by decide),
    fun _ h => (stdoutInv_of_reach h).stdoutOk (by decide)⟩

/-- The listener is descriptor 3.  A client comes as descriptor 4 and sends nine bytes at once;
the server takes `n` bytes at its first read. -/
def nineBytes (n : ℕ) : List Move :=
  [.wait [(3, true)], .handle 4 0, .arrive 0 49 [50, 51, 52, 53, 54, 55, 56, 57],
    .wait [(4, true)], .handle 0 n]

/-- `epoll/server.c` writes all of it, and closes the client behind it; `epoll_et/server2.c`
has written three bytes. -/
theorem stdout_exact_nineBytes :
    (∃ s, Reachable (levelServer 3) (start 3) s ∧
      ((s.written 0).length = 9 ∧ s.reg.fds.conn 4 = none) ∧ StdoutOk (levelServer 3) 3 s) ∧
    ∃ s, Reachable (edgeServer 3) (start 3) s ∧
      (s.written 0 = [49, 50, 51] ∧ (s.source 0).unread.length = 6) ∧
        StdoutOk (edgeServer 3) 3 s := by
  constructor
  · obtain ⟨s, hreach, hs⟩ : ∃ s, Reachable (levelServer 3) (start 3) s ∧
        ((s.written 0).length = 9 ∧ s.reg.fds.conn 4 = none) :=
      exists_reach_of_run (nineBytes 9 ++ [.hangUp 0, .wait [(4, true)], .handle 0 0])
        (by decide +kernel)
    exact ⟨s, hreach, hs, (stdout_exact 3).1 s hreach⟩
  · obtain ⟨s, hreach, hs⟩ : ∃ s, Reachable (edgeServer 3) (start 3) s ∧
        (s.written 0 = [49, 50, 51] ∧ (s.source 0).unread.length = 6) :=
      exists_reach_of_run (nineBytes 3) (by decide +kernel)
    exact ⟨s, hreach, hs, (stdout_exact 3).2 s hreach⟩

/-! ## Who has been served -/

/-- Everything that the client has sent has been written, and if it has hung up it has been
closed. -/
def Served (s : State) (k : ℕ) : Prop :=
  s.written k = s.sent k ∧ ((s.source k).ended = true → Call.close (some k) ∈ s.reg.log)

instance (s : State) (k : ℕ) : Decidable (Served s k) := inferInstanceAs (Decidable (_ ∧ _))

/-- The server is about to wait, and no client that is open may be reported. -/
def Idle (t : Trigger) (s : State) : Prop :=
  s.reg.batch = [] ∧ ∀ k < s.reg.fds.count,
    Call.close (some k) ∈ s.reg.log ∨ (s.source k).reportable t = false

instance (t : Trigger) (s : State) : Decidable (Idle t s) := inferInstanceAs (Decidable (_ ∧ _))

theorem StdoutInv.served_of_closed {lfd : ℕ} {s : State} (h : StdoutInv lfd s) {k : ℕ}
    (hclose : Call.close (some k) ∈ s.reg.log) : Served s k :=
  ⟨h.written_of_closed hclose, fun _ => hclose⟩

theorem StdoutInv.served_of_drained {lfd : ℕ} {s : State} (h : StdoutInv lfd s) {k : ℕ}
    (hdrained : (s.source k).Drained) : Served s k := by
  constructor
  · rw [← h.bytes k, hdrained.1, List.append_nil]
  · intro hended
    rw [hdrained.2] at hended
    exact absurd hended (by decide)

/-- **The level-triggered server leaves nobody behind**: when it blocks, every client that
it has accepted has been served. -/
theorem level_served {lfd : ℕ} {s : State} (h : Reachable (levelServer lfd) (start lfd) s)
    (hidle : Idle Trigger.level s) : ∀ k < s.reg.fds.count, Served s k := by
  have hinv := stdoutInv_of_reach h
  intro k hk
  rcases hidle.2 k hk with hclose | hlevel
  · exact hinv.served_of_closed hclose
  · exact hinv.served_of_drained (Source.drained_of_level hlevel)

/-- The nine bytes are written in one piece, and the client is closed. -/
theorem level_served_nineBytes : ∃ s, Reachable (levelServer 3) (start 3) s ∧
    Idle Trigger.level s ∧ (s.written 0).length = 9 ∧ ∀ k < s.reg.fds.count, Served s k := by
  obtain ⟨s, hreach, hidle, hwritten⟩ : ∃ s, Reachable (levelServer 3) (start 3) s ∧
      (Idle Trigger.level s ∧ (s.written 0).length = 9) :=
    exists_reach_of_run (nineBytes 9 ++ [.hangUp 0, .wait [(4, true)], .handle 0 0])
      (by decide +kernel)
  exact ⟨s, hreach, hidle, hwritten, level_served hreach hidle⟩

end StdoutServers
