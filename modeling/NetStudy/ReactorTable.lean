/-
# The slot table of the reactor (`epoll_et/server3.c`)

The server keeps a table of `MAX_EVENTS` slots for its clients and one more for the
listener.  A slot holds a descriptor, the events it waits for, a callback and a `status`,
which is 1 while the descriptor is registered with epoll, with a pointer to the slot.
Each callback removes its slot, sets it up again for the next event, or closes the
descriptor and leaves the slot free for a client that is accepted later, perhaps in the
same batch of events.  The main loop tests an event against the events of the slot twice.

Each of the two tests, with the callback it leads to, is one step.  Its label says what
`accept`, `recv` or `send` returns, and whether `fcntl` succeeds; every call of
`epoll_ctl` succeeds.  `EPOLLERR` and `EPOLLHUP` are tested nowhere and left out.

* `SlotTableOk` is the law of the table;
* `slotTableOk_of_reach`: it holds as long as no `accept` that has failed is followed by
  an `fcntl` that succeeds;
* `twoFailedAccepts`: without a `return` behind the failed `accept`, two of them set up two
  slots for the descriptor -1.
-/
import NetStudy.Transition
import NetStudy.Descriptors

namespace Reactor

open Transition Descriptors

/-! ## The table -/

/-- `MAX_EVENTS`. -/
abbrev MAX_EVENTS : ℕ := 1024

/-- `BUFLEN`. -/
abbrev BUFLEN : ℕ := 4096

/-- The events that are tested. -/
structure Events where
  epollin : Bool
  epollout : Bool
  deriving DecidableEq

/-- `EPOLLIN`. -/
abbrev EPOLLIN : Events := ⟨true, false⟩

/-- `EPOLLOUT`. -/
abbrev EPOLLOUT : Events := ⟨false, true⟩

/-- The callbacks. -/
inductive Callback
  | acceptconn
  | recvdata
  | senddata
  deriving DecidableEq

/-- `struct myevent_s`.  `arg` points to a slot of the table. -/
structure Slot where
  fd : ℤ
  events : Events
  arg : Option ℕ
  callBack : Option Callback
  status : ℕ
  buf : List UInt8
  len : ℤ
  deriving DecidableEq

/-- An event of the batch: the slot that its pointer designates and what has happened;
and the descriptor and the connection for which it was reported, with none for the
listener. -/
structure Event where
  ptr : ℕ
  events : Events
  fd : ℤ
  conn : Option ℕ

/-- A call of a callback: the slot, and the connection behind its descriptor. -/
structure Run where
  slot : ℕ
  conn : Option ℕ

/-- `g_events`, the descriptors registered with their slots and events, the connections,
and where the main loop is: the batch, whether the first test of its head is over, and the
callbacks called for it.  The histories hold the `status` that each `eventadd` has found,
and the callbacks called for each event. -/
structure State where
  slots : ℕ → Slot
  registry : ℤ → Option (ℕ × Events)
  fds : Table ℤ
  batch : List Event
  second : Bool
  runs : List Run
  addStatus : List ℕ
  log : List (Event × List Run)

/-- What the system answers to a callback: the result of `accept`, `recv` or `send`, the
bytes that `recv` has stored, and whether `fcntl` succeeds. -/
structure Answer where
  ret : ℤ
  data : List UInt8
  fcntl : Bool

/-- `eventset`. -/
def State.eventset (s : State) (i : ℕ) (fd : ℤ) (callBack : Callback) (arg : ℕ) : State :=
  { s with
    slots := Function.update s.slots i ⟨fd, ⟨false, false⟩, some arg, some callBack, 0, [], 0⟩ }

/-- `eventadd`.  If the `status` is not 0, `op` has no value, and nothing is assumed to be
registered. -/
def State.eventadd (s : State) (events : Events) (i : ℕ) : State :=
  if (s.slots i).status = 0 then
    { s with
      slots := Function.update s.slots i { s.slots i with events := events, status := 1 }
      registry := Function.update s.registry (s.slots i).fd (some (i, events))
      addStatus := s.addStatus ++ [(s.slots i).status] }
  else
    { s with
      slots := Function.update s.slots i { s.slots i with events := events }
      addStatus := s.addStatus ++ [(s.slots i).status] }

/-- `eventdel`. -/
def State.eventdel (s : State) (i : ℕ) : State :=
  if (s.slots i).status ≠ 1 then s
  else
    { s with
      slots := Function.update s.slots i { s.slots i with status := 0 }
      registry := Function.update s.registry (s.slots i).fd none }

/-- `close(ev->fd)`. -/
def State.close (s : State) (i : ℕ) : State := { s with fds := s.fds.close (s.slots i).fd }

/-- What `recv` stores, and line 137. -/
def State.store (s : State) (i : ℕ) (a : Answer) : State :=
  { s with slots := Function.update s.slots i { s.slots i with buf := a.data, len := a.ret } }

/-! ## The callbacks -/

/-- `recvdata`. -/
def State.recvdata (s : State) (fd : ℤ) (ev : ℕ) (a : Answer) : Option State :=
  if -1 ≤ a.ret ∧ a.ret ≤ BUFLEN ∧ a.data.length = a.ret.toNat then
    if 0 < a.ret then
      some ((((s.eventdel ev).store ev a).eventset ev fd Callback.senddata ev).eventadd EPOLLOUT ev)
    else some ((s.eventdel ev).close ev)
  else none

/-- `senddata`. -/
def State.senddata (s : State) (fd : ℤ) (ev : ℕ) (a : Answer) : Option State :=
  if -1 ≤ a.ret ∧ a.ret ≤ (s.slots ev).len then
    if 0 < a.ret then
      some (((s.eventdel ev).eventset ev fd Callback.recvdata ev).eventadd EPOLLIN ev)
    else some ((s.eventdel ev).close ev)
  else none

/-- The search of lines 200-206. -/
def State.freeSlot (s : State) : Option ℕ :=
  (List.range MAX_EVENTS).find? (fun i => decide ((s.slots i).status = 0))

/-- A connection that `accept` has returned; -1 is none. -/
def State.accepted (s : State) (cfd : ℤ) : State :=
  if cfd = -1 then s else { s with fds := s.fds.accept cfd }

/-- Lines 197-224. -/
def State.register (s : State) (a : Answer) : State :=
  match s.freeSlot with
  | none => s
  | some i =>
      if a.fcntl then (s.eventset i a.ret Callback.recvdata i).eventadd EPOLLIN i else s

/-- `acceptconn`.  `accept` returns -1 or a number that is not in use; after -1 the
function goes on. -/
def State.acceptconn (s : State) (lfd : ℤ) (a : Answer) : Option State :=
  if a.ret = -1 ∨ (0 ≤ a.ret ∧ a.ret ≠ lfd ∧ s.fds.conn a.ret = none) then
    some ((s.accepted a.ret).register a)
  else none

/-- `ev->call_back(ev->fd, events[i].events, ev->arg)`. -/
def State.call (s : State) (ev : ℕ) (a : Answer) : Option State :=
  match (s.slots ev).callBack, (s.slots ev).arg with
  | some Callback.acceptconn, _ => s.acceptconn (s.slots ev).fd a
  | some Callback.recvdata, some arg => s.recvdata (s.slots ev).fd arg a
  | some Callback.senddata, some arg => s.senddata (s.slots ev).fd arg a
  | _, _ => none

/-! ## The main loop -/

/-- The callback of a slot is called, and the call is noted. -/
def State.fire (s : State) (ev : ℕ) (a : Answer) : Option State :=
  (s.call ev a).map (fun s' => { s' with runs := s.runs ++ [⟨ev, s.fds.conn (s.slots ev).fd⟩] })

/-- The steps: `epoll_wait` with the descriptors it reports and their events, and the two
tests of lines 59 and 64. -/
inductive Label
  | wait (events : List (ℤ × Events))
  | testIn (a : Answer)
  | testOut (a : Answer)

/-- Whether `epoll_wait` may report this: bits of the interest of a registered
descriptor. -/
def State.reportable (s : State) (e : ℤ × Events) : Bool :=
  match s.registry e.1 with
  | none => false
  | some (_, m) => (!e.2.epollin || m.epollin) && (!e.2.epollout || m.epollout)

/-- `epoll_wait`. -/
def State.wait (s : State) (events : List (ℤ × Events)) : Option State :=
  if s.batch = [] ∧ (events.map Prod.fst).Nodup ∧ events.all s.reportable = true then
    some { s with
      batch := events.map
        (fun e => ⟨((s.registry e.1).map Prod.fst).getD 0, e.2, e.1, s.fds.conn e.1⟩) }
  else none

/-- The test of line 59. -/
def State.testIn (s : State) (a : Answer) : Option State :=
  match s.batch, s.second with
  | e :: _, false =>
      if e.events.epollin && (s.slots e.ptr).events.epollin then
        (s.fire e.ptr a).map (fun s' => { s' with second := true })
      else some { s with second := true }
  | _, _ => none

/-- The loop goes on to the next event. -/
def State.next (s : State) (e : Event) (rest : List Event) : State :=
  { s with batch := rest, second := false, runs := [], log := s.log ++ [(e, s.runs)] }

/-- The test of line 64, and the end of the turn. -/
def State.testOut (s : State) (a : Answer) : Option State :=
  match s.batch, s.second with
  | e :: rest, true =>
      if e.events.epollout && (s.slots e.ptr).events.epollout then
        (s.fire e.ptr a).map (fun s' => s'.next e rest)
      else some (s.next e rest)
  | _, _ => none

/-- One step. -/
def step : Label → State → Option State
  | .wait events, s => s.wait events
  | .testIn a, s => s.testIn a
  | .testOut a, s => s.testOut a

/-- The table, which starts as zeros. -/
def zeros : State :=
  ⟨fun _ => ⟨0, ⟨false, false⟩, none, none, 0, [], 0⟩, fun _ => none, Table.empty, [], false, [],
    [], []⟩

/-- Behind `initlistensocket`. -/
def start (lfd : ℕ) : State :=
  (zeros.eventset MAX_EVENTS lfd Callback.acceptconn MAX_EVENTS).eventadd EPOLLIN MAX_EVENTS

/-! ## The law -/

/-- The callbacks called for an event: one at most, on its slot and for its connection. -/
def CalledFor (e : Event) (runs : List Run) : Prop :=
  runs.length ≤ 1 ∧ ∀ r ∈ runs, r.slot = e.ptr ∧ r.conn = e.conn

/-- The slot waits for these events, and is registered for them under its descriptor. -/
def State.Registered (s : State) (i : ℕ) (m : Events) : Prop :=
  (s.slots i).events = m ∧ s.registry (s.slots i).fd = some (i, m)

/-- What holds between any two callbacks. -/
structure SlotTableOk (lfd : ℕ) (s : State) : Prop where
  /-- The status is 1 exactly while the descriptor is registered with this slot. -/
  status : ∀ i ≤ MAX_EVENTS,
    (s.slots i).status = 1 ↔ ∃ m, s.registry (s.slots i).fd = some (i, m)
  /-- Slots in use hold different descriptors. -/
  distinct : ∀ i ≤ MAX_EVENTS, ∀ j ≤ MAX_EVENTS, (s.slots i).status = 1 →
    (s.slots j).status = 1 → (s.slots i).fd = (s.slots j).fd → i = j
  /-- The last slot is the listener's. -/
  listener : (s.slots MAX_EVENTS).fd = lfd ∧
    (s.slots MAX_EVENTS).callBack = some Callback.acceptconn ∧
    (s.slots MAX_EVENTS).status = 1 ∧ s.Registered MAX_EVENTS EPOLLIN
  /-- The others wait to receive or to send. -/
  clients : ∀ i < MAX_EVENTS, (s.slots i).status = 1 →
    (s.Registered i EPOLLIN ∧ (s.slots i).callBack = some Callback.recvdata) ∨
      (s.Registered i EPOLLOUT ∧ (s.slots i).callBack = some Callback.senddata)
  /-- `eventadd` has only ever found the status 0. -/
  added : ∀ status ∈ s.addStatus, status = 0
  /-- Each event has called one callback at most, on its slot and for its connection. -/
  called : ∀ x ∈ s.log, CalledFor x.1 x.2
  /-- And so has the event in turn, so far. -/
  calling : ∀ e ∈ s.batch.head?, CalledFor e s.runs

/-- The condition on a step: where `acceptconn` is called, `accept` does not fail, or
`fcntl` refuses the descriptor -1. -/
def AcceptOrRefuse (s : State) : Label → Prop
  | .wait _ => True
  | .testIn a | .testOut a =>
      ∀ e ∈ s.batch.head?, (s.slots e.ptr).callBack = some Callback.acceptconn →
        a.ret ≠ -1 ∨ a.fcntl = false

/-- Every `fcntl` succeeds. -/
def FcntlSucceeds : Label → Bool
  | .wait _ => true
  | .testIn a | .testOut a => a.fcntl

/-- Two failed calls of `accept` leave two slots with the descriptor -1, although every
`fcntl` and `epoll_ctl` has succeeded. -/
theorem twoFailedAccepts :
    ∃ s, Reach step (fun _ a => FcntlSucceeds a = true) (start 3) s ∧ ¬ SlotTableOk 3 s := by
  obtain ⟨s, hreach, h0, h1, hfd⟩ : ∃ s,
      Reach step (fun _ a => FcntlSucceeds a = true) (start 3) s ∧
        (s.slots 0).status = 1 ∧ (s.slots 1).status = 1 ∧ (s.slots 0).fd = (s.slots 1).fd :=
    exists_reach_of_run
      [.wait [(3, EPOLLIN)], .testIn ⟨-1, [], true⟩, .testOut ⟨0, [], true⟩,
        .wait [(3, EPOLLIN)], .testIn ⟨-1, [], true⟩] (by decide +kernel)
  refine ⟨s, hreach, ?_⟩
  intro hok
  exact absurd (hok.distinct 0 (by decide) 1 (by decide) h0 h1 hfd) (by decide)

/-! ## The table under the operations -/

/-- The events and the callback of a client's slot in use. -/
def ClientSlot (l : Slot) : Prop :=
  (l.events = EPOLLIN ∧ l.callBack = some Callback.recvdata) ∨
    (l.events = EPOLLOUT ∧ l.callBack = some Callback.senddata)

/-- The slot of the listener. -/
def ListenerSlot (lfd : ℕ) (l : Slot) : Prop :=
  l.fd = lfd ∧ l.callBack = some Callback.acceptconn ∧ l.status = 1 ∧ l.events = EPOLLIN

/-- The table, the registrations and the connections, without the batch. -/
structure TableInv (lfd : ℕ) (s : State) : Prop where
  binary : ∀ i ≤ MAX_EVENTS, (s.slots i).status = 0 ∨ (s.slots i).status = 1
  live : ∀ i ≤ MAX_EVENTS, (s.slots i).status = 1 →
    s.registry (s.slots i).fd = some (i, (s.slots i).events)
  owner : ∀ fd i m, s.registry fd = some (i, m) →
    i ≤ MAX_EVENTS ∧ (s.slots i).status = 1 ∧ (s.slots i).fd = fd ∧ (s.slots i).events = m
  arg : ∀ i < MAX_EVENTS, (s.slots i).status = 1 → (s.slots i).arg = some i
  client : ∀ i < MAX_EVENTS, (s.slots i).status = 1 → ClientSlot (s.slots i)
  opened : ∀ i < MAX_EVENTS, (s.slots i).status = 1 → s.fds.conn (s.slots i).fd ≠ none
  listener : ListenerSlot lfd (s.slots MAX_EVENTS)
  noConn : s.fds.conn lfd = none
  added : ∀ status ∈ s.addStatus, status = 0

theorem tableInv_start (lfd : ℕ) : TableInv lfd (start lfd) := by
  have hslot : ∀ i, (start lfd).slots i = if i = MAX_EVENTS then
      ⟨lfd, EPOLLIN, some MAX_EVENTS, some Callback.acceptconn, 1, [], 0⟩
      else ⟨0, ⟨false, false⟩, none, none, 0, [], 0⟩ := by
    intro i
    by_cases hi : i = MAX_EVENTS
    · rw [if_pos hi, hi]
      rfl
    · rw [if_neg hi]
      simp [start, zeros, State.eventset, State.eventadd, hi]
  have hreg : ∀ fd, (start lfd).registry fd = if fd = (lfd : ℤ) then
      some (MAX_EVENTS, EPOLLIN) else none := by
    intro fd
    by_cases hfd : fd = (lfd : ℤ)
    · simp [start, zeros, State.eventset, State.eventadd, hfd]
    · simp [start, zeros, State.eventset, State.eventadd, hfd]
  have hlisten : (start lfd).slots MAX_EVENTS
      = ⟨lfd, EPOLLIN, some MAX_EVENTS, some Callback.acceptconn, 1, [], 0⟩ := by
    rw [hslot, if_pos rfl]
  have hfree : ∀ i, i ≠ MAX_EVENTS → ((start lfd).slots i).status = 0 := by
    intro i hi
    rw [hslot, if_neg hi]
  refine ⟨?_, ?_, ?_, ?_, ?_, ?_, ?_, ?_, ?_⟩
  · intro i _
    by_cases hi : i = MAX_EVENTS
    · right
      rw [hi, hlisten]
    · exact Or.inl (hfree i hi)
  · intro i _ hstatus
    by_cases hi : i = MAX_EVENTS
    · rw [hi, hlisten, hreg, if_pos rfl]
    · rw [hfree i hi] at hstatus
      cases hstatus
  · intro fd i m hfd
    rw [hreg] at hfd
    split_ifs at hfd with heq
    rw [Option.some.injEq, Prod.mk.injEq] at hfd
    rw [← hfd.1, ← hfd.2, hlisten]
    exact ⟨le_rfl, rfl, heq.symm, rfl⟩
  · intro i hi hstatus
    rw [hfree i hi.ne] at hstatus
    cases hstatus
  · intro i hi hstatus
    rw [hfree i hi.ne] at hstatus
    cases hstatus
  · intro i hi hstatus
    rw [hfree i hi.ne] at hstatus
    cases hstatus
  · rw [hlisten]
    exact ⟨rfl, rfl, rfl, rfl⟩
  · rfl
  · intro status hmem
    exact List.mem_singleton.mp hmem

/-- What the invariant says of the slot `i` with the content `l`. -/
structure SlotInv (registry : ℤ → Option (ℕ × Events)) (fds : Table ℤ) (i : ℕ) (l : Slot) :
    Prop where
  binary : l.status = 0 ∨ l.status = 1
  live : l.status = 1 → registry l.fd = some (i, l.events)
  client : i < MAX_EVENTS → l.status = 1 →
    l.arg = some i ∧ ClientSlot l ∧ fds.conn l.fd ≠ none

theorem TableInv.slot {lfd : ℕ} {s : State} (h : TableInv lfd s) {i : ℕ} (hi : i ≤ MAX_EVENTS) :
    SlotInv s.registry s.fds i (s.slots i) :=
  ⟨h.binary i hi, h.live i hi,
    fun hlt hstatus => ⟨h.arg i hlt hstatus, h.client i hlt hstatus, h.opened i hlt hstatus⟩⟩

/-- The invariant from the slots, the registrations and the listener. -/
theorem TableInv.of_slots {lfd : ℕ} {s : State}
    (hslot : ∀ i ≤ MAX_EVENTS, SlotInv s.registry s.fds i (s.slots i))
    (howner : ∀ fd i m, s.registry fd = some (i, m) →
      i ≤ MAX_EVENTS ∧ (s.slots i).status = 1 ∧ (s.slots i).fd = fd ∧ (s.slots i).events = m)
    (hlistener : ListenerSlot lfd (s.slots MAX_EVENTS)) (hconn : s.fds.conn lfd = none)
    (hadded : ∀ status ∈ s.addStatus, status = 0) : TableInv lfd s where
  binary := fun i hi => (hslot i hi).binary
  live := fun i hi => (hslot i hi).live
  owner := howner
  arg := fun i hi hstatus => ((hslot i hi.le).client hi hstatus).1
  client := fun i hi hstatus => ((hslot i hi.le).client hi hstatus).2.1
  opened := fun i hi hstatus => ((hslot i hi.le).client hi hstatus).2.2
  listener := hlistener
  noConn := hconn
  added := hadded

/-- Nothing is asked of a slot that is not in use. -/
theorem SlotInv.free {registry : ℤ → Option (ℕ × Events)} {fds : Table ℤ} {i : ℕ} {l : Slot}
    (h : l.status = 0) : SlotInv registry fds i l := by
  have hnot : l.status ≠ 1 := by
    rw [h]
    decide
  exact ⟨Or.inl h, fun hstatus => absurd hstatus hnot, fun _ hstatus => absurd hstatus hnot⟩

/-- A slot does not see what happens to other descriptors. -/
theorem SlotInv.frame {registry registry' : ℤ → Option (ℕ × Events)} {fds fds' : Table ℤ} {i : ℕ}
    {l : Slot} (h : SlotInv registry fds i l)
    (hreg : l.status = 1 → registry' l.fd = registry l.fd)
    (hconn : l.status = 1 → fds.conn l.fd ≠ none → fds'.conn l.fd ≠ none) :
    SlotInv registry' fds' i l := by
  refine ⟨h.binary, ?_, ?_⟩
  · intro hstatus
    rw [hreg hstatus]
    exact h.live hstatus
  · intro hi hstatus
    obtain ⟨harg, hclient, hopen⟩ := h.client hi hstatus
    exact ⟨harg, hclient, hconn hstatus hopen⟩

/-- Slots in use hold different descriptors. -/
theorem TableInv.fd_ne {lfd : ℕ} {s : State} (h : TableInv lfd s) {i j : ℕ} (hi : i ≤ MAX_EVENTS)
    (hj : j ≤ MAX_EVENTS) (hsi : (s.slots i).status = 1) (hsj : (s.slots j).status = 1)
    (hji : j ≠ i) : (s.slots j).fd ≠ (s.slots i).fd := by
  intro heq
  have hlive := h.live j hj hsj
  rw [heq, h.live i hi hsi, Option.some.injEq, Prod.mk.injEq] at hlive
  exact hji hlive.1.symm

/-- No slot in use holds a descriptor that is not registered. -/
theorem TableInv.fd_ne_of_none {lfd : ℕ} {s : State} (h : TableInv lfd s) {fd : ℤ}
    (hreg : s.registry fd = none) {j : ℕ} (hj : j ≤ MAX_EVENTS) (hsj : (s.slots j).status = 1) :
    (s.slots j).fd ≠ fd := by
  intro heq
  have hlive := h.live j hj hsj
  rw [heq, hreg] at hlive
  cases hlive

/-- A free slot may hold anything, as long as it stays free. -/
theorem TableInv.setFree {lfd : ℕ} {s : State} (h : TableInv lfd s) {i : ℕ} {l : Slot}
    (hfree : (s.slots i).status = 0) (hl : l.status = 0) :
    TableInv lfd { s with slots := Function.update s.slots i l } := by
  have hother : ∀ {j}, (s.slots j).status = 1 → Function.update s.slots i l j = s.slots j := by
    intro j hj
    apply Function.update_of_ne
    rintro rfl
    rw [hfree] at hj
    cases hj
  apply TableInv.of_slots
  · intro j hj
    show SlotInv s.registry s.fds j (Function.update s.slots i l j)
    by_cases hji : j = i
    · rw [hji, Function.update_self]
      exact SlotInv.free hl
    · rw [Function.update_of_ne hji]
      exact h.slot hj
  · intro fd j m hfd
    have howner := h.owner fd j m hfd
    show j ≤ MAX_EVENTS ∧ (Function.update s.slots i l j).status = 1 ∧
      (Function.update s.slots i l j).fd = fd ∧ (Function.update s.slots i l j).events = m
    rw [hother howner.2.1]
    exact howner
  · show ListenerSlot lfd (Function.update s.slots i l MAX_EVENTS)
    rw [hother h.listener.2.2.1]
    exact h.listener
  · exact h.noConn
  · exact h.added

/-- **`eventdel` frees a client's slot** and takes its descriptor out of epoll. -/
theorem TableInv.eventdel {lfd : ℕ} {s : State} (h : TableInv lfd s) {i : ℕ} (hi : i < MAX_EVENTS)
    (hstatus : (s.slots i).status = 1) : TableInv lfd (s.eventdel i) := by
  rw [State.eventdel, if_neg (not_not.mpr hstatus)]
  have hother : ∀ {j}, j ≠ i →
      Function.update s.slots i { s.slots i with status := 0 } j = s.slots j :=
    fun hj => Function.update_of_ne hj _ _
  apply TableInv.of_slots
  · intro j hj
    show SlotInv (Function.update s.registry (s.slots i).fd none) s.fds j
      (Function.update s.slots i _ j)
    by_cases hji : j = i
    · rw [hji, Function.update_self]
      exact SlotInv.free rfl
    · rw [hother hji]
      refine (h.slot hj).frame ?_ (fun _ hopen => hopen)
      intro hstatus'
      apply Function.update_of_ne
      exact h.fd_ne hi.le hj hstatus hstatus' hji
  · intro fd j m hreg
    change Function.update s.registry (s.slots i).fd none fd = some (j, m) at hreg
    by_cases hfdi : fd = (s.slots i).fd
    · rw [hfdi, Function.update_self] at hreg
      cases hreg
    · rw [Function.update_of_ne hfdi] at hreg
      have howner := h.owner fd j m hreg
      have hji : j ≠ i := by
        rintro rfl
        exact hfdi howner.2.2.1.symm
      show j ≤ MAX_EVENTS ∧ (Function.update s.slots i _ j).status = 1 ∧
        (Function.update s.slots i _ j).fd = fd ∧ (Function.update s.slots i _ j).events = m
      rw [hother hji]
      exact howner
  · show ListenerSlot lfd (Function.update s.slots i _ MAX_EVENTS)
    rw [hother hi.ne']
    exact h.listener
  · exact h.noConn
  · exact h.added

/-- **`eventadd` puts a free slot into use** for a connection that is not registered. -/
theorem TableInv.eventadd {lfd : ℕ} {s : State} (h : TableInv lfd s) {i : ℕ} {m : Events}
    (hi : i < MAX_EVENTS) (hfree : (s.slots i).status = 0) (harg : (s.slots i).arg = some i)
    (hreg : s.registry (s.slots i).fd = none) (hconn : s.fds.conn (s.slots i).fd ≠ none)
    (hclient : ClientSlot { s.slots i with events := m }) : TableInv lfd (s.eventadd m i) := by
  rw [State.eventadd, if_pos hfree]
  have hself : Function.update s.slots i { s.slots i with events := m, status := 1 } i
      = { s.slots i with events := m, status := 1 } := Function.update_self _ _ _
  have hother : ∀ {j}, j ≠ i →
      Function.update s.slots i { s.slots i with events := m, status := 1 } j = s.slots j :=
    fun hj => Function.update_of_ne hj _ _
  apply TableInv.of_slots
  · intro j hj
    show SlotInv (Function.update s.registry (s.slots i).fd (some (i, m))) s.fds j
      (Function.update s.slots i _ j)
    by_cases hji : j = i
    · rw [hji, hself]
      refine ⟨Or.inr rfl, ?_, fun _ _ => ⟨harg, hclient, hconn⟩⟩
      exact fun _ => Function.update_self _ _ _
    · rw [hother hji]
      refine (h.slot hj).frame ?_ (fun _ hopen => hopen)
      intro hstatus
      apply Function.update_of_ne
      exact h.fd_ne_of_none hreg hj hstatus
  · intro fd j m' hreg'
    change Function.update s.registry (s.slots i).fd (some (i, m)) fd = some (j, m') at hreg'
    show j ≤ MAX_EVENTS ∧ (Function.update s.slots i _ j).status = 1 ∧
      (Function.update s.slots i _ j).fd = fd ∧ (Function.update s.slots i _ j).events = m'
    by_cases hfdi : fd = (s.slots i).fd
    · rw [hfdi, Function.update_self, Option.some.injEq, Prod.mk.injEq] at hreg'
      rw [← hreg'.1, ← hreg'.2, hself]
      exact ⟨hi.le, rfl, hfdi.symm, rfl⟩
    · rw [Function.update_of_ne hfdi] at hreg'
      have howner := h.owner fd j m' hreg'
      have hji : j ≠ i := by
        rintro rfl
        exact hfdi howner.2.2.1.symm
      rw [hother hji]
      exact howner
  · show ListenerSlot lfd (Function.update s.slots i _ MAX_EVENTS)
    rw [hother hi.ne']
    exact h.listener
  · exact h.noConn
  · intro status hmem
    rcases List.mem_append.mp hmem with hmem | hmem
    · exact h.added status hmem
    · rw [List.mem_singleton.mp hmem, hfree]

/-- A descriptor that is not registered may be closed. -/
theorem TableInv.close {lfd : ℕ} {s : State} (h : TableInv lfd s) {i : ℕ}
    (hreg : s.registry (s.slots i).fd = none) (hne : (s.slots i).fd ≠ lfd) :
    TableInv lfd (s.close i) := by
  apply TableInv.of_slots
  · intro j hj
    refine (h.slot hj).frame (fun _ => rfl) ?_
    intro hstatus hopen
    show (s.fds.close (s.slots i).fd).conn (s.slots j).fd ≠ none
    rw [s.fds.conn_close_of_ne (h.fd_ne_of_none hreg hj hstatus)]
    exact hopen
  · exact h.owner
  · exact h.listener
  · show (s.fds.close (s.slots i).fd).conn lfd = none
    rw [s.fds.conn_close_of_ne hne.symm, h.noConn]
  · exact h.added

/-- A number with no connection behind it is not registered, unless it is the
listener's. -/
theorem TableInv.not_registered {lfd : ℕ} {s : State} (h : TableInv lfd s) {fd : ℤ}
    (hne : fd ≠ lfd) (hconn : s.fds.conn fd = none) : s.registry fd = none := by
  by_contra hreg
  obtain ⟨⟨i, m⟩, hreg⟩ := Option.ne_none_iff_exists'.mp hreg
  obtain ⟨hi, hstatus, hfd, -⟩ := h.owner fd i m hreg
  rcases hi.lt_or_eq with hi | rfl
  · exact h.opened i hi hstatus (by rw [hfd, hconn])
  · rw [h.listener.1] at hfd
    exact hne hfd.symm

/-- A new connection gets a number. -/
theorem TableInv.accepted {lfd : ℕ} {s : State} (h : TableInv lfd s) {cfd : ℤ} (hne : cfd ≠ lfd) :
    TableInv lfd { s with fds := s.fds.accept cfd } := by
  apply TableInv.of_slots
  · intro j hj
    refine (h.slot hj).frame (fun _ => rfl) ?_
    intro _ hopen
    show (s.fds.accept cfd).conn (s.slots j).fd ≠ none
    by_cases hfd : (s.slots j).fd = cfd
    · rw [hfd, s.fds.conn_accept_self]
      exact Option.some_ne_none _
    · rw [s.fds.conn_accept_of_ne hfd]
      exact hopen
  · exact h.owner
  · exact h.listener
  · show (s.fds.accept cfd).conn lfd = none
    rw [s.fds.conn_accept_of_ne hne.symm, h.noConn]
  · exact h.added

/-! ## The callbacks keep the table -/

/-- What a callback for the descriptor `fd` leaves alone: the other registered
descriptors, and where the main loop is. -/
structure Spares (s s' : State) (fd : ℤ) : Prop where
  registry : ∀ d, d ≠ fd → s.registry d ≠ none → s'.registry d = s.registry d
  conn : ∀ d, d ≠ fd → s.registry d ≠ none → s'.fds.conn d = s.fds.conn d
  batch : s'.batch = s.batch
  second : s'.second = s.second
  runs : s'.runs = s.runs
  log : s'.log = s.log

theorem Spares.refl (s : State) (fd : ℤ) : Spares s s fd :=
  ⟨fun _ _ _ => rfl, fun _ _ _ => rfl, rfl, rfl, rfl, rfl⟩

theorem Spares.trans {s s' s'' : State} {fd : ℤ} (h : Spares s s' fd) (h' : Spares s' s'' fd) :
    Spares s s'' fd := by
  refine ⟨?_, ?_, h'.batch.trans h.batch, h'.second.trans h.second, h'.runs.trans h.runs,
    h'.log.trans h.log⟩
  · intro d hd hreg
    rw [h'.registry d hd (by rwa [h.registry d hd hreg]), h.registry d hd hreg]
  · intro d hd hreg
    rw [h'.conn d hd (by rwa [h.registry d hd hreg]), h.conn d hd hreg]

/-- What is stored in a slot does not outlive `eventset`. -/
theorem store_eventset (s : State) (i : ℕ) (a : Answer) (fd : ℤ) (callBack : Callback) (arg : ℕ) :
    (s.store i a).eventset i fd callBack arg = s.eventset i fd callBack arg := by
  unfold State.eventset State.store
  rw [Function.update_idem]

/-- `eventdel` on a slot in use. -/
theorem eventdel_eq {s : State} {i : ℕ} (h : (s.slots i).status = 1) :
    s.eventdel i = { s with
      slots := Function.update s.slots i { s.slots i with status := 0 }
      registry := Function.update s.registry (s.slots i).fd none } := by
  rw [State.eventdel, if_neg (not_not.mpr h)]

/-- **A slot is set up for its next event**: it is removed, reset and added again. -/
theorem TableInv.rearm {lfd : ℕ} {s : State} (h : TableInv lfd s) {i : ℕ} {m : Events}
    {callBack : Callback} (hi : i < MAX_EVENTS) (hstatus : (s.slots i).status = 1)
    (hclient : (m = EPOLLIN ∧ callBack = Callback.recvdata) ∨
      (m = EPOLLOUT ∧ callBack = Callback.senddata)) :
    TableInv lfd (((s.eventdel i).eventset i (s.slots i).fd callBack i).eventadd m i) ∧
      Spares s (((s.eventdel i).eventset i (s.slots i).fd callBack i).eventadd m i)
        (s.slots i).fd := by
  have hfree : ((s.eventdel i).slots i).status = 0 := by
    rw [eventdel_eq hstatus]
    show (Function.update s.slots i _ i).status = 0
    rw [Function.update_self]
  have hslot : ((s.eventdel i).eventset i (s.slots i).fd callBack i).slots i
      = ⟨(s.slots i).fd, ⟨false, false⟩, some i, some callBack, 0, [], 0⟩ :=
    Function.update_self _ _ _
  have hreg : ∀ d, ((s.eventdel i).eventset i (s.slots i).fd callBack i).registry d
      = Function.update s.registry (s.slots i).fd none d := by
    intro d
    rw [eventdel_eq hstatus]
    rfl
  have hfds : ((s.eventdel i).eventset i (s.slots i).fd callBack i).fds = s.fds := by
    rw [eventdel_eq hstatus]
    rfl
  constructor
  · have hset : TableInv lfd ((s.eventdel i).eventset i (s.slots i).fd callBack i) :=
      (h.eventdel hi hstatus).setFree hfree rfl
    refine hset.eventadd hi (by rw [hslot]) (by rw [hslot]) ?_ ?_ ?_
    · rw [hslot, hreg, Function.update_self]
    · rw [hslot, hfds]
      exact h.opened i hi hstatus
    · rw [hslot]
      rcases hclient with ⟨hm, hcb⟩ | ⟨hm, hcb⟩
      · exact Or.inl ⟨hm, congrArg some hcb⟩
      · exact Or.inr ⟨hm, congrArg some hcb⟩
  · rw [State.eventadd, if_pos (by rw [hslot])]
    refine ⟨?_, ?_, ?_, ?_, ?_, ?_⟩
    · intro d hd _
      show Function.update ((s.eventdel i).eventset i (s.slots i).fd callBack i).registry
        (((s.eventdel i).eventset i (s.slots i).fd callBack i).slots i).fd (some (i, m)) d = _
      rw [hslot, Function.update_of_ne hd, hreg, Function.update_of_ne hd]
    · intro d _ _
      show ((s.eventdel i).eventset i (s.slots i).fd callBack i).fds.conn d = _
      rw [hfds]
    all_goals rw [eventdel_eq hstatus]; rfl

/-- **A client's descriptor is removed and closed.** -/
theorem TableInv.retire {lfd : ℕ} {s : State} (h : TableInv lfd s) {i : ℕ} (hi : i < MAX_EVENTS)
    (hstatus : (s.slots i).status = 1) :
    TableInv lfd ((s.eventdel i).close i) ∧ Spares s ((s.eventdel i).close i) (s.slots i).fd := by
  have hfd : ((s.eventdel i).slots i).fd = (s.slots i).fd := by
    rw [eventdel_eq hstatus]
    show (Function.update s.slots i _ i).fd = _
    rw [Function.update_self]
  have hne : (s.slots i).fd ≠ lfd := by
    intro heq
    exact h.opened i hi hstatus (by rw [heq, h.noConn])
  constructor
  · refine (h.eventdel hi hstatus).close ?_ (by rw [hfd]; exact hne)
    rw [hfd, eventdel_eq hstatus]
    exact Function.update_self _ _ _
  · rw [State.close, hfd, eventdel_eq hstatus]
    refine ⟨?_, ?_, rfl, rfl, rfl, rfl⟩
    · intro d hd _
      exact Function.update_of_ne hd _ _
    · intro d hd _
      exact s.fds.conn_close_of_ne hd

/-- Without a slot, or with a descriptor that `fcntl` refuses, nothing is registered. -/
theorem register_eq_self {s : State} {a : Answer} (h : s.freeSlot = none ∨ a.fcntl = false) :
    s.register a = s := by
  unfold State.register
  rcases h with hslot | hfcntl
  · simp only [hslot]
  · split
    · rfl
    · exact if_neg (by rw [hfcntl]; exact Bool.false_ne_true)

/-- Otherwise the first free slot is set up. -/
theorem register_eq {s : State} {a : Answer} {i : ℕ} (h : s.freeSlot = some i)
    (hfcntl : a.fcntl = true) :
    s.register a = (s.eventset i a.ret Callback.recvdata i).eventadd EPOLLIN i := by
  unfold State.register
  simp only [h]
  exact if_pos hfcntl

/-- The first free slot is a client's. -/
theorem freeSlot_eq_some {s : State} {i : ℕ} (h : s.freeSlot = some i) :
    i < MAX_EVENTS ∧ (s.slots i).status = 0 := by
  unfold State.freeSlot at h
  have hmem := List.mem_of_find?_eq_some h
  have hfree := List.find?_some h
  exact ⟨List.mem_range.mp hmem, of_decide_eq_true hfree⟩

/-- **A free slot is set up for a connection** that is not registered. -/
theorem TableInv.setUp {lfd : ℕ} {s : State} (h : TableInv lfd s) {i : ℕ} {cfd : ℤ}
    (hi : i < MAX_EVENTS) (hfree : (s.slots i).status = 0) (hreg : s.registry cfd = none)
    (hconn : s.fds.conn cfd ≠ none) :
    TableInv lfd ((s.eventset i cfd Callback.recvdata i).eventadd EPOLLIN i) ∧
      Spares s ((s.eventset i cfd Callback.recvdata i).eventadd EPOLLIN i) lfd := by
  have hslot : (s.eventset i cfd Callback.recvdata i).slots i
      = ⟨cfd, ⟨false, false⟩, some i, some Callback.recvdata, 0, [], 0⟩ :=
    Function.update_self _ _ _
  constructor
  · have hset : TableInv lfd (s.eventset i cfd Callback.recvdata i) := h.setFree hfree rfl
    refine hset.eventadd hi (by rw [hslot]) (by rw [hslot]) ?_ ?_ ?_
    · rw [hslot]
      exact hreg
    · rw [hslot]
      exact hconn
    · rw [hslot]
      exact Or.inl ⟨rfl, rfl⟩
  · rw [State.eventadd, if_pos (by rw [hslot])]
    refine ⟨?_, fun _ _ _ => rfl, rfl, rfl, rfl, rfl⟩
    intro d _ hd
    show Function.update s.registry ((s.eventset i cfd Callback.recvdata i).slots i).fd
      (some (i, EPOLLIN)) d = s.registry d
    rw [hslot]
    apply Function.update_of_ne
    rintro rfl
    exact hd hreg

/-- **A connection is accepted into a free slot**, or into none. -/
theorem TableInv.acceptconn {lfd : ℕ} {s s' : State} (h : TableInv lfd s) {a : Answer}
    (hok : a.ret ≠ -1 ∨ a.fcntl = false) (hs : s.acceptconn lfd a = some s') :
    TableInv lfd s' ∧ Spares s s' lfd := by
  unfold State.acceptconn at hs
  split_ifs at hs with hguard
  rw [← Option.some.inj hs]
  by_cases hfail : a.ret = -1
  · -- no connection, and `fcntl` refuses -1
    have hfcntl : a.fcntl = false := hok.resolve_left (not_not.mpr hfail)
    rw [State.accepted, if_pos hfail, register_eq_self (Or.inr hfcntl)]
    exact ⟨h, Spares.refl s lfd⟩
  · obtain ⟨-, hne, hfree⟩ := hguard.resolve_left hfail
    have hacc := h.accepted hne
    have hunreg : s.registry a.ret = none := h.not_registered hne hfree
    have hkeep : Spares s { s with fds := s.fds.accept a.ret } lfd := by
      refine ⟨fun _ _ _ => rfl, ?_, rfl, rfl, rfl, rfl⟩
      intro d _ hd
      apply s.fds.conn_accept_of_ne
      rintro rfl
      exact hd hunreg
    rw [State.accepted, if_neg hfail]
    by_cases hslot : State.freeSlot { s with fds := s.fds.accept a.ret } = none ∨ a.fcntl = false
    · rw [register_eq_self hslot]
      exact ⟨hacc, hkeep⟩
    · obtain ⟨hslot, hfcntl⟩ := not_or.mp hslot
      obtain ⟨i, hslot⟩ := Option.ne_none_iff_exists'.mp hslot
      obtain ⟨hi, hstatus⟩ := freeSlot_eq_some hslot
      rw [register_eq hslot (Bool.eq_true_of_not_eq_false hfcntl)]
      have hconn : (s.fds.accept a.ret).conn a.ret ≠ none := by
        rw [s.fds.conn_accept_self]
        exact Option.some_ne_none _
      obtain ⟨hinv, hspares⟩ := hacc.setUp hi hstatus hunreg hconn
      exact ⟨hinv, hkeep.trans hspares⟩

/-- An entry of the batch stands for a slot in use, which waits for what has happened, and
for the connection that is still behind the descriptor. -/
def State.Pending (s : State) (e : Event) : Prop :=
  ∃ m, s.registry e.fd = some (e.ptr, m) ∧ (e.events.epollin = true → m.epollin = true) ∧
    (e.events.epollout = true → m.epollout = true) ∧ s.fds.conn e.fd = e.conn

/-- **One callback.** -/
theorem TableInv.call {lfd : ℕ} {s s' : State} (h : TableInv lfd s) {e : Event}
    (hp : s.Pending e) {a : Answer}
    (hok : (s.slots e.ptr).callBack = some Callback.acceptconn → a.ret ≠ -1 ∨ a.fcntl = false)
    (hs : s.call e.ptr a = some s') : TableInv lfd s' ∧ Spares s s' e.fd := by
  obtain ⟨m, hreg, -, -, -⟩ := hp
  obtain ⟨hi, hstatus, hfd, -⟩ := h.owner e.fd e.ptr m hreg
  unfold State.call at hs
  rcases hi.lt_or_eq with hlt | heq
  · have harg := h.arg e.ptr hlt hstatus
    rcases h.client e.ptr hlt hstatus with ⟨-, hcb⟩ | ⟨-, hcb⟩
    · simp only [hcb, harg] at hs
      unfold State.recvdata at hs
      split_ifs at hs
      · rw [← Option.some.inj hs, store_eventset, ← hfd]
        exact h.rearm hlt hstatus (Or.inr ⟨rfl, rfl⟩)
      · rw [← Option.some.inj hs, ← hfd]
        exact h.retire hlt hstatus
    · simp only [hcb, harg] at hs
      unfold State.senddata at hs
      split_ifs at hs
      · rw [← Option.some.inj hs, ← hfd]
        exact h.rearm hlt hstatus (Or.inl ⟨rfl, rfl⟩)
      · rw [← Option.some.inj hs, ← hfd]
        exact h.retire hlt hstatus
  · obtain ⟨hlfd, hcb, -, -⟩ := h.listener
    have hok' := hok (by rw [heq, hcb])
    rw [heq] at hs hfd
    simp only [hcb, hlfd] at hs
    rw [← hfd, hlfd]
    exact h.acceptconn hok' hs

/-- Only the table, the registrations and the connections count. -/
theorem TableInv.of_eq {lfd : ℕ} {s s' : State} (h : TableInv lfd s) (hslots : s'.slots = s.slots)
    (hregistry : s'.registry = s.registry) (hfds : s'.fds = s.fds)
    (hadded : s'.addStatus = s.addStatus) : TableInv lfd s' := by
  obtain ⟨slots, registry, fds, batch, second, runs, addStatus, log⟩ := s'
  subst hslots hregistry hfds hadded
  exact ⟨h.binary, h.live, h.owner, h.arg, h.client, h.opened, h.listener, h.noConn, h.added⟩

/-! ## The batch -/

/-- The event in turn: nothing is called for it yet and it is still pending; or its
callback has been called, and it will not pass the second test. -/
def State.Turn (s : State) (e : Event) : Prop :=
  (s.Pending e ∧ s.runs = []) ∨
    (s.second = true ∧ e.events.epollout = false ∧ CalledFor e s.runs)

/-- The table, and the events of the batch. -/
structure Inv (lfd : ℕ) (s : State) : Prop where
  table : TableInv lfd s
  batch : (s.batch.map Event.fd).Nodup
  idle : s.batch = [] → s.runs = []
  turn : ∀ e rest, s.batch = e :: rest → s.Turn e ∧ ∀ x ∈ rest, s.Pending x
  logged : ∀ x ∈ s.log, CalledFor x.1 x.2

/-- A pending event is not affected by a callback for another descriptor. -/
theorem State.Pending.spared {s s' : State} {e : Event} {fd : ℤ} (hp : s.Pending e)
    (h : Spares s s' fd) (hne : e.fd ≠ fd) : s'.Pending e := by
  obtain ⟨m, hreg, hin, hout, hconn⟩ := hp
  have hsome : s.registry e.fd ≠ none := by
    rw [hreg]
    exact Option.some_ne_none _
  exact ⟨m, (h.registry e.fd hne hsome).trans hreg, hin, hout, (h.conn e.fd hne hsome).trans hconn⟩

theorem calledFor_nil (e : Event) : CalledFor e [] :=
  ⟨Nat.zero_le 1, fun _ hr => absurd hr List.not_mem_nil⟩

theorem State.Turn.calledFor {s : State} {e : Event} (h : s.Turn e) : CalledFor e s.runs := by
  rcases h with ⟨-, hruns⟩ | ⟨-, -, hcalled⟩
  · rw [hruns]
    exact calledFor_nil e
  · exact hcalled

/-- **The invariant contains the law.** -/
theorem Inv.slotTableOk {lfd : ℕ} {s : State} (h : Inv lfd s) : SlotTableOk lfd s := by
  have ht := h.table
  refine ⟨?_, ?_, ?_, ?_, ht.added, h.logged, ?_⟩
  · intro i hi
    constructor
    · exact fun hstatus => ⟨_, ht.live i hi hstatus⟩
    · rintro ⟨m, hreg⟩
      exact (ht.owner _ i m hreg).2.1
  · intro i hi j hj hsi hsj hfd
    by_contra hij
    exact ht.fd_ne hi hj hsi hsj (Ne.symm hij) hfd.symm
  · obtain ⟨hfd, hcb, hstatus, hevents⟩ := ht.listener
    refine ⟨hfd, hcb, hstatus, hevents, ?_⟩
    rw [ht.live MAX_EVENTS le_rfl hstatus, hevents]
  · intro i hi hstatus
    have hlive := ht.live i hi.le hstatus
    rcases ht.client i hi hstatus with ⟨hevents, hcb⟩ | ⟨hevents, hcb⟩
    · exact Or.inl ⟨⟨hevents, by rw [hlive, hevents]⟩, hcb⟩
    · exact Or.inr ⟨⟨hevents, by rw [hlive, hevents]⟩, hcb⟩
  · intro e he
    obtain ⟨rest, hbatch⟩ := List.head?_eq_some_iff.mp he
    exact (h.turn e rest hbatch).1.calledFor

theorem inv_start (lfd : ℕ) : Inv lfd (start lfd) := by
  refine ⟨tableInv_start lfd, List.nodup_nil, fun _ => rfl, ?_, ?_⟩
  · intro e rest hbatch
    cases hbatch
  · intro x hx
    exact absurd hx List.not_mem_nil

/-- The call of a callback, and what is noted. -/
theorem fire_eq_some {s s' : State} {ev : ℕ} {a : Answer} (hs : s.fire ev a = some s') :
    ∃ s₁, s.call ev a = some s₁ ∧
      s' = { s₁ with runs := s.runs ++ [⟨ev, s.fds.conn (s.slots ev).fd⟩] } := by
  obtain ⟨s₁, hcall, heq⟩ := Option.map_eq_some_iff.mp hs
  exact ⟨s₁, hcall, heq.symm⟩

/-- **A pending event calls its callback.** -/
theorem Inv.fire {lfd : ℕ} {s s' : State} (h : Inv lfd s) {e : Event} {rest : List Event}
    (hbatch : s.batch = e :: rest) (hp : s.Pending e) (hruns : s.runs = []) {a : Answer}
    (hok : (s.slots e.ptr).callBack = some Callback.acceptconn → a.ret ≠ -1 ∨ a.fcntl = false)
    (hs : s.fire e.ptr a = some s') :
    TableInv lfd s' ∧ (∀ x ∈ rest, s'.Pending x) ∧ CalledFor e s'.runs ∧ s'.batch = e :: rest ∧
      s'.log = s.log := by
  obtain ⟨s₁, hcall, rfl⟩ := fire_eq_some hs
  obtain ⟨htable, hspares⟩ := h.table.call hp hok hcall
  refine ⟨htable.of_eq rfl rfl rfl rfl, ?_, ?_, hspares.batch.trans hbatch, hspares.log⟩
  · intro x hx
    have hnodup := h.batch
    rw [hbatch, List.map_cons, List.nodup_cons] at hnodup
    have hne : x.fd ≠ e.fd := by
      intro heq
      exact hnodup.1 (heq ▸ List.mem_map_of_mem hx)
    have hpx : s₁.Pending x := ((h.turn e rest hbatch).2 x hx).spared hspares hne
    exact hpx
  · -- the slot still holds the descriptor of the event
    obtain ⟨m, hreg, -, -, hconn⟩ := hp
    obtain ⟨-, -, hfd, -⟩ := h.table.owner e.fd e.ptr m hreg
    rw [hruns, hfd, hconn]
    refine ⟨le_rfl, ?_⟩
    intro r hr
    rw [List.mem_singleton.mp hr]
    exact ⟨rfl, rfl⟩

/-- A pending event with `EPOLLIN` has no `EPOLLOUT`. -/
theorem TableInv.single {lfd : ℕ} {s : State} (h : TableInv lfd s) {e : Event} (hp : s.Pending e)
    (hin : e.events.epollin = true) : e.events.epollout = false := by
  obtain ⟨m, hreg, hmin, hmout, -⟩ := hp
  obtain ⟨hi, hstatus, -, hevents⟩ := h.owner e.fd e.ptr m hreg
  have hm : m = EPOLLIN := by
    rcases hi.lt_or_eq with hlt | heq
    · rcases h.client e.ptr hlt hstatus with ⟨hm, -⟩ | ⟨hm, -⟩
      · exact hevents.symm.trans hm
      · have hbit := hmin hin
        rw [← hevents, hm] at hbit
        cases hbit
    · rw [← hevents, heq]
      exact h.listener.2.2.2
  rw [hm] at hmout
  exact Bool.eq_false_of_not_eq_true (fun hout => by cases hmout hout)

/-- `epoll_wait` reports registered descriptors. -/
theorem Inv.wait {lfd : ℕ} {s s' : State} (h : Inv lfd s) {events : List (ℤ × Events)}
    (hs : s.wait events = some s') : Inv lfd s' := by
  unfold State.wait at hs
  split_ifs at hs with hguard
  obtain ⟨hempty, hnodup, hall⟩ := hguard
  rw [← Option.some.inj hs]
  have hpending : ∀ e ∈ events, s.Pending
      ⟨((s.registry e.1).map Prod.fst).getD 0, e.2, e.1, s.fds.conn e.1⟩ := by
    intro e he
    have hrep := List.all_eq_true.mp hall e he
    unfold State.reportable at hrep
    split at hrep
    · cases hrep
    · next i m hreg =>
      rw [Bool.and_eq_true, Bool.or_eq_true, Bool.or_eq_true] at hrep
      refine ⟨m, ?_, ?_, ?_, rfl⟩
      · show s.registry e.1 = some (((s.registry e.1).map Prod.fst).getD 0, m)
        rw [hreg]
        rfl
      · intro hin
        change e.2.epollin = true at hin
        exact hrep.1.resolve_left (by rw [hin]; exact Bool.false_ne_true)
      · intro hout
        change e.2.epollout = true at hout
        exact hrep.2.resolve_left (by rw [hout]; exact Bool.false_ne_true)
  refine ⟨h.table.of_eq rfl rfl rfl rfl, ?_, fun _ => h.idle hempty, ?_, h.logged⟩
  · show ((events.map _).map Event.fd).Nodup
    rw [List.map_map]
    exact hnodup
  · intro e rest hbatch
    have hall : ∀ x ∈ e :: rest, s.Pending x := by
      intro x hx
      rw [← hbatch] at hx
      obtain ⟨y, hy, rfl⟩ := List.mem_map.mp hx
      exact hpending y hy
    exact ⟨Or.inl ⟨hall e List.mem_cons_self, h.idle hempty⟩,
      fun x hx => hall x (List.mem_cons_of_mem e hx)⟩

/-- The first test. -/
theorem Inv.testIn {lfd : ℕ} {s s' : State} (h : Inv lfd s) {a : Answer}
    (hok : AcceptOrRefuse s (.testIn a)) (hs : s.testIn a = some s') : Inv lfd s' := by
  unfold State.testIn at hs
  split at hs
  · next e rest hbatch hsecond =>
    obtain ⟨hturn, hrest⟩ := h.turn e rest hbatch
    obtain ⟨hp, hruns⟩ : s.Pending e ∧ s.runs = [] := by
      rcases hturn with hturn | ⟨hsecond', -, -⟩
      · exact hturn
      · rw [hsecond] at hsecond'
        cases hsecond'
    split_ifs at hs with htest
    · obtain ⟨s₁, hfire, rfl⟩ := Option.map_eq_some_iff.mp hs
      obtain ⟨htable, hpend, hcalled, hbatch', hlog⟩ :=
        h.fire hbatch hp hruns (hok e (by rw [hbatch]; rfl)) hfire
      have hout := h.table.single hp (Bool.and_eq_true_iff.mp htest).1
      refine ⟨htable.of_eq rfl rfl rfl rfl, ?_, ?_, ?_, ?_⟩
      · show (s₁.batch.map Event.fd).Nodup
        rw [hbatch', ← hbatch]
        exact h.batch
      · intro hnil
        change s₁.batch = [] at hnil
        rw [hbatch'] at hnil
        cases hnil
      · intro e' rest' heq
        change s₁.batch = e' :: rest' at heq
        rw [hbatch', List.cons.injEq] at heq
        rw [← heq.1, ← heq.2]
        exact ⟨Or.inr ⟨rfl, hout, hcalled⟩, hpend⟩
      · show ∀ x ∈ s₁.log, _
        rw [hlog]
        exact h.logged
    · rw [← Option.some.inj hs]
      refine ⟨h.table.of_eq rfl rfl rfl rfl, h.batch, h.idle, ?_, h.logged⟩
      intro e' rest' heq
      change s.batch = e' :: rest' at heq
      rw [hbatch, List.cons.injEq] at heq
      rw [← heq.1, ← heq.2]
      exact ⟨Or.inl ⟨hp, hruns⟩, hrest⟩
  · cases hs

/-- The loop goes on to events that are pending. -/
theorem Inv.next {lfd : ℕ} {s s₁ : State} (h : Inv lfd s) {e : Event} {rest : List Event}
    (hbatch : s.batch = e :: rest) (htable : TableInv lfd s₁) (hrest : ∀ x ∈ rest, s₁.Pending x)
    (hcalled : CalledFor e s₁.runs) (hlog : s₁.log = s.log) : Inv lfd (s₁.next e rest) := by
  have hnodup := h.batch
  rw [hbatch, List.map_cons, List.nodup_cons] at hnodup
  refine ⟨htable.of_eq rfl rfl rfl rfl, hnodup.2, fun _ => rfl, ?_, ?_⟩
  · intro e' rest' heq
    change rest = e' :: rest' at heq
    rw [heq] at hrest
    exact ⟨Or.inl ⟨hrest e' List.mem_cons_self, rfl⟩,
      fun x hx => hrest x (List.mem_cons_of_mem e' hx)⟩
  · intro x hx
    change x ∈ s₁.log ++ [(e, s₁.runs)] at hx
    rcases List.mem_append.mp hx with hx | hx
    · rw [hlog] at hx
      exact h.logged x hx
    · rw [List.mem_singleton.mp hx]
      exact hcalled

/-- The second test. -/
theorem Inv.testOut {lfd : ℕ} {s s' : State} (h : Inv lfd s) {a : Answer}
    (hok : AcceptOrRefuse s (.testOut a)) (hs : s.testOut a = some s') : Inv lfd s' := by
  unfold State.testOut at hs
  split at hs
  · next e rest hbatch hsecond =>
    obtain ⟨hturn, hrest⟩ := h.turn e rest hbatch
    split_ifs at hs with htest
    · obtain ⟨s₁, hfire, rfl⟩ := Option.map_eq_some_iff.mp hs
      have hout := (Bool.and_eq_true_iff.mp htest).1
      obtain ⟨hp, hruns⟩ : s.Pending e ∧ s.runs = [] := by
        rcases hturn with hturn | ⟨-, hout', -⟩
        · exact hturn
        · rw [hout] at hout'
          cases hout'
      obtain ⟨htable, hpend, hcalled, -, hlog⟩ :=
        h.fire hbatch hp hruns (hok e (by rw [hbatch]; rfl)) hfire
      exact h.next hbatch htable hpend hcalled hlog
    · rw [← Option.some.inj hs]
      exact h.next hbatch h.table hrest hturn.calledFor rfl
  · cases hs

theorem Inv.step {lfd : ℕ} {s s' : State} (h : Inv lfd s) {l : Label}
    (hok : AcceptOrRefuse s l) (hs : step l s = some s') : Inv lfd s' := by
  cases l with
  | wait events => exact h.wait hs
  | testIn a => exact h.testIn hok hs
  | testOut a => exact h.testOut hok hs

theorem inv_of_reach {lfd : ℕ} {s : State} (hreach : Reach step AcceptOrRefuse (start lfd) s) :
    Inv lfd s := by
  induction hreach with
  | start => exact inv_start lfd
  | next hprev hok hstep ih => exact ih.step hok hstep

/-- **The slot table.**  In every run in which `acceptconn` does not go on with a descriptor
-1, the law holds in every state that is reached. -/
theorem slotTableOk_of_reach {lfd : ℕ} {s : State}
    (hreach : Reach step AcceptOrRefuse (start lfd) s) : SlotTableOk lfd s :=
  (inv_of_reach hreach).slotTableOk

instance decidableAcceptOrRefuse (s : State) : (l : Label) → Decidable (AcceptOrRefuse s l)
  | .wait _ => isTrue trivial
  | .testIn _ => inferInstanceAs (Decidable (∀ e ∈ s.batch.head?, _))
  | .testOut _ => inferInstanceAs (Decidable (∀ e ∈ s.batch.head?, _))

/-- A client connects and sends a byte.  `eventset` has cleared the buffer, so nothing is
sent back, and the descriptor is closed. -/
theorem slotTableOk_client :
    ∃ s, SlotTableOk 3 s ∧ s.log.length = 3 ∧ s.fds.count = 1 ∧ s.fds.conn 5 = none := by
  obtain ⟨s, hreach, hs⟩ : ∃ s, Reach step AcceptOrRefuse (start 3) s ∧
      (s.log.length = 3 ∧ s.fds.count = 1 ∧ s.fds.conn 5 = none) :=
    exists_reach_of_run
      [.wait [(3, EPOLLIN)], .testIn ⟨5, [], true⟩, .testOut ⟨0, [], true⟩,
        .wait [(5, EPOLLIN)], .testIn ⟨1, [7], true⟩, .testOut ⟨0, [], true⟩,
        .wait [(5, EPOLLOUT)], .testIn ⟨0, [], true⟩, .testOut ⟨0, [], true⟩] (by decide +kernel)
  exact ⟨s, slotTableOk_of_reach hreach, hs⟩

end Reactor
