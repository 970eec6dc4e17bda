/-
# Accepting a client in the reactor (`epoll_et/server3.c`)

`acceptconn` may fail in four places: at `accept`, for want of a free slot, at `fcntl`, and
at the `epoll_ctl` of `eventadd`.  Behind a failed `accept` it goes on, behind the others
it leaves the descriptor open; and `eventadd` sets the `status` of the slot before it knows
what has become of `epoll_ctl`.

The server is that of the slot table, with every call of `epoll_ctl` failing or
succeeding (`Outcome`); `call_of_success` says that without failures the callbacks are
those.  `Held` is what is left of the law of the table: a slot with status 1 holds a
descriptor that is open, or -1, and no other slot holds it.

`allOrNothing_iff` says for which outcomes `acceptconn` does all or nothing.
-/
import NetStudy.ReactorTable

namespace Reactor

open Transition Descriptors

namespace AnyOutcome

/-! ## The server -/

/-- What the system answers to a callback: as in `Answer`, and whether the `epoll_ctl` of
`eventadd` and that of `eventdel` succeed. -/
structure Outcome extends Answer where
  add : Bool
  del : Bool

/-- `eventadd`, as in `State.eventadd`. -/
def eventadd (s : State) (events : Events) (i : ℕ) (add : Bool) : State :=
  if (s.slots i).status = 0 then
    { s with
      slots := Function.update s.slots i { s.slots i with events := events, status := 1 }
      registry := if add then Function.update s.registry (s.slots i).fd (some (i, events))
        else s.registry
      addStatus := s.addStatus ++ [(s.slots i).status] }
  else
    { s with
      slots := Function.update s.slots i { s.slots i with events := events }
      addStatus := s.addStatus ++ [(s.slots i).status] }

/-- `eventdel`. -/
def eventdel (s : State) (i : ℕ) (del : Bool) : State :=
  if (s.slots i).status ≠ 1 then s
  else
    { s with
      slots := Function.update s.slots i { s.slots i with status := 0 }
      registry := if del then Function.update s.registry (s.slots i).fd none else s.registry }

/-- `close(ev->fd)`.  A descriptor that is closed is taken out of epoll. -/
def close (s : State) (i : ℕ) : State :=
  { s with
    registry := Function.update s.registry (s.slots i).fd none
    fds := s.fds.close (s.slots i).fd }

/-- `recvdata`. -/
def recvdata (s : State) (fd : ℤ) (ev : ℕ) (o : Outcome) : Option State :=
  if -1 ≤ o.ret ∧ o.ret ≤ BUFLEN ∧ o.data.length = o.ret.toNat then
    if 0 < o.ret then
      some (eventadd (((eventdel s ev o.del).store ev o.toAnswer).eventset ev fd
        Callback.senddata ev) EPOLLOUT ev o.add)
    else some (close (eventdel s ev o.del) ev)
  else none

/-- `senddata`. -/
def senddata (s : State) (fd : ℤ) (ev : ℕ) (o : Outcome) : Option State :=
  if -1 ≤ o.ret ∧ o.ret ≤ (s.slots ev).len then
    if 0 < o.ret then
      some (eventadd ((eventdel s ev o.del).eventset ev fd Callback.recvdata ev) EPOLLIN ev o.add)
    else some (close (eventdel s ev o.del) ev)
  else none

/-- Lines 197-224. -/
def register (s : State) (o : Outcome) : State :=
  match s.freeSlot with
  | none => s
  | some i =>
      if o.fcntl then eventadd (s.eventset i o.ret Callback.recvdata i) EPOLLIN i o.add else s

/-- `acceptconn`, as in `State.acceptconn`. -/
def acceptconn (s : State) (lfd : ℤ) (o : Outcome) : Option State :=
  if o.ret = -1 ∨ (0 ≤ o.ret ∧ o.ret ≠ lfd ∧ s.fds.conn o.ret = none) then
    some (register (s.accepted o.ret) o)
  else none

/-- `ev->call_back(ev->fd, events[i].events, ev->arg)`. -/
def call (s : State) (ev : ℕ) (o : Outcome) : Option State :=
  match (s.slots ev).callBack, (s.slots ev).arg with
  | some Callback.acceptconn, _ => acceptconn s (s.slots ev).fd o
  | some Callback.recvdata, some arg => recvdata s (s.slots ev).fd arg o
  | some Callback.senddata, some arg => senddata s (s.slots ev).fd arg o
  | _, _ => none

/-- A callback is called, and the call is noted. -/
def fire (s : State) (ev : ℕ) (o : Outcome) : Option State :=
  (call s ev o).map (fun s' => { s' with runs := s.runs ++ [⟨ev, s.fds.conn (s.slots ev).fd⟩] })

/-- The steps, as in `Reactor.Label`. -/
inductive Label
  | wait (events : List (ℤ × Events))
  | testIn (o : Outcome)
  | testOut (o : Outcome)

/-- The test of line 59. -/
def testIn (s : State) (o : Outcome) : Option State :=
  match s.batch, s.second with
  | e :: _, false =>
      if e.events.epollin && (s.slots e.ptr).events.epollin then
        (fire s e.ptr o).map (fun s' => { s' with second := true })
      else some { s with second := true }
  | _, _ => none

/-- The test of line 64, and the end of the turn. -/
def testOut (s : State) (o : Outcome) : Option State :=
  match s.batch, s.second with
  | e :: rest, true =>
      if e.events.epollout && (s.slots e.ptr).events.epollout then
        (fire s e.ptr o).map (fun s' => s'.next e rest)
      else some (s.next e rest)
  | _, _ => none

/-- One step. -/
def step : Label → State → Option State
  | .wait events, s => s.wait events
  | .testIn o, s => testIn s o
  | .testOut o, s => testOut s o

/-- Behind `initlistensocket`, whose `eventadd` may fail as well. -/
def start (lfd : ℕ) (add : Bool) : State :=
  eventadd (zeros.eventset MAX_EVENTS lfd Callback.acceptconn MAX_EVENTS) EPOLLIN MAX_EVENTS add

/-! ### Without failures -/

theorem eventadd_true (s : State) (events : Events) (i : ℕ) :
    eventadd s events i true = s.eventadd events i := rfl

theorem eventdel_true (s : State) (i : ℕ) : eventdel s i true = s.eventdel i := rfl

/-- Behind `eventdel` there is nothing to be taken out. -/
theorem close_eventdel {s : State} {i : ℕ} (h : (s.slots i).status = 1) :
    close (s.eventdel i) i = (s.eventdel i).close i := by
  have hfd : ((s.eventdel i).slots i).fd = (s.slots i).fd := by
    rw [eventdel_eq h]
    show (Function.update s.slots i _ i).fd = _
    rw [Function.update_self]
  have hreg : Function.update (s.eventdel i).registry ((s.eventdel i).slots i).fd none
      = (s.eventdel i).registry := by
    rw [hfd, eventdel_eq h]
    exact Function.update_idem _ _ _
  rw [close, State.close, hreg]

theorem register_of_success {s : State} {o : Outcome} (hadd : o.add = true) :
    register s o = s.register o.toAnswer := by
  unfold register State.register
  rcases s.freeSlot with _ | i
  · rfl
  · show (if o.fcntl = true then _ else s) = if o.fcntl = true then _ else s
    rw [hadd, eventadd_true]

/-- **Without failures** the callbacks of a slot in use are those of the slot table. -/
theorem call_of_success {s : State} {ev : ℕ} {o : Outcome} (hadd : o.add = true)
    (hdel : o.del = true) (hstatus : (s.slots ev).status = 1) (harg : (s.slots ev).arg = some ev) :
    call s ev o = s.call ev o.toAnswer := by
  unfold call State.call
  rw [harg]
  rcases (s.slots ev).callBack with _ | callBack
  · rfl
  · cases callBack with
    | acceptconn =>
        show acceptconn s _ o = s.acceptconn _ o.toAnswer
        rw [acceptconn, State.acceptconn, register_of_success hadd]
    | recvdata =>
        show recvdata s _ ev o = s.recvdata _ ev o.toAnswer
        rw [recvdata, State.recvdata, hadd, hdel, eventdel_true, close_eventdel hstatus]
        rfl
    | senddata =>
        show senddata s _ ev o = s.senddata _ ev o.toAnswer
        rw [senddata, State.senddata, hadd, hdel, eventdel_true, close_eventdel hstatus]
        rfl

/-! ## The slots in use -/

/-- What a slot of a client in use holds: its own pointer, one of the two callbacks, and a
descriptor that is open, or -1. -/
def HeldSlot (fds : Table ℤ) (i : ℕ) (l : Slot) : Prop :=
  l.arg = some i ∧ (l.callBack = some Callback.recvdata ∨ l.callBack = some Callback.senddata) ∧
    (l.fd = -1 ∨ fds.conn l.fd ≠ none)

/-- What is left of the law of the table. -/
structure Held (lfd : ℕ) (slots : ℕ → Slot) (registry : ℤ → Option (ℕ × Events))
    (fds : Table ℤ) : Prop where
  /-- What is registered is in use, for one kind of event. -/
  owner : ∀ fd i m, registry fd = some (i, m) →
    i ≤ MAX_EVENTS ∧ (slots i).status = 1 ∧ (slots i).fd = fd ∧ (m = EPOLLIN ∨ m = EPOLLOUT)
  client : ∀ i < MAX_EVENTS, (slots i).status = 1 → HeldSlot fds i (slots i)
  /-- Two slots in use hold two descriptors, unless there is none. -/
  distinct : ∀ i < MAX_EVENTS, ∀ j < MAX_EVENTS, (slots i).status = 1 → (slots j).status = 1 →
    (slots i).fd = (slots j).fd → (slots i).fd = -1 ∨ i = j
  listener : (slots MAX_EVENTS).fd = lfd ∧
    (slots MAX_EVENTS).callBack = some Callback.acceptconn ∧ (slots MAX_EVENTS).status = 1
  noConn : fds.conn lfd = none

variable {lfd : ℕ} {slots : ℕ → Slot} {registry registry' : ℤ → Option (ℕ × Events)}
  {fds fds' : Table ℤ}

/-- **A client's slot gets another content.**  What is registered then is this slot, or was
registered before; and the descriptors of the other slots stay open. -/
theorem Held.replace (h : Held lfd slots registry fds) {i : ℕ} {l : Slot} (hi : i < MAX_EVENTS)
    (hreg : ∀ fd j m, registry' fd = some (j, m) →
      (j = i ∧ l.status = 1 ∧ l.fd = fd ∧ (m = EPOLLIN ∨ m = EPOLLOUT)) ∨
        (j ≠ i ∧ registry fd = some (j, m)))
    (hl : l.status = 1 → HeldSlot fds' i l ∧ (l.fd = -1 ∨
      ∀ j < MAX_EVENTS, j ≠ i → (slots j).status = 1 → (slots j).fd ≠ l.fd))
    (hopen : ∀ j < MAX_EVENTS, j ≠ i → (slots j).status = 1 → fds.conn (slots j).fd ≠ none →
      (slots j).fd ≠ -1 → fds'.conn (slots j).fd ≠ none)
    (hconn : fds'.conn lfd = none) :
    Held lfd (Function.update slots i l) registry' fds' := by
  have hself : Function.update slots i l i = l := Function.update_self _ _ _
  have hother : ∀ {j}, j ≠ i → Function.update slots i l j = slots j :=
    fun hj => Function.update_of_ne hj _ _
  refine ⟨?_, ?_, ?_, ?_, hconn⟩
  · intro fd j m hfd
    rcases hreg fd j m hfd with ⟨rfl, hstatus, hlfd, hm⟩ | ⟨hji, hold⟩
    · rw [hself]
      exact ⟨hi.le, hstatus, hlfd, hm⟩
    · rw [hother hji]
      exact h.owner fd j m hold
  · intro j hj hstatus
    by_cases hji : j = i
    · subst hji
      rw [hself] at hstatus ⊢
      exact (hl hstatus).1
    · rw [hother hji] at hstatus ⊢
      obtain ⟨harg, hcb, hfd⟩ := h.client j hj hstatus
      refine ⟨harg, hcb, ?_⟩
      by_cases hminus : (slots j).fd = -1
      · exact Or.inl hminus
      · exact Or.inr (hopen j hj hji hstatus (hfd.resolve_left hminus) hminus)
  · intro j hj k hk hsj hsk heq
    by_cases hji : j = i
    · by_cases hki : k = i
      · exact Or.inr (hji.trans hki.symm)
      · rw [hji, hself] at hsj heq ⊢
        rw [hother hki] at hsk heq
        -- only -1 may be in two slots
        rcases (hl hsj).2 with hminus | hne
        · exact Or.inl hminus
        · exact absurd heq.symm (hne k hk hki hsk)
    · rw [hother hji] at hsj heq ⊢
      by_cases hki : k = i
      · rw [hki, hself] at hsk heq
        rcases (hl hsk).2 with hminus | hne
        · exact Or.inl (heq.trans hminus)
        · exact absurd heq (hne j hj hji hsj)
      · rw [hother hki] at hsk heq
        exact h.distinct j hj k hk hsj hsk heq
  · rw [hother hi.ne']
    exact h.listener

/-- Another slot in use holds another descriptor. -/
theorem Held.fd_ne (h : Held lfd slots registry fds) {i j : ℕ} (hi : i < MAX_EVENTS)
    (hj : j < MAX_EVENTS) (hsi : (slots i).status = 1) (hsj : (slots j).status = 1) (hji : j ≠ i)
    (hminus : (slots i).fd ≠ -1) : (slots j).fd ≠ (slots i).fd := by
  intro heq
  exact hji ((h.distinct i hi j hj hsi hsj heq.symm).resolve_left hminus).symm

/-- **A slot in use is set up again** for the same descriptor, whatever has become of the
two calls of `epoll_ctl`. -/
theorem Held.rearm (h : Held lfd slots registry fds) {i : ℕ} {l : Slot} (hi : i < MAX_EVENTS)
    (hstatus : (slots i).status = 1) (hfd : l.fd = (slots i).fd) (hl : l.status = 1)
    (harg : l.arg = some i)
    (hcb : l.callBack = some Callback.recvdata ∨ l.callBack = some Callback.senddata)
    (hreg : ∀ fd j m, registry' fd = some (j, m) → registry fd = some (j, m) ∨
      (j = i ∧ l.fd = fd ∧ (m = EPOLLIN ∨ m = EPOLLOUT))) :
    Held lfd (Function.update slots i l) registry' fds := by
  refine h.replace hi ?_ ?_ (fun _ _ _ _ hopen _ => hopen) h.noConn
  · intro fd j m hnew
    rcases hreg fd j m hnew with hold | ⟨hji, hlfd, hm⟩
    · by_cases hji : j = i
      · obtain ⟨-, -, hown, hm⟩ := h.owner fd j m hold
        exact Or.inl ⟨hji, hl, by rw [hfd, ← hji, hown], hm⟩
      · exact Or.inr ⟨hji, hold⟩
    · exact Or.inl ⟨hji, hl, hlfd, hm⟩
  · intro _
    refine ⟨⟨harg, hcb, ?_⟩, ?_⟩
    · rw [hfd]
      exact (h.client i hi hstatus).2.2
    · by_cases hminus : l.fd = -1
      · exact Or.inl hminus
      · right
        intro j hj hji hsj
        rw [hfd] at hminus ⊢
        exact h.fd_ne hi hj hstatus hsj hji hminus

/-- **A slot in use is left and its descriptor closed.** -/
theorem Held.retire (h : Held lfd slots registry fds) {i : ℕ} {l : Slot} (hi : i < MAX_EVENTS)
    (hstatus : (slots i).status = 1) (hl : l.status = 0)
    (hreg : ∀ fd j m, registry' fd = some (j, m) →
      registry fd = some (j, m) ∧ fd ≠ (slots i).fd) :
    Held lfd (Function.update slots i l) registry' (fds.close (slots i).fd) := by
  refine h.replace hi ?_ ?_ ?_ ?_
  · intro fd j m hnew
    obtain ⟨hold, hne⟩ := hreg fd j m hnew
    refine Or.inr ⟨?_, hold⟩
    rintro rfl
    exact hne (h.owner fd j m hold).2.2.1.symm
  · intro hone
    rw [hl] at hone
    cases hone
  · intro j hj hji hsj hopen hminus
    have hne : (slots j).fd ≠ (slots i).fd := by
      intro heq
      exact h.fd_ne hj hi hsj hstatus (Ne.symm hji) hminus heq.symm
    rw [fds.conn_close_of_ne hne]
    exact hopen
  · by_cases hlfd : (lfd : ℤ) = (slots i).fd
    · rw [hlfd, fds.conn_close_self]
    · rw [fds.conn_close_of_ne hlfd]
      exact h.noConn

/-- **A free slot is put into use** for a new descriptor, or for -1. -/
theorem Held.setUp (h : Held lfd slots registry fds) {i : ℕ} {l : Slot} (hi : i < MAX_EVENTS)
    (hfree : (slots i).status = 0) (hl : l.status = 1) (harg : l.arg = some i)
    (hcb : l.callBack = some Callback.recvdata ∨ l.callBack = some Callback.senddata)
    (hfd : l.fd = -1 ∨ (fds.conn l.fd ≠ none ∧
      ∀ j < MAX_EVENTS, (slots j).status = 1 → (slots j).fd ≠ l.fd))
    (hreg : ∀ fd j m, registry' fd = some (j, m) → registry fd = some (j, m) ∨
      (j = i ∧ l.fd = fd ∧ (m = EPOLLIN ∨ m = EPOLLOUT))) :
    Held lfd (Function.update slots i l) registry' fds := by
  refine h.replace hi ?_ ?_ (fun _ _ _ _ hopen _ => hopen) h.noConn
  · intro fd j m hnew
    rcases hreg fd j m hnew with hold | ⟨hji, hlfd, hm⟩
    · refine Or.inr ⟨?_, hold⟩
      rintro rfl
      have hone := (h.owner fd j m hold).2.1
      rw [hfree] at hone
      cases hone
    · exact Or.inl ⟨hji, hl, hlfd, hm⟩
  · intro _
    exact ⟨⟨harg, hcb, hfd.imp_right And.left⟩,
      hfd.imp_right (fun hnew j hj _ hsj => hnew.2 j hj hsj)⟩

/-! ## The callbacks -/

/-- The slots in use are held. -/
def Holds (lfd : ℕ) (s : State) : Prop := Held lfd s.slots s.registry s.fds

/-- What a callback for the slot `p` leaves alone: the other slots in use, and where the
main loop is. -/
structure Keeps (s s' : State) (p : ℕ) : Prop where
  slots : ∀ j ≤ MAX_EVENTS, j ≠ p → (s.slots j).status = 1 → s'.slots j = s.slots j
  batch : s'.batch = s.batch
  second : s'.second = s.second

/-- `eventadd` behind `eventset` finds the status 0. -/
theorem eventadd_eventset (s : State) (i : ℕ) (fd : ℤ) (callBack : Callback) (m : Events)
    (add : Bool) :
    eventadd (s.eventset i fd callBack i) m i add = { s with
      slots := Function.update s.slots i ⟨fd, m, some i, some callBack, 1, [], 0⟩
      registry := if add then Function.update s.registry fd (some (i, m)) else s.registry
      addStatus := s.addStatus ++ [0] } := by
  have hslot : (s.eventset i fd callBack i).slots i
      = ⟨fd, ⟨false, false⟩, some i, some callBack, 0, [], 0⟩ := Function.update_self _ _ _
  rw [eventadd, if_pos (by rw [hslot]), hslot]
  show ({ s with
    slots := Function.update (Function.update s.slots i _) i _
    registry := if add then Function.update s.registry fd (some (i, m)) else s.registry
    addStatus := s.addStatus ++ [0] } : State) = _
  rw [Function.update_idem]

/-- `eventdel` on a slot in use. -/
theorem eventdel_of_one {s : State} {i : ℕ} (h : (s.slots i).status = 1) (del : Bool) :
    eventdel s i del = { s with
      slots := Function.update s.slots i { s.slots i with status := 0 }
      registry := if del then Function.update s.registry (s.slots i).fd none else s.registry } := by
  rw [eventdel, if_neg (not_not.mpr h)]

/-- What is registered behind the two calls of `epoll_ctl`. -/
theorem registry_cases {registry : ℤ → Option (ℕ × Events)} {add : Bool} (del : Bool)
    {fd d : ℤ} {i j : ℕ} {m k : Events}
    (h : (if add then
        Function.update (if del then Function.update registry fd none else registry) fd (some (i, m))
      else if del then Function.update registry fd none else registry) d = some (j, k)) :
    registry d = some (j, k) ∨ (j = i ∧ fd = d ∧ k = m) := by
  have hdel : ∀ e, (if del then Function.update registry fd none else registry) e = some (j, k) →
      registry e = some (j, k) := by
    intro e he
    split_ifs at he
    · by_cases hed : e = fd
      · rw [hed, Function.update_self] at he
        cases he
      · rwa [Function.update_of_ne hed] at he
    · exact he
  cases add with
  | false => exact Or.inl (hdel d h)
  | true =>
      rw [if_pos rfl] at h
      by_cases hd : d = fd
      · rw [hd, Function.update_self, Option.some.injEq, Prod.mk.injEq] at h
        exact Or.inr ⟨h.1.symm, hd.symm, h.2.symm⟩
      · rw [Function.update_of_ne hd] at h
        exact Or.inl (hdel d h)

/-- A slot is set up for its next event. -/
theorem Holds.rearm {s : State} (h : Holds lfd s) {i : ℕ} {m : Events} {callBack : Callback}
    (hi : i < MAX_EVENTS) (hstatus : (s.slots i).status = 1)
    (hm : m = EPOLLIN ∨ m = EPOLLOUT)
    (hcb : callBack = Callback.recvdata ∨ callBack = Callback.senddata) (add del : Bool) :
    Holds lfd (eventadd ((eventdel s i del).eventset i (s.slots i).fd callBack i) m i add) ∧
      Keeps s (eventadd ((eventdel s i del).eventset i (s.slots i).fd callBack i) m i add) i := by
  rw [eventadd_eventset, eventdel_of_one hstatus]
  constructor
  · show Held lfd (Function.update (Function.update s.slots i _) i _) _ s.fds
    rw [Function.update_idem]
    refine Held.rearm h hi hstatus rfl rfl rfl (hcb.imp (congrArg some) (congrArg some)) ?_
    intro fd j k hnew
    refine (registry_cases _ hnew).imp_right ?_
    rintro ⟨hji, hfd, rfl⟩
    exact ⟨hji, hfd, hm⟩
  · refine ⟨?_, rfl, rfl⟩
    intro j _ hji _
    show Function.update (Function.update s.slots i _) i _ j = _
    rw [Function.update_of_ne hji, Function.update_of_ne hji]

/-- A client's descriptor is closed. -/
theorem Holds.retire {s : State} (h : Holds lfd s) {i : ℕ} (hi : i < MAX_EVENTS)
    (hstatus : (s.slots i).status = 1) (del : Bool) :
    Holds lfd (close (eventdel s i del) i) ∧ Keeps s (close (eventdel s i del) i) i := by
  have hfd : ((eventdel s i del).slots i).fd = (s.slots i).fd := by
    rw [eventdel_of_one hstatus]
    show (Function.update s.slots i _ i).fd = _
    rw [Function.update_self]
  rw [close, hfd, eventdel_of_one hstatus]
  constructor
  · refine Held.retire h hi hstatus (l := { s.slots i with status := 0 }) rfl ?_
    intro fd j k hnew
    change Function.update (if del then Function.update s.registry (s.slots i).fd none
      else s.registry) (s.slots i).fd none fd = some (j, k) at hnew
    by_cases hne : fd = (s.slots i).fd
    · rw [hne, Function.update_self] at hnew
      cases hnew
    · rw [Function.update_of_ne hne] at hnew
      refine ⟨?_, hne⟩
      split_ifs at hnew
      · rwa [Function.update_of_ne hne] at hnew
      · exact hnew
  · refine ⟨?_, rfl, rfl⟩
    intro j _ hji _
    exact Function.update_of_ne hji _ _

/-- What `accept` may return: -1, or a number that is not in use. -/
def Fresh (lfd : ℤ) (s : State) (cfd : ℤ) : Prop :=
  cfd = -1 ∨ (0 ≤ cfd ∧ cfd ≠ lfd ∧ s.fds.conn cfd = none)

theorem accepted_slots (s : State) (cfd : ℤ) : (s.accepted cfd).slots = s.slots := by
  rw [State.accepted]
  split_ifs <;> rfl

theorem accepted_registry (s : State) (cfd : ℤ) : (s.accepted cfd).registry = s.registry := by
  rw [State.accepted]
  split_ifs <;> rfl

theorem freeSlot_accepted (s : State) (cfd : ℤ) : (s.accepted cfd).freeSlot = s.freeSlot := by
  rw [State.freeSlot, accepted_slots]
  rfl

/-- **What `acceptconn` does.**  It does no more than `accept`, or sets up the first free
slot. -/
theorem acceptconn_cases {s s' : State} {o : Outcome} (hs : acceptconn s lfd o = some s') :
    Fresh lfd s o.ret ∧
      (((s.freeSlot = none ∨ o.fcntl = false) ∧ s' = s.accepted o.ret) ∨
        ∃ i, s.freeSlot = some i ∧ o.fcntl = true ∧ s' = { s.accepted o.ret with
          slots := Function.update s.slots i
            ⟨o.ret, EPOLLIN, some i, some Callback.recvdata, 1, [], 0⟩
          registry := if o.add then Function.update s.registry o.ret (some (i, EPOLLIN))
            else s.registry
          addStatus := (s.accepted o.ret).addStatus ++ [0] }) := by
  unfold acceptconn at hs
  split_ifs at hs with hguard
  refine ⟨hguard, ?_⟩
  rw [Option.some.injEq] at hs
  unfold register at hs
  rw [freeSlot_accepted] at hs
  rcases hslot : s.freeSlot with _ | i
  · rw [hslot] at hs
    exact Or.inl ⟨Or.inl rfl, hs.symm⟩
  · rw [hslot] at hs
    change (if o.fcntl = true then _ else s.accepted o.ret) = s' at hs
    split_ifs at hs with hfcntl
    · rw [eventadd_eventset, accepted_slots, accepted_registry] at hs
      exact Or.inr ⟨i, rfl, hfcntl, hs.symm⟩
    · exact Or.inl ⟨Or.inr (Bool.eq_false_of_not_eq_true hfcntl), hs.symm⟩

/-- No slot in use holds the new descriptor. -/
theorem Holds.fd_ne_of_fresh {s : State} (h : Holds lfd s) {cfd : ℤ} (hnew : Fresh lfd s cfd)
    (hcfd : cfd ≠ -1) {j : ℕ} (hj : j ≤ MAX_EVENTS) (hsj : (s.slots j).status = 1) :
    (s.slots j).fd ≠ cfd := by
  obtain ⟨-, hne, hconn⟩ := hnew.resolve_left hcfd
  rintro rfl
  -- a client in use is open, and the listener is not what `accept` returns
  rcases hj.lt_or_eq with hlt | rfl
  · rcases (h.client j hlt hsj).2.2 with hminus | hopen
    · exact hcfd hminus
    · exact hopen hconn
  · exact hne h.listener.1

/-- A new connection gets a number. -/
theorem Holds.accepted {s : State} (h : Holds lfd s) {cfd : ℤ} (hnew : Fresh lfd s cfd) :
    Holds lfd (s.accepted cfd) := by
  by_cases hcfd : cfd = -1
  · rw [State.accepted, if_pos hcfd]
    exact h
  · rw [State.accepted, if_neg hcfd]
    obtain ⟨-, hne, -⟩ := hnew.resolve_left hcfd
    refine ⟨h.owner, ?_, h.distinct, h.listener, ?_⟩
    · intro i hi hstatus
      obtain ⟨harg, hcb, hfd⟩ := h.client i hi hstatus
      refine ⟨harg, hcb, hfd.imp_right (fun hopen => ?_)⟩
      show (s.fds.accept cfd).conn (s.slots i).fd ≠ none
      by_cases heq : (s.slots i).fd = cfd
      · rw [heq, s.fds.conn_accept_self]
        exact Option.some_ne_none _
      · rw [s.fds.conn_accept_of_ne heq]
        exact hopen
    · show (s.fds.accept cfd).conn lfd = none
      rw [s.fds.conn_accept_of_ne hne.symm]
      exact h.noConn

/-- `acceptconn` leaves the slots in use alone. -/
theorem Holds.acceptconn {s s' : State} (h : Holds lfd s) {o : Outcome}
    (hs : acceptconn s lfd o = some s') (p : ℕ) : Holds lfd s' ∧ Keeps s s' p := by
  obtain ⟨hnew, ⟨-, rfl⟩ | ⟨i, hslot, -, rfl⟩⟩ := acceptconn_cases hs
  · refine ⟨h.accepted hnew, ?_, ?_, ?_⟩
    · intro j _ _ _
      rw [accepted_slots]
    all_goals
      rw [State.accepted]
      split_ifs <;> rfl
  · obtain ⟨hi, hfree⟩ := freeSlot_eq_some hslot
    have hacc : Held lfd s.slots s.registry (s.accepted o.ret).fds := by
      have := h.accepted hnew
      rwa [Holds, accepted_slots, accepted_registry] at this
    refine ⟨?_, ?_, ?_, ?_⟩
    · refine Held.setUp hacc hi hfree
        (l := ⟨o.ret, EPOLLIN, some i, some Callback.recvdata, 1, [], 0⟩) rfl rfl (Or.inl rfl) ?_ ?_
      · by_cases hcfd : o.ret = -1
        · exact Or.inl hcfd
        · right
          refine ⟨?_, fun j hj hsj => h.fd_ne_of_fresh hnew hcfd hj.le hsj⟩
          rw [State.accepted, if_neg hcfd]
          show (s.fds.accept o.ret).conn o.ret ≠ none
          rw [s.fds.conn_accept_self]
          exact Option.some_ne_none _
      · intro fd j m hreg
        refine (registry_cases false hreg).imp_right ?_
        rintro ⟨hji, hfd, rfl⟩
        exact ⟨hji, hfd, Or.inl rfl⟩
    · intro j _ _ hsj
      apply Function.update_of_ne
      rintro rfl
      rw [hfree] at hsj
      cases hsj
    all_goals
      show _ = _
      rw [State.accepted]
      split_ifs <;> rfl

/-- **One callback**, of a slot in use. -/
theorem Holds.call {s s' : State} (h : Holds lfd s) {p : ℕ} (hp : p ≤ MAX_EVENTS)
    (hstatus : (s.slots p).status = 1) {o : Outcome} (hs : call s p o = some s') :
    Holds lfd s' ∧ Keeps s s' p := by
  unfold AnyOutcome.call at hs
  rcases hp.lt_or_eq with hlt | rfl
  · obtain ⟨harg, hcb | hcb, -⟩ := h.client p hlt hstatus
    · rw [hcb, harg] at hs
      -- the client is read
      change recvdata s (s.slots p).fd p o = some s' at hs
      rw [recvdata] at hs
      split_ifs at hs
      · rw [← Option.some.inj hs, store_eventset]
        exact h.rearm hlt hstatus (Or.inr rfl) (Or.inr rfl) o.add o.del
      · rw [← Option.some.inj hs]
        exact h.retire hlt hstatus o.del
    · rw [hcb, harg] at hs
      -- the client is written to
      change senddata s (s.slots p).fd p o = some s' at hs
      rw [senddata] at hs
      split_ifs at hs
      · rw [← Option.some.inj hs]
        exact h.rearm hlt hstatus (Or.inl rfl) (Or.inl rfl) o.add o.del
      · rw [← Option.some.inj hs]
        exact h.retire hlt hstatus o.del
  · obtain ⟨hfd, hcb, -⟩ := h.listener
    rw [hcb, hfd] at hs
    exact h.acceptconn hs MAX_EVENTS

/-! ## The batch -/

/-- An entry of the batch stands for a slot in use, and for one kind of event. -/
def Pending (s : State) (e : Event) : Prop :=
  e.ptr ≤ MAX_EVENTS ∧ (s.slots e.ptr).status = 1 ∧ (s.slots e.ptr).fd = e.fd ∧
    (e.events.epollin = true → e.events.epollout = false)

/-- The slots in use, and the events of the batch.  The event in turn may have had its
callback already, and does not pass the second test then. -/
structure Inv (lfd : ℕ) (s : State) : Prop where
  holds : Holds lfd s
  batch : (s.batch.map Event.fd).Nodup
  turn : ∀ e rest, s.batch = e :: rest →
    (Pending s e ∨ (s.second = true ∧ e.events.epollout = false)) ∧ ∀ x ∈ rest, Pending s x

/-- A callback for another slot leaves a pending event pending. -/
theorem Pending.kept {s s' : State} {x e : Event} (hx : Pending s x) (he : Pending s e)
    (h : Keeps s s' e.ptr) (hne : x.fd ≠ e.fd) : Pending s' x := by
  have hptr : x.ptr ≠ e.ptr := by
    intro heq
    apply hne
    rw [← hx.2.2.1, ← he.2.2.1, heq]
  have hslot := h.slots x.ptr hx.1 hptr hx.2.1
  refine ⟨hx.1, ?_, ?_, hx.2.2.2⟩
  · rw [hslot]
    exact hx.2.1
  · rw [hslot]
    exact hx.2.2.1

/-- `epoll_wait` reports slots in use. -/
theorem Inv.wait {s s' : State} (h : Inv lfd s) {events : List (ℤ × Events)}
    (hs : s.wait events = some s') : Inv lfd s' := by
  rw [State.wait] at hs
  split_ifs at hs with hguard
  obtain ⟨-, hnodup, hall⟩ := hguard
  rw [Option.some.injEq] at hs
  subst hs
  have hpending : ∀ x ∈ events.map (fun e =>
      (⟨((s.registry e.1).map Prod.fst).getD 0, e.2, e.1, s.fds.conn e.1⟩ : Event)), Pending s x := by
    intro x hx
    obtain ⟨e, he, rfl⟩ := List.mem_map.mp hx
    have hrep := List.all_eq_true.mp hall e he
    unfold State.reportable at hrep
    rcases hreg : s.registry e.1 with _ | ⟨i, m⟩
    · rw [hreg] at hrep
      cases hrep
    · rw [hreg] at hrep
      obtain ⟨hi, hstatus, hfd, hm⟩ := h.holds.owner e.1 i m hreg
      refine ⟨hi, hstatus, hfd, ?_⟩
      intro hin
      change e.2.epollin = true at hin
      change e.2.epollout = false
      change ((!e.2.epollin || m.epollin) && (!e.2.epollout || m.epollout)) = true at hrep
      rw [hin] at hrep
      -- a slot is registered for one kind of event
      rcases hm with rfl | rfl
      · simpa using hrep
      · simp at hrep
  refine ⟨h.holds, ?_, ?_⟩
  · show ((events.map _).map Event.fd).Nodup
    rw [List.map_map]
    exact hnodup
  · intro e rest heq
    rw [show events.map _ = e :: rest from heq] at hpending
    exact ⟨Or.inl (hpending e List.mem_cons_self),
      fun x hx => hpending x (List.mem_cons_of_mem e hx)⟩

/-- A callback for the event in turn, which is pending: the others are still pending. -/
theorem Inv.fire {s s' : State} (h : Inv lfd s) {e : Event} {rest : List Event} {o : Outcome}
    (hbatch : s.batch = e :: rest) (he : Pending s e) (hs : fire s e.ptr o = some s') :
    Holds lfd s' ∧ s'.batch = e :: rest ∧ ∀ x ∈ rest, Pending s' x := by
  obtain ⟨s₁, hcall, rfl⟩ := Option.map_eq_some_iff.mp hs
  obtain ⟨hholds, hkeeps⟩ := h.holds.call he.1 he.2.1 hcall
  refine ⟨hholds, hkeeps.batch.trans hbatch, ?_⟩
  intro x hx
  -- the batch names every descriptor once
  have hne : x.fd ≠ e.fd := by
    have hnodup := h.batch
    rw [hbatch, List.map_cons, List.nodup_cons] at hnodup
    intro heq
    exact hnodup.1 (heq ▸ List.mem_map_of_mem hx)
  have hkept : Pending s₁ x := ((h.turn e rest hbatch).2 x hx).kept he hkeeps hne
  exact hkept

theorem Inv.testIn {s s' : State} (h : Inv lfd s) {o : Outcome} (hs : testIn s o = some s') :
    Inv lfd s' := by
  unfold AnyOutcome.testIn at hs
  split at hs
  · rename_i e rest hbatch hsecond
    obtain ⟨hturn, hrest⟩ := h.turn e rest hbatch
    have he : Pending s e := by
      rcases hturn with he | ⟨hno, -⟩
      · exact he
      · rw [hsecond] at hno
        cases hno
    split_ifs at hs with htest
    · rw [Bool.and_eq_true] at htest
      obtain ⟨s₁, hfire, rfl⟩ := Option.map_eq_some_iff.mp hs
      obtain ⟨hholds, hbatch', hpending⟩ := h.fire hbatch he hfire
      refine ⟨hholds, ?_, ?_⟩
      · show (s₁.batch.map Event.fd).Nodup
        rw [hbatch', ← hbatch]
        exact h.batch
      · intro e' rest' heq
        rw [show s₁.batch = e' :: rest' from heq, List.cons.injEq] at hbatch'
        obtain ⟨rfl, rfl⟩ := hbatch'
        -- an event with EPOLLIN has no EPOLLOUT: it does not pass the second test
        exact ⟨Or.inr ⟨rfl, he.2.2.2 htest.1⟩, hpending⟩
    · rw [← Option.some.inj hs]
      refine ⟨h.holds, h.batch, ?_⟩
      intro e' rest' heq
      rw [show s.batch = e' :: rest' from heq, List.cons.injEq] at hbatch
      obtain ⟨rfl, rfl⟩ := hbatch
      exact ⟨Or.inl he, hrest⟩
  · cases hs

/-- The loop goes on to the next event, which is pending. -/
theorem inv_next {s : State} {e : Event} {rest : List Event} (hholds : Holds lfd s)
    (hnodup : ((e :: rest).map Event.fd).Nodup) (hrest : ∀ x ∈ rest, Pending s x) :
    Inv lfd (s.next e rest) := by
  rw [List.map_cons, List.nodup_cons] at hnodup
  refine ⟨hholds, hnodup.2, ?_⟩
  intro e' rest' heq
  rw [show rest = e' :: rest' from heq] at hrest
  exact ⟨Or.inl (hrest e' List.mem_cons_self), fun x hx => hrest x (List.mem_cons_of_mem e' hx)⟩

theorem Inv.testOut {s s' : State} (h : Inv lfd s) {o : Outcome} (hs : testOut s o = some s') :
    Inv lfd s' := by
  unfold AnyOutcome.testOut at hs
  split at hs
  · rename_i e rest hbatch hsecond
    obtain ⟨hturn, hrest⟩ := h.turn e rest hbatch
    have hnodup : ((e :: rest).map Event.fd).Nodup := hbatch ▸ h.batch
    split_ifs at hs with htest
    · rw [Bool.and_eq_true] at htest
      have he : Pending s e := by
        rcases hturn with he | ⟨-, hno⟩
        · exact he
        · rw [hno] at htest
          cases htest.1
      obtain ⟨s₁, hfire, rfl⟩ := Option.map_eq_some_iff.mp hs
      obtain ⟨hholds, -, hpending⟩ := h.fire hbatch he hfire
      exact inv_next hholds hnodup hpending
    · rw [← Option.some.inj hs]
      exact inv_next h.holds hnodup hrest
  · cases hs

/-- **One step keeps the invariant**, whatever fails. -/
theorem Inv.step {s s' : State} (h : Inv lfd s) {a : Label} (hs : step a s = some s') :
    Inv lfd s' := by
  cases a with
  | wait events => exact h.wait hs
  | testIn o => exact h.testIn hs
  | testOut o => exact h.testOut hs

/-- The server starts with the slot of the listener. -/
theorem inv_start (lfd : ℕ) (add : Bool) : Inv lfd (start lfd add) := by
  have hslots : (start lfd add).slots = Function.update zeros.slots MAX_EVENTS
      ⟨lfd, EPOLLIN, some MAX_EVENTS, some Callback.acceptconn, 1, [], 0⟩ := by
    rw [start, eventadd_eventset]
  have hregistry : (start lfd add).registry = if add then
      Function.update zeros.registry lfd (some (MAX_EVENTS, EPOLLIN)) else zeros.registry := by
    rw [start, eventadd_eventset]
  have hbatch : (start lfd add).batch = [] := by
    rw [start, eventadd_eventset]
    rfl
  have hfree : ∀ i < MAX_EVENTS, ((start lfd add).slots i).status ≠ 1 := by
    intro i hi
    rw [hslots, Function.update_of_ne hi.ne]
    exact Nat.zero_ne_one
  refine ⟨⟨?_, ?_, ?_, ?_, ?_⟩, ?_, ?_⟩
  · intro fd i m hreg
    rw [hregistry] at hreg
    split_ifs at hreg
    · by_cases hfd : fd = (lfd : ℤ)
      · rw [hfd, Function.update_self, Option.some.injEq, Prod.mk.injEq] at hreg
        rw [← hreg.1, ← hreg.2, hslots, Function.update_self]
        exact ⟨le_rfl, rfl, hfd.symm, Or.inl rfl⟩
      · rw [Function.update_of_ne hfd] at hreg
        cases hreg
    · cases hreg
  · intro i hi hstatus
    exact absurd hstatus (hfree i hi)
  · intro i hi _ _ hstatus
    exact absurd hstatus (hfree i hi)
  · rw [hslots, Function.update_self]
    exact ⟨rfl, rfl, rfl⟩
  · rw [start, eventadd_eventset]
    rfl
  · rw [hbatch]
    exact List.nodup_nil
  · intro e rest heq
    rw [hbatch] at heq
    cases heq

/-- **In every run the slots in use are held**, whatever fails. -/
theorem holds_of_reach {ok : State → Label → Prop} {add : Bool} {s : State}
    (h : Reach step ok (start lfd add) s) : Holds lfd s :=
  (h.invariant (inv_start lfd add) (fun _ _ _ hinv _ hstep => hinv.step hstep)).holds

/-! ## All or nothing -/

/-- A slot is in use for the new descriptor, which is registered with it, and no other
slot holds it; or every slot is as free as it was, and no new descriptor is open. -/
def AllOrNothing (s s' : State) (cfd : ℤ) : Prop :=
  (0 ≤ cfd ∧ ∃ i ≤ MAX_EVENTS, (∃ m, s'.registry cfd = some (i, m)) ∧
    ((s'.slots i).status = 1 ∧ (s'.slots i).fd = cfd) ∧
    ∀ j ≤ MAX_EVENTS, (s'.slots j).status = 1 → (s'.slots j).fd = cfd → j = i) ∨
  ((∀ i ≤ MAX_EVENTS, (s'.slots i).status = (s.slots i).status) ∧
    (cfd = -1 ∨ s'.fds.conn cfd = none))

/-- Everything succeeds and a slot is free; or `accept` fails, and there is no slot or
`fcntl` refuses -1. -/
def AllSucceed (s : State) (o : Outcome) : Prop :=
  if o.ret = -1 then s.freeSlot = none ∨ o.fcntl = false
  else s.freeSlot ≠ none ∧ o.fcntl = true ∧ o.add = true

/-- A client that is accepted and no more is open and in no slot. -/
theorem Holds.not_allOrNothing_accepted {s : State} (h : Holds lfd s) {cfd : ℤ}
    (hnew : Fresh lfd s cfd) (hcfd : cfd ≠ -1) : ¬ AllOrNothing s (s.accepted cfd) cfd := by
  rintro (⟨-, i, hi, -, ⟨hstatus, hfd⟩, -⟩ | ⟨-, hminus | hclosed⟩)
  · rw [accepted_slots] at hstatus hfd
    exact h.fd_ne_of_fresh hnew hcfd hi hstatus hfd
  · exact hcfd hminus
  · rw [State.accepted, if_neg hcfd] at hclosed
    change (s.fds.accept cfd).conn cfd = none at hclosed
    rw [s.fds.conn_accept_self] at hclosed
    cases hclosed

/-- **A free slot that is set up** is in use, and so has to be for a client that is
registered. -/
theorem Holds.allOrNothing_setUp_iff {s s' : State} (h : Holds lfd s) {cfd : ℤ}
    (hnew : Fresh lfd s cfd) {i : ℕ} (hi : i < MAX_EVENTS) (hfree : (s.slots i).status = 0)
    {l : Slot} (hl : l.status = 1) (hlfd : l.fd = cfd) {add : Bool}
    (hslots : s'.slots = Function.update s.slots i l)
    (hregistry : s'.registry = if add then Function.update s.registry cfd (some (i, EPOLLIN))
      else s.registry) :
    AllOrNothing s s' cfd ↔ cfd ≠ -1 ∧ add = true := by
  have hself : s'.slots i = l := by rw [hslots, Function.update_self]
  constructor
  · rintro (⟨hpos, j, hj, ⟨m, hreg⟩, -, -⟩ | ⟨hall, -⟩)
    · have hcfd : cfd ≠ -1 := by omega
      refine ⟨hcfd, ?_⟩
      by_contra hadd
      -- without `epoll_ctl` it would have been registered before
      rw [hregistry, if_neg hadd] at hreg
      obtain ⟨hj', hstatus, hfd, -⟩ := h.owner cfd j m hreg
      exact h.fd_ne_of_fresh hnew hcfd hj' hstatus hfd
    · have hsame := hall i hi.le
      rw [hself, hl, hfree] at hsame
      cases hsame
  · rintro ⟨hcfd, hadd⟩
    refine Or.inl ⟨(hnew.resolve_left hcfd).1, i, hi.le, ⟨EPOLLIN, ?_⟩, ?_, ?_⟩
    · rw [hregistry, if_pos hadd, Function.update_self]
    · rw [hself]
      exact ⟨hl, hlfd⟩
    · intro j hj hstatus hfd
      by_contra hji
      rw [hslots, Function.update_of_ne hji] at hstatus hfd
      exact h.fd_ne_of_fresh hnew hcfd hj hstatus hfd

/-- What `acceptconn` does where the slots in use are held. -/
theorem Holds.iff_allSucceed {s s' : State} (h : Holds lfd s) {o : Outcome}
    (hs : AnyOutcome.acceptconn s lfd o = some s') :
    AllOrNothing s s' o.ret ↔ AllSucceed s o := by
  rw [AllSucceed]
  obtain ⟨hnew, ⟨hstop, rfl⟩ | ⟨i, hslot, hfcntl, rfl⟩⟩ := acceptconn_cases hs
  · by_cases hcfd : o.ret = -1
    · rw [if_pos hcfd]
      refine iff_of_true (Or.inr ⟨fun i _ => ?_, Or.inl hcfd⟩) hstop
      rw [accepted_slots]
    · rw [if_neg hcfd]
      refine iff_of_false (h.not_allOrNothing_accepted hnew hcfd) ?_
      rintro ⟨hsome, hfcntl, -⟩
      rcases hstop with hnone | hrefused
      · exact hsome hnone
      · rw [hfcntl] at hrefused
        cases hrefused
  · obtain ⟨hi, hfree⟩ := freeSlot_eq_some hslot
    rw [h.allOrNothing_setUp_iff hnew hi hfree rfl rfl rfl rfl, hslot, hfcntl]
    by_cases hcfd : o.ret = -1
    · rw [if_pos hcfd]
      refine iff_of_false (fun hok => hok.1 hcfd) ?_
      rintro (hnone | hrefused)
      · cases hnone
      · cases hrefused
    · rw [if_neg hcfd]
      constructor
      · rintro ⟨-, hadd⟩
        exact ⟨Option.some_ne_none i, rfl, hadd⟩
      · rintro ⟨-, -, hadd⟩
        exact ⟨hcfd, hadd⟩

/-- **Accepting is all or nothing** exactly if everything succeeds and a slot is free, or
`accept` fails and what follows it stops: in every state that is reached, whatever has
failed on the way. -/
theorem allOrNothing_iff {add : Bool} {s s' : State} (hreach : Reachable step (start lfd add) s)
    {o : Outcome} (hs : acceptconn s lfd o = some s') :
    AllOrNothing s s' o.ret ↔ AllSucceed s o :=
  (holds_of_reach hreach).iff_allSucceed hs

/-- The descriptor 4 is accepted, and these calls succeed or fail. -/
def accepting (fcntl add : Bool) : Outcome := ⟨⟨4, [], fcntl⟩, add, true⟩

theorem freeSlot_start : (start 3 true).freeSlot = some 0 := by decide +kernel

/-- The server can accept its first client. -/
theorem exists_acceptconn_start (o : Outcome) (h : o.ret = 4) :
    ∃ s', acceptconn (start 3 true) (3 : ℕ) o = some s' := by
  refine ⟨_, if_pos (Or.inr ?_)⟩
  rw [h]
  exact ⟨by decide, by decide, rfl⟩

/-- The first client is accepted, if nothing fails. -/
theorem allOrNothing_first :
    ∃ s', acceptconn (start 3 true) (3 : ℕ) (accepting true true) = some s' ∧
      AllOrNothing (start 3 true) s' 4 := by
  obtain ⟨s', hs⟩ := exists_acceptconn_start (accepting true true) rfl
  have hsome : (start 3 true).freeSlot ≠ none := by
    rw [freeSlot_start]
    exact Option.some_ne_none 0
  have hok : AllSucceed (start 3 true) (accepting true true) := ⟨hsome, rfl, rfl⟩
  exact ⟨s', hs, (allOrNothing_iff Reach.start hs).mpr hok⟩

/-- **A client that `fcntl` or `epoll_ctl` refuses is neither kept nor closed.** -/
theorem refused_client_stays_open :
    (∃ s', acceptconn (start 3 true) (3 : ℕ) (accepting false true) = some s' ∧
      s'.fds.conn 4 ≠ none ∧ ¬ AllOrNothing (start 3 true) s' 4) ∧
    ∃ s', acceptconn (start 3 true) (3 : ℕ) (accepting true false) = some s' ∧
      s'.registry 4 = none ∧ (s'.slots 0).status = 1 ∧ ¬ AllOrNothing (start 3 true) s' 4 := by
  have hholds : Holds 3 (start 3 true) := (inv_start 3 true).holds
  constructor
  · refine ⟨_, rfl, ?_, ?_⟩
    · decide +kernel
    · intro hall
      have hok := (hholds.iff_allSucceed (o := accepting false true) rfl).mp hall
      cases hok.2.1
  · refine ⟨_, rfl, ?_, ?_, ?_⟩
    · decide +kernel
    · decide +kernel
    · intro hall
      have hok := (hholds.iff_allSucceed (o := accepting true false) rfl).mp hall
      cases hok.2.2

end AnyOutcome

end Reactor
