/-
# What the reactor echoes (`epoll_et/server3.c`)

`recvdata` stores what a client has sent in its slot, and then sets the slot up for
`senddata` with `eventset`, which clears `buf` and `len`.  So `senddata` offers no byte to
`send`, `send` returns 0, and the connection is closed.

The reactor runs as in the slot table, with histories: the bytes received and sent on
each connection, the two when `senddata` sets the slot up for `EPOLLIN` again, the
results of `recv` and `send` on which a connection has been closed, and the indices at
which `recvdata` has stored a NUL.

* `sent_nil_of_reach`: nothing is ever sent back;
* `echoOk_iff_unharmed`: the echo is as it should be as long as no `recv` fills the
  buffer and no `send` returns 0, and fails at the first step at which one does.
-/
import NetStudy.ReactorTable

namespace Reactor

open Transition Descriptors

/-! ## The reactor with histories -/

/-- A result on which a connection is closed. -/
inductive Closing
  | recv (ret : ℤ)
  | send (ret : ℤ)
  deriving DecidableEq

/-- The end of the file, which only `recv` reports, or an error. -/
def Closing.Reported : Closing → Prop
  | recv ret => ret ≤ 0
  | send ret => ret < 0

/-- The reactor and its histories.  What happens on a descriptor without a connection
behind it is kept under `none`. -/
structure Echo where
  table : State
  received : Option ℕ → List UInt8
  sent : Option ℕ → List UInt8
  rearmed : List (List UInt8 × List UInt8)
  closes : List Closing
  indices : List ℤ

/-- Line 132 with line 138, or lines 144-152. -/
def Echo.noteRecv (e : Echo) (k : Option ℕ) (a : Answer) : Echo :=
  if 0 < a.ret then
    { e with
      received := Function.update e.received k (e.received k ++ a.data)
      indices := e.indices ++ [a.ret] }
  else { e with closes := e.closes ++ [Closing.recv a.ret] }

/-- Line 160 with the bytes that `send` has taken from `buf`, or lines 170-172. -/
def Echo.noteSend (e : Echo) (k : Option ℕ) (buf : List UInt8) (a : Answer) : Echo :=
  if 0 < a.ret then
    { e with
      sent := Function.update e.sent k (e.sent k ++ buf.take a.ret.toNat)
      rearmed := e.rearmed ++ [(e.received k, e.sent k ++ buf.take a.ret.toNat)] }
  else { e with closes := e.closes ++ [Closing.send a.ret] }

/-- What is noted when the callback of a slot is called. -/
def Echo.note (e : Echo) (ev : ℕ) (a : Answer) : Echo :=
  match (e.table.slots ev).callBack, (e.table.slots ev).arg with
  | some Callback.recvdata, some _ => e.noteRecv (e.table.fds.conn (e.table.slots ev).fd) a
  | some Callback.senddata, some arg =>
      e.noteSend (e.table.fds.conn (e.table.slots ev).fd) (e.table.slots arg).buf a
  | _, _ => e

/-- The slot whose callback a step calls, and the answer it gets. -/
def State.firing (s : State) : Label → Option (ℕ × Answer)
  | .wait _ => none
  | .testIn a =>
      match s.batch, s.second with
      | e :: _, false =>
          if e.events.epollin && (s.slots e.ptr).events.epollin then some (e.ptr, a) else none
      | _, _ => none
  | .testOut a =>
      match s.batch, s.second with
      | e :: _, true =>
          if e.events.epollout && (s.slots e.ptr).events.epollout then some (e.ptr, a) else none
      | _, _ => none

/-- The histories behind a step. -/
def Echo.noted (e : Echo) (l : Label) : Echo :=
  match e.table.firing l with
  | some (ev, a) => e.note ev a
  | none => e

/-- One step. -/
def echoStep (l : Label) (e : Echo) : Option Echo :=
  (step l e.table).map (fun s => { e.noted l with table := s })

/-- Behind `initlistensocket`. -/
def startEcho (lfd : ℕ) : Echo := ⟨start lfd, fun _ => [], fun _ => [], [], [], []⟩

/-! ## The law -/

/-- The echo is as it should be. -/
structure EchoOk (e : Echo) : Prop where
  /-- What has been sent on a connection is a beginning of what has been received. -/
  sent : ∀ k, e.sent k <+: e.received k
  /-- When a slot waits for `EPOLLIN` again, everything has been sent back. -/
  rearmed : ∀ w ∈ e.rearmed, w.2 = w.1
  /-- A connection is closed after the end of the file or an error. -/
  closes : ∀ c ∈ e.closes, c.Reported
  /-- `buf` is indexed inside. -/
  indices : ∀ n ∈ e.indices, n < BUFLEN

/-- The condition on a step: a `recv` does not fill the buffer, and a `send` does not
return 0. -/
def unharmed (e : Echo) (l : Label) : Bool :=
  match e.table.firing l with
  | none => true
  | some (ev, a) =>
      match (e.table.slots ev).callBack, (e.table.slots ev).arg with
      | some Callback.recvdata, some _ => decide (a.ret < BUFLEN)
      | some Callback.senddata, some _ => decide (a.ret ≠ 0)
      | _, _ => true

/-! ## The slots are empty -/

/-- No slot has anything to send. -/
def LenZero (s : State) : Prop := ∀ i, (s.slots i).len = 0

/-- One slot changes, and it is empty as well. -/
theorem LenZero.update {s s' : State} (h : LenZero s) {i : ℕ} {l : Slot} (hl : l.len = 0)
    (hs : s'.slots = Function.update s.slots i l) : LenZero s' := by
  rw [LenZero, hs]
  apply (Function.forall_update_iff s.slots (fun _ l => l.len = 0)).mpr
  constructor
  · exact hl
  · intro j _
    exact h j

/-- **`eventset` clears the slot**, whatever it holds. -/
theorem LenZero.eventset {s : State} (h : LenZero s) (i : ℕ) (fd : ℤ) (callBack : Callback)
    (arg : ℕ) : LenZero (s.eventset i fd callBack arg) := h.update rfl rfl

theorem LenZero.eventadd {s : State} (h : LenZero s) (m : Events) (i : ℕ) :
    LenZero (s.eventadd m i) := by
  rw [State.eventadd]
  split_ifs
  · exact h.update (l := { s.slots i with events := m, status := 1 }) (h i) rfl
  · exact h.update (l := { s.slots i with events := m }) (h i) rfl

theorem LenZero.eventdel {s : State} (h : LenZero s) (i : ℕ) : LenZero (s.eventdel i) := by
  rw [State.eventdel]
  split_ifs
  · exact h
  · exact h.update (l := { s.slots i with status := 0 }) (h i) rfl

/-- **The slots stay empty**: what `recv` stores does not outlive the callback. -/
theorem LenZero.call {s s' : State} (h : LenZero s) {ev : ℕ} {a : Answer}
    (hs : s.call ev a = some s') : LenZero s' := by
  unfold State.call at hs
  split at hs
  · -- `acceptconn`
    unfold State.acceptconn at hs
    split_ifs at hs
    rw [← Option.some.inj hs]
    have hacc : LenZero (s.accepted a.ret) := by
      rw [State.accepted]
      split_ifs <;> exact h
    unfold State.register
    split
    · exact hacc
    · split_ifs
      · exact (hacc.eventset _ _ _ _).eventadd _ _
      · exact hacc
  · -- `recvdata`
    unfold State.recvdata at hs
    split_ifs at hs
    · rw [← Option.some.inj hs, store_eventset]
      exact ((h.eventdel _).eventset _ _ _ _).eventadd _ _
    · rw [← Option.some.inj hs]
      exact h.eventdel _
  · -- `senddata`
    unfold State.senddata at hs
    split_ifs at hs
    · rw [← Option.some.inj hs]
      exact ((h.eventdel _).eventset _ _ _ _).eventadd _ _
    · rw [← Option.some.inj hs]
      exact h.eventdel _
  · cases hs

/-- The slots behind a call that is noted in the table. -/
theorem slots_of_fire {s s' : State} {ev : ℕ} {a : Answer} {f : State → State}
    (hs : (s.fire ev a).map f = some s') (hf : ∀ s, (f s).slots = s.slots) :
    ∃ s₁, s.call ev a = some s₁ ∧ s'.slots = s₁.slots := by
  obtain ⟨s₁, hfired, rfl⟩ := Option.map_eq_some_iff.mp hs
  obtain ⟨s₂, hcall, rfl⟩ := fire_eq_some hfired
  exact ⟨s₂, hcall, hf _⟩

/-- A step calls a callback, or leaves the slots alone. -/
theorem step_slots {s s' : State} {l : Label} (hs : step l s = some s') :
    (∃ ev a s₁, s.firing l = some (ev, a) ∧ s.call ev a = some s₁ ∧ s'.slots = s₁.slots) ∨
      (s.firing l = none ∧ s'.slots = s.slots) := by
  cases l with
  | wait events =>
      right
      change s.wait events = some s' at hs
      unfold State.wait at hs
      split_ifs at hs
      rw [← Option.some.inj hs]
      exact ⟨rfl, rfl⟩
  | testIn a =>
      change s.testIn a = some s' at hs
      unfold State.testIn at hs
      unfold State.firing
      split at hs
      · next e rest hbatch hsecond =>
        rw [hbatch, hsecond]
        split_ifs at hs with hfire
        · obtain ⟨s₁, hcall, hslots⟩ := slots_of_fire hs (fun _ => rfl)
          exact Or.inl ⟨e.ptr, a, s₁, if_pos hfire, hcall, hslots⟩
        · rw [← Option.some.inj hs]
          exact Or.inr ⟨if_neg hfire, rfl⟩
      · cases hs
  | testOut a =>
      change s.testOut a = some s' at hs
      unfold State.testOut at hs
      unfold State.firing
      split at hs
      · next e rest hbatch hsecond =>
        rw [hbatch, hsecond]
        split_ifs at hs with hfire
        · obtain ⟨s₁, hcall, hslots⟩ := slots_of_fire hs (fun _ => rfl)
          exact Or.inl ⟨e.ptr, a, s₁, if_pos hfire, hcall, hslots⟩
        · rw [← Option.some.inj hs]
          exact Or.inr ⟨if_neg hfire, rfl⟩
      · cases hs

theorem LenZero.step {s s' : State} (h : LenZero s) {l : Label} (hs : step l s = some s') :
    LenZero s' := by
  intro i
  rcases step_slots hs with ⟨ev, a, s₁, -, hcall, hslots⟩ | ⟨-, hslots⟩
  · rw [hslots]
    exact h.call hcall i
  · rw [hslots]
    exact h i

/-! ## What a step notes -/

/-- `send` cannot take more than it is offered. -/
theorem call_senddata_bounds {s s' : State} {ev arg : ℕ} {a : Answer}
    (hs : s.call ev a = some s') (hcb : (s.slots ev).callBack = some Callback.senddata)
    (harg : (s.slots ev).arg = some arg) : a.ret ≤ (s.slots arg).len := by
  rw [State.call, hcb, harg] at hs
  change s.senddata (s.slots ev).fd arg a = some s' at hs
  unfold State.senddata at hs
  split at hs
  · next hret => exact hret.2
  · cases hs

/-- What is noted of a step: nothing is sent, and the histories of closing and of the
indices grow by one entry at most, which is as it should be exactly if the step is
unharmed. -/
structure Noted (e : Echo) (l : Label) (e' : Echo) : Prop where
  sent : e'.sent = e.sent
  rearmed : e'.rearmed = e.rearmed
  entry :
    (unharmed e l = true ∧ e'.closes = e.closes ∧ e'.indices = e.indices) ∨
    (∃ n : ℤ, (unharmed e l = true ↔ n < BUFLEN) ∧ e'.closes = e.closes ∧
      e'.indices = e.indices ++ [n]) ∨
    ∃ c : Closing, (unharmed e l = true ↔ c.Reported) ∧ e'.closes = e.closes ++ [c] ∧
      e'.indices = e.indices

/-- A step that calls no callback notes nothing. -/
theorem noted_of_firing_none {e : Echo} {l : Label} (hfire : e.table.firing l = none) :
    Noted e l (e.noted l) := by
  have hnoted : e.noted l = e := by
    rw [Echo.noted, hfire]
  have hun : unharmed e l = true := by
    rw [unharmed, hfire]
  rw [hnoted]
  exact ⟨rfl, rfl, Or.inl ⟨hun, rfl, rfl⟩⟩

/-- Lines 132-154: the index, or the result on which the connection is closed. -/
theorem noted_recv {e : Echo} {l : Label} {k : Option ℕ} {a : Answer}
    (hun : unharmed e l = true ↔ a.ret < BUFLEN) : Noted e l (e.noteRecv k a) := by
  rw [Echo.noteRecv]
  split_ifs with hret
  · exact ⟨rfl, rfl, Or.inr (Or.inl ⟨a.ret, hun, rfl, rfl⟩)⟩
  · refine ⟨rfl, rfl, Or.inr (Or.inr ⟨Closing.recv a.ret, ?_, rfl, rfl⟩)⟩
    rw [hun, Closing.Reported]
    change a.ret < 4096 ↔ a.ret ≤ 0
    constructor
    · intro _
      exact not_lt.mp hret
    · intro hle
      omega

/-- Lines 160-173: nothing has been offered, so nothing has been taken. -/
theorem noted_send {e : Echo} {l : Label} {k : Option ℕ} {buf : List UInt8} {a : Answer}
    (hret : a.ret ≤ 0) (hun : unharmed e l = true ↔ a.ret ≠ 0) :
    Noted e l (e.noteSend k buf a) := by
  rw [Echo.noteSend, if_neg (not_lt.mpr hret)]
  refine ⟨rfl, rfl, Or.inr (Or.inr ⟨Closing.send a.ret, ?_, rfl, rfl⟩)⟩
  rw [hun, Closing.Reported]
  constructor
  · intro hne
    exact lt_of_le_of_ne hret hne
  · intro hlt
    exact ne_of_lt hlt

/-- **What a step notes**, as long as the slots are empty. -/
theorem noted_step {e : Echo} {l : Label} {s' : State} (hz : LenZero e.table)
    (hs : step l e.table = some s') : Noted e l (e.noted l) := by
  rcases step_slots hs with ⟨ev, a, s₁, hfire, hcall, -⟩ | ⟨hfire, -⟩
  · rcases hcb : (e.table.slots ev).callBack with - | cb
    · -- there is no callback to call
      rw [State.call, hcb] at hcall
      cases hcall
    cases cb with
    | acceptconn =>
        have hnoted : e.noted l = e := by
          simp only [Echo.noted, hfire, Echo.note, hcb]
        have hun : unharmed e l = true := by
          simp only [unharmed, hfire, hcb]
        rw [hnoted]
        exact ⟨rfl, rfl, Or.inl ⟨hun, rfl, rfl⟩⟩
    | recvdata =>
        rcases harg : (e.table.slots ev).arg with - | arg
        · rw [State.call, hcb, harg] at hcall
          cases hcall
        have hnoted : e.noted l = e.noteRecv (e.table.fds.conn (e.table.slots ev).fd) a := by
          simp only [Echo.noted, hfire, Echo.note, hcb, harg]
        rw [hnoted]
        apply noted_recv
        simp only [unharmed, hfire, hcb, harg, decide_eq_true_eq]
    | senddata =>
        rcases harg : (e.table.slots ev).arg with - | arg
        · rw [State.call, hcb, harg] at hcall
          cases hcall
        have hnoted : e.noted l = e.noteSend (e.table.fds.conn (e.table.slots ev).fd)
            (e.table.slots arg).buf a := by
          simp only [Echo.noted, hfire, Echo.note, hcb, harg]
        have hret : a.ret ≤ 0 := by
          rw [← hz arg]
          exact call_senddata_bounds hcall hcb harg
        rw [hnoted]
        apply noted_send hret
        simp only [unharmed, hfire, hcb, harg, decide_eq_true_eq]
  · exact noted_of_firing_none hfire

/-! ## Every run -/

/-- The reactor is silent: the slots are empty, and nothing has been sent. -/
structure Silent (e : Echo) : Prop where
  table : LenZero e.table
  sent : ∀ k, e.sent k = []
  rearmed : e.rearmed = []

theorem silent_start (lfd : ℕ) : Silent (startEcho lfd) := by
  refine ⟨?_, fun _ => rfl, rfl⟩
  have hzeros : LenZero zeros := fun _ => rfl
  change LenZero (start lfd)
  rw [start]
  exact (hzeros.eventset _ _ _ _).eventadd _ _

/-- A step of the reactor is one of the table, with what it notes. -/
theorem echoStep_eq_some {e e' : Echo} {l : Label} (hs : echoStep l e = some e') :
    ∃ s', step l e.table = some s' ∧ e' = { e.noted l with table := s' } := by
  rw [echoStep, Option.map_eq_some_iff] at hs
  obtain ⟨s', hstep, rfl⟩ := hs
  exact ⟨s', hstep, rfl⟩

/-- What a silent reactor notes, in the state behind the step. -/
theorem Silent.noted {e e' : Echo} (h : Silent e) {l : Label} (hs : echoStep l e = some e') :
    Noted e l e' := by
  obtain ⟨s', hstep, rfl⟩ := echoStep_eq_some hs
  obtain ⟨hsent, hrearmed, hentry⟩ := noted_step h.table hstep
  exact ⟨hsent, hrearmed, hentry⟩

/-- **The reactor stays silent.** -/
theorem Silent.step {e e' : Echo} (h : Silent e) {l : Label} (hs : echoStep l e = some e') :
    Silent e' := by
  have hnoted := h.noted hs
  obtain ⟨s', hstep, rfl⟩ := echoStep_eq_some hs
  constructor
  · exact h.table.step hstep
  · intro k
    rw [hnoted.sent]
    exact h.sent k
  · rw [hnoted.rearmed]
    exact h.rearmed

theorem silent_of_reach {ok : Echo → Label → Prop} {lfd : ℕ} {e : Echo}
    (h : Reach echoStep ok (startEcho lfd) e) : Silent e :=
  h.invariant (silent_start lfd) fun _ _ _ hsilent _ hs => hsilent.step hs

/-- **Nothing is ever sent back**, in any run and on any connection. -/
theorem sent_nil_of_reach {lfd : ℕ} {e : Echo} (h : Reachable echoStep (startEcho lfd) e)
    (k : Option ℕ) : e.sent k = [] :=
  (silent_of_reach h).sent k

/-! ## The echo -/

theorem echoOk_start (lfd : ℕ) : EchoOk (startEcho lfd) := by
  constructor
  · intro k
    exact List.nil_prefix
  · intro w hw
    cases hw
  · intro c hc
    cases hc
  · intro n hn
    cases hn

/-- One step keeps the law exactly if it is unharmed. -/
theorem echoOk_step_iff {e e' : Echo} {l : Label} (hsilent : Silent e) (hok : EchoOk e)
    (hs : echoStep l e = some e') : EchoOk e' ↔ unharmed e l = true := by
  have hsilent' := hsilent.step hs
  have hsent : ∀ k, e'.sent k <+: e'.received k := by
    intro k
    rw [hsilent'.sent k]
    exact List.nil_prefix
  have hrearmed : ∀ w ∈ e'.rearmed, w.2 = w.1 := by
    intro w hw
    rw [hsilent'.rearmed] at hw
    cases hw
  rcases (hsilent.noted hs).entry with ⟨hun, hcloses, hindices⟩ | ⟨n, hun, hcloses, hindices⟩ |
    ⟨c, hun, hcloses, hindices⟩
  · -- nothing noted
    constructor
    · intro _
      exact hun
    · intro _
      refine ⟨hsent, hrearmed, ?_, ?_⟩
      · rw [hcloses]
        exact hok.closes
      · rw [hindices]
        exact hok.indices
  · -- an index
    rw [hun]
    constructor
    · intro hok'
      apply hok'.indices
      rw [hindices]
      exact List.mem_concat_self
    · intro hn
      refine ⟨hsent, hrearmed, ?_, ?_⟩
      · rw [hcloses]
        exact hok.closes
      · rw [hindices]
        exact List.forall_mem_append.mpr ⟨hok.indices, List.forall_mem_singleton.mpr hn⟩
  · -- a connection closed
    rw [hun]
    constructor
    · intro hok'
      apply hok'.closes
      rw [hcloses]
      exact List.mem_concat_self
    · intro hc
      refine ⟨hsent, hrearmed, ?_, ?_⟩
      · rw [hcloses]
        exact List.forall_mem_append.mpr ⟨hok.closes, List.forall_mem_singleton.mpr hc⟩
      · rw [hindices]
        exact hok.indices

/-- **The echo of the reactor**: in every run in which no `recv` fills the buffer and no
`send` returns 0 it is as it should be, and a step keeps it so exactly if it meets this
condition too. -/
theorem echoOk_iff_unharmed {lfd : ℕ} {e : Echo}
    (h : Reach echoStep (fun e l => unharmed e l = true) (startEcho lfd) e) :
    EchoOk e ∧ ∀ l e', echoStep l e = some e' → (EchoOk e' ↔ unharmed e l = true) := by
  have hok : EchoOk e := by
    refine (h.invariant (I := fun e => Silent e ∧ EchoOk e)
      ⟨silent_start lfd, echoOk_start lfd⟩ ?_).2
    rintro e l e' ⟨hsilent, hok⟩ hun hs
    exact ⟨hsilent.step hs, (echoOk_step_iff hsilent hok hs).mpr hun⟩
  constructor
  · exact hok
  · intro l e' hs
    exact echoOk_step_iff (silent_of_reach h) hok hs

/-- A client that sends a byte and leaves before the `send`, which fails. -/
theorem echoOk_client_leaves :
    ∃ e, Reach echoStep (fun e l => unharmed e l = true) (startEcho 3) e ∧
      e.received (some 0) = [104] ∧ e.closes = [Closing.send (-1)] ∧ EchoOk e := by
  obtain ⟨e, hreach, hreceived, hcloses⟩ : ∃ e,
      Reach echoStep (fun e l => unharmed e l = true) (startEcho 3) e ∧
        e.received (some 0) = [104] ∧ e.closes = [Closing.send (-1)] :=
    exists_reach_of_run
      [.wait [(3, EPOLLIN)], .testIn ⟨5, [], true⟩, .testOut ⟨0, [], true⟩,
        .wait [(5, EPOLLIN)], .testIn ⟨1, [104], true⟩, .testOut ⟨0, [], true⟩,
        .wait [(5, EPOLLOUT)], .testIn ⟨0, [], true⟩, .testOut ⟨-1, [], true⟩]
      (by decide +kernel)
  exact ⟨e, hreach, hreceived, hcloses, (echoOk_iff_unharmed hreach).1⟩

/-- A client sends one byte: `send` is offered none, returns 0, and the connection is
closed. -/
theorem byte_not_echoed : ∃ e, Reachable echoStep (startEcho 3) e ∧ ¬ EchoOk e := by
  obtain ⟨e, hreach, hcloses⟩ : ∃ e,
      Reachable echoStep (startEcho 3) e ∧ e.closes = [Closing.send 0] :=
    exists_reach_of_run
      [.wait [(3, EPOLLIN)], .testIn ⟨5, [], true⟩, .testOut ⟨0, [], true⟩,
        .wait [(5, EPOLLIN)], .testIn ⟨1, [104], true⟩, .testOut ⟨0, [], true⟩,
        .wait [(5, EPOLLOUT)], .testIn ⟨0, [], true⟩, .testOut ⟨0, [], true⟩]
      (by decide +kernel)
  refine ⟨e, hreach, ?_⟩
  intro hok
  have hreported := hok.closes (Closing.send 0) (by rw [hcloses]; exact List.mem_singleton_self _)
  exact absurd hreported (lt_irrefl 0)

end Reactor
