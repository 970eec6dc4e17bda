/-
# The datagram echo (`udp/server.c`, `udp/client.c`)

Any number of clients and one server over a network that loses, duplicates and reorders
datagrams.  A client repeats `fgets`, `sendto` of the string in `buf`, and `recvfrom` into
the same array; it knows no timeout.  The server takes one datagram at a time and sends it
back in upper case to where it came from.

What one client sees of all this is a `View`: its own variables, and the answers to it that
are still to come, be they requests on their way, with the server, or replies on their way.
The whole system refines the view of each client (`view_simulates`), so that no client
sees what others do.

* `udp_any_network`: over any network a client prints answers to lines of its own only, and
  `strlen` finds a NUL in `buf`;
* `udp_lockstep`: without duplication every answer printed is the one to the line sent last,
  and a client whose datagram is lost never goes on.

The messages of `printf` and the copy on the server's standard output are left out.
-/
import NetStudy.CharBuffer
import NetStudy.Datagrams
import NetStudy.Refinement
import NetStudy.SelectServer

namespace UdpEcho

open Transition Datagrams CharBuffer
open SelectServers (toUpper)

/-- The size of `buf` on both sides. -/
abbrev BUFSIZ : ℕ := 8192

/-- What `recvfrom` stores of a datagram. -/
def received (payload : List UInt8) : List UInt8 := payload.take BUFSIZ

/-- What the server makes of a datagram. -/
def echo (payload : List UInt8) : List UInt8 := (received payload).map toUpper

/-! ## A client -/

/-- The call a client makes next. -/
inductive Pc
  | fgets
  | sendto
  | recvfrom
  deriving DecidableEq

/-- A client: the array `buf`, and what it has sent and printed. -/
structure Client where
  pc : Pc
  buf : List UInt8
  sent : List (List UInt8)
  printed : List (List UInt8)

/-- `fgets` with the line that it reads, or none at the end of the input; then `buf` stays
as it is. -/
def Client.fgets (line : Option (List UInt8)) (c : Client) : Option Client :=
  if c.pc = Pc.fgets then
    match line with
    | none => some { c with pc := Pc.sendto }
    | some text =>
        if text ≠ [] ∧ text.length < BUFSIZ then
          some { c with pc := Pc.sendto, buf := putString c.buf text }
        else none
  else none

/-- `sendto` of the string in `buf`.  Without a NUL `strlen` reads on behind the array, and
there is no step. -/
def Client.sendto (c : Client) : Option (List UInt8 × Client) :=
  if c.pc = Pc.sendto ∧ strlen c.buf < c.buf.length then
    some (string c.buf, { c with pc := Pc.recvfrom, sent := c.sent ++ [string c.buf] })
  else none

/-- `recvfrom`, and the `write` of what has come. -/
def Client.recvfrom (bytes : List UInt8) (c : Client) : Option Client :=
  if c.pc = Pc.recvfrom then
    some { c with pc := Pc.fgets, buf := put c.buf bytes, printed := c.printed ++ [bytes] }
  else none

/-! ## The system -/

/-- A datagram on its way to the server or to a client. -/
inductive Datagram (P : Type*)
  | request (src : P) (payload : List UInt8)
  | reply (dst : P) (payload : List UInt8)
  deriving DecidableEq

variable {P : Type*}

/-- The client that a datagram comes from or goes to. -/
def Datagram.peer : Datagram P → P
  | request src _ => src
  | reply dst _ => dst

/-- What that client will receive. -/
def Datagram.answer : Datagram P → List UInt8
  | request _ payload => echo payload
  | reply _ payload => received payload

/-- The datagrams on their way, the clients, and the datagram that the server has received
and not yet answered, with the address that it came from. -/
structure State (P : Type*) where
  net : Network (Datagram P)
  client : P → Client
  serving : Option (P × List UInt8)

/-- The steps: those of a client, with what `fgets` reads and what arrives; the server's
`recvfrom`, and its loop over `buf` with the `sendto` behind it; a fault of the network. -/
inductive Move (P : Type*)
  | fgets (p : P) (line : Option (List UInt8))
  | sendto (p : P)
  | recvfrom (p : P) (payload : List UInt8)
  | serve (p : P) (payload : List UInt8)
  | answer
  | fault (f : Fault) (d : Datagram P)

variable [DecidableEq P]

/-- One client changes. -/
def State.setClient (s : State P) (p : P) (c : Client) : State P :=
  { s with client := Function.update s.client p c }

/-- One step. -/
def step : Move P → State P → Option (State P)
  | .fgets p line, s => ((s.client p).fgets line).map (s.setClient p)
  | .sendto p, s =>
      ((s.client p).sendto).map (fun r =>
        { s.setClient p r.2 with net := send s.net (.request p r.1) })
  | .recvfrom p payload, s =>
      (receive s.net (.reply p payload)).bind (fun net =>
        ((s.client p).recvfrom (received payload)).map (fun c =>
          { s.setClient p c with net := net }))
  | .serve p payload, s =>
      if s.serving = none then
        (receive s.net (.request p payload)).map (fun net =>
          { s with net := net, serving := some (p, received payload) })
      else none
  | .answer, s =>
      s.serving.map (fun r =>
        { s with net := send s.net (.reply r.1 (r.2.map toUpper)), serving := none })
  | .fault f d, s => (f.apply s.net d).map (fun net => { s with net := net })

/-- Nothing has been sent.  What the arrays hold is arbitrary. -/
def start (junk : P → { buf : List UInt8 // buf.length = BUFSIZ }) : State P :=
  ⟨0, fun p => ⟨Pc.fgets, (junk p).1, [], []⟩, none⟩

/-! ## What one client sees -/

/-- A client, and the answers that are still to come to it. -/
structure View where
  client : Client
  coming : Multiset (List UInt8)

/-- What can happen to a view. -/
inductive ViewMove
  | fgets (line : Option (List UInt8))
  | sendto
  | recvfrom (bytes : List UInt8)
  | fault (f : Fault) (bytes : List UInt8)

/-- One step of a view. -/
def viewStep : ViewMove → View → Option View
  | .fgets line, v => (v.client.fgets line).map (fun c => ⟨c, v.coming⟩)
  | .sendto, v => v.client.sendto.map (fun r => ⟨r.2, send v.coming (echo r.1)⟩)
  | .recvfrom bytes, v =>
      (receive v.coming bytes).bind (fun coming =>
        (v.client.recvfrom bytes).map (fun c => ⟨c, coming⟩))
  | .fault f bytes, v => (f.apply v.coming bytes).map (fun coming => ⟨v.client, coming⟩)

/-- The answer that the server holds for a client. -/
def held (p : P) : Option (P × List UInt8) → Multiset (List UInt8)
  | none => 0
  | some (q, bytes) => if q = p then {received (bytes.map toUpper)} else 0

/-- What the client `p` sees. -/
def State.view (p : P) (s : State P) : View :=
  ⟨s.client p, gathered Datagram.peer Datagram.answer p s.net + held p s.serving⟩

/-! ## The system refines each view -/

@[simp] theorem received_received (payload : List UInt8) :
    received (received payload) = received payload := by
  rw [received, received, List.take_take, Nat.min_self]

theorem received_map (payload : List UInt8) (f : UInt8 → UInt8) :
    received (payload.map f) = (received payload).map f :=
  List.map_take.symm

/-- The server's buffer cuts a datagram, and so does the client's: once is enough. -/
theorem received_echo (payload : List UInt8) :
    received ((received payload).map toUpper) = echo payload := by
  rw [received_map, received_received]
  rfl

/-- A datagram is taken out of the network, for this client. -/
theorem view_coming_cons_of_eq {p : P} {s : State P} {d : Datagram P}
    {net : Network (Datagram P)} (hnet : s.net = d ::ₘ net) (hpeer : d.peer = p) :
    (s.view p).coming
      = d.answer ::ₘ (gathered Datagram.peer Datagram.answer p net + held p s.serving) := by
  show gathered _ _ p s.net + _ = _
  rw [hnet, gathered_cons_of_eq net hpeer, Multiset.cons_add]

/-- One for another client. -/
theorem view_coming_cons_of_ne {p : P} {s : State P} {d : Datagram P}
    {net : Network (Datagram P)} (hnet : s.net = d ::ₘ net) (hpeer : d.peer ≠ p) :
    (s.view p).coming = gathered Datagram.peer Datagram.answer p net + held p s.serving := by
  show gathered _ _ p s.net + _ = _
  rw [hnet, gathered_cons_of_ne net hpeer]

/-- What the server receives becomes the answer that it holds. -/
theorem view_serve (p : P) {q : P} {payload : List UInt8} {s s' : State P}
    (h : step (.serve q payload) s = some s') : s'.view p = s.view p := by
  rw [step] at h
  split_ifs at h with hserving
  obtain ⟨net, hnet, rfl⟩ := Option.map_eq_some_iff.mp h
  have hcons := receive_eq_some hnet
  show (⟨s.client p, gathered _ _ p net + held p (some (q, received payload))⟩ : View)
    = s.view p
  by_cases hq : q = p
  · have hcoming := view_coming_cons_of_eq hcons (p := p) hq
    simp only [State.view, hserving] at hcoming ⊢
    rw [hcoming, held, held, if_pos hq, received_echo, add_zero, add_comm]
    rfl
  · have hcoming := view_coming_cons_of_ne hcons (p := p) hq
    simp only [State.view, hserving] at hcoming ⊢
    rw [hcoming, held, held, if_neg hq]

/-- What the server holds goes on its way as it is. -/
theorem view_answer (p : P) {s s' : State P} (h : step .answer s = some s') :
    s'.view p = s.view p := by
  obtain ⟨⟨q, bytes⟩, hserving, rfl⟩ := Option.map_eq_some_iff.mp h
  show (⟨s.client p, gathered _ _ p (Datagram.reply q (bytes.map toUpper) ::ₘ s.net)
    + held p none⟩ : View) = s.view p
  by_cases hq : q = p
  · rw [gathered_cons_of_eq (d := Datagram.reply q (bytes.map toUpper)) s.net hq]
    simp only [State.view, hserving, held, if_pos hq, add_zero]
    rw [add_comm, Multiset.singleton_add]
    rfl
  · rw [gathered_cons_of_ne (d := Datagram.reply q (bytes.map toUpper)) s.net hq]
    simp only [State.view, hserving, held, if_neg hq]

/-- A fault of the network is one for the client that the datagram belongs to, -/
theorem view_fault {p : P} {f : Fault} {d : Datagram P} {s s' : State P} (hd : d.peer = p)
    (h : step (.fault f d) s = some s') :
    viewStep (.fault f d.answer) (s.view p) = some (s'.view p) := by
  obtain ⟨net, hnet, rfl⟩ := Option.map_eq_some_iff.mp h
  show (f.apply (s.view p).coming d.answer).map _ = some _
  cases f with
  | lose =>
      rw [view_coming_cons_of_eq (receive_eq_some hnet) hd]
      show (receive (d.answer ::ₘ _) d.answer).map _ = some _
      rw [receive_cons]
      rfl
  | duplicate =>
      obtain ⟨hmem, rfl⟩ := duplicate_eq_some hnet
      have hcoming : d.answer ∈ (s.view p).coming := by
        refine Multiset.mem_add.mpr (Or.inl ?_)
        rw [← hd]
        exact mem_gathered hmem
      rw [duplicate_of_mem hcoming, Option.map_some]
      simp only [State.view]
      rw [gathered_cons_of_eq s.net hd, Multiset.cons_add]

/-- and nothing for the others. -/
theorem view_fault_of_ne {p : P} {f : Fault} {d : Datagram P} {s s' : State P}
    (hd : d.peer ≠ p) (h : step (.fault f d) s = some s') : s'.view p = s.view p := by
  obtain ⟨net, hnet, rfl⟩ := Option.map_eq_some_iff.mp h
  cases f with
  | lose =>
      have hcoming := view_coming_cons_of_ne (receive_eq_some hnet) hd
      simp only [State.view] at hcoming ⊢
      rw [hcoming]
  | duplicate =>
      obtain ⟨-, rfl⟩ := duplicate_eq_some hnet
      simp only [State.view]
      rw [gathered_cons_of_ne s.net hd]

/-- The step of the view of `p` that belongs to a step of the system. -/
def Move.seenBy (p : P) : Move P → Option ViewMove
  | .fgets q line => if q = p then some (.fgets line) else none
  | .sendto q => if q = p then some .sendto else none
  | .recvfrom q payload => if q = p then some (.recvfrom (received payload)) else none
  | .serve _ _ => none
  | .answer => none
  | .fault f d => if d.peer = p then some (.fault f d.answer) else none

/-- **What a step of the system is for one client**: a step of its own, or nothing. -/
theorem view_step (p : P) {m : Move P} {s s' : State P} (h : step m s = some s') :
    match m.seenBy p with
    | some b => viewStep b (s.view p) = some (s'.view p)
    | none => s'.view p = s.view p := by
  cases m with
  | fgets q line =>
      obtain ⟨c, hc, rfl⟩ := Option.map_eq_some_iff.mp h
      by_cases hq : q = p
      · subst hq
        simp only [Move.seenBy, if_true]
        show (((s.client q).fgets line).map _) = some _
        rw [hc, Option.map_some]
        simp only [State.view, State.setClient, Function.update_self]
      · simp only [Move.seenBy, if_neg hq]
        simp only [State.view, State.setClient, Function.update_of_ne (Ne.symm hq)]
  | sendto q =>
      obtain ⟨⟨payload, c⟩, hc, rfl⟩ := Option.map_eq_some_iff.mp h
      by_cases hq : q = p
      · subst hq
        simp only [Move.seenBy, if_true]
        show ((s.client q).sendto.map _) = some _
        rw [hc, Option.map_some]
        simp only [State.view, State.setClient, Function.update_self, send]
        rw [gathered_cons_of_eq (d := Datagram.request q payload) (k := q) s.net rfl,
          Multiset.cons_add]
        rfl
      · simp only [Move.seenBy, if_neg hq]
        simp only [State.view, State.setClient, Function.update_of_ne (Ne.symm hq), send]
        rw [gathered_cons_of_ne (d := Datagram.request q payload) s.net hq]
  | recvfrom q payload =>
      obtain ⟨net, hnet, hrest⟩ := Option.bind_eq_some_iff.mp h
      obtain ⟨c, hc, rfl⟩ := Option.map_eq_some_iff.mp hrest
      have hcons := receive_eq_some hnet
      by_cases hq : q = p
      · subst hq
        simp only [Move.seenBy, if_true]
        show (receive (s.view q).coming (received payload)).bind _ = some _
        rw [view_coming_cons_of_eq hcons (p := q) rfl]
        show (receive (received payload ::ₘ _) (received payload)).bind _ = some _
        rw [receive_cons, Option.bind_some]
        show ((s.client q).recvfrom (received payload)).map _ = some _
        rw [hc, Option.map_some]
        simp only [State.view, State.setClient, Function.update_self]
      · simp only [Move.seenBy, if_neg hq]
        have hcoming := view_coming_cons_of_ne hcons (p := p) hq
        simp only [State.view, State.setClient, Function.update_of_ne (Ne.symm hq)] at hcoming ⊢
        rw [hcoming]
  | serve q payload => exact view_serve p h
  | answer => exact view_answer p h
  | fault f d =>
      by_cases hd : d.peer = p
      · simp only [Move.seenBy, if_pos hd]
        exact view_fault hd h
      · simp only [Move.seenBy, if_neg hd]
        exact view_fault_of_ne hd h

/-- **The system refines the view of each client**, also under conditions that say as much
of the steps of the view. -/
theorem view_simulates (p : P) {ok : State P → Move P → Prop} {ok' : View → ViewMove → Prop}
    (hok : ∀ s m b, ok s m → m.seenBy p = some b → ok' (s.view p) b) :
    Simulates step ok viewStep ok' (State.view p) := by
  intro s m s' hm h
  have hview := view_step p h
  rcases hseen : m.seenBy p with _ | b
  · rw [hseen] at hview
    exact Or.inl hview
  · rw [hseen] at hview
    exact Or.inr ⟨b, hok s m b hm hseen, hview⟩

/-! ## Any network -/

/-- What holds of a client over any network; `junk` is what its array has held at first. -/
structure OwnAnswers (junk : List UInt8) (v : View) : Prop where
  cells : v.client.buf.length = BUFSIZ
  coming : ∀ y ∈ v.coming, ∃ x ∈ v.client.sent, y = echo x
  printed : ∀ y ∈ v.client.printed, ∃ x ∈ v.client.sent, y = echo x
  short : ∀ x ∈ v.client.sent, x.length < BUFSIZ
  /-- A NUL stands in the array, and no answer is long enough to reach it, unless nothing has
  been stored there yet. -/
  nul : (v.client.sent = [] ∧ v.client.pc ≠ Pc.recvfrom ∧ v.client.buf = junk) ∨
    ∃ i, NulAt v.client.buf i ∧ ∀ y ∈ v.coming, y.length ≤ i

/-- An answer is no longer than its question. -/
theorem length_echo_le (payload : List UInt8) : (echo payload).length ≤ payload.length := by
  rw [echo, List.length_map]
  exact List.length_take_le' _ _

/-- **`fgets`** stores a line with its NUL, in front of what no answer reaches. -/
theorem OwnAnswers.fgets {junk : List UInt8} {v : View} (h : OwnAnswers junk v)
    {line : Option (List UInt8)} {c : Client} (hc : v.client.fgets line = some c) :
    OwnAnswers junk ⟨c, v.coming⟩ := by
  obtain ⟨hcells, hcoming, hprinted, hshort, hnul⟩ := h
  unfold Client.fgets at hc
  split_ifs at hc
  split at hc
  · -- at the end of the input the array stays as it is
    rw [← Option.some.inj hc]
    exact ⟨hcells, hcoming, hprinted, hshort,
      hnul.imp_left (fun hfirst => ⟨hfirst.1, fun hnot => (by cases hnot), hfirst.2.2⟩)⟩
  · split_ifs at hc with hline
    rename_i text
    rw [← Option.some.inj hc]
    have hlen : (putString v.client.buf text).length = BUFSIZ := by
      rw [length_putString (by rw [hcells]; exact hline.2), hcells]
    refine ⟨hlen, hcoming, hprinted, hshort, Or.inr ?_⟩
    rcases hnul with ⟨hnone, -⟩ | ⟨i, hi, hreach⟩
    · -- nothing has been sent, so that no answer is to come
      refine ⟨text.length, nulAt_putString _ _, ?_⟩
      intro y hy
      obtain ⟨x, hx, -⟩ := hcoming y hy
      rw [hnone] at hx
      exact absurd hx List.not_mem_nil
    · by_cases hle : i ≤ text.length
      · exact ⟨text.length, nulAt_putString _ _, fun y hy => (hreach y hy).trans hle⟩
      · exact ⟨i, hi.putString (by omega), hreach⟩

/-- **`sendto`** asks one more question, whose answer does not reach the NUL either. -/
theorem OwnAnswers.sendto {junk : List UInt8} {v : View} (h : OwnAnswers junk v)
    {text : List UInt8} {c : Client} (hc : v.client.sendto = some (text, c)) :
    OwnAnswers junk ⟨c, send v.coming (echo text)⟩ := by
  obtain ⟨hcells, hcoming, hprinted, hshort, hnul⟩ := h
  unfold Client.sendto at hc
  split_ifs at hc with hpc
  obtain ⟨rfl, rfl⟩ := Prod.mk.inj (Option.some.inj hc)
  obtain ⟨i, hi, hreach⟩ : ∃ i, NulAt v.client.buf i ∧ ∀ y ∈ v.coming, y.length ≤ i := by
    rcases hnul with ⟨hnone, -⟩ | hnul
    · refine ⟨_, nulAt_strlen hpc.2, ?_⟩
      intro y hy
      obtain ⟨x, hx, -⟩ := hcoming y hy
      rw [hnone] at hx
      exact absurd hx List.not_mem_nil
    · exact hnul
  have hold : ∀ {y}, (∃ x ∈ v.client.sent, y = echo x) →
      ∃ x ∈ v.client.sent ++ [string v.client.buf], y = echo x := by
    rintro y ⟨x, hx, rfl⟩
    exact ⟨x, List.mem_append_left _ hx, rfl⟩
  refine ⟨hcells, ?_, fun y hy => hold (hprinted y hy), ?_, Or.inr ⟨i, hi, ?_⟩⟩
  · intro y hy
    rcases Multiset.mem_cons.mp hy with rfl | hy
    · exact ⟨_, List.mem_append_right _ (List.mem_singleton_self _), rfl⟩
    · exact hold (hcoming y hy)
  · intro x hx
    rcases List.mem_append.mp hx with hx | hx
    · exact hshort x hx
    · rw [List.mem_singleton.mp hx]
      exact hi.length_string_le.trans_lt (hi.lt.trans_eq hcells)
  · intro y hy
    rcases Multiset.mem_cons.mp hy with rfl | hy
    · exact (length_echo_le _).trans hi.length_string_le
    · exact hreach y hy

/-- **`recvfrom`** stores an answer in front of the NUL. -/
theorem OwnAnswers.recvfrom {junk : List UInt8} {v : View} (h : OwnAnswers junk v)
    {bytes : List UInt8} {rest : Multiset (List UInt8)} (hcons : v.coming = bytes ::ₘ rest)
    {c : Client} (hc : v.client.recvfrom bytes = some c) : OwnAnswers junk ⟨c, rest⟩ := by
  obtain ⟨hcells, hcoming, hprinted, hshort, hnul⟩ := h
  unfold Client.recvfrom at hc
  split_ifs at hc with hpc
  rw [← Option.some.inj hc]
  have hmem : bytes ∈ v.coming := by
    rw [hcons]
    exact Multiset.mem_cons_self _ _
  have hsub : ∀ y ∈ rest, y ∈ v.coming := by
    intro y hy
    rw [hcons]
    exact Multiset.mem_cons_of_mem hy
  obtain ⟨i, hi, hreach⟩ := hnul.resolve_left (fun hfirst => hfirst.2.1 hpc)
  refine ⟨?_, fun y hy => hcoming y (hsub y hy), ?_, hshort, Or.inr ⟨i, ?_, ?_⟩⟩
  · show (put v.client.buf bytes).length = BUFSIZ
    rw [length_put ((hreach bytes hmem).trans hi.lt.le), hcells]
  · intro y hy
    rcases List.mem_append.mp hy with hy | hy
    · exact hprinted y hy
    · rw [List.mem_singleton.mp hy]
      exact hcoming bytes hmem
  · exact hi.put (hreach bytes hmem)
  · exact fun y hy => hreach y (hsub y hy)

/-- **Every step**, with any fault, keeps this. -/
theorem OwnAnswers.step {junk : List UInt8} {v v' : View} (h : OwnAnswers junk v) {b : ViewMove}
    (hs : viewStep b v = some v') : OwnAnswers junk v' := by
  cases b with
  | fgets line =>
      obtain ⟨c, hc, rfl⟩ := Option.map_eq_some_iff.mp hs
      exact h.fgets hc
  | sendto =>
      obtain ⟨⟨text, c⟩, hc, rfl⟩ := Option.map_eq_some_iff.mp hs
      exact h.sendto hc
  | recvfrom bytes =>
      obtain ⟨rest, hrest, hmap⟩ := Option.bind_eq_some_iff.mp hs
      obtain ⟨c, hc, rfl⟩ := Option.map_eq_some_iff.mp hmap
      exact h.recvfrom (receive_eq_some hrest) hc
  | fault f bytes =>
      obtain ⟨rest, hrest, rfl⟩ := Option.map_eq_some_iff.mp hs
      have hsub : rest ⊆ v.coming := subset_of_fault hrest
      refine ⟨h.cells, fun y hy => h.coming y (hsub hy), h.printed, h.short, ?_⟩
      rcases h.nul with hfirst | ⟨i, hi, hreach⟩
      · exact Or.inl hfirst
      · exact Or.inr ⟨i, hi, fun y hy => hreach y (hsub hy)⟩

theorem ownAnswers_of_reachable {junk : P → { buf : List UInt8 // buf.length = BUFSIZ }}
    {s : State P} (h : Reachable step (start junk) s) (p : P) :
    OwnAnswers (junk p).1 (s.view p) := by
  have hview : Reachable viewStep ((start junk).view p) (s.view p) :=
    h.simulate (view_simulates p (fun _ _ _ _ _ => trivial))
  refine hview.invariant ?_ (fun _ _ _ hv _ hs => hv.step hs)
  exact ⟨(junk p).2, fun y hy => absurd hy (Multiset.notMem_zero y),
    fun y hy => absurd hy List.not_mem_nil, fun x hx => absurd hx List.not_mem_nil,
    Or.inl ⟨rfl, fun hnot => (by cases hnot), rfl⟩⟩

/-- A datagram that fits is answered whole. -/
theorem echo_of_short {payload : List UInt8} (h : payload.length < BUFSIZ) :
    echo payload = payload.map toUpper := by
  rw [echo, received, List.take_of_length_le h.le]

/-- **Over any network** that loses, duplicates and reorders, and whatever the other clients
do: what a client prints is the upper case of something that it has sent itself, everything
it sends fits into the buffers of both sides, and where it calls `sendto` its array holds
a NUL, so that the call is made, unless the input has ended before its first line and the
array has held no NUL from the start. -/
theorem udp_any_network {junk : P → { buf : List UInt8 // buf.length = BUFSIZ }} {s : State P}
    (h : Reachable step (start junk) s) (p : P) :
    (∀ y ∈ (s.client p).printed, ∃ x ∈ (s.client p).sent, y = x.map toUpper) ∧
      (∀ x ∈ (s.client p).sent, x.length < BUFSIZ) ∧
      ((s.client p).pc = Pc.sendto → (∃ s', step (.sendto p) s = some s') ∨
        ((s.client p).sent = [] ∧ (s.client p).buf = (junk p).1 ∧ 0 ∉ (junk p).1)) := by
  have hinv := ownAnswers_of_reachable h p
  refine ⟨?_, hinv.short, ?_⟩
  · intro y hy
    obtain ⟨x, hx, rfl⟩ := hinv.printed y hy
    exact ⟨x, hx, echo_of_short (hinv.short x hx)⟩
  · intro hpc
    by_cases hlt : strlen (s.client p).buf < (s.client p).buf.length
    · have hsend : (s.client p).sendto = some (string (s.client p).buf,
          { s.client p with
            pc := Pc.recvfrom
            sent := (s.client p).sent ++ [string (s.client p).buf] }) :=
        if_pos ⟨hpc, hlt⟩
      exact Or.inl ⟨_, by rw [step, hsend, Option.map_some]⟩
    · rcases hinv.nul with ⟨hnone, -, hjunk⟩ | ⟨i, hi, -⟩
      · refine Or.inr ⟨hnone, hjunk, ?_⟩
        rw [← hjunk]
        exact fun hmem => hlt (List.idxOf_lt_length_iff.mpr hmem)
      · exact absurd (hi.strlen_le.trans_lt hi.lt) hlt

/-- Arrays that have been cleared. -/
def cleared : { buf : List UInt8 // buf.length = BUFSIZ } :=
  ⟨List.replicate BUFSIZ 0, List.length_replicate⟩

/-- A reply comes twice, and the second time it is taken for the answer to the next line. -/
def twice : List (Move Unit) :=
  [.fgets () (some [97, 98, 10]), .sendto (), .serve () [97, 98, 10], .answer,
    .fault .duplicate (.reply () [65, 66, 10]), .recvfrom () [65, 66, 10],
    .fgets () (some [99, 10]), .sendto (), .recvfrom () [65, 66, 10], .fgets () none]

/-- What is printed is out of step, and is of the client's own, and the client can go on. -/
theorem udp_any_network_twice : ∃ s,
    Reachable step (start (fun _ : Unit => cleared)) s ∧
    ((s.client ()).printed = [[65, 66, 10], [65, 66, 10]] ∧
      (s.client ()).sent = [[97, 98, 10], [99, 10]]) ∧
    (∀ y ∈ (s.client ()).printed, ∃ x ∈ (s.client ()).sent, y = x.map toUpper) ∧
    ∃ s', step (.sendto ()) s = some s' := by
  obtain ⟨s, hreach, ⟨hprinted, hsent⟩, hpc⟩ :
      ∃ s, Reachable step (start (fun _ : Unit => cleared)) s ∧
        (((s.client ()).printed = [[65, 66, 10], [65, 66, 10]] ∧
          (s.client ()).sent = [[97, 98, 10], [99, 10]]) ∧ (s.client ()).pc = Pc.sendto) :=
    exists_reach_of_run twice (by decide +kernel)
  obtain ⟨hown, -, hsendto⟩ := udp_any_network hreach ()
  refine ⟨s, hreach, ⟨hprinted, hsent⟩, hown, (hsendto hpc).resolve_right ?_⟩
  rintro ⟨hnone, -⟩
  rw [hsent] at hnone
  cases hnone

/-! ## Networks that do not duplicate -/

/-- The network does not duplicate this. -/
def NoDuplicate (_ : State P) : Move P → Prop
  | .fault f _ => f = Fault.lose
  | _ => True

instance (s : State P) (m : Move P) : Decidable (NoDuplicate s m) := by
  unfold NoDuplicate
  split <;> infer_instance

/-- The same for a view. -/
def View.NoDuplicate (_ : View) : ViewMove → Prop
  | .fault f _ => f = Fault.lose
  | _ => True

/-- One question at a time. -/
structure Lockstep (v : View) : Prop where
  /-- A client that does not wait has had an answer to everything, and none is to come. -/
  ready : v.client.pc ≠ Pc.recvfrom →
    v.coming = 0 ∧ v.client.printed = v.client.sent.map echo
  /-- One that waits has had an answer to everything but the last, whose answer is to come,
  or is lost. -/
  waiting : v.client.pc = Pc.recvfrom → ∃ older last, v.client.sent = older ++ [last] ∧
    v.client.printed = older.map echo ∧ (v.coming = {echo last} ∨ v.coming = 0)

/-- `fgets` changes nothing but the array. -/
theorem fgets_frame {c c' : Client} {line : Option (List UInt8)} (h : c.fgets line = some c') :
    c.pc = Pc.fgets ∧ c'.pc = Pc.sendto ∧ c'.sent = c.sent ∧ c'.printed = c.printed := by
  unfold Client.fgets at h
  split_ifs at h with hpc
  split at h
  · rw [← Option.some.inj h]
    exact ⟨hpc, rfl, rfl, rfl⟩
  · split_ifs at h
    rw [← Option.some.inj h]
    exact ⟨hpc, rfl, rfl, rfl⟩

/-- What comes to a client that waits is the one answer. -/
theorem Lockstep.only_answer {v : View} (h : Lockstep v) (hpc : v.client.pc = Pc.recvfrom)
    {bytes : List UInt8} {rest : Multiset (List UInt8)} (hcons : v.coming = bytes ::ₘ rest) :
    rest = 0 ∧ ∃ older last, v.client.sent = older ++ [last] ∧
      v.client.printed = older.map echo ∧ bytes = echo last := by
  obtain ⟨older, last, hsent, hprinted, hcoming⟩ := h.waiting hpc
  rw [hcons] at hcoming
  obtain ⟨hbytes, hnone⟩ := (Multiset.singleton_eq_cons_iff _).mp
    (hcoming.resolve_right Multiset.cons_ne_zero).symm
  exact ⟨hnone, older, last, hsent, hprinted, hbytes.symm⟩

/-- A question is asked. -/
theorem Lockstep.sendto {v : View} (h : Lockstep v) {text : List UInt8} {c : Client}
    (hc : v.client.sendto = some (text, c)) : Lockstep ⟨c, send v.coming (echo text)⟩ := by
  unfold Client.sendto at hc
  split_ifs at hc with hpc
  obtain ⟨rfl, rfl⟩ := Prod.mk.inj (Option.some.inj hc)
  obtain ⟨hzero, hprinted⟩ := h.ready (by rw [hpc.1]; decide)
  refine ⟨fun hne => absurd rfl hne, fun _ => ?_⟩
  refine ⟨v.client.sent, string v.client.buf, rfl, hprinted, Or.inl ?_⟩
  rw [hzero]
  rfl

/-- The answer is printed. -/
theorem Lockstep.recvfrom {v : View} (h : Lockstep v) {bytes : List UInt8}
    {rest : Multiset (List UInt8)} (hcons : v.coming = bytes ::ₘ rest) {c : Client}
    (hc : v.client.recvfrom bytes = some c) : Lockstep ⟨c, rest⟩ := by
  unfold Client.recvfrom at hc
  split_ifs at hc with hpc
  rw [← Option.some.inj hc]
  obtain ⟨hnone, older, last, hsent, hprinted, hbytes⟩ := h.only_answer hpc hcons
  refine ⟨fun _ => ⟨hnone, ?_⟩, fun hwait => by cases hwait⟩
  show v.client.printed ++ [bytes] = v.client.sent.map echo
  rw [hsent, hprinted, hbytes, List.map_append]
  rfl

/-- The answer is lost. -/
theorem Lockstep.lose {v : View} (h : Lockstep v) {bytes : List UInt8}
    {rest : Multiset (List UInt8)} (hcons : v.coming = bytes ::ₘ rest) :
    Lockstep ⟨v.client, rest⟩ := by
  constructor
  · intro hne
    have hzero := (h.ready hne).1
    rw [hcons] at hzero
    exact absurd hzero Multiset.cons_ne_zero
  · intro hwait
    obtain ⟨hnone, older, last, hsent, hprinted, -⟩ := h.only_answer hwait hcons
    exact ⟨older, last, hsent, hprinted, Or.inr hnone⟩

/-- **Every step** without a duplication keeps the two in step. -/
theorem Lockstep.step {v v' : View} (h : Lockstep v) {b : ViewMove} (hb : v.NoDuplicate b)
    (hs : viewStep b v = some v') : Lockstep v' := by
  cases b with
  | fgets line =>
      obtain ⟨c, hc, rfl⟩ := Option.map_eq_some_iff.mp hs
      obtain ⟨hpc, hpc', hsent, hprinted⟩ := fgets_frame hc
      constructor
      · intro _
        show v.coming = 0 ∧ c.printed = c.sent.map echo
        rw [hsent, hprinted]
        exact h.ready (by rw [hpc]; decide)
      · intro hwait
        rw [hpc'] at hwait
        cases hwait
  | sendto =>
      obtain ⟨⟨text, c⟩, hc, rfl⟩ := Option.map_eq_some_iff.mp hs
      exact h.sendto hc
  | recvfrom bytes =>
      obtain ⟨rest, hrest, hmap⟩ := Option.bind_eq_some_iff.mp hs
      obtain ⟨c, hc, rfl⟩ := Option.map_eq_some_iff.mp hmap
      exact h.recvfrom (receive_eq_some hrest) hc
  | fault f bytes =>
      obtain rfl : f = Fault.lose := hb
      obtain ⟨rest, hrest, rfl⟩ := Option.map_eq_some_iff.mp hs
      exact h.lose (receive_eq_some hrest)

/-- **A client whose answer is lost waits for ever.** -/
theorem View.stays {v v' : View} (hpc : v.client.pc = Pc.recvfrom) (hzero : v.coming = 0)
    (h : Reachable viewStep v v') : v' = v := by
  refine h.invariant (I := fun u => u = v) rfl ?_
  rintro u b u' rfl - hs
  cases b with
  | fgets line =>
      obtain ⟨c, hc, -⟩ := Option.map_eq_some_iff.mp hs
      unfold Client.fgets at hc
      rw [if_neg (by rw [hpc]; decide)] at hc
      cases hc
  | sendto =>
      obtain ⟨r, hr, -⟩ := Option.map_eq_some_iff.mp hs
      rw [Client.sendto, if_neg (fun h => by rw [hpc] at h; cases h.1)] at hr
      cases hr
  | recvfrom bytes =>
      obtain ⟨rest, hrest, -⟩ := Option.bind_eq_some_iff.mp hs
      have hcons := receive_eq_some hrest
      rw [hzero] at hcons
      exact absurd hcons.symm Multiset.cons_ne_zero
  | fault f bytes =>
      obtain ⟨rest, hrest, -⟩ := Option.map_eq_some_iff.mp hs
      cases f with
      | lose =>
          have hcons := receive_eq_some hrest
          rw [hzero] at hcons
          exact absurd hcons.symm Multiset.cons_ne_zero
      | duplicate =>
          have hmem := (duplicate_eq_some hrest).1
          rw [hzero] at hmem
          exact absurd hmem (Multiset.notMem_zero _)

/-- **Question and answer in lockstep.**  Over a network that loses and reorders datagrams but
does not duplicate them, whatever the other clients do, each client has printed the answers
to all that it has sent, in order, but for the last while it waits for it; that one is on
its way or lost, and if it is lost the client never goes on, whatever happens.  The answer
is all of the datagram in upper case. -/
theorem udp_lockstep {junk : P → { buf : List UInt8 // buf.length = BUFSIZ }} {s : State P}
    (h : Reach step NoDuplicate (start junk) s) (p : P) :
    Lockstep (s.view p) ∧
      (∀ x ∈ (s.client p).sent, echo x = x.map toUpper) ∧
      ((s.client p).pc = Pc.recvfrom → (s.view p).coming = 0 →
        ∀ s', Reachable step s s' → s'.client p = s.client p) := by
  refine ⟨?_, ?_, ?_⟩
  · have hview : Reach viewStep View.NoDuplicate ((start junk).view p) (s.view p) := by
      refine h.simulate (view_simulates p ?_)
      intro s m b hm hseen
      cases m <;> simp only [Move.seenBy] at hseen <;> (try split_ifs at hseen) <;>
        (try cases hseen) <;> trivial
    refine hview.invariant ?_ (fun _ _ _ hv hb hs => hv.step hb hs)
    exact ⟨fun _ => ⟨rfl, rfl⟩, fun hwait => by cases hwait⟩
  · intro x hx
    exact echo_of_short ((ownAnswers_of_reachable (h.weaken (fun _ _ _ => trivial)) p).short x hx)
  · intro hpc hzero s' hs'
    have hview : Reachable viewStep (s.view p) (s'.view p) :=
      hs'.simulate (view_simulates p (fun _ _ _ _ _ => trivial))
    exact congrArg View.client (View.stays hpc hzero hview)

/-- Two clients send `ab` and `c`, and the datagram of the second one is lost. -/
def oneLost : List (Move Bool) :=
  [.fgets true (some [97, 98, 10]), .fgets false (some [99, 10]), .sendto false, .sendto true,
    .fault .lose (.request false [99, 10]), .serve true [97, 98, 10], .answer,
    .recvfrom true [65, 66, 10]]

/-- The first client has its answer, and the second one never goes on. -/
theorem udp_lockstep_oneLost : ∃ s, Reach step NoDuplicate (start (fun _ => cleared)) s ∧
    ((s.client true).printed = [[65, 66, 10]] ∧
      (s.client false).pc = Pc.recvfrom ∧ (s.view false).coming = 0) ∧
    Lockstep (s.view true) ∧
    ∀ s', Reachable step s s' → s'.client false = s.client false := by
  obtain ⟨s, hreach, hprinted, hpc, hcoming⟩ :
      ∃ s, Reach step NoDuplicate (start (fun _ => cleared)) s ∧
        ((s.client true).printed = [[65, 66, 10]] ∧
          (s.client false).pc = Pc.recvfrom ∧ (s.view false).coming = 0) :=
    exists_reach_of_run oneLost (by decide +kernel)
  exact ⟨s, hreach, ⟨hprinted, hpc, hcoming⟩, (udp_lockstep hreach true).1,
    (udp_lockstep hreach false).2.2 hpc hcoming⟩

end UdpEcho
