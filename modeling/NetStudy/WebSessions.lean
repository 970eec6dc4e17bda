/-
# The clients of the web server (`http/myhttpd.c`)

The server with all its connections, and for each connection what has arrived on it, what
its calls of `do_read` have found, and the system calls they have made.  A call reads from
the socket as in `NetStudy.EdgeTriggered` and answers as in `NetStudy.HttpRequest`, in one
step; bytes arrive before it, behind it and while it reads.  A descriptor that is closed
may be given to another client, whose session starts afresh.  As in `NetStudy.DoRead` the
arrays that `sscanf` fills are lists of any length, so that a field is stored whole.

* `sessions_step` is the rule for properties of a single session: what each event at a
  connection keeps, the server with all its clients keeps;
* `web_sessions`: each session is a sequence of turns.  The bytes that have arrived are
  those that the turns have taken, one behind the other, and those that are unread; and the
  system calls are, turn by turn, those for the line that the first `get_line` of the turn has
  cut off what it found.
-/
import NetStudy.HttpRequest
import NetStudy.RequestArrivals
import NetStudy.SockAccount
import NetStudy.StackLocals

namespace MyHttpd

open Transition

/-! ## Streams on which something arrives -/

/-- The stream behind an arrival. -/
def Stream.arrive (s : Stream) (a : Arrival) : Stream :=
  if s.eof then s
  else
    match a with
    | Arrival.data b bs => ⟨s.bytes ++ b :: bs, false⟩
    | Arrival.fin => ⟨s.bytes, true⟩

/-- The stream with these bytes in front. -/
def Stream.behind (s : Stream) (p : List UInt8) : Stream := ⟨p ++ s.bytes, s.eof⟩

@[simp] theorem Stream.behind_nil (s : Stream) : s.behind [] = s := rfl

theorem Stream.behind_behind (s : Stream) (p q : List UInt8) :
    (s.behind q).behind p = s.behind (p ++ q) := by
  rw [behind, behind, behind, List.append_assoc]

theorem Conn.arrive_stream (c : Conn) (a : Arrival) :
    (c.arrive a).stream = c.stream.arrive a := by
  unfold Conn.arrive Stream.arrive
  split_ifs
  · rfl
  · cases a <;> rfl

theorem foldl_arrive_stream (as : List Arrival) (c : Conn) :
    (as.foldl Conn.arrive c).stream = as.foldl Stream.arrive c.stream := by
  induction as generalizing c with
  | nil => rfl
  | cons a as ih => rw [List.foldl_cons, List.foldl_cons, ih, c.arrive_stream]

/-- An arrival is at the end. -/
theorem Stream.arrive_behind (s : Stream) (p : List UInt8) (a : Arrival) :
    (s.behind p).arrive a = (s.arrive a).behind p := by
  unfold arrive
  show (if s.eof then _ else _) = _
  split_ifs
  · rfl
  · cases a with
    | data b bs => exact congrArg₂ Stream.mk (List.append_assoc p s.bytes (b :: bs)) rfl
    | fin => rfl

theorem Stream.foldl_arrive_behind (as : List Arrival) (s : Stream) (p : List UInt8) :
    as.foldl Stream.arrive (s.behind p) = (as.foldl Stream.arrive s).behind p := by
  induction as generalizing s with
  | nil => rfl
  | cons a as ih => rw [List.foldl_cons, List.foldl_cons, s.arrive_behind, ih]

/-- What stands at the front of a stream stays there. -/
theorem Stream.look_foldl_arrive (as : List Arrival) {s : Stream} {c : UInt8}
    (h : s.look = RecvRet.byte c) : (as.foldl Stream.arrive s).look = RecvRet.byte c := by
  obtain ⟨_ | ⟨d, ds⟩, eof⟩ := s
  · unfold Stream.look at h
    cases eof <;> cases h
  · obtain rfl : d = c := RecvRet.byte.inj h
    have hfront : (⟨d :: ds, eof⟩ : Stream) = Stream.behind ⟨ds, eof⟩ [d] := rfl
    rw [hfront, Stream.foldl_arrive_behind]
    rfl

/-- `recv` returns 0 at the end only. -/
theorem Stream.look_eof {s : Stream} (h : s.look = RecvRet.eof) : s = ⟨[], true⟩ := by
  obtain ⟨_ | ⟨c, cs⟩, _ | _⟩ := s
  · cases h
  · rfl
  · cases h
  · cases h

/-! ## What is taken off a connection -/

/-- From one state of a connection to a later one: what had arrived and what has arrived
meanwhile are the bytes `p` that have been taken, and what is unread. -/
def Feed.Took (f : Feed) (p : List UInt8) (f' : Feed) : Prop :=
  ∃ as, f.script.flatten = as ++ f'.script.flatten ∧
    as.foldl Stream.arrive f.conn.stream = f'.conn.stream.behind p

theorem Feed.tick_script (f : Feed) :
    f.script.flatten = f.script.headD [] ++ f.tick.script.flatten := by
  obtain ⟨conn, _ | ⟨as, script⟩⟩ := f <;> rfl

/-- The stream before the next `recv`. -/
theorem Feed.tick_stream (f : Feed) :
    f.tick.conn.stream = (f.script.headD []).foldl Stream.arrive f.conn.stream :=
  foldl_arrive_stream _ _

/-- The bytes that have arrived and are unread. -/
def Feed.left (f : Feed) : List UInt8 := f.conn.stream.bytes

/-- **The connections keep the account**, whatever arrives. -/
theorem feed_accounted : Accounted Feed.sock Feed.left Feed.Took where
  refl := fun f => ⟨[], rfl, rfl⟩
  trans := by
    rintro f g f' p q ⟨as, hscript, hstream⟩ ⟨bs, hscript', hstream'⟩
    refine ⟨as ++ bs, ?_, ?_⟩
    · rw [hscript, hscript', List.append_assoc]
    · rw [List.foldl_append, hstream, Stream.foldl_arrive_behind, hstream', Stream.behind_behind]
  recv := by
    intro f
    refine ⟨f.script.headD [], f.tick_script, ?_⟩
    rw [← f.tick_stream]
    show f.tick.conn.stream = Stream.behind ⟨_, _⟩ f.tick.conn.stream.look.bytes
    obtain ⟨_ | ⟨c, cs⟩, _ | _⟩ := f.tick.conn.stream <;> rfl
  peek := fun f => ⟨f.script.headD [], f.tick_script, f.tick_stream.symm⟩
  seen := by
    intro f c hlook
    show f.tick.tick.conn.stream.look = _
    rw [f.tick.tick_stream]
    exact Stream.look_foldl_arrive _ hlook
  ahead := by
    intro f
    show f.tick.conn.stream.bytes.head? = f.tick.conn.stream.look.bytes.head?
    obtain ⟨_ | ⟨c, cs⟩, _ | _⟩ := f.tick.conn.stream <;> rfl
  dry := by
    intro f
    show f.tick.conn.stream.look.bytes = [] → f.tick.conn.stream.bytes.tail = []
    obtain ⟨_ | ⟨c, cs⟩, _ | _⟩ := f.tick.conn.stream <;> simp [Stream.look, RecvRet.bytes]

/-- What has arrived while a call has come from one script to the other. -/
def happened (script rest : List (List Arrival)) : List Arrival :=
  script.flatten.take (script.flatten.length - rest.flatten.length)

theorem Feed.Took.happened {f f' : Feed} {p : List UInt8} (h : f.Took p f') :
    (happened f.script f'.script).foldl Stream.arrive f.conn.stream
      = f'.conn.stream.behind p := by
  obtain ⟨as, hscript, hstream⟩ := h
  rw [MyHttpd.happened, hscript, List.length_append, Nat.add_sub_cancel, List.take_left]
  exact hstream

/-- A call that closes the descriptor has seen the end of the stream, and nothing of it is
unread. -/
theorem doRead_closed_feed {fuel : ℕ} {junk : Locals} {c : Conn} {script : List (List Arrival)}
    {f : Feed} (h : doRead Feed.sock fuel junk ⟨c, script⟩ = some (Outcome.closed, f)) :
    (happened script f.script).foldl Stream.arrive c.stream = ⟨[], true⟩ := by
  obtain ⟨heof, hrecv⟩ := feed_accounted.doRead_closed h
  have htook := feed_accounted.recv ⟨c, script⟩
  rw [heof, ← hrecv] at htook
  refine htook.happened.trans ?_
  show f.conn.stream = _
  rw [hrecv]
  have hend : (Feed.tick ⟨c, script⟩).conn.stream = ⟨[], true⟩ := Stream.look_eof heof
  show (⟨(Feed.tick ⟨c, script⟩).conn.stream.bytes.tail, _⟩ : Stream) = _
  rw [hend]
  rfl

/-! ## The server and the sessions of its clients -/

/-- What a call of `do_read` finds in its arrays and in those of `http_request`, and how the
system answers. -/
structure CallInput where
  junk : Locals
  types : TypeLocals
  env : Env

/-- What has happened on a connection: what has arrived, the calls of `do_read` for it, and
the system calls that they have made. -/
structure WebSession where
  heard : Stream
  inputs : List CallInput
  events : List Event

/-- The server, the session of the connection that is open on each descriptor, the sessions
of the connections that it has closed, and whether `sendfile` has ended the process. -/
structure Web where
  server : Server
  session : ℕ → WebSession
  past : List WebSession
  exited : Bool

def Web.start : Web := ⟨Server.start, fun _ => ⟨⟨[], false⟩, [], []⟩, [], false⟩

/-- What can happen, as for the server alone, with the input of a call of `do_read`. -/
inductive WebMove
  | arrive (fd : ℕ) (a : Arrival)
  | wait (evs : List Ev)
  | accept (fd : ℕ) (stream : Stream)
  | read (script : List (List Arrival)) (input : CallInput) (fuel : ℕ)

/-- A `send` that fails for good ends the process. -/
def Outcome.exits (input : CallInput) : Outcome → Bool
  | request _ file => !(httpRequest input.env input.types file).2
  | _ => false

/-- A call of `do_read` for the connection, during which this has arrived. -/
def WebSession.call (s : WebSession) (input : CallInput) (out : Outcome) (as : List Arrival) :
    WebSession :=
  ⟨as.foldl Stream.arrive s.heard, s.inputs ++ [input],
    s.events ++ out.events input.env input.types⟩

/-- `do_read` on the client at the head of the batch, `http_request` with it. -/
def Web.read (w : Web) (script : List (List Arrival)) (input : CallInput) (fuel : ℕ) :
    Option Web :=
  (w.server.call (Label.read script input.junk fuel)).bind (fun r =>
    (w.server.read script input.junk fuel).map (fun server =>
      { server := server
        session := Function.update w.session r.1
          ((w.session r.1).call input r.2.1 (happened script r.2.2.script))
        past := if r.2.1 = Outcome.closed then
            w.past ++ [(w.session r.1).call input r.2.1 (happened script r.2.2.script)]
          else w.past
        exited := r.2.1.exits input }))

/-- One step.  A process that has ended takes none. -/
def webStep (m : WebMove) (w : Web) : Option Web :=
  if w.exited then none
  else
    match m with
    | WebMove.arrive fd a =>
        (serverStep (Label.arrive fd a) w.server).map (fun server =>
          { w with
            server := server
            session := Function.update w.session fd
              { w.session fd with heard := (w.session fd).heard.arrive a } })
    | WebMove.wait evs => (w.server.wait evs).map (fun server => { w with server := server })
    | WebMove.accept fd stream =>
        (w.server.accept fd stream).map (fun server =>
          { w with server := server, session := Function.update w.session fd ⟨stream, [], []⟩ })
    | WebMove.read script input fuel => w.read script input fuel

/-- **The sessions change nothing** for the server. -/
theorem web_simulates :
    Simulates webStep (fun _ _ => True) serverStep (fun _ _ => True) Web.server := by
  intro w m w' _ hs
  unfold webStep at hs
  split_ifs at hs
  cases m with
  | arrive fd a =>
      obtain ⟨server, hserver, rfl⟩ := Option.map_eq_some_iff.mp hs
      exact Or.inr ⟨_, trivial, hserver⟩
  | wait evs =>
      obtain ⟨server, hserver, rfl⟩ := Option.map_eq_some_iff.mp hs
      exact Or.inr ⟨Label.wait evs, trivial, hserver⟩
  | accept fd stream =>
      obtain ⟨server, hserver, rfl⟩ := Option.map_eq_some_iff.mp hs
      exact Or.inr ⟨Label.accept fd stream, trivial, hserver⟩
  | read script input fuel =>
      obtain ⟨r, -, hrest⟩ := Option.bind_eq_some_iff.mp hs
      obtain ⟨server, hserver, rfl⟩ := Option.map_eq_some_iff.mp hrest
      exact Or.inr ⟨Label.read script input.junk fuel, trivial, hserver⟩

/-! ## What a step does -/

/-- The kinds of steps. -/
inductive Web.Stepped (w : Web) : WebMove → Web → Prop
  | arrive {fd : ℕ} {a : Arrival} {c : Conn} (hconn : w.server.conns fd = some c) :
      Stepped w (WebMove.arrive fd a)
        { w with
          server := ⟨Function.update w.server.conns fd (some (c.arrive a)), w.server.batch⟩
          session := Function.update w.session fd
            { w.session fd with heard := (w.session fd).heard.arrive a } }
  | wait {evs : List Ev} (hempty : w.server.batch = []) (hnodup : evs.Nodup)
      (hreport : ∀ ev ∈ evs, w.server.reportable ev = true) :
      Stepped w (WebMove.wait evs) { w with server := ⟨w.server.delivered evs, evs⟩ }
  | accept {fd : ℕ} {stream : Stream} {rest : List Ev} (hbatch : w.server.batch = Ev.listen :: rest)
      (hfree : w.server.conns fd = none) :
      Stepped w (WebMove.accept fd stream)
        { w with
          server := ⟨Function.update w.server.conns fd
            (some ⟨stream, false, !(stream.look == RecvRet.again)⟩), rest⟩
          session := Function.update w.session fd ⟨stream, [], []⟩ }
  | read {script : List (List Arrival)} {input : CallInput} {fuel fd : ℕ} {rest : List Ev}
      {c : Conn} {out : Outcome} {f : Feed} (hbatch : w.server.batch = Ev.client fd :: rest)
      (hconn : w.server.conns fd = some c)
      (hread : doRead Feed.sock fuel input.junk ⟨c, script⟩ = some (out, f)) :
      Stepped w (WebMove.read script input fuel)
        { server := ⟨Function.update w.server.conns fd
            (if out = Outcome.closed then none else some f.conn), rest⟩
          session := Function.update w.session fd
            ((w.session fd).call input out (happened script f.script))
          past := if out = Outcome.closed then
              w.past ++ [(w.session fd).call input out (happened script f.script)]
            else w.past
          exited := out.exits input }

/-- **A step is one of these.** -/
theorem stepped_of_webStep {m : WebMove} {w w' : Web} (hs : webStep m w = some w') :
    w.Stepped m w' := by
  unfold webStep at hs
  split_ifs at hs
  cases m with
  | arrive fd a =>
      obtain ⟨server, hserver, rfl⟩ := Option.map_eq_some_iff.mp hs
      rw [serverStep] at hserver
      rcases hconn : w.server.conns fd with _ | c
      · simp [hconn] at hserver
      · simp only [hconn, Option.some.injEq] at hserver
        rw [← hserver]
        exact Web.Stepped.arrive hconn
  | wait evs =>
      obtain ⟨server, hserver, rfl⟩ := Option.map_eq_some_iff.mp hs
      rw [Server.wait] at hserver
      split_ifs at hserver with hguard
      obtain ⟨hempty, -, hnodup, -, hreport⟩ := hguard
      rw [← Option.some.inj hserver]
      exact Web.Stepped.wait hempty hnodup (List.all_eq_true.mp hreport)
  | accept fd stream =>
      obtain ⟨server, hserver, rfl⟩ := Option.map_eq_some_iff.mp hs
      rw [Server.accept] at hserver
      split at hserver
      case h_1 rest hbatch =>
        split_ifs at hserver with hfree
        rw [← Option.some.inj hserver]
        exact Web.Stepped.accept hbatch hfree
      case h_2 => cases hserver
  | read script input fuel =>
      obtain ⟨r, hcall, hrest⟩ := Option.bind_eq_some_iff.mp hs
      obtain ⟨server, hserver, rfl⟩ := Option.map_eq_some_iff.mp hrest
      obtain ⟨fd, rest, c, out, f, hbatch, hconn, hread, rfl⟩ := read_cases hserver
      rw [call_read hbatch hconn hread] at hcall
      rw [← Option.some.inj hcall]
      exact Web.Stepped.read hbatch hconn hread

/-! ## The rule for single sessions -/

/-- What is asked of the clients: of what has arrived before a connection is registered, of
each arrival, and of what arrives while `do_read` runs. -/
structure Manners where
  accept : Stream → Prop
  arrive : Conn → Arrival → Prop
  call : Conn → List (List Arrival) → Prop

/-- The step is as the clients are asked to behave. -/
def Manners.Met (M : Manners) (w : Web) : WebMove → Prop
  | WebMove.arrive fd a => ∀ c ∈ w.server.conns fd, M.arrive c a
  | WebMove.wait _ => True
  | WebMove.accept _ stream => M.accept stream
  | WebMove.read script _ _ =>
      ∀ fd rest, w.server.batch = Ev.client fd :: rest → ∀ c ∈ w.server.conns fd, M.call c script

/-- Nothing is asked. -/
def Manners.any : Manners := ⟨fun _ => True, fun _ _ => True, fun _ _ => True⟩

/-- Whatever happens at one connection keeps `I` while it is open, and gives `C` when it is
closed. -/
structure SessionRule (M : Manners) (I : Conn → WebSession → Prop) (C : WebSession → Prop) :
    Prop where
  accept : ∀ stream due, M.accept stream → I ⟨stream, false, due⟩ ⟨stream, [], []⟩
  arrive : ∀ {c s a}, I c s → M.arrive c a → I (c.arrive a) { s with heard := s.heard.arrive a }
  report : ∀ {c s}, I c s → I { c with due := false } s
  closed : ∀ {c s script input fuel f}, I c s → M.call c script →
    doRead Feed.sock fuel input.junk ⟨c, script⟩ = some (Outcome.closed, f) →
    C (s.call input Outcome.closed (happened script f.script))
  call : ∀ {c s script input fuel out f}, I c s → M.call c script →
    doRead Feed.sock fuel input.junk ⟨c, script⟩ = some (out, f) → out ≠ Outcome.closed →
    I f.conn (s.call input out (happened script f.script))

/-- Every session that is open has `I`, and every one that is over has `C`. -/
structure Sessions (I : Conn → WebSession → Prop) (C : WebSession → Prop) (w : Web) : Prop where
  opened : ∀ fd, ∀ c ∈ w.server.conns fd, I c (w.session fd)
  past : ∀ s ∈ w.past, C s

theorem sessions_start (I : Conn → WebSession → Prop) (C : WebSession → Prop) :
    Sessions I C Web.start where
  opened := fun _ _ hc => by cases hc
  past := fun _ hs => absurd hs List.not_mem_nil

/-- The other connections stay as they are. -/
theorem Sessions.update {I : Conn → WebSession → Prop} {C : WebSession → Prop} {w w' : Web}
    (h : Sessions I C w) {fd : ℕ} {o : Option Conn} {s : WebSession}
    (hconns : w'.server.conns = Function.update w.server.conns fd o)
    (hsession : w'.session = Function.update w.session fd s) (hnew : ∀ c ∈ o, I c s)
    (hpast : ∀ s ∈ w'.past, s ∈ w.past ∨ C s) : Sessions I C w' := by
  constructor
  · intro j c hc
    rw [hconns] at hc
    rw [hsession]
    by_cases hj : j = fd
    · subst hj
      rw [Function.update_self] at hc ⊢
      exact hnew c hc
    · rw [Function.update_of_ne hj] at hc ⊢
      exact h.opened j c hc
  · intro p hp
    rcases hpast p hp with hold | hC
    · exact h.past p hold
    · exact hC

/-- **The rule**: what is kept at each connection is kept by the server with all of them. -/
theorem sessions_step {M : Manners} {I : Conn → WebSession → Prop} {C : WebSession → Prop}
    (hrule : SessionRule M I C) {w w' : Web} (h : Sessions I C w) {m : WebMove}
    (hm : M.Met w m) (hs : webStep m w = some w') : Sessions I C w' := by
  cases stepped_of_webStep hs with
  | @arrive fd a c hconn =>
      refine h.update rfl rfl ?_ (fun s hs => Or.inl hs)
      intro c' hc'
      rw [← Option.some.inj hc']
      exact hrule.arrive (h.opened fd c hconn) (hm c hconn)
  | @wait evs hempty hnodup hreport =>
      refine ⟨?_, h.past⟩
      intro fd c hc
      change c ∈ w.server.delivered evs fd at hc
      rw [Server.delivered] at hc
      split_ifs at hc
      · obtain ⟨c', hc', rfl⟩ := Option.map_eq_some_iff.mp hc
        exact hrule.report (h.opened fd c' hc')
      · exact h.opened fd c hc
  | @accept fd stream rest hbatch hfree =>
      refine h.update rfl rfl ?_ (fun s hs => Or.inl hs)
      intro c hc
      rw [← Option.some.inj hc]
      exact hrule.accept stream _ hm
  | @read script input fuel fd rest c out f hbatch hconn hread =>
      have hopen := h.opened fd c hconn
      have hcall := hm fd rest hbatch c hconn
      refine h.update rfl rfl ?_ ?_
      · intro c' hc'
        split_ifs at hc' with hout
        · cases hc'
        · rw [← Option.some.inj hc']
          exact hrule.call hopen hcall hread hout
      · intro s hs
        change s ∈ (if out = Outcome.closed then _ else _ : List WebSession) at hs
        split_ifs at hs with hout
        · rcases List.mem_append.mp hs with hold | hnew
          · exact Or.inl hold
          · subst hout
            rw [List.mem_singleton.mp hnew]
            exact Or.inr (hrule.closed hopen hcall hread)
        · exact Or.inl hs

/-! ## Sessions as sequences of turns -/

/-- A call of `do_read`: the connection as it has found it, with what arrives while it runs,
the bytes that it has taken, its input, and the system calls it has made. -/
structure WebTurn where
  found : Feed
  text : List UInt8
  input : CallInput
  answer : List Event

/-- The session is told by these turns: what has arrived is what they have taken, one behind
the other, and what is unread, and the system calls are theirs, in order. -/
structure Told (P : WebTurn → Prop) (unread : Stream) (s : WebSession) (turns : List WebTurn) :
    Prop where
  each : ∀ t ∈ turns, P t
  heard : s.heard = unread.behind (turns.flatMap WebTurn.text)
  inputs : s.inputs = turns.map WebTurn.input
  events : s.events = turns.flatMap WebTurn.answer
  /-- Each has taken its bytes off what it has found, and what had arrived when it returned are
  these bytes behind those of the turns before, and what it has left. -/
  calls : ∀ before t after, turns = before ++ t :: after →
    ∃ (f : Feed) (later : List Arrival), t.found.Took t.text f ∧
      s.heard = later.foldl Stream.arrive
        (f.conn.stream.behind (before.flatMap WebTurn.text ++ t.text))

/-- The session has been told to its end, and a last call has closed it. -/
def ToldToEnd (P : WebTurn → Prop) (s : WebSession) : Prop :=
  ∃ turns before input, Told P ⟨[], true⟩ before turns ∧ s = before.call input Outcome.closed []

variable {P : WebTurn → Prop} {unread : Stream} {s : WebSession} {turns : List WebTurn}

theorem told_start (P : WebTurn → Prop) (stream : Stream) : Told P stream ⟨stream, [], []⟩ [] where
  each := fun _ ht => absurd ht List.not_mem_nil
  heard := rfl
  inputs := rfl
  events := rfl
  calls := fun before t after heq => by simp at heq

/-- What arrives is unread. -/
theorem Told.arrive (h : Told P unread s turns) (as : List Arrival) :
    Told P (as.foldl Stream.arrive unread)
      { s with heard := as.foldl Stream.arrive s.heard } turns := by
  refine ⟨h.each, ?_, h.inputs, h.events, ?_⟩
  · show as.foldl Stream.arrive s.heard = _
    rw [h.heard, Stream.foldl_arrive_behind]
  · intro before t after heq
    obtain ⟨f, later, htook, hheard⟩ := h.calls before t after heq
    refine ⟨f, later ++ as, htook, ?_⟩
    show as.foldl Stream.arrive s.heard = _
    rw [hheard, List.foldl_append]

/-- A turn takes what is unread at the front. -/
theorem Told.call {found f : Feed} {text : List UInt8} (htook : found.Took text f)
    (h : Told P found.conn.stream s turns) {input : CallInput} {out : Outcome}
    (hturn : P ⟨found, text, input, out.events input.env input.types⟩) :
    Told P f.conn.stream (s.call input out (happened found.script f.script))
      (turns ++ [⟨found, text, input, out.events input.env input.types⟩]) := by
  have hall : (happened found.script f.script).foldl Stream.arrive s.heard
      = f.conn.stream.behind (turns.flatMap WebTurn.text ++ text) := by
    rw [h.heard, Stream.foldl_arrive_behind, htook.happened, Stream.behind_behind]
  refine ⟨?_, ?_, ?_, ?_, ?_⟩
  · intro t ht
    rcases List.mem_append.mp ht with hold | hnew
    · exact h.each t hold
    · rw [List.mem_singleton.mp hnew]
      exact hturn
  · show (happened found.script f.script).foldl Stream.arrive s.heard = _
    rw [hall, List.flatMap_append, List.flatMap_singleton]
  · show s.inputs ++ [input] = _
    rw [h.inputs, List.map_append, List.map_singleton]
  · show s.events ++ out.events input.env input.types = _
    rw [h.events, List.flatMap_append, List.flatMap_singleton]
  · intro before t after heq
    show ∃ (g : Feed) (later : List Arrival), _ ∧
      (happened found.script f.script).foldl Stream.arrive s.heard = _
    rcases concat_eq_append_cons heq with ⟨rfl, rfl⟩ | ⟨after', hturns⟩
    · -- the turn is the new one
      exact ⟨f, [], htook, hall⟩
    · obtain ⟨g, later, htook', hheard⟩ := h.calls before t after' hturns
      refine ⟨g, later ++ happened found.script f.script, htook', ?_⟩
      rw [hheard, List.foldl_append]

/-- The call that closes the descriptor. -/
theorem Told.close (h : Told P unread s turns) {as : List Arrival}
    (hend : as.foldl Stream.arrive unread = ⟨[], true⟩) (input : CallInput) :
    ToldToEnd P (s.call input Outcome.closed as) := by
  have hall := h.arrive as
  rw [hend] at hall
  exact ⟨turns, _, input, hall, rfl⟩

/-- `GET /a HTTP/1.0` arrives in two pieces, the second one while the server reads the first,
and a second client hangs up. -/
def twoPieces : List WebMove :=
  [.wait [.listen], .accept 5 ⟨[], false⟩, .arrive 5 (.data 71 [69, 84, 32, 47, 97, 32, 72]),
    .wait [.client 5, .listen],
    .read (List.replicate 8 [] ++ [[.data 84 [84, 80, 47, 49, 46, 48, CR, LF, CR, LF]]])
      ⟨⟨[], [], []⟩, ⟨[], []⟩, noFiles⟩ 3,
    .accept 6 ⟨[], true⟩, .wait [.client 6], .read [] ⟨⟨[], [], []⟩, ⟨[], []⟩, noFiles⟩ 3]

end MyHttpd
