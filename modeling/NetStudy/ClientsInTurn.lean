/-
# Clients that wait for their answers (`http/myhttpd.c`)

A client whose requests arrive whole, each one when the one before it has been read, and that
hangs up only then (`inTurn`).  `do_read` then finds one request or the end of the stream, never
half a request or two, and nothing of what its own arrays held comes into its answers.  The
fields of a request line are taken to fit these arrays.

* `answered_in_turn`: with any number of such clients, each of them has been answered all of
  its requests, in order, but for the one that is still to be read; and where the server
  blocks in `epoll_wait` there is none.
-/
import NetStudy.RequestSegments
import NetStudy.WebSessions

namespace MyHttpd

open Transition

/-! ## Requests and answers -/

/-- A request with a method and a path, none of whose lines `do_read` takes for the empty
one. -/
def Request.Whole (req : Request) : Prop := WholeRequests [req]

/-- What the server does about a request: nothing, or what `http_request` does about the file
that it names. -/
def Request.answer (req : Request) (input : CallInput) : List Event :=
  match twoFields (req.requestLine.first ++ [0]) with
  | none => []
  | some (m, p) => if isGet m then (httpRequest input.env input.types (p.drop 1)).1 else []

/-- The turn takes a request, and answers it. -/
def IsRequest (t : WebTurn) : Prop :=
  ∃ req : Request, req.Whole ∧ t.text = req.bytes ∧ t.answer = req.answer t.input

/-- Nothing is unread, or one request. -/
def OneRequest (s : Stream) : Prop :=
  s.bytes = [] ∨ ∃ req : Request, req.Whole ∧ s = ⟨req.bytes, false⟩

/-- What arrives at a connection finds everything read, and is one request or the end; while
the server reads nothing arrives. -/
def inTurn : Manners where
  accept := OneRequest
  arrive := fun c a => c.stream.bytes = [] ∧ OneRequest (c.stream.arrive a)
  call := fun _ script => script.flatten = []

/-- A call of `do_read` that has been reported for a reason. -/
def inTurnReady : Manners where
  accept := OneRequest
  arrive := fun c a => c.stream.bytes = [] ∧ OneRequest (c.stream.arrive a)
  call := fun c script => script.flatten = [] ∧ c.stream ≠ ⟨[], false⟩

theorem Request.bytes_ne_nil (req : Request) : req.bytes ≠ [] := by
  show req.requestLine.bytes ++ _ ≠ []
  exact List.append_ne_nil_of_left_ne_nil req.requestLine.bytes_ne_nil _

/-! ## One call on one request -/

/-- A connection on which nothing arrives is a stream. -/
theorem quiet_coupled (d : Bool) : Coupled Feed.sock Stream.sock (fun _ => False)
    (fun f s => f.conn.stream = s ∧ f.conn.due = d ∧ f.script.flatten = []) := by
  have htick : ∀ {f : Feed}, f.script.flatten = [] →
      f.tick.conn = f.conn ∧ f.tick.script.flatten = [] := by
    intro f hquiet
    rw [f.tick_script] at hquiet
    obtain ⟨hhead, hrest⟩ := List.append_eq_nil_iff.mp hquiet
    refine ⟨?_, hrest⟩
    show (f.script.headD []).foldl Conn.arrive f.conn = _
    rw [hhead]
    rfl
  refine ⟨fun _ h => h, fun _ h => h, ?_, ?_⟩
  · rintro f s ⟨rfl, hdue, hquiet⟩
    obtain ⟨hsame, hrest⟩ := htick hquiet
    right
    show f.tick.conn.stream.look = _ ∧ f.tick.conn.taken.stream = _ ∧ f.tick.conn.due = d ∧ _
    rw [hsame]
    exact ⟨rfl, rfl, hdue, hrest⟩
  · rintro f s ⟨rfl, hdue, hquiet⟩
    obtain ⟨hsame, hrest⟩ := htick hquiet
    right
    show f.tick.conn.stream.look = _ ∧ f.tick.conn.stream = _ ∧ f.tick.conn.due = d ∧ _
    rw [hsame]
    exact ⟨rfl, rfl, hdue, hrest⟩

/-- **`do_read` on a request** that has arrived alone takes it whole. -/
theorem doRead_whole {req : Request} (hreq : req.Whole) {fuel : ℕ} {junk : Locals}
    {out : Outcome × Stream} (h : doRead Stream.sock fuel junk ⟨req.bytes, false⟩ = some out) :
    out = (act (sscanfLine (req.requestLine.first ++ [0]) junk), ⟨[], false⟩) := by
  have hdelimited : Delimited req.lines [] := by
    have hall := hreq.delimited
    rwa [List.flatMap_singleton] at hall
  obtain ⟨left, hreturns, hiff⟩ := exists_doReadReturns req [] false junk hdelimited
  rw [List.append_nil] at hreturns
  have hleft : left = [] := hiff.mpr (hreq.short req (List.mem_singleton_self req))
  rw [hleft] at hreturns
  have hmine : DoReadReturns Stream.sock junk ⟨req.bytes, false⟩ out :=
    ⟨fuel, fun _ hle => doRead_mono h hle⟩
  exact hmine.unique hreturns

/-- What `do_read` does about it, whatever its arrays hold. -/
theorem Request.answer_eq {req : Request} (hreq : req.Whole) (input : CallInput) :
    (act (sscanfLine (req.requestLine.first ++ [0]) input.junk)).events input.env input.types
      = req.answer input := by
  obtain ⟨⟨m, p⟩, htwo⟩ :=
    Option.ne_none_iff_exists'.mp (hreq.fields req (List.mem_singleton_self req))
  rw [act_sscanfLine input.junk htwo, Request.answer, htwo]
  show _ = if isGet m then _ else _
  split_ifs <;> rfl

/-- A call on a connection with one request or at its end. -/
theorem doRead_oneRequest {c : Conn} (hone : OneRequest c.stream) (hne : c.stream ≠ ⟨[], false⟩)
    {script : List (List Arrival)} (hquiet : script.flatten = []) {fuel : ℕ} {junk : Locals}
    {out : Outcome} {f : Feed} (h : doRead Feed.sock fuel junk ⟨c, script⟩ = some (out, f))
    (hout : out ≠ Outcome.closed) :
    f.conn.stream = ⟨[], false⟩ ∧ f.conn.due = c.due ∧ ∃ req : Request, req.Whole ∧
      c.stream = ⟨req.bytes, false⟩ ∧
      out = act (sscanfLine (req.requestLine.first ++ [0]) junk) := by
  obtain ⟨s, hread, rfl, hdue, -⟩ := ((quiet_coupled c.due).doRead_follows
    (s := ⟨c, script⟩) ⟨rfl, rfl, hquiet⟩ h).resolve_left id
  rcases hone with hnil | ⟨req, hreq, hstream⟩
  · -- the end of the stream: the call closes the descriptor
    have hend : c.stream = ⟨[], true⟩ := by
      obtain ⟨⟨bs, _ | _⟩, seen, due⟩ := c
      · exact absurd (congrArg₂ Stream.mk hnil rfl) hne
      · exact congrArg₂ Stream.mk hnil rfl
    have hzero : (getLine Stream.sock 1024 ⟨[], true⟩).1.ret = 0 := by decide
    rw [hend, doRead, if_pos hzero] at hread
    exact absurd (congrArg Prod.fst (Option.some.inj hread)).symm hout
  · rw [hstream] at hread
    obtain ⟨hact, hrest⟩ := Prod.mk.inj (doRead_whole hreq hread)
    exact ⟨hrest, hdue, req, hreq, hstream, hact⟩

/-- A call that does not close the descriptor takes something, or nothing, off the connection. -/
theorem exists_took {c : Conn} {script : List (List Arrival)} {fuel : ℕ} {junk : Locals}
    {out : Outcome} {f : Feed} (h : doRead Feed.sock fuel junk ⟨c, script⟩ = some (out, f))
    (hout : out ≠ Outcome.closed) : ∃ p, Feed.Took ⟨c, script⟩ p f := by
  obtain ⟨line, hline, -⟩ := feed_accounted.getLine_took 1024 ⟨c, script⟩
  obtain ⟨⟨rest, hrest⟩, -⟩ := feed_accounted.doRead_took h hout
  exact ⟨line ++ rest, feed_accounted.trans hline hrest⟩

/-! ## The sessions -/

/-- What holds of a connection. -/
def Answered (c : Conn) (s : WebSession) : Prop :=
  OneRequest c.stream ∧ ∃ turns, Told IsRequest c.stream s turns

/-- **Every call is the turn of a request.** -/
theorem answered_rule : SessionRule inTurnReady Answered (ToldToEnd IsRequest) where
  accept := fun stream _ hone => ⟨hone, [], told_start IsRequest stream⟩
  arrive := by
    rintro c s a ⟨-, turns, htold⟩ ⟨-, hone⟩
    rw [Answered, c.arrive_stream]
    exact ⟨hone, turns, htold.arrive [a]⟩
  report := fun h => h
  closed := by
    rintro c s script input fuel f ⟨-, turns, htold⟩ - hread
    exact htold.close (doRead_closed_feed hread) input
  call := by
    rintro c s script input fuel out f ⟨hone, turns, htold⟩ ⟨hquiet, hne⟩ hread hout
    obtain ⟨hrest, -, req, hreq, hstream, rfl⟩ :=
      doRead_oneRequest hone hne hquiet hread hout
    have htook : Feed.Took ⟨c, script⟩ req.bytes f := by
      obtain ⟨p, as, hscript, htaken⟩ := exists_took hread hout
      obtain rfl : as = [] := (List.append_eq_nil_iff.mp (hscript.symm.trans hquiet)).1
      have hall : c.stream = f.conn.stream.behind p := htaken
      rw [hstream, hrest] at hall
      have hbytes : req.bytes = p ++ [] := congrArg Stream.bytes hall
      rw [hbytes, List.append_nil]
      exact ⟨[], hscript, htaken⟩
    exact ⟨Or.inl (congrArg Stream.bytes hrest), _,
      htold.call htook ⟨req, hreq, rfl, req.answer_eq hreq input⟩⟩

/-! ## Who is reported -/

/-- The batch holds open clients that have something to read, each once and with no other
report due; and whoever has something to read is in the batch or due to be reported. -/
structure Reported (s : Server) : Prop where
  nodup : s.batch.Nodup
  batch : ∀ fd, Ev.client fd ∈ s.batch →
    ∃ c, s.conns fd = some c ∧ c.due = false ∧ c.stream ≠ ⟨[], false⟩
  due : ∀ fd, ∀ c ∈ s.conns fd, c.due = true → c.stream ≠ ⟨[], false⟩
  waits : ∀ fd, ∀ c ∈ s.conns fd, c.stream ≠ ⟨[], false⟩ →
    c.due = true ∨ Ev.client fd ∈ s.batch

theorem reported_start : Reported Server.start where
  nodup := List.nodup_nil
  batch := fun _ h => absurd h List.not_mem_nil
  due := fun _ _ hc => by cases hc
  waits := fun _ _ hc => by cases hc

/-- One connection changes, and is not in the batch. -/
theorem Reported.update {s : Server} (h : Reported s) {fd : ℕ} {o : Option Conn} {batch : List Ev}
    (hnodup : batch.Nodup) (hsame : ∀ j, j ≠ fd → (Ev.client j ∈ batch ↔ Ev.client j ∈ s.batch))
    (hgone : Ev.client fd ∉ batch) (hnew : ∀ c ∈ o, c.due = true ↔ c.stream ≠ ⟨[], false⟩) :
    Reported ⟨Function.update s.conns fd o, batch⟩ := by
  refine ⟨hnodup, ?_, ?_, ?_⟩
  · intro j hj
    have hne : j ≠ fd := by
      rintro rfl
      exact hgone hj
    show ∃ c, Function.update s.conns fd o j = some c ∧ _
    rw [Function.update_of_ne hne]
    exact h.batch j ((hsame j hne).mp hj)
  · intro j c hc
    change c ∈ Function.update s.conns fd o j at hc
    by_cases hj : j = fd
    · subst hj
      rw [Function.update_self] at hc
      exact (hnew c hc).mp
    · rw [Function.update_of_ne hj] at hc
      exact h.due j c hc
  · intro j c hc hne
    change c ∈ Function.update s.conns fd o j at hc
    by_cases hj : j = fd
    · subst hj
      rw [Function.update_self] at hc
      exact Or.inl ((hnew c hc).mpr hne)
    · rw [Function.update_of_ne hj] at hc
      rcases h.waits j c hc hne with hdue | hbatch
      · exact Or.inl hdue
      · exact Or.inr ((hsame j hj).mpr hbatch)

/-- An arrival at a connection on which everything has been read. -/
theorem Reported.arrive {s : Server} (h : Reported s) {fd : ℕ} {c : Conn}
    (hconn : s.conns fd = some c) {a : Arrival} (hnil : c.stream.bytes = []) :
    Reported ⟨Function.update s.conns fd (some (c.arrive a)), s.batch⟩ := by
  rcases heof : c.stream.eof with _ | _
  · have hrest : c.stream = ⟨[], false⟩ := congrArg₂ Stream.mk hnil heof
    refine h.update h.nodup (fun _ _ => Iff.rfl) ?_ ?_
    · intro hmem
      obtain ⟨c', hc', -, hne⟩ := h.batch fd hmem
      rw [hconn] at hc'
      rw [← Option.some.inj hc'] at hne
      exact hne hrest
    · intro c' hc'
      rw [← Option.some.inj hc']
      unfold Conn.arrive
      rw [hrest]
      cases a with
      | data b bs => simp
      | fin => simp
  · -- nothing arrives behind the end
    have hsame : some (c.arrive a) = s.conns fd := by
      unfold Conn.arrive
      rw [hconn, if_pos heof]
    rw [hsame, Function.update_eq_self]
    exact h

theorem Reported.delivered {s : Server} (h : Reported s) {evs : List Ev} (hempty : s.batch = [])
    (hnodup : evs.Nodup) (hreport : ∀ ev ∈ evs, s.reportable ev = true) :
    Reported ⟨s.delivered evs, evs⟩ := by
  refine ⟨hnodup, ?_, ?_, ?_⟩
  · intro fd hfd
    obtain ⟨c, hc, hdue⟩ := (Option.any_eq_true _ _).mp (hreport _ hfd)
    refine ⟨{ c with due := false }, ?_, rfl, h.due fd c hc hdue⟩
    show s.delivered evs fd = _
    rw [Server.delivered, if_pos hfd, hc]
    rfl
  · intro fd c hc
    change c ∈ s.delivered evs fd at hc
    rw [Server.delivered] at hc
    split_ifs at hc
    · obtain ⟨c', -, rfl⟩ := Option.map_eq_some_iff.mp hc
      intro hdue
      cases hdue
    · exact h.due fd c hc
  · intro fd c hc hne
    change c ∈ s.delivered evs fd at hc
    rw [Server.delivered] at hc
    split_ifs at hc with hmem
    · exact Or.inr hmem
    · rcases h.waits fd c hc hne with hdue | hbatch
      · exact Or.inl hdue
      · rw [hempty] at hbatch
        exact absurd hbatch List.not_mem_nil

/-- **Every step** at which the clients behave keeps this. -/
theorem Reported.step {w w' : Web} (h : Reported w.server)
    (hsessions : Sessions Answered (ToldToEnd IsRequest) w) {m : WebMove} (hm : inTurn.Met w m)
    (hs : webStep m w = some w') : Reported w'.server := by
  cases stepped_of_webStep hs with
  | @arrive fd a c hconn => exact h.arrive hconn (hm c hconn).1
  | wait hempty hnodup hreport => exact h.delivered hempty hnodup hreport
  | @accept fd stream rest hbatch hfree =>
      refine h.update ?_ ?_ ?_ ?_
      · have hnodup := h.nodup
        rw [hbatch] at hnodup
        exact (List.nodup_cons.mp hnodup).2
      · intro j _
        rw [hbatch]
        simp
      · intro hmem
        obtain ⟨c, hc, -⟩ := h.batch fd (by rw [hbatch]; exact List.mem_cons_of_mem _ hmem)
        rw [hfree] at hc
        cases hc
      · intro c hc
        rw [← Option.some.inj hc]
        obtain ⟨_ | ⟨b, bs⟩, _ | _⟩ := stream <;> simp [Stream.look]
  | @read script input fuel fd rest c out f hbatch hconn hread =>
      have hnodup := h.nodup
      rw [hbatch, List.nodup_cons] at hnodup
      obtain ⟨c', hc', hdue, hne⟩ := h.batch fd (by rw [hbatch]; exact List.mem_cons_self)
      rw [hconn] at hc'
      obtain rfl := Option.some.inj hc'
      refine h.update hnodup.2 ?_ hnodup.1 ?_
      · intro j hj
        rw [hbatch, List.mem_cons, or_iff_right (fun heq => hj (Ev.client.inj heq))]
      · intro c' hc'
        split_ifs at hc' with hout
        · cases hc'
        · obtain ⟨hrest, hsame, -⟩ := doRead_oneRequest (hsessions.opened fd c hconn).1 hne
            (hm fd rest hbatch c hconn) hread hout
          rw [← Option.some.inj hc', hrest, hsame, hdue]
          simp

/-- In such runs `do_read` is called where there is something to read. -/
theorem Reported.ready {w : Web} (h : Reported w.server) {m : WebMove} (hm : inTurn.Met w m) :
    inTurnReady.Met w m := by
  cases m with
  | read script input fuel =>
      intro fd rest hbatch c hc
      obtain ⟨c', hc', -, hne⟩ := h.batch fd (by rw [hbatch]; exact List.mem_cons_self)
      rw [hc] at hc'
      rw [← Option.some.inj hc'] at hne
      exact ⟨hm fd rest hbatch c hc, hne⟩
  | _ => exact hm

/-- **Clients that wait are all answered.**  In every run in which the requests of each client
arrive whole, each one when the one before it has been read, and it hangs up only then: every
session is a sequence of requests, each of them answered in its turn, whatever the arrays of
`do_read` hold; at most one of them is unread, and none where the server blocks; and every
client that has hung up has been closed behind its last answer, when the server blocks. -/
theorem answered_in_turn {w : Web} (h : Reach webStep inTurn.Met Web.start w) :
    (∀ fd, ∀ c ∈ w.server.conns fd,
      OneRequest c.stream ∧ ∃ turns, Told IsRequest c.stream (w.session fd) turns) ∧
    (∀ s ∈ w.past, ToldToEnd IsRequest s) ∧
    (w.server.batch = [] → (∀ fd, ∀ c ∈ w.server.conns fd, c.due = false) →
      ∀ fd, ∀ c ∈ w.server.conns fd, c.stream = ⟨[], false⟩) := by
  have hall : Reported w.server ∧ Sessions Answered (ToldToEnd IsRequest) w := by
    refine h.invariant
      (I := fun w => Reported w.server ∧ Sessions Answered (ToldToEnd IsRequest) w)
      ⟨reported_start, sessions_start _ _⟩ ?_
    rintro w m w' ⟨hreported, hsessions⟩ hm hs
    exact ⟨hreported.step hsessions hm hs,
      sessions_step answered_rule hsessions (hreported.ready hm) hs⟩
  obtain ⟨hreported, hsessions⟩ := hall
  refine ⟨hsessions.opened, hsessions.past, ?_⟩
  intro hblock hdue fd c hc
  by_contra hne
  rcases hreported.waits fd c hc hne with hnow | hmem
  · rw [hdue fd c hc] at hnow
    cases hnow
  · rw [hblock] at hmem
    exact absurd hmem List.not_mem_nil

/-! ## Two clients that wait -/

theorem plainRequest_whole : plainRequest.Whole where
  delimited := plainRequest_delimited []
  fields := by
    intro req hreq
    rw [List.mem_singleton.mp hreq]
    decide
  short := by
    intro req hreq l hl
    rw [List.mem_singleton.mp hreq] at hl
    rw [List.mem_singleton.mp hl]
    decide

/-- The plain request arrives. -/
def plainArrival : Arrival :=
  .data 71 [69, 84, 32, 47, 32, 72, 84, 84, 80, 47, 49, 46, 48, CR, LF, CR, LF]

/-- Clients that send the plain request or hang up, in turn. -/
def Plainly (w : Web) : WebMove → Prop
  | WebMove.arrive fd a =>
      (w.server.conns fd).all (fun c => decide (c.stream = ⟨[], false⟩)) = true ∧
        (a = plainArrival ∨ a = Arrival.fin)
  | WebMove.wait _ => True
  | WebMove.accept _ stream => stream = ⟨[], false⟩
  | WebMove.read script _ _ => script.flatten = []

instance (w : Web) (m : WebMove) : Decidable (Plainly w m) := by
  unfold Plainly
  split <;> infer_instance

theorem Plainly.met {w : Web} {m : WebMove} (h : Plainly w m) : inTurn.Met w m := by
  cases m with
  | arrive fd a =>
      obtain ⟨hrest, ha⟩ := h
      intro c hc
      rw [show w.server.conns fd = some c from hc, Option.all_some, decide_eq_true_eq] at hrest
      show c.stream.bytes = [] ∧ OneRequest (c.stream.arrive a)
      rw [hrest]
      rcases ha with rfl | rfl
      · exact ⟨rfl, Or.inr ⟨plainRequest, plainRequest_whole, rfl⟩⟩
      · exact ⟨rfl, Or.inl rfl⟩
  | wait evs => trivial
  | accept fd stream =>
      obtain rfl : stream = ⟨[], false⟩ := h
      exact Or.inl rfl
  | read script input fuel => exact fun _ _ _ _ _ => h

/-- The first client asks twice, and the second one asks and hangs up. -/
def twoWaiting : List WebMove :=
  [.wait [.listen], .accept 5 ⟨[], false⟩, .wait [.listen], .accept 6 ⟨[], false⟩,
    .arrive 6 plainArrival, .arrive 5 plainArrival, .wait [.client 5, .client 6],
    .read [] ⟨⟨[], [], []⟩, ⟨[], []⟩, noFiles⟩ 3, .arrive 5 plainArrival,
    .read [] ⟨⟨[71], [], []⟩, ⟨[], []⟩, noFiles⟩ 3, .arrive 6 .fin, .wait [.client 6, .client 5],
    .read [] ⟨⟨[], [], []⟩, ⟨[], []⟩, noFiles⟩ 3, .read [] ⟨⟨[], [72], []⟩, ⟨[], []⟩, noFiles⟩ 3]

/-- The first one has been answered twice, and the second one has been closed. -/
theorem answered_in_turn_twoWaiting : ∃ w, Reach webStep inTurn.Met Web.start w ∧
    (w.server.batch = [] ∧ (w.session 5).events.length = 4 ∧ w.past.length = 1 ∧
      (w.server.conns 5).map Conn.stream = some ⟨[], false⟩) ∧
    (∀ fd, ∀ c ∈ w.server.conns fd,
      OneRequest c.stream ∧ ∃ turns, Told IsRequest c.stream (w.session fd) turns) ∧
    ∀ s ∈ w.past, ToldToEnd IsRequest s := by
  obtain ⟨w, hreach, hw⟩ : ∃ w, Reach webStep Plainly Web.start w ∧
      (w.server.batch = [] ∧ (w.session 5).events.length = 4 ∧ w.past.length = 1 ∧
        (w.server.conns 5).map Conn.stream = some ⟨[], false⟩) :=
    exists_reach_of_run twoWaiting (by decide +kernel)
  have hturn : Reach webStep inTurn.Met Web.start w := hreach.weaken (fun _ _ h => h.met)
  exact ⟨w, hturn, hw, (answered_in_turn hturn).1, (answered_in_turn hturn).2.1⟩

end MyHttpd
