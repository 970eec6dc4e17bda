/-
# Edge-triggered draining in `epoll_run` (`http/myhttpd.c`)

The server reads a client only when `epoll_wait` has reported it, and with `EPOLLET`
it is reported again only after something more arrives.  So a client is served if
`do_read` empties its socket each time.  `do_read` stops at the first empty line
(`twoRequests_undrained`): what has arrived behind it stays unread, with no report
due.

The invariant is `Drained` or a report that is due or a report that waits in the
array of the last `epoll_wait`; it is kept by every step except a `do_read` that
stops short of what has arrived (`HeadAlone`).
-/
import NetStudy.SockCoupling
import NetStudy.Transition

namespace MyHttpd

open Transition

/-! ## Connections -/

/-- What happens at a client's end: it sends some bytes, at least one, or it closes. -/
inductive Arrival
  | data (c : UInt8) (cs : List UInt8)
  | fin
  deriving DecidableEq

/-- A client descriptor that is open: the unread bytes, whether an end of file has
arrived behind them, whether a `recv` has returned 0, and whether a report is due. -/
structure Conn where
  stream : Stream
  seen : Bool
  due : Bool
  deriving DecidableEq

/-- An arrival makes a report due.  Nothing arrives behind an end of file. -/
def Conn.arrive (c : Conn) (a : Arrival) : Conn :=
  if c.stream.eof then c
  else
    match a with
    | Arrival.data b bs => ⟨⟨c.stream.bytes ++ b :: bs, false⟩, c.seen, true⟩
    | Arrival.fin => ⟨⟨c.stream.bytes, true⟩, c.seen, true⟩

/-- The socket has been read empty, and an end of file has been seen. -/
def Conn.Drained (c : Conn) : Prop :=
  c.stream.bytes = [] ∧ (c.stream.eof = true → c.seen = true)

instance (c : Conn) : Decidable c.Drained := inferInstanceAs (Decidable (_ ∧ _))

/-- A connection while `do_read` runs: `script` holds what arrives before each of the
calls of `recv` to come. -/
structure Feed where
  conn : Conn
  script : List (List Arrival)

/-- What is to arrive before the next call has arrived. -/
def Feed.tick (f : Feed) : Feed := ⟨(f.script.headD []).foldl Conn.arrive f.conn, f.script.tail⟩

/-- The connection behind a `recv` that takes a byte off it, or sees its end. -/
def Conn.taken (c : Conn) : Conn :=
  ⟨⟨c.stream.bytes.tail, c.stream.eof⟩, c.seen || c.stream.look == RecvRet.eof, c.due⟩

/-- A connection as a socket. -/
def Feed.sock : Sock Feed where
  recv := fun f => (f.tick.conn.stream.look, ⟨f.tick.conn.taken, f.tick.script⟩)
  peek := fun f => (f.tick.conn.stream.look, f.tick)

/-! ## The server -/

/-- An entry of `allevents`: the listener, or a client. -/
inductive Ev
  | listen
  | client (fd : ℕ)
  deriving DecidableEq

/-- The open client descriptors, and the entries of `allevents` that the loop of lines
329-347 has still to go through.  With none of them left the server is about to block
in `epoll_wait`. -/
structure Server where
  conns : ℕ → Option Conn
  batch : List Ev

/-- The server behind `init_listen_fd`. -/
def Server.start : Server := ⟨fun _ => none, []⟩

/-- Whether `epoll_wait` may report this entry: the listener, which is not
edge-triggered, at any time, a client if a report is due. -/
def Server.reportable (s : Server) : Ev → Bool
  | Ev.listen => true
  | Ev.client fd => (s.conns fd).any Conn.due

/-- The reports of these entries have been delivered. -/
def Server.delivered (s : Server) (evs : List Ev) (fd : ℕ) : Option Conn :=
  if Ev.client fd ∈ evs then (s.conns fd).map (fun c => { c with due := false }) else s.conns fd

/-- What can happen: an arrival at a client, `epoll_wait` with the entries it
reports, `do_accept` with the descriptor and what has arrived before it is
registered, and `do_read` with what arrives meanwhile, the cells in its arrays and a
bound on its loop. -/
inductive Label
  | arrive (fd : ℕ) (a : Arrival)
  | wait (evs : List Ev)
  | accept (fd : ℕ) (stream : Stream)
  | read (script : List (List Arrival)) (junk : Locals) (fuel : ℕ)

/-- The size of `allevents`. -/
abbrev MAXSIZE : ℕ := 2048

/-- `epoll_wait`, which returns between 1 and `MAXSIZE` entries. -/
def Server.wait (s : Server) (evs : List Ev) : Option Server :=
  if s.batch = [] ∧ evs ≠ [] ∧ evs.Nodup ∧ evs.length ≤ MAXSIZE ∧ evs.all s.reportable = true then
    some ⟨s.delivered evs, evs⟩
  else none

/-- `do_accept`: a descriptor that can be read when it is registered is reported. -/
def Server.accept (s : Server) (fd : ℕ) (stream : Stream) : Option Server :=
  match s.batch with
  | Ev.listen :: rest =>
      if s.conns fd = none then
        some ⟨Function.update s.conns fd
          (some ⟨stream, false, !(stream.look == RecvRet.again)⟩), rest⟩
      else none
  | _ => none

/-- `do_read` on the client at the head of the batch.  There is no step if it does not
return: the loop over the headers runs on at an end of file. -/
def Server.read (s : Server) (script : List (List Arrival)) (junk : Locals) (fuel : ℕ) :
    Option Server :=
  match s.batch with
  | Ev.client fd :: rest =>
      match s.conns fd with
      | none => none
      | some c =>
          match doRead Feed.sock fuel junk ⟨c, script⟩ with
          | none => none
          | some (Outcome.closed, _) => some ⟨Function.update s.conns fd none, rest⟩
          | some (_, f) => some ⟨Function.update s.conns fd (some f.conn), rest⟩
  | _ => none

/-- One step of the server, or of a client. -/
def serverStep : Label → Server → Option Server
  | Label.arrive fd a, s =>
      match s.conns fd with
      | none => none
      | some c => some ⟨Function.update s.conns fd (some (c.arrive a)), s.batch⟩
  | Label.wait evs, s => s.wait evs
  | Label.accept fd stream, s => s.accept fd stream
  | Label.read script junk fuel, s => s.read script junk fuel

/-! ## The condition -/

/-- Nothing has arrived behind the first empty line that the loop of `do_read` comes
to: of the pieces behind the first one none is an LF alone, but for the last one if
no end of file stands behind it. -/
def NothingBehindBlank (s : Stream) : Prop :=
  [LF] ∉ (pieces lineRoom s.bytes).tail.dropLast ∧
    (s.eof = true → [LF] ∉ (pieces lineRoom s.bytes).tail)

instance (s : Stream) : Decidable (NothingBehindBlank s) := inferInstanceAs (Decidable (_ ∧ _))

/-- The condition on a step: when `do_read` starts, nothing has arrived behind the
first empty line of what it finds, or one more report is due already. -/
def HeadAlone (s : Server) : Label → Prop
  | Label.read _ _ _ =>
      match s.batch with
      | Ev.client fd :: _ =>
          ∀ c ∈ s.conns fd, c.due = true ∨ NothingBehindBlank c.stream
      | _ => True
  | _ => True

instance (s : Server) (a : Label) : Decidable (HeadAlone s a) := by
  unfold HeadAlone
  split
  · split <;> infer_instance
  · infer_instance

/-! ## One call on what has arrived -/

/-- A piece that starts with LF is an LF alone. -/
theorem cut_eq_lf {room : ℕ} {bs : List UInt8} (h : (cut room bs).1.head? = some LF) :
    (cut room bs).1 = [LF] := by
  have hlast := lf_notMem_dropLast_cut room bs
  obtain ⟨ds, hds⟩ := List.head?_eq_some_iff.mp h
  rw [hds] at hlast ⊢
  cases ds with
  | nil => rfl
  | cons d ds =>
      rw [List.dropLast_cons_cons] at hlast
      exact absurd List.mem_cons_self hlast

theorem pieces_eq_nil {bs : List UInt8} (h : pieces lineRoom bs = []) : bs = [] := by
  by_contra hbs
  rw [pieces_of_ne_nil (by decide) hbs] at h
  cases h

/-- **Where the loop ends**: behind a piece that is an LF alone, or where everything
has been read from a stream that has not ended. -/
theorem drain_pieces {fuel : ℕ} {bs : List UInt8} {eof : Bool} {s' : Stream}
    (h : drain Stream.sock fuel ⟨bs, eof⟩ = some s') :
    s'.eof = eof ∧ ((∃ pre, pieces lineRoom bs = pre ++ [LF] :: pieces lineRoom s'.bytes) ∨
      (s'.bytes = [] ∧ eof = false)) := by
  -- one call takes one piece
  induction fuel generalizing bs with
  | zero => cases h
  | succ fuel ih =>
      rw [drain, getLine_rest] at h
      split_ifs at h with hstop
      · rw [← Option.some.inj h]
        refine ⟨rfl, ?_⟩
        rw [stops_iff] at hstop
        rcases hstop with hhead | ⟨hdry, heof⟩
        · left
          have hbs : bs ≠ [] := by
            rintro rfl
            rw [cut_nil] at hhead
            cases hhead
          exact ⟨[], by rw [pieces_of_ne_nil (by decide) hbs, cut_eq_lf hhead, List.nil_append]⟩
        · exact Or.inr ⟨cut_of_dry hdry, heof⟩
      · obtain ⟨heof, hend⟩ := ih h
        refine ⟨heof, ?_⟩
        rcases hend with ⟨pre, hpre⟩ | hall
        · left
          by_cases hbs : bs = []
          · rw [hbs, cut_nil] at hpre
            exact ⟨pre, by rw [hbs, hpre]⟩
          · exact ⟨(cut lineRoom bs).1 :: pre, by
              rw [pieces_of_ne_nil (by decide) hbs, hpre, List.cons_append]⟩
        · exact Or.inr hall

/-- **A call on a stream with nothing behind its empty line** closes the descriptor or
reads everything. -/
theorem doRead_drained {fuel : ℕ} {junk : Locals} {s s' : Stream} {out : Outcome}
    (h : doRead Stream.sock fuel junk s = some (out, s')) (hs : NothingBehindBlank s) :
    out = Outcome.closed ∨ (s'.bytes = [] ∧ s'.eof = false) := by
  obtain ⟨bs, eof⟩ := s
  rw [doRead] at h
  split_ifs at h with hret
  · left
    exact (congrArg Prod.fst (Option.some.inj h)).symm
  · right
    obtain ⟨t, hdrain, hout⟩ := Option.map_eq_some_iff.mp h
    obtain rfl : t = s' := congrArg Prod.snd hout
    rw [getLine_rest] at hdrain
    obtain ⟨heof, ⟨pre, hpre⟩ | hall⟩ := drain_pieces hdrain
    · by_cases hbs : bs = []
      · rw [hbs, cut_nil, pieces_nil] at hpre
        exact absurd hpre.symm (by simp)
      · -- the loop has stopped at an empty line behind the first piece
        have htail : (pieces lineRoom bs).tail = pre ++ [LF] :: pieces lineRoom t.bytes := by
          rw [pieces_of_ne_nil (by decide) hbs, List.tail_cons, hpre]
        obtain ⟨hinner, hend⟩ := hs
        rw [htail] at hinner hend
        constructor
        · rcases hpost : pieces lineRoom t.bytes with _ | ⟨q, post⟩
          · exact pieces_eq_nil hpost
          · rw [hpost, List.dropLast_append_cons, List.dropLast_cons_cons] at hinner
            exact absurd (List.mem_append_right _ List.mem_cons_self) hinner
        · rw [heof]
          rcases eof
          · rfl
          · exact absurd (List.mem_append_right _ List.mem_cons_self) (hend rfl)
    · exact ⟨hall.1, heof.trans hall.2⟩

/-! ## Arrivals during a call -/

/-- An arrival makes a report due, or changes nothing. -/
theorem Conn.arrive_due_or_eq (c : Conn) (a : Arrival) :
    (c.arrive a).due = true ∨ c.arrive a = c := by
  unfold Conn.arrive
  split_ifs
  · exact Or.inr rfl
  · cases a <;> exact Or.inl rfl

/-- So do several. -/
theorem foldl_arrive (as : List Arrival) (c : Conn) :
    (as.foldl Conn.arrive c).due = true ∨ as.foldl Conn.arrive c = c := by
  induction as generalizing c with
  | nil => exact Or.inr rfl
  | cons a as ih =>
      rw [List.foldl_cons]
      rcases ih (c.arrive a) with hdue | hsame
      · exact Or.inl hdue
      · rw [hsame]
        exact c.arrive_due_or_eq a

/-- A report that is due stays due. -/
theorem foldl_arrive_due (as : List Arrival) {c : Conn} (h : c.due = true) :
    (as.foldl Conn.arrive c).due = true := by
  rcases foldl_arrive as c with hdue | hsame
  · exact hdue
  · rw [hsame]
    exact h

/-- A connection behaves like a stream on which nothing arrives, until a report is
due. -/
theorem feed_coupled : Coupled Feed.sock Stream.sock (fun f => f.conn.due = true)
    (fun f s => f.conn.stream = s) where
  recv_keeps := by
    intro f h
    exact foldl_arrive_due _ h
  peek_keeps := by
    intro f h
    exact foldl_arrive_due _ h
  recv_follows := by
    rintro f s rfl
    rcases foldl_arrive (f.script.headD []) f.conn with hdue | hsame
    · exact Or.inl hdue
    · right
      have htick : f.tick.conn = f.conn := hsame
      show f.tick.conn.stream.look = _ ∧ f.tick.conn.taken.stream = _
      rw [htick]
      exact ⟨rfl, rfl⟩
  peek_follows := by
    rintro f s rfl
    rcases foldl_arrive (f.script.headD []) f.conn with hdue | hsame
    · exact Or.inl hdue
    · right
      have htick : f.tick.conn = f.conn := hsame
      show f.tick.conn.stream.look = _ ∧ f.tick.conn.stream = _
      rw [htick]
      exact ⟨rfl, rfl⟩

/-- **A call that meets the condition**, whatever arrives meanwhile: it closes the
descriptor, or it leaves the socket drained or a report due. -/
theorem doRead_feed {fuel : ℕ} {junk : Locals} {c : Conn} {script : List (List Arrival)}
    {out : Outcome} {f : Feed} (h : doRead Feed.sock fuel junk ⟨c, script⟩ = some (out, f))
    (hc : c.due = true ∨ NothingBehindBlank c.stream) :
    out = Outcome.closed ∨ f.conn.Drained ∨ f.conn.due = true := by
  rcases hc with hdue | halone
  · right
    right
    -- the report stays due over the first `get_line`, and over the rest
    have hkeep := feed_coupled.getLine_keeps 1024 (s := ⟨c, script⟩) hdue
    exact feed_coupled.doRead_of_getLine hkeep h
  · rcases feed_coupled.doRead_follows (s := ⟨c, script⟩) rfl h with hdue | ⟨t, hread, rfl⟩
    · exact Or.inr (Or.inr hdue)
    · rcases doRead_drained hread halone with hclosed | ⟨hbytes, heof⟩
      · exact Or.inl hclosed
      · refine Or.inr (Or.inl ⟨hbytes, ?_⟩)
        intro htrue
        exact absurd (heof.symm.trans htrue) Bool.false_ne_true

/-! ## The invariant -/

/-- Every open client is drained, or a report of it is due, or it waits in the batch. -/
def Watched (s : Server) : Prop :=
  ∀ fd, ∀ c ∈ s.conns fd, c.Drained ∨ c.due = true ∨ Ev.client fd ∈ s.batch

theorem watched_start : Watched Server.start := by
  intro fd c hc
  cases hc

/-- A change of one connection. -/
theorem watched_update {s : Server} (h : Watched s) {fd : ℕ} {o : Option Conn} {batch : List Ev}
    (hnew : ∀ c ∈ o, c.Drained ∨ c.due = true)
    (hbatch : ∀ fd', fd' ≠ fd → Ev.client fd' ∈ s.batch → Ev.client fd' ∈ batch) :
    Watched ⟨Function.update s.conns fd o, batch⟩ := by
  intro fd' c hc
  by_cases hfd : fd' = fd
  · rw [hfd] at hc
    have hc : c ∈ o := by simpa using hc
    rcases hnew c hc with hdrained | hdue
    · exact Or.inl hdrained
    · exact Or.inr (Or.inl hdue)
  · have hc : c ∈ s.conns fd' := by simpa [Function.update_of_ne hfd] using hc
    rcases h fd' c hc with hdrained | hdue | hmem
    · exact Or.inl hdrained
    · exact Or.inr (Or.inl hdue)
    · exact Or.inr (Or.inr (hbatch fd' hfd hmem))

theorem watched_wait {s s' : Server} (h : Watched s) {evs : List Ev} (hstep : s.wait evs = some s') :
    Watched s' := by
  rw [Server.wait] at hstep
  split_ifs at hstep with hcond
  obtain rfl := Option.some.inj hstep
  intro fd c hc
  change c ∈ s.delivered evs fd at hc
  rw [Server.delivered] at hc
  split_ifs at hc with hmem
  · exact Or.inr (Or.inr hmem)
  · rcases h fd c hc with hdrained | hdue | hbatch
    · exact Or.inl hdrained
    · exact Or.inr (Or.inl hdue)
    · rw [hcond.1] at hbatch
      cases hbatch

theorem watched_accept {s s' : Server} (h : Watched s) {fd : ℕ} {stream : Stream}
    (hstep : s.accept fd stream = some s') : Watched s' := by
  rw [Server.accept] at hstep
  split at hstep
  case h_1 rest hbatch =>
    split_ifs at hstep
    obtain rfl := Option.some.inj hstep
    apply watched_update h
    · intro c hc
      obtain rfl := Option.some.inj hc
      -- what has arrived before the descriptor is registered is reported
      obtain ⟨_ | ⟨b, bs⟩, _ | _⟩ := stream
      · exact Or.inl ⟨rfl, fun h => Bool.noConfusion h⟩
      · exact Or.inr rfl
      · exact Or.inr rfl
      · exact Or.inr rfl
    · intro fd' _ hmem
      rw [hbatch] at hmem
      rcases List.mem_cons.mp hmem with hlisten | hmem
      · cases hlisten
      · exact hmem
  case h_2 => cases hstep

theorem watched_read {s s' : Server} (h : Watched s) {script : List (List Arrival)}
    {junk : Locals} {fuel : ℕ} (hok : HeadAlone s (Label.read script junk fuel))
    (hstep : s.read script junk fuel = some s') : Watched s' := by
  rw [Server.read] at hstep
  split at hstep
  case h_1 fd rest hbatch =>
    -- the entry that is taken off the batch is that of `fd`
    have hother : ∀ fd', fd' ≠ fd → Ev.client fd' ∈ s.batch → Ev.client fd' ∈ rest := by
      intro fd' hfd hmem
      rw [hbatch] at hmem
      rcases List.mem_cons.mp hmem with hhead | hmem
      · exact absurd (Ev.client.inj hhead) hfd
      · exact hmem
    have hclosed : ∀ c ∈ (none : Option Conn), c.Drained ∨ c.due = true := by
      intro c hc
      cases hc
    rcases hconn : s.conns fd with _ | c
    · simp [hconn] at hstep
    · rw [HeadAlone, hbatch] at hok
      have hc := hok c hconn
      rcases hread : doRead Feed.sock fuel junk ⟨c, script⟩ with _ | ⟨out, f⟩
      · simp [hconn, hread] at hstep
      · rcases doRead_feed hread hc with rfl | hnew
        · simp only [hconn, hread, Option.some.injEq] at hstep
          obtain rfl := hstep
          exact watched_update h hclosed hother
        · have hopen : ∀ c ∈ some f.conn, c.Drained ∨ c.due = true := by
            intro c hc
            obtain rfl := Option.some.inj hc
            exact hnew
          cases out <;> simp only [hconn, hread, Option.some.injEq] at hstep <;>
            obtain rfl := hstep
          · exact watched_update h hclosed hother
          · exact watched_update h hopen hother
          · exact watched_update h hopen hother
  case h_2 => cases hstep

/-- **Every step that meets `HeadAlone` keeps the clients watched.** -/
theorem watched_step {s s' : Server} (h : Watched s) {a : Label} (hok : HeadAlone s a)
    (hstep : serverStep a s = some s') : Watched s' := by
  cases a with
  | arrive fd a =>
      rw [serverStep] at hstep
      rcases hconn : s.conns fd with _ | c
      · simp [hconn] at hstep
      · simp only [hconn, Option.some.injEq] at hstep
        obtain rfl := hstep
        intro fd' c' hc'
        by_cases hfd : fd' = fd
        · subst hfd
          have hc' : c.arrive a = c' := by simpa using hc'
          rcases c.arrive_due_or_eq a with hdue | hsame
          · exact Or.inr (Or.inl (hc' ▸ hdue))
          · exact h fd' c' (by rw [hconn, ← hc', hsame]; rfl)
        · have hc' : c' ∈ s.conns fd' := by simpa [Function.update_of_ne hfd] using hc'
          exact h fd' c' hc'
  | wait evs => exact watched_wait h hstep
  | accept fd stream => exact watched_accept h hstep
  | read script junk fuel => exact watched_read h hok hstep

/-! ## The property -/

/-- What is asked of a server about to block in `epoll_wait`: the socket of every open
client is empty and its end has been seen, or a report of it is due. -/
def AllDrained (s : Server) : Prop := ∀ fd, ∀ c ∈ s.conns fd, c.Drained ∨ c.due = true

/-- **Edge-triggered draining.**  In every run whose calls of `do_read` find nothing
behind the first empty line, or are due to be repeated, every client is drained or due
to be reported whenever the server is about to block. -/
theorem allDrained_of_headAlone {s : Server} (hs : Reach serverStep HeadAlone Server.start s)
    (hblock : s.batch = []) : AllDrained s := by
  have hwatched : Watched s :=
    hs.invariant watched_start (fun _ _ _ h hok hstep => watched_step h hok hstep)
  intro fd c hc
  rcases hwatched fd c hc with hdrained | hdue | hmem
  · exact Or.inl hdrained
  · exact Or.inr hdue
  · rw [hblock] at hmem
    cases hmem

/-! ## Two runs -/

/-- `GET /a HTTP/1.0` and an empty line. -/
def getA : Arrival :=
  Arrival.data 71 [69, 84, 32, 47, 97, 32, 72, 84, 84, 80, 47, 49, 46, 48, CR, LF, CR, LF]

/-- The same request, and the same once more for `/b`, in one segment. -/
def getAB : Arrival :=
  Arrival.data 71 [69, 84, 32, 47, 97, 32, 72, 84, 84, 80, 47, 49, 46, 48, CR, LF, CR, LF,
    71, 69, 84, 32, 47, 98, 32, 72, 84, 84, 80, 47, 49, 46, 48, CR, LF, CR, LF]

/-- A client connects as descriptor 5, sends `a`, and is served. -/
def servedOnce (a : Arrival) : List Label :=
  [.wait [.listen], .accept 5 ⟨[], false⟩, .arrive 5 a, .wait [.client 5],
    .read [] ⟨[], [], []⟩ 3]

/-- One request is read and nothing is left over. -/
theorem allDrained_of_headAlone_getA :
    ∃ s, Reach serverStep HeadAlone Server.start s ∧
      (s.batch = [] ∧ (s.conns 5).isSome = true) ∧ AllDrained s := by
  obtain ⟨s, hs, hrun⟩ : ∃ s, Reach serverStep HeadAlone Server.start s ∧
      (s.batch = [] ∧ (s.conns 5).isSome = true) :=
    exists_reach_of_run (servedOnce getA) (by decide +kernel)
  exact ⟨s, hs, hrun, allDrained_of_headAlone hs hrun.1⟩

/-- **The second of two requests in one segment stays unread.**  The server blocks
while the socket is not empty and no report is due. -/
theorem twoRequests_undrained :
    ∃ s, Reachable serverStep Server.start s ∧ s.batch = [] ∧ ¬ AllDrained s := by
  obtain ⟨s, hs, hbatch, hconn⟩ : ∃ s, Reachable serverStep Server.start s ∧
      (s.batch = [] ∧ (s.conns 5).any (fun c => !decide (c.Drained ∨ c.due = true)) = true) :=
    exists_reach_of_run (servedOnce getAB) (by decide +kernel)
  refine ⟨s, hs, hbatch, ?_⟩
  intro hall
  obtain ⟨c, hc, hbad⟩ := (Option.any_eq_true _ _).mp hconn
  rw [decide_eq_true (hall 5 c hc)] at hbad
  exact Bool.noConfusion hbad

end MyHttpd
