/-
# Requests against arrivals in `epoll_run` (`http/myhttpd.c`)

`epoll_wait` reports a client once for what has arrived since its last report, and each
report leads to one call of `do_read`, which acts on one request at most.  So the calls
for a connection are never more than the arrivals at it (`acted_le_arrivals`): of the
requests a client sends at once, one is acted on, and each further one waits until
something more arrives, were it the end of the client's stream.

`Tally` stands beside the server and counts, for each descriptor from the `accept` that has
given it out last.  The arrivals at one descriptor and the reports of it make an `Account`,
of which every step of the server is a step (`account_step`) but the `accept` that gives it
out, behind which it starts again (`account_renewed`).
-/
import NetStudy.EdgeTriggered
import NetStudy.Readiness
import NetStudy.Refinement

namespace MyHttpd

open Transition Readiness

/-! ## The counters -/

/-- The call of `do_read` that a step makes: the descriptor, the outcome, and the socket
behind it. -/
def Server.call (s : Server) : Label → Option (ℕ × Outcome × Feed)
  | Label.read script junk fuel =>
      match s.batch with
      | Ev.client fd :: _ =>
          (s.conns fd).bind
            (fun c => (doRead Feed.sock fuel junk ⟨c, script⟩).map (fun r => (fd, r)))
      | _ => none
  | _ => none

/-- The arrivals of a script. -/
def scripted (script : List (List Arrival)) : ℕ := script.flatten.length

/-- What arrives at descriptor `k` in a step.  What is there when a descriptor is
registered is one arrival; of a script counts what has arrived when `do_read` returns. -/
def Server.arrived (s : Server) (k : ℕ) : Label → ℕ
  | Label.arrive fd _ => if fd = k then 1 else 0
  | Label.wait _ => 0
  | Label.accept fd stream => if fd = k ∧ stream.look ≠ RecvRet.again then 1 else 0
  | Label.read script junk fuel =>
      match s.call (Label.read script junk fuel) with
      | some (fd, _, f) => if fd = k then scripted script - scripted f.script else 0
      | none => 0

/-- The calls of `do_read` for descriptor `k` in a step. -/
def Server.called (s : Server) (k : ℕ) (a : Label) : ℕ :=
  match s.call a with
  | some (fd, _, _) => if fd = k then 1 else 0
  | none => 0

/-- The requests from descriptor `k` that a step passes on to `http_request`. -/
def Server.requested (s : Server) (k : ℕ) (a : Label) : ℕ :=
  match s.call a with
  | some (fd, Outcome.request _ _, _) => if fd = k then 1 else 0
  | _ => 0

/-- The server, and for the connection on each descriptor what has arrived, the calls of
`do_read`, and the requests acted on. -/
structure Tally where
  server : Server
  arrivals : ℕ → ℕ
  calls : ℕ → ℕ
  acted : ℕ → ℕ

def Tally.start : Tally := ⟨Server.start, fun _ => 0, fun _ => 0, fun _ => 0⟩

/-- The counters of a descriptor start again when a connection gets it. -/
def Tally.renewed (t : Tally) : Label → Tally
  | Label.accept fd _ =>
      { t with
        arrivals := Function.update t.arrivals fd 0
        calls := Function.update t.calls fd 0
        acted := Function.update t.acted fd 0 }
  | _ => t

/-- A step that leads the server to `s` is counted. -/
def Tally.count (t : Tally) (a : Label) (s : Server) : Tally :=
  ⟨s, fun k => (t.renewed a).arrivals k + t.server.arrived k a,
    fun k => (t.renewed a).calls k + t.server.called k a,
    fun k => (t.renewed a).acted k + t.server.requested k a⟩

/-- A step of the server, counted. -/
def tallyStep (a : Label) (t : Tally) : Option Tally := (serverStep a t.server).map (t.count a)

/-- Counting changes nothing. -/
theorem tally_simulates :
    Simulates tallyStep (fun _ _ => True) serverStep (fun _ _ => True) Tally.server := by
  intro t a t' _ ht
  obtain ⟨s, hs, rfl⟩ := Option.map_eq_some_iff.mp ht
  exact Or.inr ⟨a, trivial, hs⟩

/-- Every run of the server is counted. -/
theorem exists_tally {s : Server} (h : Reachable serverStep Server.start s) :
    ∃ t, Reachable tallyStep Tally.start t ∧ t.server = s := by
  induction h with
  | start => exact ⟨Tally.start, Reach.start, rfl⟩
  | @next s s' a _ _ hstep ih =>
      obtain ⟨t, ht, rfl⟩ := ih
      exact ⟨t.count a s', Reach.next ht trivial (by rw [tallyStep, hstep, Option.map_some]), rfl⟩

/-! ## What a call leaves -/

/-- From one state of a socket to a later one: the arrivals that have not happened yet
are no more, and if a report is due it was due before or something has arrived. -/
def Feed.Later (f f' : Feed) : Prop :=
  scripted f'.script ≤ scripted f.script ∧
    (f'.conn.due = true → f.conn.due = true ∨ scripted f'.script < scripted f.script)

/-- The arrivals before a call of `recv`. -/
theorem Feed.Later.tick {f g : Feed} (h : f.Later g) : f.Later g.tick := by
  obtain ⟨hle, hdue⟩ := h
  obtain ⟨conn, _ | ⟨as, script⟩⟩ := g
  · exact ⟨hle, hdue⟩
  · have hsum : scripted (as :: script) = as.length + scripted script := by
      rw [scripted, List.flatten_cons, List.length_append, scripted]
    change scripted (as :: script) ≤ _ at hle
    change conn.due = true → _ ∨ scripted (as :: script) < _ at hdue
    constructor
    · show scripted script ≤ _
      omega
    · intro hnow
      change (as.foldl Conn.arrive conn).due = true at hnow
      show _ ∨ scripted script < _
      cases as with
      | nil => exact (hdue hnow).imp id (fun hlt => by simpa [scripted] using hlt)
      | cons a as =>
          right
          rw [List.length_cons] at hsum
          omega

/-- **Over a whole call of `do_read`.** -/
theorem doRead_later {fuel : ℕ} {junk : Locals} {f : Feed} {out : Outcome × Feed}
    (h : doRead Feed.sock fuel junk f = some out) : f.Later out.2 := by
  -- only the half of `Coupled` about one socket is used
  have hkeeps : Coupled Feed.sock Feed.sock f.Later (fun _ _ => False) :=
    ⟨fun _ hg => hg.tick, fun _ hg => hg.tick, fun _ _ hfalse => hfalse.elim,
      fun _ _ hfalse => hfalse.elim⟩
  have hstart : f.Later f := ⟨le_rfl, Or.inl⟩
  exact hkeeps.doRead_of_getLine (hkeeps.getLine_keeps 1024 hstart) h

/-- **What `Server.read` does**: one call for the client at the head of the batch. -/
theorem read_cases {s s' : Server} {script : List (List Arrival)} {junk : Locals} {fuel : ℕ}
    (h : s.read script junk fuel = some s') :
    ∃ fd rest c out f, s.batch = Ev.client fd :: rest ∧ s.conns fd = some c ∧
      doRead Feed.sock fuel junk ⟨c, script⟩ = some (out, f) ∧
      s' = ⟨Function.update s.conns fd (if out = Outcome.closed then none else some f.conn),
        rest⟩ := by
  rw [Server.read] at h
  split at h
  case h_2 => cases h
  case h_1 fd rest hbatch =>
    rcases hconn : s.conns fd with _ | c
    · simp [hconn] at h
    rcases hread : doRead Feed.sock fuel junk ⟨c, script⟩ with _ | ⟨out, f⟩
    · simp [hconn, hread] at h
    refine ⟨fd, rest, c, out, f, hbatch, hconn, hread, ?_⟩
    cases out <;> simp only [hconn, hread, Option.some.injEq] at h <;> rw [← h] <;> rfl

/-- The call that such a step makes. -/
theorem call_read {s : Server} {script : List (List Arrival)} {junk : Locals} {fuel fd : ℕ}
    {rest : List Ev} {c : Conn} {out : Outcome × Feed} (hbatch : s.batch = Ev.client fd :: rest)
    (hconn : s.conns fd = some c) (hread : doRead Feed.sock fuel junk ⟨c, script⟩ = some out) :
    s.call (Label.read script junk fuel) = some (fd, out) := by
  rw [Server.call, hbatch]
  show (s.conns fd).bind _ = _
  rw [hconn, Option.bind_some, hread]
  rfl

/-! ## The account of a descriptor -/

/-- What has arrived at descriptor `k`, the calls for it, its entries in the batch, and
whether a report of it is due. -/
def Tally.account (t : Tally) (k : ℕ) : Account :=
  ⟨t.arrivals k, t.calls k, t.server.batch.count (Ev.client k), (t.server.conns k).any Conn.due⟩

/-- The step gives descriptor `k` to a connection. -/
def Label.GivesOut (k : ℕ) : Label → Prop
  | Label.accept fd _ => fd = k
  | _ => False

/-- The counters of the other descriptors go on. -/
theorem renewed_of_not_givesOut (t : Tally) {a : Label} {k : ℕ} (ha : ¬ a.GivesOut k) :
    (t.renewed a).arrivals k = t.arrivals k ∧ (t.renewed a).calls k = t.calls k ∧
      (t.renewed a).acted k = t.acted k := by
  cases a with
  | accept fd stream =>
      have hne : k ≠ fd := Ne.symm ha
      exact ⟨Function.update_of_ne hne _ _, Function.update_of_ne hne _ _,
        Function.update_of_ne hne _ _⟩
  | arrive fd a => exact ⟨rfl, rfl, rfl⟩
  | wait evs => exact ⟨rfl, rfl, rfl⟩
  | read script junk fuel => exact ⟨rfl, rfl, rfl⟩

theorem account_count (t : Tally) {a : Label} (s : Server) {k : ℕ} (ha : ¬ a.GivesOut k) :
    (t.count a s).account k = ⟨t.arrivals k + t.server.arrived k a,
      t.calls k + t.server.called k a, s.batch.count (Ev.client k),
      (s.conns k).any Conn.due⟩ := by
  obtain ⟨harrivals, hcalls, -⟩ := renewed_of_not_givesOut t ha
  rw [← harrivals, ← hcalls]
  rfl

/-- A report of a client makes one entry of the batch. -/
theorem account_wait {s s' : Server} {evs : List Ev} (h : s.wait evs = some s')
    (arrivals calls k : ℕ) :
    Relation.ReflTransGen Account.Step
      ⟨arrivals, calls, s.batch.count (Ev.client k), (s.conns k).any Conn.due⟩
      ⟨arrivals, calls, s'.batch.count (Ev.client k), (s'.conns k).any Conn.due⟩ := by
  rw [Server.wait] at h
  split_ifs at h with hguard
  obtain ⟨hempty, -, hnodup, -, hall⟩ := hguard
  obtain rfl := Option.some.inj h
  show Relation.ReflTransGen Account.Step _
    ⟨arrivals, calls, evs.count (Ev.client k), (s.delivered evs k).any Conn.due⟩
  rw [hempty, List.count_nil, Server.delivered]
  by_cases hmem : Ev.client k ∈ evs
  · have hdue : (s.conns k).any Conn.due = true := List.all_eq_true.mp hall _ hmem
    have hreport := Account.Step.report
      (a := ⟨arrivals, calls, 0, (s.conns k).any Conn.due⟩) hdue
    rw [if_pos hmem, List.count_eq_one_of_mem hnodup hmem, Option.any_map]
    have hfalse : (s.conns k).any (fun _ => false) = false := by
      cases s.conns k <;> rfl
    show Relation.ReflTransGen Account.Step _ ⟨arrivals, calls, 1, (s.conns k).any (fun _ => false)⟩
    rw [hfalse]
    exact Relation.ReflTransGen.single hreport
  · rw [if_neg hmem, List.count_eq_zero_of_not_mem hmem]

/-- A call handles one entry of the batch, and what arrives meanwhile is counted. -/
theorem account_read {t : Tally} {s : Server} {script : List (List Arrival)} {junk : Locals}
    {fuel : ℕ} (h : t.server.read script junk fuel = some s) (k : ℕ) :
    Relation.ReflTransGen Account.Step (t.account k)
      ⟨t.arrivals k + t.server.arrived k (Label.read script junk fuel),
        t.calls k + t.server.called k (Label.read script junk fuel),
        s.batch.count (Ev.client k), (s.conns k).any Conn.due⟩ := by
  obtain ⟨fd, rest, c, out, f, hbatch, hconn, hread, rfl⟩ := read_cases h
  have hcall := call_read hbatch hconn hread
  obtain ⟨hle, hdue⟩ := doRead_later hread
  simp only [Server.arrived, Server.called, hcall]
  by_cases hfd : fd = k
  · subst hfd
    rw [if_pos rfl, if_pos rfl, Function.update_self]
    -- the entry is handled, and then what has arrived meanwhile is counted
    have hhandle := Account.Step.handle (a := t.account fd) (p := rest.count (Ev.client fd))
      (by rw [Tally.account, hbatch, List.count_cons_self])
    refine Relation.ReflTransGen.head hhandle (Account.steps_arrive _ _ ?_)
    show _ → (t.server.conns fd).any Conn.due = true ∨ _
    rw [hconn]
    split_ifs
    · intro hfalse
      cases hfalse
    · intro hnow
      rcases hdue hnow with hbefore | hlt
      · exact Or.inl hbefore
      · exact Or.inr (Nat.sub_pos_of_lt hlt)
  · rw [if_neg hfd, if_neg hfd, Function.update_of_ne (Ne.symm hfd), Tally.account, hbatch,
      List.count_cons_of_ne (fun heq => hfd (Ev.client.inj heq))]
    exact Relation.ReflTransGen.refl

/-- **Every step of the server is one of the account**, or leaves it, unless it gives the
descriptor out. -/
theorem account_step {t t' : Tally} {a : Label} {k : ℕ} (ha : ¬ a.GivesOut k)
    (h : tallyStep a t = some t') :
    Relation.ReflTransGen Account.Step (t.account k) (t'.account k) := by
  obtain ⟨s, hs, rfl⟩ := Option.map_eq_some_iff.mp h
  rw [account_count t s ha]
  cases a with
  | arrive fd a =>
      rw [serverStep] at hs
      rcases hconn : t.server.conns fd with _ | c
      · simp [hconn] at hs
      simp only [hconn, Option.some.injEq] at hs
      obtain rfl := hs
      have hsteps := (t.account k).steps_arrive (t.server.arrived k (Label.arrive fd a))
        (d := (Function.update t.server.conns fd (some (c.arrive a)) k).any Conn.due)
      apply hsteps
      by_cases hfd : fd = k
      · intro _
        right
        rw [Server.arrived, if_pos hfd]
        exact Nat.one_pos
      · rw [Function.update_of_ne (Ne.symm hfd)]
        exact Or.inl
  | wait evs => exact account_wait hs _ _ k
  | accept fd stream =>
      have hfd : fd ≠ k := ha
      rw [serverStep, Server.accept] at hs
      split at hs
      case h_2 => cases hs
      case h_1 rest hbatch =>
        split_ifs at hs
        obtain rfl := Option.some.inj hs
        show Relation.ReflTransGen Account.Step _ ⟨_, _, rest.count (Ev.client k),
          (Function.update t.server.conns fd _ k).any Conn.due⟩
        rw [Server.arrived, if_neg (fun hboth => hfd hboth.1), Function.update_of_ne hfd.symm,
          Tally.account, hbatch, List.count_cons_of_ne (by simp)]
        exact Relation.ReflTransGen.refl
  | read script junk fuel => exact account_read hs k

/-! ## A descriptor that is used again -/

/-- The batch has each entry once, and for open clients only. -/
structure Server.Listed (s : Server) : Prop where
  nodup : s.batch.Nodup
  opened : ∀ fd, Ev.client fd ∈ s.batch → s.conns fd ≠ none

theorem listed_start : Server.start.Listed := ⟨List.nodup_nil, fun _ h => absurd h List.not_mem_nil⟩

/-- One connection changes, and the entries that are left are for others, or it is open. -/
theorem Server.Listed.update {s : Server} (h : s.Listed) {fd : ℕ} {o : Option Conn}
    {batch : List Ev} (hbatch : batch.Sublist s.batch) (hnew : Ev.client fd ∈ batch → o ≠ none) :
    Server.Listed ⟨Function.update s.conns fd o, batch⟩ := by
  refine ⟨h.nodup.sublist hbatch, ?_⟩
  intro j hj
  show Function.update s.conns fd o j ≠ none
  by_cases hfd : j = fd
  · subst hfd
    rw [Function.update_self]
    exact hnew hj
  · rw [Function.update_of_ne hfd]
    exact h.opened j (hbatch.subset hj)

/-- **Every step** keeps the batch in order: a client is closed by its own entry only. -/
theorem Server.Listed.step {s s' : Server} (h : s.Listed) {a : Label}
    (hs : serverStep a s = some s') : s'.Listed := by
  cases a with
  | arrive fd a =>
      rw [serverStep] at hs
      rcases hconn : s.conns fd with _ | c
      · simp [hconn] at hs
      simp only [hconn, Option.some.injEq] at hs
      rw [← hs]
      exact h.update (List.Sublist.refl _) (fun _ => Option.some_ne_none _)
  | wait evs =>
      rw [serverStep, Server.wait] at hs
      split_ifs at hs with hguard
      obtain ⟨-, -, hnodup, -, hall⟩ := hguard
      rw [← Option.some.inj hs]
      refine ⟨hnodup, ?_⟩
      intro fd hfd
      obtain ⟨c, hc, -⟩ := (Option.any_eq_true _ _).mp (List.all_eq_true.mp hall _ hfd)
      show s.delivered evs fd ≠ none
      rw [Server.delivered, if_pos hfd, hc]
      exact Option.some_ne_none _
  | accept fd stream =>
      rw [serverStep, Server.accept] at hs
      split at hs
      case h_2 => cases hs
      case h_1 rest hbatch =>
        split_ifs at hs
        rw [← Option.some.inj hs]
        refine h.update ?_ (fun _ => Option.some_ne_none _)
        rw [hbatch]
        exact List.sublist_cons_self _ _
  | read script junk fuel =>
      obtain ⟨fd, rest, c, out, f, hbatch, -, -, rfl⟩ := read_cases hs
      have hnodup := h.nodup
      rw [hbatch, List.nodup_cons] at hnodup
      refine h.update ?_ (fun hmem => absurd hmem hnodup.1)
      rw [hbatch]
      exact List.sublist_cons_self _ _

/-- **A connection starts with an account of its own**: no entry of the batch is left from the
one that has had its descriptor before. -/
theorem account_renewed {t t' : Tally} {a : Label} {k : ℕ} (hlisted : t.server.Listed)
    (ha : a.GivesOut k) (h : tallyStep a t = some t') :
    (t'.account k).Ok ∧ t'.acted k = 0 := by
  obtain ⟨s, hs, rfl⟩ := Option.map_eq_some_iff.mp h
  cases a with
  | accept fd stream =>
      obtain rfl : fd = k := ha
      rw [serverStep, Server.accept] at hs
      split at hs
      case h_2 => cases hs
      case h_1 rest hbatch =>
        split_ifs at hs with hfree
        obtain rfl := Option.some.inj hs
        have hnone : rest.count (Ev.client fd) = 0 := by
          rw [List.count_eq_zero]
          intro hmem
          refine hlisted.opened fd ?_ hfree
          rw [hbatch]
          exact List.mem_cons_of_mem _ hmem
        constructor
        · show Function.update t.calls fd 0 fd + 0 + rest.count (Ev.client fd)
              + ((Function.update t.server.conns fd _ fd).any Conn.due).toNat
            ≤ Function.update t.arrivals fd 0 fd + t.server.arrived fd (Label.accept fd stream)
          rw [Function.update_self, Function.update_self, Function.update_self, hnone,
            Server.arrived]
          -- what has arrived before the descriptor is registered is one arrival
          by_cases hlook : stream.look = RecvRet.again
          · rw [if_neg (fun hboth => hboth.2 hlook)]
            simp [hlook]
          · rw [if_pos ⟨rfl, hlook⟩]
            exact (Nat.add_le_add_left (Bool.toNat_le _) _).trans (by omega)
        · show Function.update t.acted fd 0 fd + 0 = 0
          rw [Function.update_self]
  | arrive fd a => exact absurd ha id
  | wait evs => exact absurd ha id
  | read script junk fuel => exact absurd ha id

/-- A request is acted on in a call. -/
theorem requested_le_called (s : Server) (k : ℕ) (a : Label) : s.requested k a ≤ s.called k a := by
  unfold Server.requested Server.called
  split
  case h_1 fd m p f hcall => rw [hcall]
  case h_2 => exact Nat.zero_le _

/-- **Requests against arrivals.**  In every run, `do_read` is called for a connection at
most as often as something has arrived at it, and acts on a request at most once in each
call, also where its descriptor has been used before. -/
theorem acted_le_arrivals {t : Tally} (h : Reachable tallyStep Tally.start t) (k : ℕ) :
    t.acted k ≤ t.calls k ∧ t.calls k ≤ t.arrivals k := by
  have hall : t.server.Listed ∧ t.acted k ≤ t.calls k ∧ (t.account k).Ok := by
    refine h.invariant
      (I := fun t => t.server.Listed ∧ t.acted k ≤ t.calls k ∧ (t.account k).Ok)
      ⟨listed_start, le_rfl, le_rfl⟩ ?_
    rintro t a t' ⟨hlisted, hacted, hok⟩ - hstep
    have hlisted' : t'.server.Listed := by
      obtain ⟨s, hs, rfl⟩ := Option.map_eq_some_iff.mp hstep
      exact hlisted.step hs
    by_cases ha : a.GivesOut k
    · obtain ⟨hfresh, hnone⟩ := account_renewed hlisted ha hstep
      exact ⟨hlisted', hnone.le.trans (Nat.zero_le _), hfresh⟩
    · refine ⟨hlisted', ?_, hok.steps (account_step ha hstep)⟩
      obtain ⟨s, -, rfl⟩ := Option.map_eq_some_iff.mp hstep
      obtain ⟨-, hcalls, hacts⟩ := renewed_of_not_givesOut t ha
      show (t.renewed a).acted k + _ ≤ (t.renewed a).calls k + _
      rw [hcalls, hacts]
      exact Nat.add_le_add hacted (requested_le_called t.server k a)
  exact ⟨hall.2.1, hall.2.2.handled_le⟩

/-- Two requests in one segment: one is acted on, and the second one when the end of the
stream has arrived.  A client that hangs up at once is closed, and the next one, which gets
its descriptor, has a call to come. -/
theorem acted_le_arrivals_getAB :
    (∃ t, Reachable tallyStep Tally.start t ∧
      (t.server.batch = [] ∧ t.arrivals 5 = 1 ∧ t.acted 5 = 1 ∧
        (t.server.conns 5).any (fun c => c.stream.bytes.length == 19) = true) ∧
      t.acted 5 ≤ t.calls 5 ∧ t.calls 5 ≤ t.arrivals 5) ∧
    (∃ t, Reachable tallyStep Tally.start t ∧ (t.arrivals 5 = 2 ∧ t.acted 5 = 2)) ∧
    ∃ t, Reachable tallyStep Tally.start t ∧ (t.arrivals 5 = 1 ∧ t.calls 5 = 0) ∧
      t.acted 5 ≤ t.calls 5 := by
  refine ⟨?_, ?_, ?_⟩
  · obtain ⟨t, ht, hrun⟩ : ∃ t, Reachable tallyStep Tally.start t ∧
        (t.server.batch = [] ∧ t.arrivals 5 = 1 ∧ t.acted 5 = 1 ∧
          (t.server.conns 5).any (fun c => c.stream.bytes.length == 19) = true) :=
      exists_reach_of_run (servedOnce getAB) (by decide +kernel)
    exact ⟨t, ht, hrun, acted_le_arrivals ht 5⟩
  · exact exists_reach_of_run
      (servedOnce getAB ++ [.arrive 5 .fin, .wait [.client 5], .read [] ⟨[], [], []⟩ 3])
      (by decide +kernel)
  · obtain ⟨t, ht, hrun⟩ : ∃ t, Reachable tallyStep Tally.start t ∧
        (t.arrivals 5 = 1 ∧ t.calls 5 = 0) :=
      exists_reach_of_run (servedOnce .fin ++ [.wait [.listen], .accept 5 ⟨[71], false⟩])
        (by decide +kernel)
    exact ⟨t, ht, hrun, (acted_le_arrivals ht 5).1⟩

end MyHttpd
