/-
# The edge-triggered copy (`epoll_et/server2.c`)

The loop of `epoll/server.c` with `EPOLLET` and reads of at most 3 bytes.  A client is
reported once for what has arrived, and is read once for each report.

* `edge_serves_or_strands`: while every read takes all that has arrived, or one more report is
  due, every client is served; a read that leaves something behind strands its client,
  until it sends again;
* `written_le_arrivals`: not more than 3 bytes are written for each arrival.
-/
import NetStudy.StdoutServers

namespace StdoutServers

open Transition EpollServers Readiness

/-! ## The condition -/

/-- A read takes everything that has arrived, with no end behind it, or it returns 0, or one
more report is due. -/
def Empties (s : State) : Move → Prop
  | .handle _ n =>
      match s.reg.batch with
      | e :: _ =>
          e.epollin = true → ∀ k ∈ e.conn, (s.source k).due = true ∨ n = 0 ∨
            ((s.source k).unread.length ≤ n ∧ (s.source k).ended = false)
      | [] => True
  | _ => True

instance (s : State) (m : Move) : Decidable (Empties s m) := by
  unfold Empties
  split
  · split <;> infer_instance
  · infer_instance

/-- Something arrives at the connection `k`. -/
def Move.arrivesAt (k : ℕ) : Move → Bool
  | .arrive j _ _ => j == k
  | .hangUp j => j == k
  | _ => false

/-- An entry of the array waits for the connection. -/
def State.Pending (s : State) (k : ℕ) : Prop :=
  ∃ e ∈ s.reg.batch, e.epollin = true ∧ e.conn = some k

/-- Every connection that has been accepted has been closed, waits in the array, will be
reported, or has nothing to read. -/
def Attended (s : State) : Prop :=
  ∀ k < s.reg.fds.count, Call.close (some k) ∈ s.reg.log ∨ s.Pending k ∨
    (s.source k).due = true ∨ (s.source k).Drained

/-- The connection is open and has something to read, and the server does not know. -/
structure Stranded (k : ℕ) (s : State) : Prop where
  accepted : k < s.reg.fds.count
  stuck : (s.source k).Stuck
  still_open : Call.close (some k) ∉ s.reg.log
  not_pending : ¬ s.Pending k

/-! ## Reads that leave nothing -/

/-- An entry that stands behind the first one stays. -/
theorem State.Pending.tail {s : State} {k : ℕ} (h : s.Pending k) {e : Event} {rest : List Event}
    (hbatch : s.reg.batch = e :: rest) (hne : e.epollin = true → e.conn ≠ some k) :
    ∃ e' ∈ rest, e'.epollin = true ∧ e'.conn = some k := by
  obtain ⟨e', hmem, hin, hconn⟩ := h
  rw [hbatch] at hmem
  rcases List.mem_cons.mp hmem with rfl | hmem
  · exact absurd hconn (hne hin)
  · exact ⟨e', hmem, hin, hconn⟩

/-- The connection behind an entry that is read. -/
theorem StdoutInv.head_conn {lfd : ℕ} {s : State} (h : StdoutInv lfd s) {e : Event}
    {rest : List Event} (hbatch : s.reg.batch = e :: rest) : s.reg.fds.conn e.fd = e.conn :=
  (h.reg.pending e (by rw [hbatch]; exact List.mem_cons_self)).2

/-- The listener has no connection behind it. -/
theorem StdoutInv.listener_conn {lfd : ℕ} {s : State} (h : StdoutInv lfd s) {e : Event}
    {rest : List Event} (hbatch : s.reg.batch = e :: rest) (hfd : e.fd = lfd) :
    e.conn = none := by
  rw [← h.head_conn hbatch, hfd]
  exact h.reg.listener

/-- An arrival makes a report due. -/
theorem Attended.arrived {s s' : State} (h : Attended s) {k : ℕ} {source : Source UInt8}
    (hreg : s'.reg = s.reg) (hsource : s'.source = Function.update s.source k source)
    (hdue : source.due = true) : Attended s' := by
  intro j hj
  rw [hreg] at hj
  rw [State.Pending, hreg, hsource]
  by_cases hjk : j = k
  · rw [hjk, Function.update_self]
    exact Or.inr (Or.inr (Or.inl hdue))
  · rw [Function.update_of_ne hjk]
    exact h j hj

/-- A report puts an entry for its connection into the array. -/
theorem Attended.wait {s : State} (h : Attended s) {events : List (ℕ × Bool)}
    (hempty : s.reg.batch = []) :
    Attended { s with
      reg := { s.reg with batch := events.map (fun e => ⟨e.1, e.2, s.reg.fds.conn e.1⟩) }
      source := s.delivered events } := by
  intro j hj
  show _ ∨ _ ∨ (s.delivered events j).due = true ∨ (s.delivered events j).Drained
  by_cases hreported : s.reported events j = true
  · obtain ⟨ev, hev, hin, hconn⟩ := State.reported_iff.mp hreported
    exact Or.inr (Or.inl ⟨_, List.mem_map_of_mem hev, hin, hconn⟩)
  · unfold State.delivered
    rw [if_neg hreported]
    rcases h j hj with hclose | ⟨e, he, -⟩ | hrest
    · exact Or.inl hclose
    · rw [hempty] at he
      exact absurd he List.not_mem_nil
    · exact Or.inr (Or.inr hrest)

/-- A connection is registered with a report due, or with nothing to read. -/
theorem Attended.accept {lfd c : ℕ} {s : State} (hinv : StdoutInv lfd s) (h : Attended s)
    {e : Event} {rest : List Event} (hbatch : s.reg.batch = e :: rest) (hfd : e.fd = lfd) :
    Attended { s with
      reg := ({ s.reg.handling e rest with fds := s.reg.fds.accept c } : Registry).ctlAdd c
      source := Function.update s.source s.reg.fds.count
        (s.source s.reg.fds.count).register } := by
  intro j hj
  change j < s.reg.fds.count + 1 at hj
  show Call.close (some j) ∈ (s.reg.handling e rest).log ∨ _ ∨
    (Function.update s.source _ _ j).due = true ∨ (Function.update s.source _ _ j).Drained
  rw [mem_log_handling]
  by_cases hcount : j = s.reg.fds.count
  · subst hcount
    rw [Function.update_self]
    right; right
    rcases hreadable : (s.source s.reg.fds.count).readable with _ | _
    · exact Or.inr (Source.readable_eq_false_iff.mp hreadable)
    · exact Or.inl hreadable
  · rw [Function.update_of_ne hcount]
    rcases h j (by omega) with hclose | hpending | hrest
    · exact Or.inl hclose
    · refine Or.inr (Or.inl (hpending.tail hbatch (fun _ => ?_)))
      rw [hinv.listener_conn hbatch hfd]
      exact fun heq => Option.some_ne_none _ heq.symm
    · exact Or.inr (Or.inr hrest)

/-- A read that empties its connection, or has one more report due, forgets nobody. -/
theorem Attended.read {lfd n k : ℕ} {s : State} (hinv : StdoutInv lfd s) (h : Attended s)
    {e : Event} {rest : List Event} (hbatch : s.reg.batch = e :: rest)
    (hconn : s.reg.fds.conn e.fd = some k)
    (hempties : (s.source k).due = true ∨ n = 0 ∨
      ((s.source k).unread.length ≤ n ∧ (s.source k).ended = false)) :
    Attended { s.copy k n with
      reg := if n = 0 then ((s.reg.handling e rest).ctlDel e.fd).close e.fd
        else s.reg.handling e rest } := by
  have hek : e.conn = some k := (hinv.head_conn hbatch).symm.trans hconn
  intro j hj
  change j < (if n = 0 then _ else _ : Registry).fds.count at hj
  rw [count_read] at hj
  show Call.close (some j) ∈ (if n = 0 then _ else _ : Registry).log ∨
    (∃ e' ∈ (if n = 0 then _ else _ : Registry).batch, _) ∨
    (Function.update s.source k _ j).due = true ∨ (Function.update s.source k _ j).Drained
  rw [mem_log_read hconn, batch_read]
  by_cases hjk : j = k
  · subst hjk
    rw [Function.update_self, Source.due_take, Source.drained_take_iff]
    rcases hempties with hdue | hzero | hall
    · exact Or.inr (Or.inr (Or.inl hdue))
    · exact Or.inl (Or.inr ⟨hzero, rfl⟩)
    · exact Or.inr (Or.inr (Or.inr hall))
  · rw [Function.update_of_ne hjk]
    rcases h j hj with hclose | hpending | hrest
    · exact Or.inl (Or.inl hclose)
    · refine Or.inr (Or.inl (hpending.tail hbatch (fun _ heq => ?_)))
      rw [hek] at heq
      exact hjk (Option.some.inj heq).symm
    · exact Or.inr (Or.inr hrest)

/-- **Whoever is not reported is not forgotten**, if each read empties its connection. -/
theorem Attended.step {t : Trigger} {size lfd : ℕ} {s s' : State} (hinv : StdoutInv lfd s)
    (h : Attended s) {m : Move} (hok : Empties s m)
    (hs : StdoutServers.step t size lfd m s = some s') : Attended s' := by
  cases stepped_of_step hs with
  | arrive hopen => exact h.arrived rfl rfl rfl
  | hangUp hopen => exact h.arrived rfl rfl rfl
  | wait hempty hnodup hmay => exact h.wait hempty
  | @handle cfd n _ hhandled =>
      cases hhandled with
      | skip hbatch hin =>
          intro j hj
          rcases h j hj with hclose | hpending | hrest
          · exact Or.inl hclose
          · refine Or.inr (Or.inl (hpending.tail hbatch (fun hin' => ?_)))
            rw [hin] at hin'
            cases hin'
          · exact Or.inr (Or.inr hrest)
      | accept hbatch hfd hfree => exact h.accept hinv hbatch hfd
      | @read k e rest hbatch hin hne hconn hgives =>
          simp only [Empties, hbatch] at hok
          exact h.read hinv hbatch hconn
            (hok hin k ((hinv.head_conn hbatch).symm.trans hconn))

theorem attended_of_reach {t : Trigger} {size lfd : ℕ} {s : State}
    (h : Reach (StdoutServers.step t size lfd) Empties (start lfd) s) : Attended s := by
  have hboth : StdoutInv lfd s ∧ Attended s := by
    refine h.invariant (I := fun s => StdoutInv lfd s ∧ Attended s)
      ⟨stdoutInv_start lfd, fun _ hk => absurd hk (Nat.not_lt_zero _)⟩ ?_
    rintro s m s' ⟨hinv, hatt⟩ hok hs
    exact ⟨hinv.step hs, hatt.step hinv hok hs⟩
  exact hboth.2

/-! ## Reads that leave something -/

/-- The step reads the connection `k`: it handles the first entry of the array, which is for
that connection. -/
def State.Reads (s : State) (k : ℕ) (m : Move) : Prop :=
  ∃ cfd n e rest, m = .handle cfd n ∧ s.reg.batch = e :: rest ∧ e.epollin = true ∧
    e.conn = some k

/-- Such a read strands its client. -/
theorem exists_stranded {t : Trigger} {size lfd : ℕ} {s s' : State} (hinv : StdoutInv lfd s)
    {m : Move} (hok : ¬ Empties s m) (hs : StdoutServers.step t size lfd m s = some s') :
    ∃ k, s.Reads k m ∧ Stranded k s' := by
  cases m with
  | arrive k b bs => exact absurd trivial hok
  | hangUp k => exact absurd trivial hok
  | wait events => exact absurd trivial hok
  | handle cfd n =>
      rcases hhead : s.reg.batch with _ | ⟨e₀, rest₀⟩
      · simp only [Empties, hhead] at hok
        exact absurd trivial hok
      · simp only [Empties, hhead, Classical.not_imp, not_forall, not_or, not_and] at hok
        obtain ⟨hin₀, k, hek, hdue, hn, hleft⟩ := hok
        cases handled_of_handle hs with
        | skip hbatch hin =>
            rw [hhead, List.cons.injEq] at hbatch
            rw [← hbatch.1, hin₀] at hin
            exact absurd hin (by decide)
        | accept hbatch hfd hfree =>
            rw [hhead, List.cons.injEq] at hbatch
            obtain ⟨rfl, -⟩ := hbatch
            rw [hinv.listener_conn hhead hfd] at hek
            cases hek
        | @read j e rest hbatch hin hne hconn hgives =>
            obtain ⟨rfl, rfl⟩ := List.cons.inj (hhead.symm.trans hbatch)
            have hjk : j = k := by
              rw [hinv.head_conn hhead, hek] at hconn
              exact (Option.some.inj hconn).symm
            subst hjk
            refine ⟨j, ⟨cfd, n, e₀, rest₀, rfl, hhead, hin₀, hek⟩, ?_⟩
            rw [if_neg hn]
            refine ⟨hinv.reg.fds.lt hconn, ⟨?_, ?_⟩, ?_, ?_⟩
            · show (Function.update s.source j _ j).readable = true
              rw [Function.update_self]
              by_contra hreadable
              have hdrained := (Source.drained_take_iff _ _).mp
                (Source.readable_eq_false_iff.mp (by simpa using hreadable))
              exact absurd hdrained.2 (hleft hdrained.1)
            · show (Function.update s.source j _ j).due = false
              rw [Function.update_self, Source.due_take]
              simpa using hdue
            · intro hclose
              have hclose := (mem_log_handling _ _ _ _).mp hclose
              exact (hinv.reg.gone j hclose).2 e₀.fd hconn
            · -- no two entries are for one connection
              rintro ⟨e', he', -, hconn'⟩
              obtain ⟨hmem, hfd⟩ := hinv.pending_tail hhead e' he'
              have hother := (hinv.reg.pending e' hmem).2
              rw [hconn'] at hother
              exact hfd (hinv.reg.fds.inj hother hconn)

/-- An arrival elsewhere does not change that. -/
theorem Stranded.arrived {k : ℕ} {s s' : State} (h : Stranded k s) (hreg : s'.reg = s.reg)
    (hsource : s'.source k = s.source k) : Stranded k s' := by
  refine ⟨?_, ?_, ?_, ?_⟩
  · rw [hreg]
    exact h.accepted
  · rw [hsource]
    exact h.stuck
  · rw [hreg]
    exact h.still_open
  · rw [State.Pending, hreg]
    exact h.not_pending

/-- Who is stranded is not reported. -/
theorem Stranded.not_reported {lfd k : ℕ} {s : State} (hinv : StdoutInv lfd s)
    (h : Stranded k s) {events : List (ℕ × Bool)}
    (hmay : ∀ ev ∈ events, s.mayReport Trigger.edge lfd ev = true) :
    ¬ ∃ ev ∈ events, ev.2 = true ∧ s.reg.fds.conn ev.1 = some k := by
  rintro ⟨ev, hev, hin, hconn⟩
  have hreportable := hinv.reportable (hmay ev hev) hin hconn
  rw [h.stuck.not_reportable] at hreportable
  cases hreportable

/-- Another connection is read. -/
theorem Stranded.read {n j k : ℕ} {s : State} (h : Stranded k s) (hkj : k ≠ j) {e : Event}
    {rest : List Event} (hconn : s.reg.fds.conn e.fd = some j)
    (htail : ¬ ∃ e' ∈ rest, e'.epollin = true ∧ e'.conn = some k) :
    Stranded k { s.copy j n with
      reg := if n = 0 then ((s.reg.handling e rest).ctlDel e.fd).close e.fd
        else s.reg.handling e rest } := by
  refine ⟨?_, ?_, ?_, ?_⟩
  · show k < (if n = 0 then _ else _ : Registry).fds.count
    rw [count_read]
    exact h.accepted
  · show (Function.update s.source j _ k).Stuck
    rw [Function.update_of_ne hkj]
    exact h.stuck
  · show Call.close (some k) ∉ (if n = 0 then _ else _ : Registry).log
    rw [mem_log_read hconn]
    rintro (hclose | ⟨-, heq⟩)
    · exact h.still_open hclose
    · exact hkj heq
  · show ¬ ∃ e' ∈ (if n = 0 then _ else _ : Registry).batch, _
    rw [batch_read]
    exact htail

/-- **Who is stranded stays so** until something arrives. -/
theorem Stranded.step {size lfd k : ℕ} {s s' : State} (hinv : StdoutInv lfd s)
    (h : Stranded k s) {m : Move} (hm : m.arrivesAt k = false)
    (hs : StdoutServers.step Trigger.edge size lfd m s = some s') :
    Stranded k s' ∧ s'.written k = s.written k := by
  cases stepped_of_step hs with
  | @arrive j b bs hopen =>
      have hkj : k ≠ j := fun heq => by simp [Move.arrivesAt, heq] at hm
      exact ⟨h.arrived rfl (Function.update_of_ne hkj _ _), rfl⟩
  | @hangUp j hopen =>
      have hkj : k ≠ j := fun heq => by simp [Move.arrivesAt, heq] at hm
      exact ⟨h.arrived rfl (Function.update_of_ne hkj _ _), rfl⟩
  | @wait events hempty hnodup hmay =>
      have hnot := h.not_reported hinv hmay
      refine ⟨⟨h.accepted, ?_, h.still_open, ?_⟩, rfl⟩
      · show (s.delivered events k).Stuck
        rw [State.delivered, if_neg (mt State.reported_iff.mp hnot)]
        exact h.stuck
      · rintro ⟨e, he, hin, hconn⟩
        obtain ⟨ev, hev, rfl⟩ := List.mem_map.mp he
        exact hnot ⟨ev, hev, hin, hconn⟩
  | @handle cfd n _ hhandled =>
      have htail : ∀ {e rest}, s.reg.batch = e :: rest →
          ¬ ∃ e' ∈ rest, e'.epollin = true ∧ e'.conn = some k := by
        rintro e rest hbatch ⟨e', he', hrest⟩
        exact h.not_pending ⟨e', by rw [hbatch]; exact List.mem_cons_of_mem e he', hrest⟩
      cases hhandled with
      | skip hbatch hin => exact ⟨⟨h.accepted, h.stuck, h.still_open, htail hbatch⟩, rfl⟩
      | @accept c e rest hbatch hfd hfree =>
          refine ⟨⟨Nat.lt_succ_of_lt h.accepted, ?_, ?_, htail hbatch⟩, rfl⟩
          · show (Function.update s.source _ _ k).Stuck
            rw [Function.update_of_ne (Nat.ne_of_lt h.accepted)]
            exact h.stuck
          · exact fun hclose => h.still_open ((mem_log_handling s.reg e rest k).mp hclose)
      | @read j e rest hbatch hin hne hconn hgives =>
          have hkj : k ≠ j := by
            rintro rfl
            exact h.not_pending ⟨e, by rw [hbatch]; exact List.mem_cons_self, hin,
              (hinv.head_conn hbatch).symm.trans hconn⟩
          exact ⟨h.read hkj hconn (htail hbatch), written_copy_of_ne s n hkj⟩

/-- Whoever is stranded has not been served. -/
theorem Stranded.not_served {lfd k : ℕ} {s : State} (hinv : StdoutInv lfd s)
    (h : Stranded k s) : ¬ Served s k := by
  rintro ⟨hwritten, hended⟩
  have hbytes := hinv.bytes k
  have hreadable := h.stuck.1
  rw [hwritten, List.append_right_eq_self] at hbytes
  rw [Source.readable, hbytes] at hreadable
  exact h.still_open (hended hreadable)

/-! ## Served or stranded -/

/-- **What the edge-triggered server does for its clients.**  In a run whose reads leave
nothing behind, or have one more report due, every accepted client has been served when the
server blocks.  Any other read strands the client that it reads: as long as nothing more
arrives from there, whatever else happens, nothing more is written from it, and it is not
served. -/
theorem edge_serves_or_strands (lfd : ℕ) :
    (∀ s, Reach (edgeServer lfd) Empties (start lfd) s → Idle Trigger.edge s →
      ∀ k < s.reg.fds.count, Served s k) ∧
    ∀ s m s', Reachable (edgeServer lfd) (start lfd) s → edgeServer lfd m s = some s' →
      ¬ Empties s m → ∃ k < s'.reg.fds.count, s.Reads k m ∧ ∀ s'',
        Reach (edgeServer lfd) (fun _ m => m.arrivesAt k = false) s' s'' →
          ¬ Served s'' k ∧ s''.written k = s'.written k := by
  constructor
  · intro s h hidle k hk
    have hinv := stdoutInv_of_reach h
    rcases hidle.2 k hk with hclose | hedge
    · exact hinv.served_of_closed hclose
    · rcases attended_of_reach h k hk with hclose | ⟨e, he, -⟩ | hdue | hdrained
      · exact hinv.served_of_closed hclose
      · rw [hidle.1] at he
        exact absurd he List.not_mem_nil
      · rcases Source.drained_or_stuck hedge with hdrained | hstuck
        · exact hinv.served_of_drained hdrained
        · rw [hstuck.2] at hdue
          exact absurd hdue (by decide)
      · exact hinv.served_of_drained hdrained
  · intro s m s' h hs hok
    have hinv := stdoutInv_of_reach h
    obtain ⟨k, hreads, hstranded⟩ := exists_stranded hinv hok hs
    refine ⟨k, hstranded.accepted, hreads, ?_⟩
    intro s'' hrest
    have hall : StdoutInv lfd s'' ∧ Stranded k s'' ∧ s''.written k = s'.written k := by
      refine hrest.invariant
        (I := fun u => StdoutInv lfd u ∧ Stranded k u ∧ u.written k = s'.written k)
        ⟨hinv.step hs, hstranded, rfl⟩ ?_
      rintro u m u' ⟨hu, hstr, hwritten⟩ hm hstep
      obtain ⟨hstr', hsame⟩ := hstr.step hu hm hstep
      exact ⟨hu.step hstep, hstr', hsame.trans hwritten⟩
    exact ⟨hall.2.1.not_served hall.1, hall.2.2⟩

/-- Three of nine bytes are read, and the client is stranded. -/
theorem edge_strands_nineBytes : ∃ s s', Reachable (edgeServer 3) (start 3) s ∧
    edgeServer 3 (.handle 0 3) s = some s' ∧ ∃ k < s'.reg.fds.count,
      s.Reads k (.handle 0 3) ∧ ∀ s'',
        Reach (edgeServer 3) (fun _ m => m.arrivesAt k = false) s' s'' →
          ¬ Served s'' k ∧ s''.written k = s'.written k := by
  obtain ⟨s, hreach, hstep, hok⟩ : ∃ s, Reachable (edgeServer 3) (start 3) s ∧
      ((edgeServer 3 (.handle 0 3) s).isSome = true ∧ ¬ Empties s (.handle 0 3)) :=
    exists_reach_of_run ((nineBytes 3).dropLast) (by decide +kernel)
  obtain ⟨s', hs'⟩ := Option.isSome_iff_exists.mp hstep
  exact ⟨s, s', hreach, hs', (edge_serves_or_strands 3).2 s _ s' hreach hs' hok⟩

/-! ## Three bytes for an arrival -/

/-- The number of entries of the array that wait for the connection. -/
def State.pendingCount (s : State) (k : ℕ) : ℕ :=
  s.reg.batch.countP (fun e => e.epollin && e.conn == some k)

/-- The arrivals at a connection, and what has become of its reports. -/
def State.account (s : State) (k : ℕ) : Account :=
  ⟨s.arrivals k, s.reads k, s.pendingCount k, (s.source k).due⟩

/-- A list has at most one element of a kind that determines a key, if the keys are
distinct. -/
theorem countP_le_one {β γ : Type*} {l : List β} {key : β → γ} {p : β → Bool}
    (hnodup : (l.map key).Nodup)
    (hkey : ∀ x ∈ l, ∀ y ∈ l, p x = true → p y = true → key x = key y) : l.countP p ≤ 1 := by
  induction l with
  | nil => exact Nat.zero_le 1
  | cons x xs ih =>
      rw [List.map_cons, List.nodup_cons] at hnodup
      have hrest := ih hnodup.2 (fun y hy z hz =>
        hkey y (List.mem_cons_of_mem x hy) z (List.mem_cons_of_mem x hz))
      rw [List.countP_cons]
      split_ifs with hx
      · have hnone : xs.countP p = 0 := by
          rw [List.countP_eq_zero]
          intro y hy hpy
          have heq := hkey x List.mem_cons_self y (List.mem_cons_of_mem x hy) hx hpy
          exact hnodup.1 (heq ▸ List.mem_map_of_mem hy)
        omega
      · exact hrest

/-- What is due at a connection that has not been accepted is due when it is registered. -/
def FreshDue (s : State) : Prop :=
  ∀ k, s.reg.fds.count ≤ k → (s.source k).due = (s.source k).readable

/-- The connection is reported in one entry at most. -/
theorem count_reported {lfd : ℕ} {s : State} (hinv : StdoutInv lfd s)
    {events : List (ℕ × Bool)} (hnodup : (events.map Prod.fst).Nodup) (k : ℕ) :
    events.countP (fun e => e.2 && s.reg.fds.conn e.1 == some k)
      = (s.reported events k).toNat := by
  rcases hreported : s.reported events k with _ | _
  · rw [Bool.toNat_false, List.countP_eq_zero]
    exact List.any_eq_false.mp hreported
  · refine le_antisymm (countP_le_one hnodup ?_) (List.countP_pos_iff.mpr ?_)
    · intro x _ y _ hx hy
      rw [Bool.and_eq_true, beq_iff_eq] at hx hy
      exact hinv.reg.fds.inj hx.2 hy.2
    · exact List.any_eq_true.mp hreported

/-- **`epoll_wait`** turns a report that is due into an entry of the array. -/
theorem account_wait {lfd : ℕ} {s : State} (hinv : StdoutInv lfd s) {events : List (ℕ × Bool)}
    (hempty : s.reg.batch = []) (hnodup : (events.map Prod.fst).Nodup)
    (hmay : ∀ ev ∈ events, s.mayReport Trigger.edge lfd ev = true) (k : ℕ) :
    Relation.ReflTransGen Account.Step (s.account k)
      (State.account { s with
        reg := { s.reg with batch := events.map (fun e => ⟨e.1, e.2, s.reg.fds.conn e.1⟩) }
        source := s.delivered events } k) := by
  have hbefore : s.pendingCount k = 0 := by
    rw [State.pendingCount, hempty]
    rfl
  have hcount : (events.map (fun e => (⟨e.1, e.2, s.reg.fds.conn e.1⟩ : Event))).countP
      (fun e => e.epollin && e.conn == some k) = (s.reported events k).toNat := by
    rw [← count_reported hinv hnodup, List.countP_map]
    rfl
  show Relation.ReflTransGen Account.Step ⟨s.arrivals k, s.reads k, s.pendingCount k, _⟩
    ⟨s.arrivals k, s.reads k, List.countP _ (events.map _), (s.delivered events k).due⟩
  rw [hcount, hbefore]
  unfold State.delivered
  rcases hreported : s.reported events k with _ | _
  · exact Relation.ReflTransGen.refl
  · obtain ⟨ev, hev, hin, hconn⟩ := State.reported_iff.mp hreported
    exact Relation.ReflTransGen.single
      (Account.Step.report (Source.due_of_reportable (hinv.reportable (hmay ev hev) hin hconn)))

/-- An arrival is one of the account of its connection. -/
theorem account_arrived {s s' : State} {j k : ℕ} {source : Source UInt8} (hdue : source.due = true)
    (hreg : s'.reg = s.reg) (hreads : s'.reads = s.reads)
    (hsource : s'.source = Function.update s.source j source)
    (harrivals : s'.arrivals = Function.update s.arrivals j (s.arrivals j + 1)) :
    Relation.ReflTransGen Account.Step (s.account k) (s'.account k) := by
  simp only [State.account, State.pendingCount, hreg, hreads, hsource, harrivals]
  by_cases hkj : k = j
  · subst hkj
    rw [Function.update_self, Function.update_self, hdue]
    exact Relation.ReflTransGen.single (Account.Step.arrive (s.account k))
  · rw [Function.update_of_ne hkj, Function.update_of_ne hkj]

/-- **A read** takes an entry of its connection off the array. -/
theorem account_read {lfd n j : ℕ} {s : State} (hinv : StdoutInv lfd s) {e : Event}
    {rest : List Event} (hbatch : s.reg.batch = e :: rest) (hin : e.epollin = true)
    (hconn : s.reg.fds.conn e.fd = some j) (k : ℕ) :
    Relation.ReflTransGen Account.Step (s.account k)
      (State.account { s.copy j n with
        reg := if n = 0 then ((s.reg.handling e rest).ctlDel e.fd).close e.fd
          else s.reg.handling e rest } k) := by
  have hek : e.conn = some j := (hinv.head_conn hbatch).symm.trans hconn
  have hcount : s.pendingCount k = rest.countP (fun e => e.epollin && e.conn == some k)
      + if k = j then 1 else 0 := by
    rw [State.pendingCount, hbatch, List.countP_cons, hin, hek]
    simp only [Bool.true_and, beq_iff_eq, Option.some.injEq, eq_comm (a := j)]
  show Relation.ReflTransGen Account.Step ⟨s.arrivals k, s.reads k, s.pendingCount k, _⟩
    ⟨s.arrivals k, Function.update s.reads j _ k,
      List.countP _ (if n = 0 then _ else _ : Registry).batch,
      (Function.update s.source j _ k).due⟩
  rw [batch_read]
  by_cases hkj : k = j
  · subst hkj
    rw [if_pos rfl] at hcount
    rw [Function.update_self, Function.update_self, Source.due_take]
    exact Relation.ReflTransGen.single (Account.Step.handle hcount)
  · rw [if_neg hkj, Nat.add_zero] at hcount
    rw [Function.update_of_ne hkj, Function.update_of_ne hkj, hcount]

/-- **Each step is one of the account**, or leaves it. -/
theorem account_step {size lfd : ℕ} {s s' : State} (hinv : StdoutInv lfd s)
    (hfresh : FreshDue s) {m : Move} (hs : step Trigger.edge size lfd m s = some s') (k : ℕ) :
    Relation.ReflTransGen Account.Step (s.account k) (s'.account k) := by
  cases stepped_of_step hs with
  | arrive hopen => exact account_arrived rfl rfl rfl rfl rfl
  | hangUp hopen => exact account_arrived rfl rfl rfl rfl rfl
  | wait hempty hnodup hmay => exact account_wait hinv hempty hnodup hmay k
  | handle hhandled =>
      -- what is counted behind the first entry of the array
      have htail : ∀ {e rest}, s.reg.batch = e :: rest →
          (e.epollin && e.conn == some k) = false →
          rest.countP (fun e => e.epollin && e.conn == some k) = s.pendingCount k := by
        intro e rest hbatch hno
        rw [State.pendingCount, hbatch, List.countP_cons, hno]
        simp
      cases hhandled with
      | @skip e rest hbatch hin =>
          have hcount := htail hbatch (by rw [hin]; rfl)
          show Relation.ReflTransGen Account.Step _ ⟨_, _, rest.countP _, _⟩
          rw [hcount]
          exact Relation.ReflTransGen.refl
      | @accept c e rest hbatch hfd hfree =>
          have hcount := htail hbatch (by rw [hinv.listener_conn hbatch hfd, Bool.and_comm]; rfl)
          have hdue : (Function.update s.source s.reg.fds.count
              (s.source s.reg.fds.count).register k).due = (s.source k).due := by
            by_cases hk : k = s.reg.fds.count
            · subst hk
              rw [Function.update_self]
              exact (hfresh _ le_rfl).symm
            · rw [Function.update_of_ne hk]
          show Relation.ReflTransGen Account.Step _
            ⟨_, _, rest.countP _, (Function.update s.source _ _ k).due⟩
          rw [hcount, hdue]
          exact Relation.ReflTransGen.refl
      | read hbatch hin hne hconn hgives => exact account_read hinv hbatch hin hconn k

/-- An arrival makes what can be read due. -/
theorem FreshDue.update {s s' : State} (h : FreshDue s) {j : ℕ} {source : Source UInt8}
    (hdue : source.due = source.readable) (hcount : s.reg.fds.count ≤ s'.reg.fds.count)
    (hsource : s'.source = Function.update s.source j source) : FreshDue s' := by
  intro k hk
  rw [hsource]
  by_cases hkj : k = j
  · rw [hkj, Function.update_self]
    exact hdue
  · rw [Function.update_of_ne hkj]
    exact h k (hcount.trans hk)

/-- Nothing but an arrival changes a connection that has not been accepted. -/
theorem FreshDue.step {size lfd : ℕ} {s s' : State} (hinv : StdoutInv lfd s) (h : FreshDue s)
    {m : Move} (hs : StdoutServers.step Trigger.edge size lfd m s = some s') : FreshDue s' := by
  cases stepped_of_step hs with
  | arrive hopen => exact h.update (by simp [Source.arrive, Source.readable]) le_rfl rfl
  | hangUp hopen => exact h.update (Source.readable_finish _).symm le_rfl rfl
  | @wait events hempty hnodup hmay =>
      intro k hk
      -- no descriptor has the connection behind it
      have hnot : ¬ s.reported events k = true := by
        intro hreported
        obtain ⟨ev, -, -, hconn⟩ := State.reported_iff.mp hreported
        exact absurd (hinv.reg.fds.lt hconn) (Nat.not_lt.mpr hk)
      show (s.delivered events k).due = (s.delivered events k).readable
      rw [State.delivered, if_neg hnot]
      exact h k hk
  | @handle cfd n _ hhandled =>
      cases hhandled with
      | skip hbatch hin => exact h
      | accept hbatch hfd hfree => exact h.update rfl (Nat.le_succ _) rfl
      | @read j e rest hbatch hin hne hconn hgives =>
          intro k hk
          change (if n = 0 then _ else _ : Registry).fds.count ≤ k at hk
          rw [count_read] at hk
          have hkj : k ≠ j := by
            rintro rfl
            exact absurd (hinv.reg.fds.lt hconn) (Nat.not_lt.mpr hk)
          show (Function.update s.source j _ k).due = (Function.update s.source j _ k).readable
          rw [Function.update_of_ne hkj]
          exact h k hk

/-- A read gives `size` bytes at most. -/
theorem written_le_reads {t : Trigger} {size lfd : ℕ} {s s' : State} {m : Move}
    (hs : step t size lfd m s = some s') (k : ℕ) (h : (s.written k).length ≤ size * s.reads k) :
    (s'.written k).length ≤ size * s'.reads k := by
  cases stepped_of_step hs with
  | arrive hopen => exact h
  | hangUp hopen => exact h
  | wait hempty hnodup hmay => exact h
  | @handle cfd n _ hhandled =>
      cases hhandled with
      | skip hbatch hin => exact h
      | accept hbatch hfd hfree => exact h
      | @read j e rest hbatch hin hne hconn hgives =>
          show ((s.copy j n).written k).length ≤ size * (s.copy j n).reads k
          by_cases hkj : k = j
          · subst hkj
            have hn : n ≤ size := by
              rcases hgives with ⟨rfl, -, -⟩ | ⟨-, hle, -⟩
              · exact Nat.zero_le _
              · exact hle
            have hreads : (s.copy k n).reads k = s.reads k + 1 := Function.update_self _ _ _
            rw [written_copy_self, List.length_append, hreads, Nat.mul_succ]
            exact Nat.add_le_add h (le_trans (List.length_take_le _ _) hn)
          · have hreads : (s.copy j n).reads k = s.reads k := Function.update_of_ne hkj _ _
            rw [written_copy_of_ne s n hkj, hreads]
            exact h

/-- **Three bytes for an arrival.**  In every run of the edge-triggered server, what has been
written from a client is at most 3 bytes for each time that something has arrived from it,
its end included. -/
theorem written_le_arrivals {lfd : ℕ} {s : State}
    (h : Reachable (edgeServer lfd) (start lfd) s) (k : ℕ) :
    (s.written k).length ≤ 3 * s.arrivals k := by
  have hall : StdoutInv lfd s ∧ FreshDue s ∧ (s.account k).Ok ∧
      (s.written k).length ≤ 3 * s.reads k := by
    refine h.invariant
      (I := fun s => StdoutInv lfd s ∧ FreshDue s ∧ (s.account k).Ok ∧
        (s.written k).length ≤ 3 * s.reads k)
      ⟨stdoutInv_start lfd, fun _ _ => rfl, le_rfl, le_rfl⟩ ?_
    rintro s m s' ⟨hinv, hfresh, haccount, hwritten⟩ - hs
    exact ⟨hinv.step hs, hfresh.step hinv hs, haccount.steps (account_step hinv hfresh hs k),
      written_le_reads hs k hwritten⟩
  obtain ⟨-, -, haccount, hwritten⟩ := hall
  exact le_trans hwritten (Nat.mul_le_mul_left 3 haccount.handled_le)

/-- Of nine bytes that come at once and an end that comes later, six are written. -/
theorem written_le_arrivals_nineBytes : ∃ s, Reachable (edgeServer 3) (start 3) s ∧
    (Idle Trigger.edge s ∧ s.sent 0 = [49, 50, 51, 52, 53, 54, 55, 56, 57] ∧
      s.written 0 = [49, 50, 51, 52, 53, 54] ∧ s.arrivals 0 = 2) ∧
    (s.written 0).length ≤ 3 * s.arrivals 0 := by
  obtain ⟨s, hreach, hs⟩ : ∃ s, Reachable (edgeServer 3) (start 3) s ∧
      (Idle Trigger.edge s ∧ s.sent 0 = [49, 50, 51, 52, 53, 54, 55, 56, 57] ∧
        s.written 0 = [49, 50, 51, 52, 53, 54] ∧ s.arrivals 0 = 2) :=
    exists_reach_of_run (nineBytes 3 ++ [.hangUp 0, .wait [(4, true)], .handle 0 3])
      (by decide +kernel)
  exact ⟨s, hreach, hs, written_le_arrivals hreach 0⟩

end StdoutServers
