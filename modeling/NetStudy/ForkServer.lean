/-
# One process for each connection (`socket/forkserver.c`)

The parent accepts connections and starts a child for each.  The children share
nothing: a child reads from its descriptor and writes back, in a loop that has no way
out.  When a child terminates, the parent runs `sig_child`, which calls `waitpid` until
it returns 0.

* `session_runs_on`: no session ends, on any input; it has written back all that it has
  read, and after the end of the input it goes on with its closed descriptor;
* `handlerOk_iff`: an execution of `sig_child` returns exactly if it comes to a call by
  which it has reaped all that have terminated and a child is left;
* `cleanup_iff`: so what one would expect of both holds only of executions without a
  client.
-/
import Mathlib.Tactic
import Mathlib.Data.List.Perm.Basic

namespace ForkServer

/-! ## The session of a child -/

/-- How the input of a session ends. -/
inductive Ending
  | eof
  | error
  deriving DecidableEq

/-- What `read` returns from the end of the input on. -/
def Ending.size : Ending → ℤ
  | eof => 0
  | error => -1

/-- The input of a session: what the calls of `read` give, and how it ends. -/
structure Input where
  chunks : List (List UInt8)
  ending : Ending
  nonempty : ∀ c ∈ chunks, c ≠ []

/-- A call on the descriptor of a session. -/
inductive Op
  | read
  | close
  | write
  deriving DecidableEq

/-- A session: what `read` will give, whether `cfd` is open, the bytes in `buf`, the bytes
written back, and the calls on `cfd`. -/
structure Session where
  chunks : List (List UInt8)
  ending : Ending
  opened : Bool
  buf : List UInt8
  sent : List UInt8
  log : List Op

/-- A child behind line 43. -/
def Session.start (i : Input) : Session := ⟨i.chunks, i.ending, true, [], [], []⟩

/-- What `read` returns: on a closed descriptor, -1. -/
def Session.size (s : Session) : ℤ :=
  if s.opened then
    match s.chunks with
    | c :: _ => c.length
    | [] => s.ending.size
  else -1

/-- Line 46. -/
def Session.read (s : Session) : Session :=
  if s.opened then
    { s with
      chunks := s.chunks.tail
      buf := s.chunks.head?.getD s.buf
      log := s.log ++ [Op.read] }
  else { s with log := s.log ++ [Op.read] }

/-- Line 49. -/
def Session.close (s : Session) : Session :=
  { s with opened := false, log := s.log ++ [Op.close] }

/-- Line 52, with a client that takes everything: `size` bytes of `buf` are written back,
and none if `size` is negative or the descriptor closed. -/
def Session.write (s : Session) (size : ℤ) : Session :=
  if s.opened then
    { s with sent := s.sent ++ s.buf.take size.toNat, log := s.log ++ [Op.write] }
  else { s with log := s.log ++ [Op.write] }

/-- Lines 46-52. -/
def Session.body (s : Session) : Session :=
  if s.size = 0 then (s.read.close).write 0 else s.read.write s.size

/-- How a turn of a loop ends: with the next turn, or behind the loop. -/
inductive Flow
  | again (s : Session)
  | leave (s : Session)

/-- A turn of the loop of lines 44-54, in which there is no `break` and no `return`. -/
def Session.turn (s : Session) : Flow := Flow.again s.body

/-- The loop, for a number of turns. -/
def Session.loop : ℕ → Session → Option Session
  | 0, _ => none
  | fuel + 1, s =>
      match s.turn with
      | Flow.again s' => Session.loop fuel s'
      | Flow.leave s' => some s'

/-- The descriptor is not used after it has been closed. -/
def NoUseAfterClose (log : List Op) : Prop := ∀ pre post, log = pre ++ Op.close :: post → post = []

/-- What one would expect of a session: it ends, it has written back the bytes read, and
it has let go of its descriptor. -/
def SessionOk (i : Input) : Prop :=
  ∃ fuel s, Session.loop fuel (Session.start i) = some s ∧ s.sent = i.chunks.flatten ∧
    NoUseAfterClose s.log

/-! ### Sessions run on -/

/-- The loop has no way out. -/
theorem loop_eq_none (fuel : ℕ) (s : Session) : Session.loop fuel s = none := by
  induction fuel generalizing s with
  | zero => rfl
  | succ fuel ih =>
      rw [Session.loop, Session.turn]
      exact ih s.body

theorem not_sessionOk (i : Input) : ¬ SessionOk i := by
  rintro ⟨fuel, s, hs, -⟩
  rw [loop_eq_none] at hs
  cases hs

/-- A turn that reads a chunk writes it back. -/
theorem body_chunk {s : Session} {c : List UInt8} {cs : List (List UInt8)}
    (hopen : s.opened = true) (hchunks : s.chunks = c :: cs) (hc : c ≠ []) :
    s.body = { s with
      chunks := cs
      buf := c
      sent := s.sent ++ c
      log := s.log ++ [Op.read, Op.write] } := by
  have hsize : s.size = c.length := by rw [Session.size, if_pos hopen, hchunks]
  have hne : s.size ≠ 0 := by
    rw [hsize]
    have := List.length_pos_iff.mpr hc
    omega
  rw [Session.body, if_neg hne, hsize, Session.read, if_pos hopen, Session.write, hchunks]
  simp [hopen]

/-- A turn at the end of the file closes the descriptor and uses it. -/
theorem body_eof {s : Session} (hopen : s.opened = true) (hchunks : s.chunks = [])
    (hend : s.ending = Ending.eof) :
    s.body = { s with opened := false, log := s.log ++ [Op.read, Op.close, Op.write] } := by
  have hsize : s.size = 0 := by rw [Session.size, if_pos hopen, hchunks, hend, Ending.size]
  rw [Session.body, if_pos hsize, Session.read, if_pos hopen, hchunks]
  simp [Session.close, Session.write]

/-- A turn on a closed descriptor uses it twice. -/
theorem body_closed {s : Session} (hopen : s.opened = false) :
    s.body = { s with log := s.log ++ [Op.read, Op.write] } := by
  have hsize : s.size = -1 := by rw [Session.size, hopen, if_neg (by decide)]
  rw [Session.body, hsize, if_neg (by decide), Session.read, hopen, if_neg (by decide),
    Session.write, if_neg (by simp)]
  simp

/-- The turns over the chunks: everything is written back. -/
theorem iterate_body_chunks (s : Session) (hopen : s.opened = true)
    (hne : ∀ c ∈ s.chunks, c ≠ []) :
    (Session.body^[s.chunks.length] s).opened = true ∧
      (Session.body^[s.chunks.length] s).chunks = [] ∧
      (Session.body^[s.chunks.length] s).ending = s.ending ∧
      (Session.body^[s.chunks.length] s).sent = s.sent ++ s.chunks.flatten := by
  induction hchunks : s.chunks generalizing s with
  | nil => simp [hopen, hchunks]
  | cons c cs ih =>
      rw [hchunks, List.forall_mem_cons] at hne
      rw [List.length_cons, Function.iterate_succ_apply, body_chunk hopen hchunks hne.1]
      obtain ⟨ho, hc, he, hs⟩ := ih { s with
        chunks := cs
        buf := c
        sent := s.sent ++ c
        log := s.log ++ [Op.read, Op.write] } hopen hne.2 rfl
      refine ⟨ho, hc, he, ?_⟩
      rw [hs, List.flatten_cons, List.append_assoc]

/-- Every turn on a closed descriptor adds two uses of it. -/
theorem iterate_body_closed (s : Session) (hopen : s.opened = false) (n : ℕ) :
    ∃ post, (Session.body^[n] s).log = s.log ++ post ∧ post.length = 2 * n := by
  induction n generalizing s with
  | zero => exact ⟨[], by simp, rfl⟩
  | succ n ih =>
      rw [Function.iterate_succ_apply, body_closed hopen]
      obtain ⟨post, hpost, hlen⟩ := ih { s with log := s.log ++ [Op.read, Op.write] } hopen
      refine ⟨Op.read :: Op.write :: post, ?_, ?_⟩
      · rw [hpost, List.append_assoc]
        rfl
      · rw [List.length_cons, List.length_cons, hlen]
        omega

/-- **A session runs on.**  It has written back its input after as many turns as it has
chunks.  If the input ends with the end of the file, the next turn closes the
descriptor, and every turn after it uses the descriptor. -/
theorem session_runs_on (i : Input) :
    (Session.body^[i.chunks.length] (Session.start i)).sent = i.chunks.flatten ∧
      (i.ending = Ending.eof → ∀ n, ∃ pre post,
        (Session.body^[i.chunks.length + 1 + n] (Session.start i)).log = pre ++ Op.close :: post ∧
          post.length = 2 * n + 1) := by
  obtain ⟨hopen, hchunks, hending, hsent⟩ :=
    iterate_body_chunks (Session.start i) rfl i.nonempty
  constructor
  · exact hsent
  · intro hend n
    have heof := body_eof hopen hchunks (hending.trans hend)
    -- from the turn that closes the descriptor on, the session is on a closed descriptor
    rw [show i.chunks.length + 1 + n = n + (i.chunks.length + 1) by omega,
      Function.iterate_add_apply, Function.iterate_succ_apply']
    have hstart : (Session.start i).chunks.length = i.chunks.length := rfl
    rw [hstart] at heof
    have hclosed : (Session.body (Session.body^[i.chunks.length] (Session.start i))).opened
        = false := by rw [heof]
    obtain ⟨post, hpost, hlen⟩ := iterate_body_closed _ hclosed n
    refine ⟨(Session.body^[i.chunks.length] (Session.start i)).log ++ [Op.read],
      Op.write :: post, ?_, ?_⟩
    · rw [hpost, heof]
      simp
    · rw [List.length_cons, hlen]

/-! ## The handler -/

/-- A child of the parent when `sig_child` starts.  `ends` is the number of the call of
`waitpid` in front of which the child terminates, if it does: 0 if it has terminated
before. -/
structure Child where
  pid : ℤ
  ends : Option ℕ
  pid_pos : 0 < pid

/-- Whether the child has terminated when `waitpid` is called for the time with number `k`,
counted from 0. -/
def Child.endsBy (k : ℕ) (c : Child) : Bool :=
  match c.ends with
  | none => false
  | some j => j ≤ k

/-- Takes a child out that has terminated. -/
def takeEnded (k : ℕ) : List Child → Option (Child × List Child)
  | [] => none
  | c :: kids =>
      if c.endsBy k then some (c, kids)
      else (takeEnded k kids).map (fun r => (r.1, c :: r.2))

/-- `waitpid(0, NULL, WNOHANG)`, for the time with number `k`: the id of a child that has
terminated, which is then no longer waited for, 0 if there are only others, and -1 if
there are none. -/
def waitpid (k : ℕ) (kids : List Child) : ℤ × List Child :=
  match takeEnded k kids with
  | some (c, rest) => (c.pid, rest)
  | none => (if kids = [] then -1 else 0, kids)

/-- An execution that has returned: the number of the last call, and what the calls before
it returned. -/
structure Reaping where
  calls : ℕ
  reaped : List ℤ

/-- The loop of line 8, from the call with number `k` on. -/
def sigChildLoop : ℕ → ℕ → List Child → Option Reaping
  | 0, _, _ => none
  | fuel + 1, k, kids =>
      if (waitpid k kids).1 = 0 then some ⟨k, []⟩
      else (sigChildLoop fuel (k + 1) (waitpid k kids).2).map
        (fun r => ⟨r.calls, (waitpid k kids).1 :: r.reaped⟩)

/-- What one would expect of `sig_child`: it returns, and has reaped every child that had
terminated by then. -/
def HandlerOk (kids : List Child) : Prop :=
  ∃ fuel r, sigChildLoop fuel 0 kids = some r ∧
    ∀ c ∈ kids, c.endsBy r.calls = true → c.pid ∈ r.reaped

/-- What is taken out has terminated, and the others are left. -/
theorem takeEnded_some {k : ℕ} {kids rest : List Child} {c : Child}
    (h : takeEnded k kids = some (c, rest)) : c.endsBy k = true ∧ kids.Perm (c :: rest) := by
  induction kids generalizing rest with
  | nil => cases h
  | cons d kids ih =>
      rw [takeEnded] at h
      split_ifs at h with hd
      · rw [Option.some.injEq, Prod.mk.injEq] at h
        obtain ⟨rfl, rfl⟩ := h
        exact ⟨hd, List.Perm.refl _⟩
      · obtain ⟨⟨c', rest'⟩, hr, heq⟩ := Option.map_eq_some_iff.mp h
        rw [Prod.mk.injEq] at heq
        obtain ⟨rfl, rfl⟩ := heq
        obtain ⟨hc, hperm⟩ := ih hr
        exact ⟨hc, (hperm.cons d).trans (List.Perm.swap _ _ _)⟩

/-- If nothing is taken out, no child has terminated. -/
theorem takeEnded_none {k : ℕ} {kids : List Child} (h : takeEnded k kids = none) :
    ∀ c ∈ kids, c.endsBy k = false := by
  induction kids with
  | nil => simp
  | cons d kids ih =>
      rw [takeEnded] at h
      split_ifs at h with hd
      rw [List.forall_mem_cons]
      exact ⟨Bool.not_eq_true _ ▸ hd, ih (Option.map_eq_none_iff.mp h)⟩

/-- A child that has terminated stays so. -/
theorem endsBy_mono {j k : ℕ} (hjk : j ≤ k) {c : Child} (h : c.endsBy j = true) :
    c.endsBy k = true := by
  rcases hends : c.ends with _ | i
  · rw [Child.endsBy, hends] at h
    cases h
  · rw [Child.endsBy, hends] at h ⊢
    exact decide_eq_true (le_trans (of_decide_eq_true h) hjk)

/-- Without a child the loop goes on for ever. -/
theorem sigChildLoop_nil (fuel k : ℕ) : sigChildLoop fuel k [] = none := by
  induction fuel generalizing k with
  | zero => rfl
  | succ fuel ih =>
      have hwait : waitpid k [] = (-1, []) := rfl
      rw [sigChildLoop, hwait, if_neg (by decide), ih]
      rfl

/-- A call that takes a child out. -/
theorem sigChildLoop_some {k : ℕ} {kids rest : List Child} {c : Child} (fuel : ℕ)
    (h : takeEnded k kids = some (c, rest)) :
    sigChildLoop (fuel + 1) k kids
      = (sigChildLoop fuel (k + 1) rest).map (fun r => ⟨r.calls, c.pid :: r.reaped⟩) := by
  have hwait : waitpid k kids = (c.pid, rest) := by rw [waitpid, h]
  have hpid : c.pid ≠ 0 := ne_of_gt c.pid_pos
  rw [sigChildLoop, hwait, if_neg hpid]

/-- A call that finds only children that run. -/
theorem sigChildLoop_none {k : ℕ} {kids : List Child} (fuel : ℕ) (h : takeEnded k kids = none)
    (hkids : kids ≠ []) : sigChildLoop (fuel + 1) k kids = some ⟨k, []⟩ := by
  have hwait : waitpid k kids = (0, kids) := by rw [waitpid, h, if_neg hkids]
  rw [sigChildLoop, hwait, if_pos rfl]

/-- A child that is taken out counts at every later call. -/
theorem countP_takeEnded {j k : ℕ} {kids rest : List Child} {c : Child} (hkj : k ≤ j)
    (h : takeEnded k kids = some (c, rest)) :
    kids.countP (Child.endsBy j) = rest.countP (Child.endsBy j) + 1 := by
  obtain ⟨hc, hperm⟩ := takeEnded_some h
  rw [hperm.countP_eq, List.countP_cons_of_pos (endsBy_mono hkj hc)]

/-- **When the loop returns**: at a call by which all children that have terminated have
been reaped, and another one is left. -/
theorem sigChildLoop_returns_iff (k : ℕ) (kids : List Child) :
    (∃ fuel r, sigChildLoop fuel k kids = some r) ↔
      ∃ i < kids.length, kids.countP (Child.endsBy (k + i)) = i := by
  -- on the number of children, one of which each call but the last takes out
  induction hn : kids.length generalizing k kids with
  | zero =>
      rw [List.length_eq_zero_iff.mp hn]
      constructor
      · rintro ⟨fuel, r, hr⟩
        rw [sigChildLoop_nil] at hr
        cases hr
      · rintro ⟨i, hi, -⟩
        omega
  | succ n ih =>
      rcases htake : takeEnded k kids with _ | ⟨c, rest⟩
      · have hcount : kids.countP (Child.endsBy (k + 0)) = 0 := by
          rw [List.countP_eq_zero]
          intro c hc
          rw [Nat.add_zero, takeEnded_none htake c hc]
          exact Bool.false_ne_true
        have hkids : kids ≠ [] := List.ne_nil_of_length_eq_add_one hn
        exact iff_of_true ⟨1, _, sigChildLoop_none 0 htake hkids⟩ ⟨0, Nat.succ_pos n, hcount⟩
      · have hlen : rest.length = n := by
          have := (takeEnded_some htake).2.length_eq
          rw [List.length_cons] at this
          omega
        have hrest := ih (k + 1) rest hlen
        constructor
        · rintro ⟨fuel, r, hr⟩
          cases fuel with
          | zero => cases hr
          | succ fuel =>
              rw [sigChildLoop_some fuel htake] at hr
              obtain ⟨r', hr', -⟩ := Option.map_eq_some_iff.mp hr
              obtain ⟨i, hi, hcount⟩ := hrest.mp ⟨fuel, r', hr'⟩
              refine ⟨i + 1, by omega, ?_⟩
              rw [countP_takeEnded (by omega) htake, show k + (i + 1) = k + 1 + i by omega,
                hcount]
        · rintro ⟨i, hi, hcount⟩
          rw [countP_takeEnded (by omega) htake] at hcount
          obtain ⟨i, rfl⟩ := Nat.exists_eq_add_of_le' (show 1 ≤ i by omega)
          obtain ⟨fuel, r, hr⟩ := hrest.mpr ⟨i, by omega, by
            rw [show k + 1 + i = k + (i + 1) by omega]
            omega⟩
          exact ⟨fuel + 1, _, by rw [sigChildLoop_some fuel htake, hr]; rfl⟩

/-- An execution that returns has reaped every child that had terminated. -/
theorem reaped_of_returns {fuel k : ℕ} {kids : List Child} {r : Reaping}
    (h : sigChildLoop fuel k kids = some r) {c : Child} (hc : c ∈ kids)
    (hends : c.endsBy r.calls = true) : c.pid ∈ r.reaped := by
  induction fuel generalizing k kids r with
  | zero => cases h
  | succ fuel ih =>
      rcases htake : takeEnded k kids with _ | ⟨d, rest⟩
      · rw [sigChildLoop_none fuel htake (List.ne_nil_of_mem hc), Option.some.injEq] at h
        rw [← h, takeEnded_none htake c hc] at hends
        cases hends
      · rw [sigChildLoop_some fuel htake] at h
        obtain ⟨r', hr', rfl⟩ := Option.map_eq_some_iff.mp h
        rcases List.mem_cons.mp ((takeEnded_some htake).2.mem_iff.mp hc) with rfl | hmem
        · exact List.mem_cons_self
        · exact List.mem_cons_of_mem _ (ih hr' hmem hends)

/-- **An execution of `sig_child`** returns, with all that had terminated reaped, exactly
if by some call all that have terminated have been reaped and a child is left. -/
theorem handlerOk_iff (kids : List Child) :
    HandlerOk kids ↔ ∃ k < kids.length, kids.countP (Child.endsBy k) = k := by
  have hreturns := sigChildLoop_returns_iff 0 kids
  simp only [Nat.zero_add] at hreturns
  rw [← hreturns]
  constructor
  · rintro ⟨fuel, r, hr, -⟩
    exact ⟨fuel, r, hr⟩
  · rintro ⟨fuel, r, hr⟩
    exact ⟨fuel, r, hr, fun c hc => reaped_of_returns hr hc⟩

/-! ## Executions -/

/-- An execution of the server: the inputs of the children that are started, and the
children that each execution of `sig_child` finds. -/
structure Execution where
  sessions : List Input
  handlers : List (List Child)

/-- **Cleanup**: every session ends as one would expect, and so does every execution of
`sig_child`, exactly if there is no session and each execution of `sig_child` comes to a
call by which all that have terminated have been reaped and a child is left. -/
theorem cleanup_iff (e : Execution) :
    ((∀ i ∈ e.sessions, SessionOk i) ∧ (∀ kids ∈ e.handlers, HandlerOk kids)) ↔
      e.sessions = [] ∧
        ∀ kids ∈ e.handlers, ∃ k < kids.length, kids.countP (Child.endsBy k) = k := by
  simp only [handlerOk_iff]
  constructor
  · rintro ⟨hsessions, hhandlers⟩
    refine ⟨?_, hhandlers⟩
    rw [List.eq_nil_iff_forall_not_mem]
    exact fun i hi => not_sessionOk i (hsessions i hi)
  · rintro ⟨hsessions, hhandlers⟩
    rw [hsessions]
    exact ⟨by simp, hhandlers⟩

/-- A client that sends one byte and closes. -/
def oneByte : Input := ⟨[[97]], Ending.eof, by decide⟩

/-- The only child, which has terminated. -/
def lastChild : Child := ⟨100, some 0, by decide⟩

/-- **The session of a client that closes does not end, and neither does the handler when
the last child is gone.** -/
theorem oneByte_not_cleaned_up : ¬ SessionOk oneByte ∧ ¬ HandlerOk [lastChild] := by
  constructor
  · exact not_sessionOk oneByte
  · rw [handlerOk_iff]
    rintro ⟨k, hk, hcount⟩
    have hzero : k = 0 := by simpa using hk
    rw [hzero] at hcount
    exact absurd hcount (by decide)

end ForkServer
