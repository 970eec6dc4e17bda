/-
# A pipe read with the edge trigger (`epoll_et/server.c`)

The parent writes the ten bytes `"aaaa\nbbbb\n"` to a pipe, again and again; the child waits
for the pipe with `EPOLLIN | EPOLLET`, reads five bytes each time that it is reported, and
writes them to the standard output.  A `write` of ten bytes is atomic and waits until the
pipe has room for all of them; a read of the pipe gives what is there, up to five.

The trigger is a parameter: line 28 sets `EPOLLET`, and line 29, a comment, leaves it out.

* `whole_lines`: the child writes one whole line at a time, in order;
* `edge_stops`: with the edge trigger every run ends, after at most three steps for each five
  bytes of the pipe, with the parent and the child waiting for each other; with the level
  trigger none does, if a write fits into the pipe.
-/
import NetStudy.Readiness
import NetStudy.Refinement

namespace PipeReader

open Transition Readiness

/-! ## The two processes -/

/-- `"aaaa\n"` and `"bbbb\n"`, in turn. -/
def line (i : ℕ) : List UInt8 := if i % 2 = 0 then [97, 97, 97, 97, 10] else [98, 98, 98, 98, 10]

/-- What the parent writes each time. -/
def message : List UInt8 := line 0 ++ line 1

/-- The pipe, whether the child is about to read, the numbers of writes and reads so far, and
the pieces that the child has written to the standard output. -/
structure State where
  pipe : Source UInt8
  awake : Bool
  writes : ℕ
  reads : ℕ
  out : List (List UInt8)

/-- The pipe has been made and registered. -/
def start : State := ⟨Source.empty, false, 0, 0, []⟩

/-- The steps: the parent's `write`, and the child's `epoll_wait` and `Read` with the `write`
behind it. -/
inductive Move
  | write
  | wait
  | read

/-- One step, with the capacity of the pipe. -/
def step (t : Trigger) (cap : ℕ) : Move → State → Option State
  | .write, s =>
      if s.pipe.unread.length + message.length ≤ cap then
        some { s with pipe := s.pipe.arrive message, writes := s.writes + 1 }
      else none
  | .wait, s =>
      if s.awake = false ∧ s.pipe.reportable t = true then
        some { s with pipe := s.pipe.report, awake := true }
      else none
  | .read, s =>
      if s.awake = true ∧ s.pipe.unread ≠ [] then
        some { s with
          pipe := s.pipe.take 5
          awake := false
          reads := s.reads + 1
          out := s.out ++ [s.pipe.unread.take 5] }
      else none

/-- The program as it is. -/
def main (cap : ℕ) : Move → State → Option State := step Trigger.edge cap

/-! ## Lines -/

@[simp] theorem length_line (i : ℕ) : (line i).length = 5 := by
  unfold line
  split_ifs <;> rfl

/-- The lines from number `r` on, `n` of them. -/
def linesFrom (r n : ℕ) : List UInt8 := (List.range n).flatMap (fun i => line (r + i))

/-- The first line. -/
theorem linesFrom_succ (r n : ℕ) : linesFrom r (n + 1) = line r ++ linesFrom (r + 1) n := by
  rw [linesFrom, List.range_succ_eq_map, List.flatMap_cons, List.flatMap_map, Nat.add_zero]
  congr 1
  apply List.flatMap_congr
  intro i _
  congr 1
  omega

/-- The last line. -/
theorem linesFrom_concat (r n : ℕ) : linesFrom r (n + 1) = linesFrom r n ++ line (r + n) := by
  rw [linesFrom, List.range_succ, List.flatMap_append, List.flatMap_singleton]
  rfl

theorem length_linesFrom (r n : ℕ) : (linesFrom r n).length = 5 * n := by
  induction n generalizing r with
  | zero => rfl
  | succ n ih =>
      rw [linesFrom_succ, List.length_append, length_line, ih]
      omega

/-- Two lines more are one message, if their numbers begin with an even one. -/
theorem linesFrom_message {r n w : ℕ} (h : r + n = 2 * w) :
    linesFrom r n ++ message = linesFrom r (n + 2) := by
  have hfirst : line (r + n) = line 0 := by
    rw [h, line, if_pos (by omega)]
    rfl
  have hsecond : line (r + (n + 1)) = line 1 := by
    rw [line, if_neg (by omega)]
    rfl
  rw [linesFrom_concat, linesFrom_concat, hfirst, hsecond, List.append_assoc]
  rfl

/-! ## The invariant -/

/-- What holds in every state: the pipe holds the lines that have been written and not
read, and no end. -/
structure PipeInv (cap : ℕ) (s : State) : Prop where
  le : s.reads ≤ 2 * s.writes
  unread : s.pipe.unread = linesFrom s.reads (2 * s.writes - s.reads)
  room : s.pipe.unread.length ≤ cap
  goes_on : s.pipe.ended = false
  out : s.out = (List.range s.reads).map line
  /-- The child is woken only if there is something to read. -/
  awake : s.awake = true → s.pipe.unread ≠ []

theorem pipeInv_start (cap : ℕ) : PipeInv cap start :=
  ⟨le_rfl, rfl, Nat.zero_le cap, rfl, rfl, fun h => absurd h Bool.false_ne_true⟩

/-- **Every step** keeps the invariant. -/
theorem PipeInv.step {t : Trigger} {cap : ℕ} {s s' : State} (h : PipeInv cap s) {m : Move}
    (hs : step t cap m s = some s') : PipeInv cap s' := by
  obtain ⟨hle, hunread, hroom, hgoes, hout, hawake⟩ := h
  cases m with
  | write =>
      rw [PipeReader.step] at hs
      split_ifs at hs with hcap
      rw [← Option.some.inj hs]
      refine ⟨by show s.reads ≤ 2 * (s.writes + 1); omega, ?_, ?_, hgoes, hout, ?_⟩
      · show s.pipe.unread ++ message = linesFrom s.reads (2 * (s.writes + 1) - s.reads)
        rw [hunread, linesFrom_message (w := s.writes) (by omega)]
        congr 1
        omega
      · show (s.pipe.unread ++ message).length ≤ cap
        rw [List.length_append]
        exact hcap
      · intro _
        show s.pipe.unread ++ message ≠ []
        exact List.append_ne_nil_of_right_ne_nil _ (by decide)
  | wait =>
      rw [PipeReader.step] at hs
      split_ifs at hs with hreport
      rw [← Option.some.inj hs]
      refine ⟨hle, hunread, hroom, hgoes, hout, ?_⟩
      intro _ hnil
      have hreadable := Source.readable_of_reportable hreport.2
      change s.pipe.unread = [] at hnil
      rw [Source.readable, hnil, hgoes] at hreadable
      exact absurd hreadable (by decide)
  | read =>
      rw [PipeReader.step] at hs
      split_ifs at hs with hread
      obtain ⟨-, hne⟩ := hread
      rw [← Option.some.inj hs]
      -- the first line is there
      obtain ⟨n, hn⟩ : ∃ n, 2 * s.writes - s.reads = n + 1 := by
        refine Nat.exists_eq_succ_of_ne_zero ?_
        intro hzero
        rw [hunread, hzero] at hne
        exact hne rfl
      have hline : s.pipe.unread = line s.reads ++ linesFrom (s.reads + 1) n := by
        rw [hunread, hn, linesFrom_succ]
      have htake : s.pipe.unread.take 5 = line s.reads := by
        rw [hline]
        exact List.take_left' (length_line _)
      have hdrop : s.pipe.unread.drop 5 = linesFrom (s.reads + 1) n := by
        rw [hline]
        exact List.drop_left' (length_line _)
      refine ⟨by show s.reads + 1 ≤ 2 * s.writes; omega, ?_, ?_, hgoes, ?_,
        fun h => absurd h Bool.false_ne_true⟩
      · show s.pipe.unread.drop 5 = linesFrom (s.reads + 1) (2 * s.writes - (s.reads + 1))
        rw [hdrop]
        congr 1
        omega
      · show (s.pipe.unread.drop 5).length ≤ cap
        rw [List.length_drop]
        omega
      · show s.out ++ [s.pipe.unread.take 5] = (List.range (s.reads + 1)).map line
        rw [hout, htake, List.range_succ, List.map_append]
        rfl

theorem pipeInv_of_reachable {t : Trigger} {cap : ℕ} {s : State}
    (h : Reachable (step t cap) start s) : PipeInv cap s :=
  h.invariant (pipeInv_start cap) (fun _ _ _ hinv _ hs => hinv.step hs)

/-- **Whole lines.**  With either trigger and whatever the order of the two processes, each
piece that the child writes is a line, they come in turn, and what has been written and
what waits in the pipe are together what the parent has written. -/
theorem whole_lines {t : Trigger} {cap : ℕ} {s : State} (h : Reachable (step t cap) start s) :
    s.out = (List.range s.reads).map line ∧
      s.out.flatten ++ s.pipe.unread = (List.replicate s.writes message).flatten := by
  obtain ⟨hle, hunread, -, -, hout, -⟩ := pipeInv_of_reachable h
  have hall : ∀ r n, linesFrom 0 r ++ linesFrom r n = linesFrom 0 (r + n) := by
    intro r n
    induction n with
    | zero => exact List.append_nil _
    | succ n ih =>
        rw [linesFrom_concat, ← List.append_assoc, ih, ← Nat.add_assoc, linesFrom_concat,
          Nat.zero_add]
  have hmessages : ∀ w, (List.replicate w message).flatten = linesFrom 0 (2 * w) := by
    intro w
    induction w with
    | zero => rfl
    | succ w ih =>
        rw [List.replicate_succ', List.flatten_concat, ih, linesFrom_message (w := w) (by omega)]
        rfl
  have hfirst : s.out.flatten = linesFrom 0 s.reads := by
    rw [hout, linesFrom, List.flatMap_def]
    simp only [Nat.zero_add]
  refine ⟨hout, ?_⟩
  rw [hfirst, hunread, hall, hmessages]
  congr 1
  omega

/-- The parent has written twice and the child has read once. -/
theorem whole_lines_once : ∃ s, Reachable (main 65536) start s ∧
    (s.writes = 2 ∧ s.reads = 1) ∧ s.out = (List.range s.reads).map line ∧
      s.out.flatten ++ s.pipe.unread = (List.replicate s.writes message).flatten := by
  obtain ⟨s, hreach, hs⟩ : ∃ s, Reachable (main 65536) start s ∧
      (s.writes = 2 ∧ s.reads = 1) :=
    exists_reach_of_run [.write, .wait, .write, .read] (by decide +kernel)
  exact ⟨s, hreach, hs, whole_lines hreach⟩

/-! ## The edge trigger -/

/-- The writes against the reads. -/
def State.account (s : State) : Account :=
  ⟨s.writes, s.reads, s.awake.toNat, s.pipe.due⟩

/-- With the edge trigger the child reads once for a write, if at all. -/
theorem account_step {cap : ℕ} {s s' : State} {m : Move} (hs : main cap m s = some s') :
    Account.Step s.account s'.account := by
  cases m with
  | write =>
      rw [main, step] at hs
      split_ifs at hs
      rw [← Option.some.inj hs]
      exact Account.Step.arrive s.account
  | wait =>
      rw [main, step] at hs
      split_ifs at hs with hreport
      rw [← Option.some.inj hs]
      have hone := Account.Step.report (a := s.account) (Source.due_of_reportable hreport.2)
      rw [State.account, hreport.1] at hone ⊢
      exact hone
  | read =>
      rw [main, step] at hs
      split_ifs at hs with hread
      rw [← Option.some.inj hs]
      refine Account.Step.handle (a := s.account) (p := 0) ?_
      show s.awake.toNat = 0 + 1
      rw [hread.1]
      rfl

theorem accountOk_of_reachable {cap : ℕ} {s : State} (h : Reachable (main cap) start s) :
    s.account.Ok :=
  h.invariant (I := fun s => s.account.Ok) le_rfl
    (fun _ _ _ hok _ hs => hok.step (account_step hs))

/-- The number of steps that have led to a state. -/
def State.steps (s : State) : ℕ := s.writes + 2 * s.reads + s.awake.toNat

theorem steps_step {t : Trigger} {cap : ℕ} {s s' : State} {m : Move}
    (hs : step t cap m s = some s') : s'.steps = s.steps + 1 := by
  obtain ⟨pipe, awake, writes, reads, out⟩ := s
  cases m with
  | write =>
      rw [step] at hs
      split_ifs at hs
      rw [← Option.some.inj hs]
      show writes + 1 + 2 * reads + awake.toNat = writes + 2 * reads + awake.toNat + 1
      omega
  | wait =>
      rw [step] at hs
      split_ifs at hs with hreport
      rw [← Option.some.inj hs]
      obtain ⟨hawake, -⟩ := hreport
      change awake = false at hawake
      subst hawake
      rfl
  | read =>
      rw [step] at hs
      split_ifs at hs with hread
      rw [← Option.some.inj hs]
      obtain ⟨hawake, -⟩ := hread
      change awake = true at hawake
      subst hawake
      show writes + 2 * (reads + 1) + 0 = writes + 2 * reads + 1 + 1
      omega

theorem steps_run {t : Trigger} {cap : ℕ} {moves : List Move} {s s' : State}
    (h : run (step t cap) moves s = some s') : s'.steps = s.steps + moves.length := by
  induction moves generalizing s with
  | nil =>
      rw [← Option.some.inj h]
      rfl
  | cons m moves ih =>
      obtain ⟨s₁, hstep, hrest⟩ := Option.bind_eq_some_iff.mp h
      rw [ih hrest, steps_step hstep, List.length_cons]
      omega

/-- Half of what the parent has written is unread at least. -/
theorem unread_of_reachable {cap : ℕ} {s : State} (h : Reachable (main cap) start s) :
    5 * s.writes ≤ s.pipe.unread.length := by
  have hread : s.reads ≤ s.writes := (accountOk_of_reachable h).handled_le
  rw [(pipeInv_of_reachable h).unread, length_linesFrom]
  omega

/-- **The two processes stop each other.**  With the edge trigger a run of the program has at
most three steps for each five bytes that fit into the pipe.  Where neither process can go
on, the child is in `epoll_wait`, the pipe has no room for the parent's next write, and at
least half of all that was written is in it, unread.  With the level trigger one of the two
can always go on, if a write fits into the pipe at all. -/
theorem edge_stops (cap : ℕ) :
    (∀ moves s, run (main cap) moves start = some s →
      moves.length ≤ 3 * (cap / 5) ∧
      ((∀ m, main cap m s = none) → s.awake = false ∧
        cap < s.pipe.unread.length + message.length ∧ 5 * s.writes ≤ s.pipe.unread.length)) ∧
    (message.length ≤ cap → ∀ s, Reachable (step Trigger.level cap) start s →
      ∃ m s', step Trigger.level cap m s = some s') := by
  constructor
  · intro moves s hrun
    have hreach := reachable_of_run hrun
    have hinv := pipeInv_of_reachable hreach
    have hunread := unread_of_reachable hreach
    constructor
    · have haccount := accountOk_of_reachable hreach
      have hsteps := steps_run hrun
      have hroom := hinv.room
      change s.reads + s.awake.toNat + s.pipe.due.toNat ≤ s.writes at haccount
      change s.writes + 2 * s.reads + s.awake.toNat = 0 + moves.length at hsteps
      omega
    · intro hnone
      refine ⟨?_, ?_, hunread⟩
      · by_contra hawake
        have hread := hnone .read
        rw [main, step, if_pos ⟨by simpa using hawake, hinv.awake (by simpa using hawake)⟩] at hread
        cases hread
      · by_contra hroom
        have hwrite := hnone .write
        rw [main, step, if_pos (by omega)] at hwrite
        cases hwrite
  · intro hcap s hreach
    have hinv := pipeInv_of_reachable hreach
    by_cases hnil : s.pipe.unread = []
    · refine ⟨.write, _, if_pos ?_⟩
      rw [hnil]
      exact (Nat.zero_add _).le.trans hcap
    · rcases hawake : s.awake with _ | _
      · refine ⟨.wait, _, if_pos ⟨hawake, ?_⟩⟩
        simp [Source.reportable, Source.readable, hnil]
      · exact ⟨.read, _, if_pos ⟨hawake, hnil⟩⟩

/-- Four writes and four reads, with a pipe of 25 bytes. -/
def fourWrites : List Move := (List.replicate 4 [.write, .wait, .read]).flatten

/-- Behind them neither process can go on; with the level trigger the child can. -/
theorem edge_stops_fourWrites :
    (∃ s, run (main 25) fourWrites start = some s ∧ (∀ m, main 25 m s = none) ∧
      s.awake = false ∧ 25 < s.pipe.unread.length + message.length ∧
        5 * s.writes ≤ s.pipe.unread.length) ∧
    ∃ s, Reachable (step Trigger.level 25) start s ∧ s.pipe.unread.length = 20 ∧
      ∃ m s', step Trigger.level 25 m s = some s' := by
  constructor
  · have hrun : (run (main 25) fourWrites start).any (fun s =>
        (main 25 .write s).isNone && (main 25 .wait s).isNone && (main 25 .read s).isNone)
          = true := by decide +kernel
    obtain ⟨s, hs, hnone⟩ := (Option.any_eq_true _ _).mp hrun
    simp only [Bool.and_eq_true, Option.isNone_iff_eq_none] at hnone
    have hstop : ∀ m, main 25 m s = none := by
      intro m
      cases m with
      | write => exact hnone.1.1
      | wait => exact hnone.1.2
      | read => exact hnone.2
    exact ⟨s, hs, hstop, ((edge_stops 25).1 fourWrites s hs).2 hstop⟩
  · obtain ⟨s, hreach, hs⟩ : ∃ s, Reachable (step Trigger.level 25) start s ∧
        s.pipe.unread.length = 20 :=
      exists_reach_of_run fourWrites (by decide +kernel)
    exact ⟨s, hreach, hs, (edge_stops 25).2 (by decide) s hreach⟩

end PipeReader
