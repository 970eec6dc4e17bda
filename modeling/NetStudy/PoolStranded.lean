/-
# No task is stranded, unless a worker retires over it

A task is stranded when the queue is not empty and every worker that is left is
blocked without a wake-up.  `wait_exit_thr_num` outlives the round of
`adjust_thread` that sets it, so a worker that a later `threadpool_add` wakes for
a task may retire instead (`stranded_after_shrink`).  That is the only way:
while no worker retires over a queue that is not empty (`IdleRetirement`), a
nonempty queue always has a worker on its way to it.

The invariant `Attended` counts: the workers that are not gone are the
`min_thr_num` started first and the `live_thr_num` started by the manager, and a
retirement needs `live_thr_num > min_thr_num`.
-/
import NetStudy.PoolSections

namespace ThreadPool

open Transition

variable {P F A : Type*}

/-- A task waits in the queue and every worker that is not gone is blocked with no
wake-up delivered to it. -/
def Stranded (s : SectionState P F A) : Prop :=
  0 < s.pool.queueSize ∧ ∀ w ∈ s.workers, w.isGone ∨ w.isWaiting

/-- The condition on a step: a worker that returns from `pthread_cond_wait` and
retires (lines 100-111) leaves an empty queue behind. -/
def IdleRetirement (s : SectionState P F A) : SectionMove P F A → Prop
  | .pass w =>
      match s.workers[w]? with
      | some .woken =>
          0 < s.pool.waitExitThrNum → s.pool.minThrNum < s.pool.liveThrNum → s.pool.queueSize = 0
      | _ => True
  | _ => True

instance (s : SectionState P F A) (m : SectionMove P F A) : Decidable (IdleRetirement s m) := by
  unfold IdleRetirement
  split
  · split <;> infer_instance
  · infer_instance

/-! ## Counting workers -/

/-- The number of workers that are not gone. -/
def alive (ws : List (WorkerPhase F A)) : ℕ := ws.countP (fun w => !w.isGone)

/-- A change of phase that does not end the worker keeps the count. -/
theorem alive_set {ws : List (WorkerPhase F A)} {w : ℕ} {old new : WorkerPhase F A}
    (h : ws[w]? = some old) (hgone : old.isGone = new.isGone) :
    alive (ws.set w new) = alive ws := by
  obtain ⟨hw, hold⟩ := List.getElem?_eq_some_iff.mp h
  have hpos : old.isGone = false → 0 < ws.countP (fun w => !w.isGone) := by
    intro hg
    exact List.countP_pos_iff.mpr ⟨old, List.mem_of_getElem? h, by rw [hg]; rfl⟩
  rw [alive, alive, List.countP_set hw, hold]
  simp only [← hgone]
  cases hg : old.isGone with
  | true => simp
  | false =>
      have := hpos hg
      simp only [Bool.not_false, if_true]
      omega

/-- A worker that ends is counted no more. -/
theorem alive_set_gone {ws : List (WorkerPhase F A)} {w : ℕ} {old : WorkerPhase F A}
    (h : ws[w]? = some old) (hgone : old.isGone = false) :
    alive (ws.set w .gone) + 1 = alive ws := by
  obtain ⟨hw, hold⟩ := List.getElem?_eq_some_iff.mp h
  have hpos : 0 < ws.countP (fun w => !w.isGone) :=
    List.countP_pos_iff.mpr ⟨old, List.mem_of_getElem? h, by rw [hgone]; rfl⟩
  have hset := List.countP_set (p := fun w : WorkerPhase F A => !w.isGone) (a := .gone) hw
  simp only [hold, hgone] at hset
  rw [alive, alive, hset]
  show ws.countP (fun w => !w.isGone) - 1 + 0 + 1 = ws.countP (fun w => !w.isGone)
  omega

/-- A worker that is on its way to the queue. -/
theorem any_isAwake_set {ws : List (WorkerPhase F A)} {w : ℕ} {old new : WorkerPhase F A}
    (h : ws[w]? = some old) (hnew : new.isAwake = true) :
    (ws.set w new).any WorkerPhase.isAwake = true := by
  obtain ⟨hw, -⟩ := List.getElem?_eq_some_iff.mp h
  exact List.any_eq_true.mpr ⟨new, List.mem_set hw new, hnew⟩

/-- A signal changes no count, and afterwards some worker is awake if any is left:
the one it woke, or one of those that are not blocked. -/
theorem signalNotEmpty_spec {woken : Option ℕ} {ws ws' : List (WorkerPhase F A)}
    (h : signalNotEmpty woken ws = some ws') :
    alive ws' = alive ws ∧ (0 < alive ws → ws'.any WorkerPhase.isAwake = true) := by
  cases woken with
  | some w =>
      simp only [signalNotEmpty] at h
      split_ifs at h with hw
      obtain rfl := Option.some.inj h
      obtain ⟨old, hold, hwait⟩ := (Option.any_eq_true _ _).mp hw
      have hgone : old.isGone = false := by cases old <;> first | rfl | exact Bool.noConfusion hwait
      exact ⟨alive_set hold hgone, fun _ => any_isAwake_set hold rfl⟩
  | none =>
      simp only [signalNotEmpty] at h
      split_ifs at h with hw
      obtain rfl := Option.some.inj h
      refine ⟨rfl, fun hpos => ?_⟩
      obtain ⟨v, hv, hgone⟩ := List.countP_pos_iff.mp hpos
      have hwait : v.isWaiting = false := by
        cases hc : v.isWaiting with
        | false => rfl
        | true => exact absurd (List.any_eq_true.mpr ⟨v, hv, hc⟩) hw
      exact List.any_eq_true.mpr ⟨v, hv, by rw [WorkerPhase.isAwake, hwait, hgone]; rfl⟩

/-- A signal puts nobody to sleep. -/
theorem signalNotEmpty_awake {woken : Option ℕ} {ws ws' : List (WorkerPhase F A)}
    (h : signalNotEmpty woken ws = some ws') (hawake : ws.any WorkerPhase.isAwake = true) :
    ws'.any WorkerPhase.isAwake = true := by
  refine (signalNotEmpty_spec h).2 ?_
  obtain ⟨v, hv, hv'⟩ := List.any_eq_true.mp hawake
  refine List.countP_pos_iff.mpr ⟨v, hv, ?_⟩
  rw [WorkerPhase.isAwake, Bool.and_eq_true] at hv'
  exact hv'.2

/-! ## The invariant -/

/-- While the pool is not shut down, the workers that are not gone are counted by
`min_thr_num + live_thr_num`, and a nonempty queue has a worker on its way. -/
structure Attended (minThrNum : ℕ) (s : SectionState P F A) : Prop where
  min_eq : s.pool.minThrNum = minThrNum
  live_nonneg : 0 ≤ s.pool.liveThrNum
  count : s.pool.shutdown = false → (alive s.workers : ℤ) = minThrNum + s.pool.liveThrNum
  awake : s.pool.shutdown = false → 0 < s.pool.queueSize →
    s.workers.any WorkerPhase.isAwake = true

variable {minThrNum : ℕ}

theorem not_stranded_of_attended {s : SectionState P F A} (h : Attended minThrNum s)
    (hdown : s.pool.shutdown = false) : ¬ Stranded s := by
  rintro ⟨hsize, hall⟩
  obtain ⟨w, hw, hawake⟩ := List.any_eq_true.mp (h.awake hdown hsize)
  rw [WorkerPhase.isAwake, Bool.and_eq_true, Bool.not_eq_true', Bool.not_eq_true'] at hawake
  rcases hall w hw with hg | hg
  · exact Bool.noConfusion (hawake.2.symm.trans hg)
  · exact Bool.noConfusion (hawake.1.symm.trans hg)

theorem attended_start (maxThrNum : ℤ) (queueMaxSize : ℕ) (junk : ℕ → Task F A) :
    Attended minThrNum (sectionStart minThrNum maxThrNum queueMaxSize junk :
      SectionState P F A) where
  min_eq := rfl
  live_nonneg := le_rfl
  count := by
    intro _
    show (alive (List.replicate minThrNum WorkerPhase.ready) : ℤ) = minThrNum + 0
    rw [alive, List.countP_replicate]
    simp [WorkerPhase.isGone]
  awake := fun _ h => absurd h (lt_irrefl _)

/-- A worker that goes on, and leaves a queue behind that is empty if the worker
itself is not awake. -/
theorem Attended.setWorker {s : SectionState P F A} (h : Attended minThrNum s) {w : ℕ}
    {old : WorkerPhase F A} (new : WorkerPhase F A) (hw : s.workers[w]? = some old)
    (hgone : old.isGone = new.isGone)
    (hnew : new.isAwake = true ∨ s.pool.queueSize = 0) :
    Attended minThrNum (s.setWorker w new) where
  min_eq := h.min_eq
  live_nonneg := h.live_nonneg
  count := by
    intro hdown
    show (alive (s.workers.set w new) : ℤ) = minThrNum + s.pool.liveThrNum
    rw [alive_set hw hgone]
    exact h.count hdown
  awake := by
    intro _ (hsize : 0 < s.pool.queueSize)
    rcases hnew with hnew | hzero
    · exact any_isAwake_set hw hnew
    · omega

/-- The lines from the loop test on: the worker waits over an empty queue, or
takes a task and is awake. -/
theorem Attended.passFromTest {s : SectionState P F A} (h : Attended minThrNum s) {w : ℕ}
    {old : WorkerPhase F A} (hw : s.workers[w]? = some old) (hgone : old.isGone = false) :
    Attended minThrNum (passFromTest s w) := by
  unfold ThreadPool.passFromTest
  split_ifs with hwait hdown
  · exact h.setWorker .waiting hw hgone (Or.inr hwait.1)
  · refine ⟨h.min_eq, h.live_nonneg, fun hup => ?_, fun hup => ?_⟩ <;>
      exact Bool.noConfusion (hup.symm.trans hdown)
  · have hset := h.setWorker (.taken s.pool.take.1) hw hgone (Or.inl rfl)
    exact ⟨hset.min_eq, hset.live_nonneg, hset.count, fun _ _ => any_isAwake_set hw rfl⟩

/-- The lines after the return from the wait: a retirement over an empty queue
leaves nobody needed behind. -/
theorem Attended.passFromWait {s : SectionState P F A} (h : Attended minThrNum s) {w : ℕ}
    (hw : s.workers[w]? = some .woken)
    (hok : 0 < s.pool.waitExitThrNum → s.pool.minThrNum < s.pool.liveThrNum →
      s.pool.queueSize = 0) :
    Attended minThrNum (passFromWait s w) := by
  have hdec : Attended minThrNum s.decWaitExit :=
    ⟨h.min_eq, h.live_nonneg, h.count, h.awake⟩
  unfold ThreadPool.passFromWait
  split_ifs with hexit hlive
  · have hmin := h.min_eq
    refine ⟨h.min_eq, ?_, fun hdown => ?_, fun _ hsize => ?_⟩
    · show 0 ≤ s.pool.liveThrNum - 1
      omega
    · show (alive (s.workers.set w .gone) : ℤ) = minThrNum + (s.pool.liveThrNum - 1)
      have hcount := h.count hdown
      have hset := alive_set_gone hw rfl
      omega
    · exact absurd (hok hexit hlive) (ne_of_gt hsize)
  · exact hdec.passFromTest hw rfl
  · exact h.passFromTest hw rfl

/-- A call of `threadpool_add` that stores a task wakes somebody for it. -/
theorem Attended.addSection [DecidableEq P] (hmin : 1 ≤ minThrNum) {s s' : SectionState P F A}
    (h : Attended minThrNum s) {p : P} {task : Task F A} {woken : Option ℕ}
    (hadd : addSection s p task woken = some s') : Attended minThrNum s' := by
  unfold ThreadPool.addSection at hadd
  split_ifs at hadd with hfull hdown
  · obtain rfl := Option.some.inj hadd
    exact ⟨h.min_eq, h.live_nonneg, h.count, h.awake⟩
  · obtain rfl := Option.some.inj hadd
    refine ⟨h.min_eq, h.live_nonneg, fun hup => ?_, fun hup => ?_⟩ <;>
      exact Bool.noConfusion (hup.symm.trans hdown)
  · obtain ⟨ws, hsignal, rfl⟩ := Option.map_eq_some_iff.mp hadd
    obtain ⟨hcount, hawake⟩ := signalNotEmpty_spec hsignal
    refine ⟨h.min_eq, h.live_nonneg, fun hup => ?_, fun hup _ => hawake ?_⟩
    · show (alive ws : ℤ) = _
      rw [hcount]
      exact h.count hup
    · have hlive := h.live_nonneg
      have halive : (alive s.workers : ℤ) = minThrNum + s.pool.liveThrNum := h.count hup
      omega

/-- The growth loop starts as many workers as it counts and touches neither the
queue nor the flags. -/
theorem growLoop_spec (is : List ℕ) (add : ℕ) (pool : Pool F A) (ws : List (WorkerPhase F A)) :
    let r := growLoop is add pool ws
    r.1.toTaskQueue = pool.toTaskQueue ∧ r.1.minThrNum = pool.minThrNum
      ∧ r.1.shutdown = pool.shutdown ∧ pool.liveThrNum ≤ r.1.liveThrNum
      ∧ (alive r.2 : ℤ) = alive ws + (r.1.liveThrNum - pool.liveThrNum)
      ∧ (ws.any WorkerPhase.isAwake = true → r.2.any WorkerPhase.isAwake = true) := by
  induction is generalizing add pool ws with
  | nil => simp [growLoop]
  | cons i is ih =>
      rw [growLoop]
      split_ifs with hmore hslot
      · obtain ⟨hq, hm, hd, hl, hc, ha⟩ := ih (add + 1)
          { pool with
            threads := Function.update pool.threads i (ws.length + 1)
            liveThrNum := pool.liveThrNum + 1 } (ws ++ [.ready])
        have hready : (alive (ws ++ [WorkerPhase.ready]) : ℤ) = alive ws + 1 := by
          simp [alive, WorkerPhase.isGone]
        refine ⟨hq, hm, hd, ?_, ?_, fun _ => ha ?_⟩
        · exact le_trans (by simp) hl
        · rw [hc, hready]
          simp only
          omega
        · simp [WorkerPhase.isAwake, WorkerPhase.isWaiting, WorkerPhase.isGone]
      · exact ih add pool ws
      · simp

/-- A section of the manager starts workers or wakes them. -/
theorem Attended.adjustSection {s s' : SectionState P F A} (h : Attended minThrNum s)
    {woken : Option ℕ} (hadj : adjustSection s woken = some s') : Attended minThrNum s' := by
  unfold ThreadPool.adjustSection at hadj
  split at hadj
  case h_1 | h_2 | h_3 | h_5 | h_6 =>
    obtain rfl := Option.some.inj hadj
    exact ⟨h.min_eq, h.live_nonneg, h.count, h.awake⟩
  case h_4 liveThrNum busyThrNum _ =>
    obtain ⟨hq, hm, hd, hl, hc, ha⟩ :=
      growLoop_spec (List.range s.pool.maxThrNum.toNat) 0 s.pool s.workers
    obtain rfl := Option.some.inj hadj
    refine ⟨hm.trans h.min_eq, h.live_nonneg.trans hl, fun hdown => ?_, fun hdown hsize => ?_⟩
    · have hcount := h.count (hd.symm.trans hdown)
      show (alive (growLoop _ 0 s.pool s.workers).2 : ℤ) = _
      rw [hc, hcount]
      simp only
      omega
    · refine ha (h.awake (hd.symm.trans hdown) ?_)
      rw [← hq]
      exact hsize
  case h_7 left _ =>
    obtain ⟨ws, hsignal, rfl⟩ := Option.map_eq_some_iff.mp hadj
    refine ⟨h.min_eq, h.live_nonneg, fun hdown => ?_, fun hdown hsize => ?_⟩
    · show (alive ws : ℤ) = _
      rw [(signalNotEmpty_spec hsignal).1]
      exact h.count hdown
    · exact signalNotEmpty_awake hsignal (h.awake hdown hsize)
  case h_8 => exact absurd hadj (by simp)

/-- **Every step that meets `IdleRetirement` keeps the pool attended.** -/
theorem attended_step [DecidableEq P] (hmin : 1 ≤ minThrNum) {s s' : SectionState P F A}
    (h : Attended minThrNum s) {m : SectionMove P F A} (hok : IdleRetirement s m)
    (hstep : sectionStep m s = some s') : Attended minThrNum s' := by
  cases m with
  | pass w =>
      rw [IdleRetirement] at hok
      rw [sectionStep] at hstep
      split at hstep
      case h_1 hw =>
        obtain rfl := Option.some.inj hstep
        exact h.passFromTest hw rfl
      case h_2 hw =>
        obtain rfl := Option.some.inj hstep
        rw [hw] at hok
        exact h.passFromWait hw hok
      case h_3 => exact absurd hstep (by simp)
  | startTask w =>
      rw [sectionStep] at hstep
      split at hstep
      case h_1 task hw =>
        obtain rfl := Option.some.inj hstep
        have hset := h.setWorker (.working task) hw rfl (Or.inl rfl)
        exact ⟨hset.min_eq, hset.live_nonneg, hset.count, hset.awake⟩
      case h_2 => exact absurd hstep (by simp)
  | endTask w =>
      rw [sectionStep] at hstep
      split at hstep
      case h_1 task hw =>
        obtain rfl := Option.some.inj hstep
        have hset := h.setWorker .ready hw rfl (Or.inl rfl)
        exact ⟨hset.min_eq, hset.live_nonneg, hset.count, hset.awake⟩
      case h_2 => exact absurd hstep (by simp)
  | add p task woken =>
      rw [sectionStep] at hstep
      split at hstep
      case h_1 => exact h.addSection hmin hstep
      case h_2 => exact absurd hstep (by simp)
  | resumeAdd p woken =>
      rw [sectionStep] at hstep
      split at hstep
      case h_1 => exact h.addSection hmin hstep
      case h_2 => exact absurd hstep (by simp)
  | adjust woken => exact h.adjustSection hstep
  | wakeWorker w =>
      rw [sectionStep] at hstep
      obtain ⟨ws, hsignal, rfl⟩ := Option.map_eq_some_iff.mp hstep
      refine ⟨h.min_eq, h.live_nonneg, fun hdown => ?_, fun hdown hsize => ?_⟩
      · show (alive ws : ℤ) = _
        rw [(signalNotEmpty_spec hsignal).1]
        exact h.count hdown
      · exact signalNotEmpty_awake hsignal (h.awake hdown hsize)
  | wakeProducer p =>
      rw [sectionStep] at hstep
      split at hstep
      case h_1 =>
        obtain rfl := Option.some.inj hstep
        exact ⟨h.min_eq, h.live_nonneg, h.count, h.awake⟩
      case h_2 => exact absurd hstep (by simp)
  | shutdown =>
      obtain rfl := Option.some.inj hstep
      exact ⟨h.min_eq, h.live_nonneg, fun hdown => Bool.noConfusion hdown,
        fun hdown => Bool.noConfusion hdown⟩

/-- **No stranded task.**  In every run in which a worker retires only over an
empty queue, no state before shutdown has a task in the queue while all the
workers that are left are blocked with no wake-up on its way. -/
theorem not_stranded [DecidableEq P] (hmin : 1 ≤ minThrNum) {maxThrNum : ℤ} {queueMaxSize : ℕ}
    {junk : ℕ → Task F A} {s : SectionState P F A}
    (hs : Reach sectionStep IdleRetirement
      (sectionStart minThrNum maxThrNum queueMaxSize junk) s)
    (hdown : s.pool.shutdown = false) : ¬ Stranded s :=
  not_stranded_of_attended
    (hs.invariant (attended_start maxThrNum queueMaxSize junk)
      (fun _ _ _ h hok hstep => attended_step hmin h hok hstep)) hdown

/-! ## Two runs -/

/-- One worker at least, two at most, a queue of capacity ten. -/
def sectionPool : SectionState Unit ℕ ℕ := sectionStart 1 2 10 (fun _ => ⟨0, none⟩)

/-- A task is added while the only worker is blocked; the signal wakes it. -/
theorem not_stranded_sectionPool :
    ∃ s, Reach sectionStep IdleRetirement sectionPool s
      ∧ (s.pool.queueSize = 1 ∧ s.pool.shutdown = false) ∧ ¬ Stranded s := by
  obtain ⟨s, hs, hrun⟩ : ∃ s, Reach sectionStep IdleRetirement sectionPool s
      ∧ (s.pool.queueSize = 1 ∧ s.pool.shutdown = false) :=
    exists_reach_of_run [.pass 0, .add () ⟨7, none⟩ (some 0)] (by decide +kernel)
  exact ⟨s, hs, hrun, not_stranded (by decide) hs hrun.2⟩

instance (s : SectionState P F A) : Decidable (Stranded s) :=
  inferInstanceAs (Decidable (_ ∧ _))

/-- Two rounds of growth, a round that shrinks while nobody is blocked, and the
end of all ten tasks by the first worker. -/
def shrinkMoves : List (SectionMove Unit ℕ ℕ) :=
  List.replicate 10 (.add () ⟨7, none⟩ none) ++ List.replicate 22 (.adjust none)
    ++ (List.replicate 10 [.pass 0, .startTask 0, .endTask 0]).flatten
    ++ [.pass 0, .pass 1, .pass 2]

/-- **A task is stranded.**  `wait_exit_thr_num` is still positive and one worker
more than the minimum is alive when the last task comes: the worker that its
signal wakes retires, and nobody wakes the other two. -/
theorem stranded_after_shrink :
    ∃ s, Reachable sectionStep sectionPool s ∧ s.pool.shutdown = false ∧ Stranded s :=
  exists_reach_of_run (shrinkMoves ++ [.add () ⟨8, none⟩ (some 0), .pass 0]) (by decide +kernel)

end ThreadPool
