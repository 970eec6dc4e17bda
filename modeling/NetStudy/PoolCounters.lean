/-
# The counters of the pool (`threadpool/main.c`)

`live_thr_num` is to be the number of workers alive, and the manager's decisions and the
joins of `treadpool_destory` go by it.  `threadpool_create` starts `min_thr_num` workers and
leaves it at 0.  From then on every worker that is started and every worker that retires is
counted, so the number stays short by `min_thr_num`.

* `liveThrNum_of_reach`: by how much `live_thr_num` is short, before the shutdown;
* `not_countersOk`: hence the counters are wrong in every state before the shutdown;
* `countersOff_mainPool`: the pool of `main` when it has been created.
-/
import NetStudy.PoolHandOver
import NetStudy.PoolSystem

namespace ThreadPool

open Transition

variable {T P F A : Type*}

/-! ## The law -/

/-- The number of workers that were started and have not got past an exit. -/
def System.alive (s : System P F A) : ℕ :=
  ((Finset.range s.started).filter (fun w => (s.worker w).exit ≠ ExitPc.ended)).card

/-- The counters between two sections. -/
structure CountersOk (minThrNum maxThrNum : ℤ) (s : System P F A) : Prop where
  live : s.shared.pool.liveThrNum = s.alive
  liveMin : minThrNum ≤ s.shared.pool.liveThrNum
  liveMax : s.shared.pool.liveThrNum ≤ maxThrNum
  busyNonneg : 0 ≤ s.shared.pool.busyThrNum
  busyLe : s.shared.pool.busyThrNum ≤ s.shared.pool.liveThrNum
  waitExitNonneg : 0 ≤ s.shared.pool.waitExitThrNum
  waitExitLe : s.shared.pool.waitExitThrNum ≤ defaultThreadVary

/-- Before the shutdown, and no thread owns `lock`. -/
def System.BetweenSections (s : System P F A) : Prop :=
  s.shared.pool.shutdown = false ∧ s.shared.lock = none

/-! ## The workers that `live_thr_num` should count -/

/-- 1 for a worker that has not been taken off the count. -/
def WorkerPc.counted : WorkerPc → ℕ
  | .retireLock | .exited => 0
  | _ => 1

/-- 1 while a worker has been started that is not counted yet. -/
def AdjustPc.uncounted : AdjustPc → ℕ
  | .incAdd | .incLive => 1
  | _ => 0

/-- The workers that should be counted. -/
def System.counted (s : System P F A) : ℕ :=
  ∑ w ∈ Finset.range s.started, (s.worker w).body.pc.counted

/-- One term of a sum changes. -/
theorem sum_range_update {α : Type*} (f : α → ℕ) (g : ℕ → α) (a : α) {n w : ℕ} (hw : w < n) :
    ∑ v ∈ Finset.range n, f (Function.update g w a v) + f (g w)
      = ∑ v ∈ Finset.range n, f (g v) + f a := by
  have hmem : w ∈ Finset.range n := Finset.mem_range.mpr hw
  have hrest : ∑ v ∈ (Finset.range n).erase w, f (Function.update g w a v)
      = ∑ v ∈ (Finset.range n).erase w, f (g v) := by
    apply Finset.sum_congr rfl
    intro v hv
    rw [Function.update_of_ne (Finset.ne_of_mem_erase hv)]
  rw [← Finset.add_sum_erase _ _ hmem, ← Finset.add_sum_erase _ (fun v => f (g v)) hmem, hrest,
    Function.update_self]
  ring

/-- The invariant of the counters. -/
structure CounterInv (minThrNum : ℤ) (s : System P F A) : Prop where
  fresh : ∀ w, s.started ≤ w → (s.worker w).body.pc = .loopTest
  left : ∀ w, (s.worker w).exit ≠ ExitPc.running → (s.worker w).body.pc = .exited
  staying : s.shared.pool.shutdown = false → ∀ w, (s.worker w).body.pc ≠ .shutdownLock
  short : s.shared.pool.shutdown = false →
    s.shared.pool.liveThrNum + s.manager.pc.uncounted + minThrNum = s.counted

theorem counterInv_start {minThrNum : ℤ} (hmin : 1 ≤ minThrNum) (maxThrNum : ℤ)
    (queueMaxSize : ℕ) (junk : ℕ → Task F A) (locals : ℕ → Task F A) (calls : P → Task F A) :
    CounterInv minThrNum (systemStart minThrNum maxThrNum queueMaxSize junk locals calls) := by
  refine ⟨fun _ _ => rfl, fun _ hne => absurd rfl hne, ?_, ?_⟩
  · intro _ w
    show WorkerPc.loopTest ≠ WorkerPc.shutdownLock
    decide
  · intro _
    show (0 : ℤ) + (0 : ℕ) + minThrNum
      = ((∑ w ∈ Finset.range minThrNum.toNat, WorkerPc.loopTest.counted : ℕ) : ℤ)
    rw [Finset.sum_const, Finset.card_range, smul_eq_mul]
    show _ = ((minThrNum.toNat * 1 : ℕ) : ℤ)
    omega

/-! ## What the statements do to the count -/

/-- **A statement of a worker** before the shutdown. -/
theorem workerStmt_counted {me : T} {sh sh' : Shared T F A} {l l' : Worker F A} {n : Notify}
    (hpc : l.pc ≠ .shutdownLock) (h : workerStmt me sh l = some (sh', l', n)) :
    sh'.pool.liveThrNum + l.pc.counted = sh.pool.liveThrNum + l'.pc.counted := by
  obtain ⟨pc, task⟩ := l
  cases pc with
  | shutdownLock => exact absurd rfl hpc
  | liveDec =>
      cases h
      show sh.pool.liveThrNum - 1 + (1 : ℕ) = sh.pool.liveThrNum + (0 : ℕ)
      omega
  | _ =>
      simp only [workerStmt] at h
      (try split_ifs at h) <;> (try cases h) <;> rfl

/-- Where a worker meets the shutdown. -/
theorem workerStmt_shutdownLock {me : T} {sh sh' : Shared T F A} {l l' : Worker F A} {n : Notify}
    (hrun : sh.pool.shutdown = false) (h : workerStmt me sh l = some (sh', l', n)) :
    l'.pc ≠ .shutdownLock := by
  obtain ⟨pc, task⟩ := l
  cases pc with
  | shutdownTest =>
      simp only [workerStmt, hrun, Bool.false_eq_true, if_false] at h
      cases h
      show WorkerPc.copyFunction ≠ WorkerPc.shutdownLock
      decide
  | _ =>
      simp only [workerStmt] at h
      (try split_ifs at h) <;> (try cases h) <;> simp [Worker.goto]

/-- **A statement of the manager** starts a worker, or leaves the workers alone. -/
theorem adjustStmt_counted {me : T} {started started' : ℕ} {sh sh' : Shared T F A}
    {l l' : Adjuster} {n : Notify}
    (h : adjustStmt me started sh l = some (started', sh', l', n)) :
    sh'.pool.shutdown = sh.pool.shutdown ∧
      ((started' = started ∧
          sh'.pool.liveThrNum + l'.pc.uncounted = sh.pool.liveThrNum + l.pc.uncounted) ∨
        (started' = started + 1 ∧
          sh'.pool.liveThrNum + l'.pc.uncounted = sh.pool.liveThrNum + l.pc.uncounted + 1)) := by
  obtain ⟨pc, queueSize, liveThrNum, busyThrNum, i, add⟩ := l
  cases pc with
  | create =>
      cases h
      refine ⟨rfl, Or.inr ⟨rfl, ?_⟩⟩
      show sh.pool.liveThrNum + (1 : ℕ) = sh.pool.liveThrNum + (0 : ℕ) + 1
      omega
  | incLive =>
      cases h
      refine ⟨rfl, Or.inl ⟨rfl, ?_⟩⟩
      show sh.pool.liveThrNum + 1 + (0 : ℕ) = sh.pool.liveThrNum + (1 : ℕ)
      omega
  | _ =>
      simp only [adjustStmt] at h
      (try split_ifs at h) <;> (try cases h) <;> exact ⟨rfl, Or.inl ⟨rfl, rfl⟩⟩

/-- A wake-up moves a blocked worker only. -/
theorem PoolWorker.wake_pc (l : PoolWorker F A) :
    l.wake.body.pc = l.body.pc ∨ (l.body.pc = .blocked ∧ l.wake.body.pc = .woken) := by
  show l.body.wake.pc = l.body.pc ∨ (l.body.pc = .blocked ∧ l.body.wake.pc = .woken)
  unfold Worker.wake
  split_ifs with hblocked
  · exact Or.inr ⟨hblocked, rfl⟩
  · exact Or.inl rfl

theorem PoolWorker.pc_of_wake {l l' : PoolWorker F A} (h : l' = l ∨ l' = l.wake) :
    l'.body.pc = l.body.pc ∨ (l.body.pc = .blocked ∧ l'.body.pc = .woken) := by
  rcases h with rfl | rfl
  · exact Or.inl rfl
  · exact l.wake_pc

/-- It takes nobody out of the loop. -/
theorem PoolWorker.exit_of_wake {l l' : PoolWorker F A} (h : l' = l ∨ l' = l.wake) :
    l'.exit = l.exit := by
  rcases h with rfl | rfl <;> rfl

/-- Wake-ups keep the invariant. -/
theorem CounterInv.woken {minThrNum : ℤ} {s s' : System P F A} (h : CounterInv minThrNum s)
    (hwoken : s.Woken s') : CounterInv minThrNum s' := by
  obtain ⟨wk, pr, rfl, hwk, -⟩ := hwoken
  have hpc := fun w => PoolWorker.pc_of_wake (hwk w)
  refine ⟨?_, ?_, ?_, ?_⟩
  · intro w hw
    have hfresh := h.fresh w hw
    rcases hpc w with heq | ⟨hblocked, -⟩
    · exact heq.trans hfresh
    · rw [hfresh] at hblocked
      cases hblocked
  · intro w hw
    change (wk w).exit ≠ ExitPc.running at hw
    rw [PoolWorker.exit_of_wake (hwk w)] at hw
    have hleft := h.left w hw
    rcases hpc w with heq | ⟨hblocked, -⟩
    · exact heq.trans hleft
    · rw [hleft] at hblocked
      cases hblocked
  · intro hrun w
    rcases hpc w with heq | ⟨-, hwoken⟩
    · show (wk w).body.pc ≠ .shutdownLock
      rw [heq]
      exact h.staying hrun w
    · show (wk w).body.pc ≠ .shutdownLock
      rw [hwoken]
      decide
  · intro hrun
    have hcounted : System.counted { s with worker := wk, producer := pr } = s.counted := by
      apply Finset.sum_congr rfl
      intro w _
      show (wk w).body.pc.counted = (s.worker w).body.pc.counted
      rcases hpc w with heq | ⟨hblocked, hwoken⟩
      · rw [heq]
      · rw [hblocked, hwoken]
        rfl
    rw [hcounted]
    exact h.short hrun

/-- A worker moves. -/
theorem CounterInv.setWorker {minThrNum : ℤ} {s : System P F A} (h : CounterInv minThrNum s)
    {w : ℕ} (hw : w < s.started) {sh : Shared (PoolThread P) F A} {l : PoolWorker F A}
    (hleft : l.exit ≠ ExitPc.running → l.body.pc = .exited)
    (hshutdown : sh.pool.shutdown = s.shared.pool.shutdown)
    (hstaying : s.shared.pool.shutdown = false → l.body.pc ≠ .shutdownLock)
    (hlive : s.shared.pool.shutdown = false →
      sh.pool.liveThrNum + (s.worker w).body.pc.counted
        = s.shared.pool.liveThrNum + l.body.pc.counted) :
    CounterInv minThrNum (s.setWorker w sh l) := by
  refine ⟨?_, ?_, ?_, ?_⟩
  · intro v hv
    change s.started ≤ v at hv
    show (Function.update s.worker w l v).body.pc = .loopTest
    rw [Function.update_of_ne (by omega)]
    exact h.fresh v hv
  · intro v
    show (Function.update s.worker w l v).exit ≠ ExitPc.running →
      (Function.update s.worker w l v).body.pc = .exited
    by_cases hvw : v = w
    · rw [hvw, Function.update_self]
      exact hleft
    · rw [Function.update_of_ne hvw]
      exact h.left v
  · intro hrun v
    change sh.pool.shutdown = false at hrun
    rw [hshutdown] at hrun
    show (Function.update s.worker w l v).body.pc ≠ .shutdownLock
    by_cases hvw : v = w
    · rw [hvw, Function.update_self]
      exact hstaying hrun
    · rw [Function.update_of_ne hvw]
      exact h.staying hrun v
  · intro hrun
    change sh.pool.shutdown = false at hrun
    rw [hshutdown] at hrun
    have hshort := h.short hrun
    have hl := hlive hrun
    have hsum := sum_range_update (fun l : PoolWorker F A => l.body.pc.counted) s.worker l hw
    show sh.pool.liveThrNum + s.manager.pc.uncounted + minThrNum
      = ((∑ v ∈ Finset.range s.started, (Function.update s.worker w l v).body.pc.counted : ℕ) : ℤ)
    unfold System.counted at hshort
    omega

/-- The next statement of a worker. -/
theorem CounterInv.worker {minThrNum : ℤ} {s : System P F A} (h : CounterInv minThrNum s)
    {w : ℕ} (hw : w < s.started) {sh : Shared (PoolThread P) F A} {l : PoolWorker F A} {n : Notify}
    (hs : poolWorkerStmt (PoolThread.worker w) s.shared (s.worker w) = some (sh, l, n)) :
    CounterInv minThrNum (s.setWorker w sh l) := by
  obtain ⟨body, out⟩ := l
  rcases poolWorkerStmt_cases hs with ⟨hstmt, rfl⟩ | ⟨hexit, rfl, rfl⟩
  · refine h.setWorker hw ?_ (shutdown_workerStmt hstmt)
      (fun hrun => workerStmt_shutdownLock hrun hstmt)
      (fun hrun => workerStmt_counted (h.staying hrun w) hstmt)
    -- the locks of lines 109 and 118 are the last statements of the loop
    intro hleave
    cases hpc : (s.worker w).body.pc with
    | retireLock | shutdownLock =>
        simp only [workerStmt, hpc] at hstmt
        split_ifs at hstmt
        cases hstmt
        rfl
    | _ =>
        rw [hpc] at hleave
        exact absurd rfl hleave
  · exact h.setWorker hw (fun _ => h.left w hexit) rfl (fun hrun => h.staying hrun w) (fun _ => rfl)

/-- Only the workers, the manager, `live_thr_num` and `shutdown` count. -/
theorem CounterInv.of_eq {minThrNum : ℤ} {s s' : System P F A} (h : CounterInv minThrNum s)
    (hworker : s'.worker = s.worker) (hstarted : s'.started = s.started)
    (hmanager : s'.manager = s.manager)
    (hshutdown : s'.shared.pool.shutdown = false → s.shared.pool.shutdown = false)
    (hlive : s'.shared.pool.liveThrNum = s.shared.pool.liveThrNum) : CounterInv minThrNum s' := by
  refine ⟨?_, ?_, ?_, ?_⟩
  · rw [hworker, hstarted]
    exact h.fresh
  · rw [hworker]
    exact h.left
  · rw [hworker]
    exact fun hrun => h.staying (hshutdown hrun)
  · intro hrun
    rw [hlive, hmanager, h.short (hshutdown hrun), System.counted, System.counted, hworker,
      hstarted]

/-- The next statement of the manager. -/
theorem CounterInv.manager {minThrNum : ℤ} {s : System P F A} (h : CounterInv minThrNum s)
    {started : ℕ} {sh : Shared (PoolThread P) F A} {l : Adjuster} {n : Notify}
    (hs : adjustStmt PoolThread.manager s.started s.shared s.manager = some (started, sh, l, n)) :
    CounterInv minThrNum (s.setManager started sh l) := by
  obtain ⟨hshutdown, hcases⟩ := adjustStmt_counted hs
  refine ⟨?_, h.left, ?_, ?_⟩
  · intro w hw
    change started ≤ w at hw
    exact h.fresh w (by rcases hcases with ⟨heq, -⟩ | ⟨heq, -⟩ <;> omega)
  · intro hrun
    change sh.pool.shutdown = false at hrun
    rw [hshutdown] at hrun
    exact h.staying hrun
  · intro hrun
    change sh.pool.shutdown = false at hrun
    rw [hshutdown] at hrun
    have hshort := h.short hrun
    show sh.pool.liveThrNum + l.pc.uncounted + minThrNum
      = ((∑ v ∈ Finset.range started, (s.worker v).body.pc.counted : ℕ) : ℤ)
    rcases hcases with ⟨rfl, hlive⟩ | ⟨rfl, hlive⟩
    · rw [hlive]
      exact hshort
    · -- the new worker is about to run its loop
      rw [Finset.sum_range_succ, h.fresh s.started le_rfl]
      show sh.pool.liveThrNum + l.pc.uncounted + minThrNum = ((s.counted + 1 : ℕ) : ℤ)
      omega

/-- The next statement of the destroying thread. -/
theorem CounterInv.destroyStmt {minThrNum : ℤ} {s s' : System P F A} (h : CounterInv minThrNum s)
    (hs : s.destroyStmt = some s') : CounterInv minThrNum s' := by
  have hkept := s.destroyStmt_kept hs
  have hsame : CounterInv minThrNum { s' with worker := s.worker } := by
    refine h.of_eq rfl hkept.started hkept.manager hkept.shutdown ?_
    show s'.shared.pool.liveThrNum = s.shared.pool.liveThrNum
    rw [hkept.pool]
  exact hsame.woken ⟨s'.worker, s'.producer, rfl, hkept.worker, fun _ => Or.inl rfl⟩

/-- A worker that should be counted is alive. -/
theorem CounterInv.counted_le {minThrNum : ℤ} {s : System P F A} (h : CounterInv minThrNum s) :
    s.counted ≤ s.alive := by
  rw [System.alive, Finset.card_filter]
  apply Finset.sum_le_sum
  intro w _
  by_cases hended : (s.worker w).exit = ExitPc.ended
  · rw [h.left w (by rw [hended]; decide)]
    exact Nat.zero_le _
  · rw [if_pos hended]
    cases (s.worker w).body.pc <;> decide

section Steps

variable [DecidableEq P]

/-- **Every step** keeps the invariant. -/
theorem CounterInv.step {minThrNum : ℤ} {s s' : System P F A} (h : CounterInv minThrNum s)
    {m : SystemMove P F A} (hs : systemStep m s = some s') : CounterInv minThrNum s' := by
  cases moves_of_systemStep hs with
  | worker hw hstmt hwoken => exact (h.worker hw hstmt).woken hwoken
  | producer hstmt hwoken =>
      obtain ⟨q, lock, rfl⟩ := addStmt_shared hstmt
      refine CounterInv.woken ?_ hwoken
      exact h.of_eq rfl rfl rfl id rfl
  | call _ => exact h.of_eq rfl rfl rfl id rfl
  | manager hstmt hwoken => exact (h.manager hstmt).woken hwoken
  | destroyer hstmt => exact h.destroyStmt hstmt
  | wake hwoken => exact h.woken hwoken

/-- **`live_thr_num` is short** by `min_thr_num` at least. -/
theorem liveThrNum_of_reach {minThrNum maxThrNum : ℤ} {queueMaxSize : ℕ} {junk : ℕ → Task F A}
    {locals : ℕ → Task F A} {calls : P → Task F A} (hmin : 1 ≤ minThrNum) {s : System P F A}
    (hreach : Reachable systemStep
      (systemStart minThrNum maxThrNum queueMaxSize junk locals calls) s)
    (hrun : s.shared.pool.shutdown = false) :
    s.shared.pool.liveThrNum + minThrNum ≤ s.alive := by
  have h : CounterInv minThrNum s :=
    hreach.invariant (counterInv_start hmin maxThrNum queueMaxSize junk locals calls)
      (fun _ _ _ h _ hs => h.step hs)
  have hshort := h.short hrun
  have hle := h.counted_le
  omega

/-- **The counters are never right.**  There are states before the shutdown in which no thread
owns `lock`, and in none of them, whatever has happened since the pool was created, are the
counters as they should be. -/
theorem not_countersOk {minThrNum maxThrNum : ℤ} (hmin : 1 ≤ minThrNum)
    (queueMaxSize : ℕ) (junk : ℕ → Task F A) (locals : ℕ → Task F A) (calls : P → Task F A) :
    (∃ s, Reachable systemStep
        (systemStart minThrNum maxThrNum queueMaxSize junk locals calls) s ∧ s.BetweenSections) ∧
      ∀ s, Reachable systemStep
        (systemStart minThrNum maxThrNum queueMaxSize junk locals calls) s →
        s.BetweenSections → ¬ CountersOk minThrNum maxThrNum s := by
  constructor
  · exact ⟨_, Reach.start, rfl, rfl⟩
  · rintro s hreach ⟨hrun, -⟩ hok
    have hshort := liveThrNum_of_reach hmin hreach hrun
    have hlive := hok.live
    omega

end Steps

/-- The pool of `main` has stored a task, and the counters are wrong. -/
theorem not_countersOk_storing :
    ∃ s, Reachable systemStep mainPool s ∧
      (s.BetweenSections ∧ s.shared.pool.queueSize = 1) ∧ ¬ CountersOk 3 100 s := by
  obtain ⟨s, hreach, hbetween, hsize⟩ : ∃ s, Reachable systemStep mainPool s ∧
      ((s.shared.pool.shutdown = false ∧ s.shared.lock = none) ∧ s.shared.pool.queueSize = 1) :=
    exists_reach_of_run (.call () 7 none :: List.replicate 10 (.producer () none))
      (by decide +kernel)
  exact ⟨s, hreach, ⟨hbetween, hsize⟩,
    (not_countersOk (by decide) 100 _ _ _).2 s hreach hbetween⟩

/-- When the pool of `main` has been created, three workers are alive and none is counted. -/
theorem countersOff_mainPool :
    mainPool.BetweenSections ∧ mainPool.alive = 3 ∧ mainPool.shared.pool.liveThrNum = 0 ∧
      ¬ ∀ s, Reachable systemStep mainPool s → s.BetweenSections → CountersOk 3 100 s := by
  have halive : mainPool.alive = 3 := by decide
  refine ⟨⟨rfl, rfl⟩, halive, rfl, ?_⟩
  intro hall
  have hok := hall mainPool Reach.start ⟨rfl, rfl⟩
  exact absurd hok.liveMin (by decide)

end ThreadPool
