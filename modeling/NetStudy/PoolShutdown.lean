/-
# Shutting the pool down (`threadpool/main.c`)

`treadpool_destory` sets `shutdown`, joins the manager and as many workers as
`live_thr_num` says, and frees the pool.  `threadpool_create` has left `live_thr_num` at 0,
so none of the workers that it started need be joined.

* `Clean` is what has to hold when `threadpool_free` is called;
* `clean_iff_noWorkers`: it does hold in every run exactly if no worker is started and no
  call of `threadpool_add` overlaps the shutdown;
* `freed_under_workers`: the pool of `main` is freed before its workers have moved at all.
-/
import NetStudy.PoolSystem

namespace ThreadPool

open Transition

variable {P F A : Type*}

/-! ## The property -/

/-- `threadpool_free` is being called. -/
def AtFree (s : System P F A) : Prop := s.destroyer.pc = DestroyPc.freeQueue

/-- No other thread is left that would use the pool, and the joins were proper. -/
structure Clean (s : System P F A) : Prop where
  /-- Every worker that was started has ended. -/
  workers : ∀ w < s.started, (s.worker w).exit = ExitPc.ended
  /-- The manager has ended. -/
  manager : s.manager.pc = AdjustPc.ended
  /-- No thread is inside `threadpool_add`. -/
  producers : ∀ p, (s.producer p).pc = .idle
  /-- Every thread is joined once at most. -/
  joinedOnce : s.joined.Nodup
  /-- No thread that is joined has been detached. -/
  notDetached : ∀ t ∈ s.joined, t ∉ s.detached

/-- The condition on a step: `shutdown` is set when no call of `threadpool_add` is under way,
and no call begins afterwards. -/
def AddsOver (s : System P F A) : SystemMove P F A → Prop
  | .call _ _ _ => s.shared.pool.shutdown = false
  | .destroyer => s.destroyer.pc = DestroyPc.setShutdown → ∀ p, (s.producer p).pc = .idle
  | _ => True

/-! ## Without workers -/

/-- The manager has found a slot in use, and is about to start a worker or to count it. -/
def AdjustPc.starting : AdjustPc → Bool
  | .create | .incAdd | .incLive => true
  | _ => false

/-- No worker exists, and the manager finds no slot that it could use for one. -/
structure NoWorkers (started : ℕ) (pool : Pool F A) (l : Adjuster) : Prop where
  started : started = 0
  live : pool.liveThrNum = 0
  threads : ∀ i, pool.threads i = 0
  notStarting : l.pc.starting = false

/-- The manager starts no worker if all slots are zero. -/
theorem NoWorkers.adjustStmt {me : PoolThread P} {started started' : ℕ}
    {sh sh' : Shared (PoolThread P) F A} {l l' : Adjuster} {n : Notify}
    (h : NoWorkers started sh.pool l)
    (hs : adjustStmt me started sh l = some (started', sh', l', n)) :
    NoWorkers started' sh'.pool l' ∧ sh'.pool.shutdown = sh.pool.shutdown := by
  obtain ⟨hstarted, hlive, hthreads, hpc⟩ := h
  obtain ⟨pc, queueSize, liveThrNum, busyThrNum, i, add⟩ := l
  cases pc with
  | create | incAdd | incLive => cases hpc
  | slotTest =>
      simp only [ThreadPool.adjustStmt, hthreads i, ne_eq, not_true_eq_false, if_false] at hs
      cases hs
      exact ⟨⟨hstarted, hlive, hthreads, rfl⟩, rfl⟩
  | _ =>
      simp only [ThreadPool.adjustStmt] at hs
      (try split_ifs at hs) <;> (try cases hs) <;>
        exact ⟨⟨hstarted, hlive, hthreads, rfl⟩, rfl⟩

/-- The manager is still to be joined. -/
def DestroyPc.early : DestroyPc → Bool
  | .setShutdown | .joinManager => true
  | _ => false

/-- Where the destroying thread is, as long as no worker exists. -/
def System.DestroyOk (s : System P F A) : Prop :=
  (s.destroyer.pc.early = true ∧ s.joined = []) ∨
    (s.destroyer.pc.early = false ∧ s.destroyer.pc ≠ DestroyPc.join ∧
      s.manager.pc = AdjustPc.ended ∧ s.joined = [PoolThread.manager])

/-- The invariant of a pool without workers. -/
structure ShutdownInv (s : System P F A) : Prop where
  alone : NoWorkers s.started s.shared.pool s.manager
  destroyer : s.DestroyOk
  detached : s.detached = []
  called : s.destroyer.pc ≠ DestroyPc.setShutdown → s.shared.pool.shutdown = true
  idle : s.shared.pool.shutdown = true → ∀ p, (s.producer p).pc = .idle

theorem shutdownInv_start {minThrNum maxThrNum : ℤ} {queueMaxSize : ℕ} {junk : ℕ → Task F A}
    {locals : ℕ → Task F A} {calls : P → Task F A} (hmin : minThrNum ≤ 0) :
    ShutdownInv (systemStart minThrNum maxThrNum queueMaxSize junk locals calls) := by
  refine ⟨⟨?_, rfl, ?_, rfl⟩, Or.inl ⟨rfl, rfl⟩, rfl, fun hpc => absurd rfl hpc, ?_⟩
  · exact Int.toNat_of_nonpos hmin
  · intro i
    show (if (i : ℤ) < minThrNum then i + 1 else 0) = 0
    rw [if_neg (by omega)]
  · intro _ p
    rfl

/-- A change of the queue, of the locks and of the producers keeps the invariant, if no
producer leaves `idle` after the shutdown. -/
theorem ShutdownInv.of_eq {s s' : System P F A} (h : ShutdownInv s) {q : TaskQueue F A}
    (hpool : s'.shared.pool = { s.shared.pool with toTaskQueue := q })
    (hstarted : s'.started = s.started) (hmanager : s'.manager = s.manager)
    (hdestroyer : s'.destroyer = s.destroyer) (hjoined : s'.joined = s.joined)
    (hdetached : s'.detached = s.detached)
    (hidle : s.shared.pool.shutdown = true → ∀ p, (s'.producer p).pc = .idle) :
    ShutdownInv s' := by
  have hshutdown : s'.shared.pool.shutdown = s.shared.pool.shutdown := by rw [hpool]
  refine ⟨?_, ?_, hdetached.trans h.detached, ?_, ?_⟩
  · rw [hstarted, hmanager, hpool]
    exact ⟨h.alone.started, h.alone.live, h.alone.threads, h.alone.notStarting⟩
  · unfold System.DestroyOk
    rw [hdestroyer, hmanager, hjoined]
    exact h.destroyer
  · rw [hdestroyer, hshutdown]
    exact h.called
  · rw [hshutdown]
    exact hidle

/-- A wake-up leaves a producer outside `threadpool_add` where it is. -/
theorem Producer.wake_idle {l : Producer F A} (h : l.pc = .idle) : l.wake.pc = .idle := by
  unfold Producer.wake
  rw [if_neg (by rw [h]; decide), h]

/-- A statement of the destroying thread. -/
theorem ShutdownInv.destroyStmt {s s' : System P F A} (h : ShutdownInv s)
    (hok : s.destroyer.pc = DestroyPc.setShutdown → ∀ p, (s.producer p).pc = .idle)
    (hs : s.destroyStmt = some s') : ShutdownInv s' := by
  have hlive : ¬ (s.destroyer.i : ℤ) < s.shared.pool.liveThrNum := by
    rw [h.alone.live]
    omega
  unfold System.destroyStmt at hs
  rcases h.destroyer with ⟨hpc, hjoined⟩ | ⟨hpc, hjoin, hended, hjoined⟩
  · -- until the manager is joined
    cases hdes : s.destroyer.pc with
    | setShutdown =>
        simp only [hdes] at hs
        cases hs
        exact ⟨⟨h.alone.started, h.alone.live, h.alone.threads, h.alone.notStarting⟩,
          Or.inl ⟨rfl, hjoined⟩, h.detached, fun _ => rfl, fun _ => hok hdes⟩
    | joinManager =>
        simp only [hdes] at hs
        split_ifs at hs with hended
        cases hs
        refine ⟨h.alone, Or.inr ⟨rfl, ?_, hended, ?_⟩, h.detached, ?_, h.idle⟩
        · show DestroyPc.broadcastTest ≠ DestroyPc.join
          decide
        · show s.joined ++ [PoolThread.manager] = [PoolThread.manager]
          rw [hjoined]
          rfl
        · exact fun _ => h.called (by rw [hdes]; decide)
    | _ =>
        rw [hdes] at hpc
        cases hpc
  · have hcalled : s.shared.pool.shutdown = true := by
      apply h.called
      intro hset
      rw [hset] at hpc
      cases hpc
    have hgo : ∀ s₁ : System P F A, s₁.shared.pool = s.shared.pool → s₁.started = s.started →
        s₁.manager = s.manager → s₁.producer = s.producer → s₁.joined = s.joined →
        s₁.detached = s.detached → s₁.destroyer.pc.early = false →
        s₁.destroyer.pc ≠ DestroyPc.join → ShutdownInv s₁ := by
      intro s₁ hpool hstarted hmanager hproducer hj hd hlate hjoin'
      refine ⟨?_, Or.inr ⟨hlate, hjoin', ?_, hj.trans hjoined⟩, hd.trans h.detached, ?_, ?_⟩
      · rw [hstarted, hpool, hmanager]
        exact h.alone
      · rw [hmanager, hended]
      · rw [hpool]
        exact fun _ => hcalled
      · rw [hpool, hproducer]
        exact h.idle
    cases hdes : s.destroyer.pc with
    | setShutdown | joinManager =>
        rw [hdes] at hpc
        cases hpc
    | join => exact absurd hdes hjoin
    | returned => simp only [hdes, reduceCtorEq] at hs
    | broadcastTest | joinTest =>
        simp only [hdes, if_neg hlive] at hs
        cases hs
        exact hgo _ rfl rfl rfl rfl rfl rfl rfl (by simp [System.destroyGoto, Destroyer.goto])
    | lock | counterLock =>
        simp only [hdes] at hs
        split_ifs at hs
        cases hs
        exact hgo _ rfl rfl rfl rfl rfl rfl rfl (by simp [Destroyer.goto])
    | _ =>
        simp only [hdes] at hs
        cases hs
        exact hgo _ rfl rfl rfl rfl rfl rfl rfl (by simp [System.destroyGoto, Destroyer.goto])

/-- A wake-up brings no producer into `threadpool_add`. -/
theorem ShutdownInv.woken {s s' : System P F A} (h : ShutdownInv s) (hwoken : s.Woken s') :
    ShutdownInv s' := by
  obtain ⟨wk, pr, rfl, -, hpr⟩ := hwoken
  refine h.of_eq (q := s.shared.pool.toTaskQueue) rfl rfl rfl rfl rfl rfl ?_
  intro hshutdown p
  show (pr p).pc = .idle
  have hidle := h.idle hshutdown p
  rcases hpr p with heq | heq
  · rw [heq]
    exact hidle
  · rw [heq]
    exact Producer.wake_idle hidle

section Steps

variable [DecidableEq P]

/-- **A step** that meets the condition. -/
theorem ShutdownInv.step {s s' : System P F A} (h : ShutdownInv s) {m : SystemMove P F A}
    (hok : AddsOver s m) (hs : systemStep m s = some s') : ShutdownInv s' := by
  cases moves_of_systemStep hs with
  | worker hw _ _ =>
      rw [h.alone.started] at hw
      exact absurd hw (Nat.not_lt_zero _)
  | producer hstmt hwoken =>
      obtain ⟨q, lock, rfl⟩ := addStmt_shared hstmt
      refine ShutdownInv.woken ?_ hwoken
      refine h.of_eq (q := q) rfl rfl rfl rfl rfl rfl ?_
      -- outside `threadpool_add` there is no statement to execute
      intro hshutdown
      simp only [addStmt, h.idle hshutdown, reduceCtorEq] at hstmt
  | call _ =>
      refine h.of_eq (q := s.shared.pool.toTaskQueue) rfl rfl rfl rfl rfl rfl ?_
      intro hshutdown
      rw [show s.shared.pool.shutdown = false from hok] at hshutdown
      cases hshutdown
  | @manager _ started sh l n _ hstmt hwoken =>
      obtain ⟨halone, hshutdown⟩ := h.alone.adjustStmt hstmt
      have hset : ShutdownInv (s.setManager started sh l) := by
        refine ⟨halone, ?_, h.detached, ?_, ?_⟩
        · rcases h.destroyer with hearly | ⟨-, -, hended, -⟩
          · exact Or.inl hearly
          · simp only [adjustStmt, hended, reduceCtorEq] at hstmt
        · intro hpc
          show sh.pool.shutdown = true
          rw [hshutdown]
          exact h.called hpc
        · intro hshut
          change sh.pool.shutdown = true at hshut
          rw [hshutdown] at hshut
          exact h.idle hshut
      exact hset.woken hwoken
  | destroyer hstmt => exact h.destroyStmt hok hstmt
  | wake hwoken => exact h.woken hwoken

/-- **Without workers the pool is left clean.** -/
theorem clean_of_noWorkers {minThrNum maxThrNum : ℤ} {queueMaxSize : ℕ} {junk : ℕ → Task F A}
    {locals : ℕ → Task F A} {calls : P → Task F A} (hmin : minThrNum ≤ 0) {s : System P F A}
    (hreach : Reach systemStep AddsOver
      (systemStart minThrNum maxThrNum queueMaxSize junk locals calls) s)
    (hfree : AtFree s) : Clean s := by
  have h : ShutdownInv s :=
    hreach.invariant (shutdownInv_start hmin) (fun _ _ _ h hok hs => h.step hok hs)
  have hpc : s.destroyer.pc = DestroyPc.freeQueue := hfree
  have hcalled : s.shared.pool.shutdown = true := h.called (by rw [hpc]; decide)
  rcases h.destroyer with ⟨hearly, -⟩ | ⟨-, -, hended, hjoined⟩
  · rw [hpc] at hearly
    cases hearly
  · refine ⟨?_, hended, h.idle hcalled, ?_, ?_⟩
    · intro w hw
      rw [h.alone.started] at hw
      exact absurd hw (Nat.not_lt_zero w)
    · rw [hjoined]
      exact List.nodup_singleton _
    · intro t _
      rw [h.detached]
      exact List.not_mem_nil

/-! ## With workers, or with a call under way -/

/-- **A shutdown that no other thread takes part in.**  The manager returns, and the
destroying thread goes on to `threadpool_free`. -/
theorem exists_atFree (ok : System P F A → SystemMove P F A → Prop) {s : System P F A}
    (hmanager : s.manager.pc = AdjustPc.loopTest) (hdes : s.destroyer.pc = DestroyPc.setShutdown)
    (hlive : s.shared.pool.liveThrNum = 0) (hset : ok s .destroyer)
    (hok : ∀ s₁, s₁.destroyer.pc ≠ DestroyPc.setShutdown →
      ok s₁ .destroyer ∧ ok s₁ (.manager none)) :
    ∃ s', Reach systemStep ok s s' ∧ AtFree s' ∧ s'.started = s.started ∧
      s'.worker = s.worker ∧ s'.producer = s.producer := by
  -- 348, then 170 and 220 of the manager, then 351, 352, 358
  have h₁ : systemStep .destroyer s = some { s with
      shared := { s.shared with pool := { s.shared.pool with shutdown := true } }
      destroyer := s.destroyer.goto .joinManager } := by
    simp only [systemStep, System.destroyStmt, hdes]
  generalize hs₁ : ({ s with
      shared := { s.shared with pool := { s.shared.pool with shutdown := true } }
      destroyer := s.destroyer.goto .joinManager } : System P F A) = s₁ at h₁
  have hdes₁ : s₁.destroyer.pc = DestroyPc.joinManager := by rw [← hs₁]; rfl
  have hmanager₁ : s₁.manager.pc = AdjustPc.loopTest := by rw [← hs₁]; exact hmanager
  have hshutdown₁ : s₁.shared.pool.shutdown = true := by rw [← hs₁]
  have hlive₁ : s₁.shared.pool.liveThrNum = 0 := by rw [← hs₁]; exact hlive
  have h₂ : systemStep (.manager none) s₁
      = some (s₁.setManager s₁.started s₁.shared (s₁.manager.goto .ret)) := by
    simp [systemStep, adjustStmt, hmanager₁, hshutdown₁, System.deliver]
  have h₃ : systemStep (.manager none) (s₁.setManager s₁.started s₁.shared (s₁.manager.goto .ret))
      = some (s₁.setManager s₁.started s₁.shared (s₁.manager.goto .ended)) := by
    rfl
  generalize hs₂ : s₁.setManager s₁.started s₁.shared (s₁.manager.goto .ret) = s₂ at h₂ h₃
  have hdes₂ : s₂.destroyer.pc = DestroyPc.joinManager := by rw [← hs₂]; exact hdes₁
  generalize hs₃ : s₁.setManager s₁.started s₁.shared (s₁.manager.goto .ended) = s₃ at h₃
  have hdes₃ : s₃.destroyer.pc = DestroyPc.joinManager := by rw [← hs₃]; exact hdes₁
  have hmanager₃ : s₃.manager.pc = AdjustPc.ended := by rw [← hs₃]; rfl
  have hlive₃ : s₃.shared.pool.liveThrNum = 0 := by rw [← hs₃]; exact hlive₁
  have h₄ : systemStep .destroyer s₃ = some { s₃ with
      destroyer := ⟨DestroyPc.broadcastTest, 0⟩
      joined := s₃.joined ++ [PoolThread.manager] } := by
    simp only [systemStep, System.destroyStmt, hdes₃, hmanager₃, if_true]
  have h₅ : systemStep .destroyer { s₃ with
        destroyer := ⟨DestroyPc.broadcastTest, 0⟩
        joined := s₃.joined ++ [PoolThread.manager] }
      = some { s₃ with
        destroyer := ⟨DestroyPc.joinTest, 0⟩
        joined := s₃.joined ++ [PoolThread.manager] } := by
    simp [systemStep, System.destroyStmt, hlive₃]
  have h₆ : systemStep .destroyer { s₃ with
        destroyer := ⟨DestroyPc.joinTest, 0⟩
        joined := s₃.joined ++ [PoolThread.manager] }
      = some { s₃ with
        destroyer := ⟨DestroyPc.freeQueue, 0⟩
        joined := s₃.joined ++ [PoolThread.manager] } := by
    simp [systemStep, System.destroyStmt, hlive₃, System.destroyGoto, Destroyer.goto]
  have hne : ∀ s' : System P F A, ∀ pc, s'.destroyer.pc = pc → pc ≠ DestroyPc.setShutdown →
      ok s' .destroyer ∧ ok s' (.manager none) := by
    intro s' pc hpc hne
    exact hok s' (by rw [hpc]; exact hne)
  have hr₁ : Reach systemStep ok s s₁ := Reach.single hset h₁
  have hr₂ := Reach.next hr₁ (hne _ _ hdes₁ (by decide)).2 h₂
  have hr₃ := Reach.next hr₂ (hne _ _ hdes₂ (by decide)).2 h₃
  have hr₄ := Reach.next hr₃ (hne _ _ hdes₃ (by decide)).1 h₄
  have hr₅ := Reach.next hr₄ (hne _ DestroyPc.broadcastTest rfl (by decide)).1 h₅
  have hr₆ := Reach.next hr₅ (hne _ DestroyPc.joinTest rfl (by decide)).1 h₆
  refine ⟨_, hr₆, rfl, ?_, ?_, ?_⟩
  all_goals rw [← hs₃, ← hs₁]; rfl

omit [DecidableEq P] in
/-- A worker that has not left its loop. -/
theorem not_clean_of_running {s : System P F A} (hstarted : 0 < s.started)
    (hrunning : (s.worker 0).exit = ExitPc.running) : ¬ Clean s := by
  intro hclean
  have hended := hclean.workers 0 hstarted
  rw [hrunning] at hended
  cases hended

/-- If workers are started, a run leaves the pool to them. -/
theorem exists_atFree_not_clean {minThrNum : ℤ} (maxThrNum : ℤ) (queueMaxSize : ℕ)
    (junk : ℕ → Task F A) (locals : ℕ → Task F A) (calls : P → Task F A) (hmin : 0 < minThrNum) :
    ∃ s, Reach systemStep AddsOver
      (systemStart minThrNum maxThrNum queueMaxSize junk locals calls) s ∧ AtFree s ∧ ¬ Clean s := by
  obtain ⟨s, hreach, hfree, hstarted, hworker, -⟩ := exists_atFree AddsOver
    (s := systemStart minThrNum maxThrNum queueMaxSize junk locals calls) rfl rfl rfl
    (fun _ _ => rfl) (fun s₁ hne => ⟨fun hpc => absurd hpc hne, trivial⟩)
  refine ⟨s, hreach, hfree, not_clean_of_running ?_ ?_⟩
  · rw [hstarted]
    exact Int.lt_toNat.mpr hmin
  · rw [hworker]
    rfl

/-- If a producer exists, a run leaves the pool to it. -/
theorem exists_atFree_producer (minThrNum maxThrNum : ℤ) (queueMaxSize : ℕ)
    (junk : ℕ → Task F A) (locals : ℕ → Task F A) (calls : P → Task F A) (p : P) :
    ∃ s, Reachable systemStep
      (systemStart minThrNum maxThrNum queueMaxSize junk locals calls) s ∧ AtFree s ∧ ¬ Clean s := by
  obtain ⟨s₀, hs₀⟩ : ∃ s₀,
      s₀ = systemStart minThrNum maxThrNum queueMaxSize junk locals calls := ⟨_, rfl⟩
  have hidle : (s₀.producer p).pc = .idle := by rw [hs₀]; rfl
  have hcall : systemStep (.call p (calls p).function (calls p).arg) s₀
      = some (s₀.setProducer p s₀.shared ⟨.lock, calls p⟩) := by
    simp only [systemStep, hidle, if_true]
  obtain ⟨s, hreach, hfree, -, -, hproducer⟩ := exists_atFree (fun _ _ => True)
    (s := s₀.setProducer p s₀.shared ⟨.lock, calls p⟩) (by rw [hs₀]; rfl) (by rw [hs₀]; rfl)
    (by rw [hs₀]; rfl) trivial (fun _ _ => ⟨trivial, trivial⟩)
  refine ⟨s, ?_, hfree, ?_⟩
  · rw [← hs₀]
    exact (Reach.single trivial hcall).trans hreach
  · intro hclean
    have hidle := hclean.producers p
    rw [hproducer] at hidle
    change (Function.update s₀.producer p ⟨.lock, calls p⟩ p).pc = .idle at hidle
    rw [Function.update_self] at hidle
    cases hidle

/-- **Shutting the pool down.**  Every run leaves the pool clean exactly if no worker is
started, as far as no call of `threadpool_add` overlaps the shutdown.  If calls may overlap
it, there must moreover be no thread that calls `threadpool_add`. -/
theorem clean_iff_noWorkers (minThrNum maxThrNum : ℤ) (queueMaxSize : ℕ)
    (junk : ℕ → Task F A) (locals : ℕ → Task F A) (calls : P → Task F A) :
    ((∀ s, Reach systemStep AddsOver
        (systemStart minThrNum maxThrNum queueMaxSize junk locals calls) s → AtFree s → Clean s) ↔
      minThrNum ≤ 0) ∧
    ((∀ s, Reachable systemStep
        (systemStart minThrNum maxThrNum queueMaxSize junk locals calls) s → AtFree s → Clean s) ↔
      minThrNum ≤ 0 ∧ IsEmpty P) := by
  have hworkers : (∀ s, Reach systemStep AddsOver
      (systemStart minThrNum maxThrNum queueMaxSize junk locals calls) s → AtFree s → Clean s) →
      minThrNum ≤ 0 := by
    intro hall
    by_contra hmin
    obtain ⟨s, hreach, hfree, hnot⟩ :=
      exists_atFree_not_clean maxThrNum queueMaxSize junk locals calls (not_le.mp hmin)
    exact hnot (hall s hreach hfree)
  constructor
  · exact ⟨hworkers, fun hmin s hreach hfree => clean_of_noWorkers hmin hreach hfree⟩
  · constructor
    · intro hall
      refine ⟨hworkers (fun s hreach => hall s (hreach.weaken (fun _ _ _ => trivial))), ⟨?_⟩⟩
      intro p
      obtain ⟨s, hreach, hfree, hnot⟩ :=
        exists_atFree_producer minThrNum maxThrNum queueMaxSize junk locals calls p
      exact hnot (hall s hreach hfree)
    · rintro ⟨hmin, hempty⟩ s hreach hfree
      refine clean_of_noWorkers hmin (hreach.weaken ?_) hfree
      intro s₁ m _
      cases m with
      | call p _ _ => exact hempty.elim p
      | destroyer => exact fun _ p => hempty.elim p
      | _ => trivial

end Steps

/-- The pool of `main` is freed while its three workers are about to run. -/
theorem freed_under_workers :
    ∃ s, Reach systemStep AddsOver mainPool s ∧ AtFree s ∧ ¬ Clean s :=
  exists_atFree_not_clean 100 100 _ _ _ (by decide)

end ThreadPool
