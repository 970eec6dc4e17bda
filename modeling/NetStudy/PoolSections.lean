/-
# The thread pool, one critical section at a time (`threadpool/main.c`)

Here every critical section is one atomic step: a worker's pass from the test of
line 95, or from its return from `pthread_cond_wait`, to its next wait, its exit
or the unlock of line 137; `threadpool_add` from its lock to its unlock or wait;
each locked section and each signal of `adjust_thread`.  Workers are started
during the run, so they are a list; a slot of `threads` holds the id of the
worker it was last used for, which is the worker's position in the list plus one.
-/
import NetStudy.Transition
import NetStudy.Pool

namespace ThreadPool

/-- `MIN_WAIT_TSK_NUM`. -/
def minWaitTskNum : ℤ := 10

/-- `DEFAULT_THREAD_VARY`. -/
def defaultThreadVary : ℕ := 10

variable {P F A : Type*}

/-- Where a worker is between two of its sections. -/
inductive WorkerPhase (F A : Type*)
  /-- About to test line 95. -/
  | ready
  /-- Blocked in `pthread_cond_wait`, no wake-up delivered. -/
  | waiting
  /-- A wake-up is delivered; about to return from `pthread_cond_wait`. -/
  | woken
  /-- Past line 137, not yet counted as busy. -/
  | taken (task : Task F A)
  /-- Counted as busy, executing its task. -/
  | working (task : Task F A)
  /-- At line 109 or 118, or ended. -/
  | gone

/-- The worker is blocked and nobody has woken it. -/
def WorkerPhase.isWaiting : WorkerPhase F A → Bool
  | .waiting => true
  | _ => false

/-- The worker does not come back to the queue. -/
def WorkerPhase.isGone : WorkerPhase F A → Bool
  | .gone => true
  | _ => false

/-- The worker will make another pass without having to be woken. -/
def WorkerPhase.isAwake (w : WorkerPhase F A) : Bool := !w.isWaiting && !w.isGone

/-- Where a producer is between two sections of `threadpool_add`. -/
inductive AddPhase (F A : Type*)
  | idle
  | waiting (task : Task F A)
  | woken (task : Task F A)

/-- A broadcast on `queue_not_full` reaches a blocked producer. -/
def AddPhase.wake : AddPhase F A → AddPhase F A
  | .waiting task => .woken task
  | a => a

/-- The next section of `adjust_thread`, with the values it has read so far. -/
inductive AdjustPhase
  /-- 170: the test of `shutdown`. -/
  | loopTest
  /-- 174-177: `queue_size` and `live_thr_num` are read. -/
  | readSizes
  /-- 179-181: `busy_thr_num` is read. -/
  | readBusy (queueSize liveThrNum : ℤ)
  /-- 186-200: workers are started. -/
  | grow (liveThrNum busyThrNum : ℤ)
  /-- 208-210: `wait_exit_thr_num` is set. -/
  | shrink
  /-- 214: so many signals are still to be sent. -/
  | signals (left : ℕ)
  | ended

/-- The pool, its workers, the producers and the manager. -/
structure SectionState (P F A : Type*) where
  pool : Pool F A
  workers : List (WorkerPhase F A)
  producer : P → AddPhase F A
  manager : AdjustPhase

/-! ## Signals -/

/-- A signal on `queue_not_empty` wakes one blocked worker, the one it names, and
has no effect if none is blocked. -/
def signalNotEmpty (woken : Option ℕ) (ws : List (WorkerPhase F A)) :
    Option (List (WorkerPhase F A)) :=
  match woken with
  | some w => if (ws[w]?).any WorkerPhase.isWaiting then some (ws.set w .woken) else none
  | none => if ws.any WorkerPhase.isWaiting then none else some ws

/-- A broadcast on `queue_not_empty` reaches a blocked worker. -/
def WorkerPhase.wake : WorkerPhase F A → WorkerPhase F A
  | .waiting => .woken
  | w => w

/-! ## The sections of a worker -/

/-- The phase of one worker changes. -/
def SectionState.setWorker (s : SectionState P F A) (w : ℕ) (phase : WorkerPhase F A) :
    SectionState P F A :=
  { s with workers := s.workers.set w phase }

/-- Lines 95-137 from the loop test on: wait, leave at shutdown, or take a task
and broadcast on `queue_not_full`. -/
def passFromTest (s : SectionState P F A) (w : ℕ) : SectionState P F A :=
  if s.pool.queueSize = 0 ∧ s.pool.shutdown = false then s.setWorker w .waiting
  else if s.pool.shutdown then s.setWorker w .gone
  else
    { s.setWorker w (.taken s.pool.take.1) with
      pool := { s.pool with toTaskQueue := s.pool.take.2 }
      producer := fun p => (s.producer p).wake }

/-- Line 102: `wait_exit_thr_num--`. -/
def SectionState.decWaitExit (s : SectionState P F A) : SectionState P F A :=
  { s with pool := { s.pool with waitExitThrNum := s.pool.waitExitThrNum - 1 } }

/-- Lines 108-109: the worker retires. -/
def SectionState.retire (s : SectionState P F A) (w : ℕ) : SectionState P F A :=
  { s.setWorker w .gone with pool := { s.pool with liveThrNum := s.pool.liveThrNum - 1 } }

/-- Lines 100-137 after the return from `pthread_cond_wait`: retire if workers
are to be removed and enough are alive, else go on with the loop test. -/
def passFromWait (s : SectionState P F A) (w : ℕ) : SectionState P F A :=
  if 0 < s.pool.waitExitThrNum then
    if s.pool.minThrNum < s.pool.liveThrNum then s.decWaitExit.retire w
    else passFromTest s.decWaitExit w
  else passFromTest s w

/-! ## `threadpool_add` -/

/-- Lines 295-326: wait if the queue is full, return at shutdown after a
broadcast on `queue_not_empty`, or store the task and signal. -/
def addSection [DecidableEq P] (s : SectionState P F A) (p : P) (task : Task F A)
    (woken : Option ℕ) : Option (SectionState P F A) :=
  if s.pool.queueSize = s.pool.queueMaxSize ∧ s.pool.shutdown = false then
    some { s with producer := Function.update s.producer p (.waiting task) }
  else if s.pool.shutdown then
    some { s with
      workers := s.workers.map WorkerPhase.wake
      producer := Function.update s.producer p .idle }
  else
    (signalNotEmpty woken s.workers).map fun ws =>
      { s with
        pool := { s.pool with toTaskQueue := s.pool.store task.function task.arg }
        workers := ws
        producer := Function.update s.producer p .idle }

/-! ## `adjust_thread` -/

/-- Lines 189-199: the loop over the slots that remain, after `add` starts.  A
slot is used if it is not zero. -/
def growLoop : List ℕ → ℕ → Pool F A → List (WorkerPhase F A) →
    Pool F A × List (WorkerPhase F A)
  | [], _, pool, ws => (pool, ws)
  | i :: is, add, pool, ws =>
      if add < defaultThreadVary ∧ pool.liveThrNum < pool.maxThrNum then
        if pool.threads i ≠ 0 then
          growLoop is (add + 1)
            { pool with
              threads := Function.update pool.threads i (ws.length + 1)
              liveThrNum := pool.liveThrNum + 1 }
            (ws ++ [.ready])
        else growLoop is add pool ws
      else (pool, ws)

/-- Line 205, on the values read: shrink, or start the next round. -/
def afterGrow (pool : Pool F A) (liveThrNum busyThrNum : ℤ) : AdjustPhase :=
  if busyThrNum * 2 < liveThrNum ∧ pool.minThrNum < liveThrNum then .shrink else .loopTest

/-- The next section or signal of the manager. -/
def adjustSection (s : SectionState P F A) (woken : Option ℕ) : Option (SectionState P F A) :=
  match s.manager with
  | .loopTest => some { s with manager := if s.pool.shutdown then .ended else .readSizes }
  | .readSizes => some { s with manager := .readBusy s.pool.queueSize s.pool.liveThrNum }
  | .readBusy queueSize liveThrNum =>
      some { s with
        manager :=
          if minWaitTskNum ≤ queueSize ∧ liveThrNum < s.pool.maxThrNum then
            .grow liveThrNum s.pool.busyThrNum
          else afterGrow s.pool liveThrNum s.pool.busyThrNum }
  | .grow liveThrNum busyThrNum =>
      let (pool, ws) := growLoop (List.range s.pool.maxThrNum.toNat) 0 s.pool s.workers
      some { s with
        pool := pool
        workers := ws
        manager := afterGrow s.pool liveThrNum busyThrNum }
  | .shrink =>
      some { s with
        pool := { s.pool with waitExitThrNum := defaultThreadVary }
        manager := .signals defaultThreadVary }
  | .signals 0 => some { s with manager := .loopTest }
  | .signals (left + 1) =>
      (signalNotEmpty woken s.workers).map fun ws =>
        { s with workers := ws, manager := .signals left }
  | .ended => none

/-! ## The system -/

/-- The labels.  Those of steps that signal carry the worker that is woken. -/
inductive SectionMove (P F A : Type*)
  /-- A worker's pass, from line 95 or from its return from the wait. -/
  | pass (w : ℕ)
  /-- 142-145: `busy_thr_num++`. -/
  | startTask (w : ℕ)
  /-- 148-154: the task is completed, `busy_thr_num--`. -/
  | endTask (w : ℕ)
  /-- `threadpool_add` is called. -/
  | add (p : P) (task : Task F A) (woken : Option ℕ)
  /-- A producer returns from `pthread_cond_wait`. -/
  | resumeAdd (p : P) (woken : Option ℕ)
  /-- The manager's next section or signal. -/
  | adjust (woken : Option ℕ)
  /-- A spurious wake-up of a worker. -/
  | wakeWorker (w : ℕ)
  /-- A spurious wake-up of a producer. -/
  | wakeProducer (p : P)
  /-- 348: `shutdown` is set. -/
  | shutdown

/-- One step of the system. -/
def sectionStep [DecidableEq P] :
    SectionMove P F A → SectionState P F A → Option (SectionState P F A)
  | .pass w, s =>
      match s.workers[w]? with
      | some .ready => some (passFromTest s w)
      | some .woken => some (passFromWait s w)
      | _ => none
  | .startTask w, s =>
      match s.workers[w]? with
      | some (.taken task) =>
          some { s.setWorker w (.working task) with
            pool := { s.pool with busyThrNum := s.pool.busyThrNum + 1 } }
      | _ => none
  | .endTask w, s =>
      match s.workers[w]? with
      | some (.working _) =>
          some { s.setWorker w .ready with
            pool := { s.pool with busyThrNum := s.pool.busyThrNum - 1 } }
      | _ => none
  | .add p task woken, s =>
      match s.producer p with
      | .idle => addSection s p task woken
      | _ => none
  | .resumeAdd p woken, s =>
      match s.producer p with
      | .woken task => addSection s p task woken
      | _ => none
  | .adjust woken, s => adjustSection s woken
  | .wakeWorker w, s => (signalNotEmpty (some w) s.workers).map fun ws => { s with workers := ws }
  | .wakeProducer p, s =>
      match s.producer p with
      | .waiting task => some { s with producer := Function.update s.producer p (.woken task) }
      | _ => none
  | .shutdown, s => some { s with pool := { s.pool with shutdown := true } }

/-- The pool as `threadpool_create` leaves it, with its `min_thr_num` workers. -/
def sectionStart (minThrNum : ℕ) (maxThrNum : ℤ) (queueMaxSize : ℕ) (junk : ℕ → Task F A) :
    SectionState P F A where
  pool := threadpoolCreate minThrNum maxThrNum queueMaxSize junk
  workers := List.replicate minThrNum .ready
  producer := fun _ => .idle
  manager := .loopTest

end ThreadPool
