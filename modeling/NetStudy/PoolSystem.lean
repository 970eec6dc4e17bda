/-
# The whole pool, one statement at a time (`threadpool/main.c`)

The workers and the producers of `PoolThreads`, together with the manager, which starts
further workers, and the thread that calls `treadpool_destory`.  Every statement on the
pool is one step, from the return of `threadpool_create` on.

* A worker that leaves its loop goes on to `pthread_detach` and `pthread_exit`.
* Worker `w` is the thread number `w + 1`, and only the first `started` of them exist.
  `threads` holds their numbers; a slot is overwritten when it is used again.
* `pthread_join` returns once its thread has ended.
* What a thread does with a pool that has been freed is not defined.  The laws speak of the
  states up to there, and `free` and the destroying of a mutex change nothing here.
-/
import NetStudy.PoolThreads
import NetStudy.PoolSections

namespace ThreadPool

open Transition

/-- The threads. -/
inductive PoolThread (P : Type*)
  | worker (w : ℕ)
  | producer (p : P)
  | manager
  | destroyer
  deriving DecidableEq

variable {T F A P : Type*}

/-! ## The end of a worker -/

/-- What a worker that has left its loop executes next. -/
inductive ExitPc
  /-- Still in the loop. -/
  | running
  /-- 111: `pthread_exit`. -/
  | retireExit
  /-- 120: `pthread_detach`. -/
  | detach
  /-- 121: `pthread_exit`. -/
  | exit
  /-- The thread has ended. -/
  | ended
  deriving DecidableEq

/-- A worker with its way out. -/
structure PoolWorker (F A : Type*) where
  body : Worker F A
  exit : ExitPc

/-- Where the lock of line 109 or of line 118 leads. -/
def WorkerPc.leave : WorkerPc → ExitPc
  | .retireLock => ExitPc.retireExit
  | .shutdownLock => ExitPc.detach
  | _ => ExitPc.running

/-- A wake-up delivered to a worker. -/
def PoolWorker.wake (l : PoolWorker F A) : PoolWorker F A := { l with body := l.body.wake }

/-- The next statement of a worker. -/
def poolWorkerStmt (me : T) (sh : Shared T F A) (l : PoolWorker F A) :
    Option (Shared T F A × PoolWorker F A × Notify) :=
  match l.exit with
  | .running =>
      (workerStmt me sh l.body).map (fun r => (r.1, ⟨r.2.1, l.body.pc.leave⟩, r.2.2))
  | .detach => some (sh, { l with exit := ExitPc.exit }, Notify.nobody)
  | .retireExit | .exit => some (sh, { l with exit := ExitPc.ended }, Notify.nobody)
  | .ended => none

/-- A statement of a worker is one of its loop, or leaves the pool alone. -/
theorem poolWorkerStmt_cases {me : T} {sh sh' : Shared T F A} {l l' : PoolWorker F A} {n : Notify}
    (h : poolWorkerStmt me sh l = some (sh', l', n)) :
    (workerStmt me sh l.body = some (sh', l'.body, n) ∧ l'.exit = l.body.pc.leave) ∨
      (l.exit ≠ ExitPc.running ∧ sh' = sh ∧ l'.body = l.body) := by
  obtain ⟨body, out⟩ := l
  cases out with
  | running =>
      obtain ⟨⟨sh₁, l₁, n₁⟩, hstmt, heq⟩ := Option.map_eq_some_iff.mp h
      cases heq
      exact Or.inl ⟨hstmt, rfl⟩
  | ended => cases h
  | retireExit | detach | exit =>
      cases h
      exact Or.inr ⟨ExitPc.noConfusion, rfl, rfl⟩

/-! ## `adjust_thread` -/

/-- The statement the manager executes next, with its line. -/
inductive AdjustPc
  /-- 170: the test of `shutdown`. -/
  | loopTest
  /-- 174: the lock. -/
  | sizesLock
  /-- 175: `queue_size` is read. -/
  | readSize
  /-- 176: `live_thr_num` is read. -/
  | readLive
  /-- 177: the unlock. -/
  | sizesUnlock
  /-- 179: the lock of `thread_counter`. -/
  | busyLock
  /-- 180: `busy_thr_num` is read. -/
  | readBusy
  /-- 181: the unlock of `thread_counter`. -/
  | busyUnlock
  /-- 184: whether to start workers. -/
  | growCheck
  /-- 186: the lock. -/
  | growLock
  /-- 189: the loop test. -/
  | growTest
  /-- 193: the test of the slot. -/
  | slotTest
  /-- 195: `pthread_create`. -/
  | create
  /-- 196: `add++`. -/
  | incAdd
  /-- 197: `live_thr_num++`. -/
  | incLive
  /-- 200: the unlock. -/
  | growUnlock
  /-- 205: whether to end workers. -/
  | shrinkCheck
  /-- 208: the lock. -/
  | shrinkLock
  /-- 209: `wait_exit_thr_num` is set. -/
  | setWaitExit
  /-- 210: the unlock. -/
  | shrinkUnlock
  /-- 212, 214: the signals. -/
  | signals
  /-- 220: the return. -/
  | ret
  /-- The thread has ended. -/
  | ended
  deriving DecidableEq

/-- The manager: its program counter and its local variables. -/
structure Adjuster where
  pc : AdjustPc
  queueSize : ℤ
  liveThrNum : ℤ
  busyThrNum : ℤ
  i : ℕ
  add : ℕ

/-- The next statement of the manager moves the program counter only. -/
def Adjuster.goto (l : Adjuster) (pc : AdjustPc) : Adjuster := { l with pc := pc }

/-- The next statement of the manager `me`, with the number of workers started so far. -/
def adjustStmt (me : T) (started : ℕ) (sh : Shared T F A) (l : Adjuster) :
    Option (ℕ × Shared T F A × Adjuster × Notify) :=
  match l.pc with
  | .loopTest =>
      if sh.pool.shutdown then some (started, sh, l.goto .ret, .nobody)
      else some (started, sh, l.goto .sizesLock, .nobody)
  | .sizesLock =>
      if sh.lock = none then some (started, { sh with lock := some me }, l.goto .readSize, .nobody)
      else none
  | .readSize =>
      some (started, sh, { l with pc := .readLive, queueSize := sh.pool.queueSize }, .nobody)
  | .readLive =>
      some (started, sh, { l with pc := .sizesUnlock, liveThrNum := sh.pool.liveThrNum }, .nobody)
  | .sizesUnlock => some (started, { sh with lock := none }, l.goto .busyLock, .nobody)
  | .busyLock =>
      if sh.threadCounter = none then
        some (started, { sh with threadCounter := some me }, l.goto .readBusy, .nobody)
      else none
  | .readBusy =>
      some (started, sh, { l with pc := .busyUnlock, busyThrNum := sh.pool.busyThrNum }, .nobody)
  | .busyUnlock => some (started, { sh with threadCounter := none }, l.goto .growCheck, .nobody)
  | .growCheck =>
      if minWaitTskNum ≤ l.queueSize ∧ l.liveThrNum < sh.pool.maxThrNum then
        some (started, sh, l.goto .growLock, .nobody)
      else some (started, sh, l.goto .shrinkCheck, .nobody)
  | .growLock =>
      if sh.lock = none then
        some (started, { sh with lock := some me }, { l with pc := .growTest, i := 0, add := 0 },
          .nobody)
      else none
  | .growTest =>
      if (l.i : ℤ) < sh.pool.maxThrNum ∧ l.add < defaultThreadVary ∧
          sh.pool.liveThrNum < sh.pool.maxThrNum then
        some (started, sh, l.goto .slotTest, .nobody)
      else some (started, sh, l.goto .growUnlock, .nobody)
  | .slotTest =>
      if sh.pool.threads l.i ≠ 0 then some (started, sh, l.goto .create, .nobody)
      else some (started, sh, { l with pc := .growTest, i := l.i + 1 }, .nobody)
  | .create =>
      some (started + 1,
        { sh with
          pool := { sh.pool with
            threads := Function.update sh.pool.threads l.i (started + 1) } },
        l.goto .incAdd, .nobody)
  | .incAdd => some (started, sh, { l with pc := .incLive, add := l.add + 1 }, .nobody)
  | .incLive =>
      some (started,
        { sh with pool := { sh.pool with liveThrNum := sh.pool.liveThrNum + 1 } },
        { l with pc := .growTest, i := l.i + 1 }, .nobody)
  | .growUnlock => some (started, { sh with lock := none }, l.goto .shrinkCheck, .nobody)
  | .shrinkCheck =>
      if l.busyThrNum * 2 < l.liveThrNum ∧ sh.pool.minThrNum < l.liveThrNum then
        some (started, sh, l.goto .shrinkLock, .nobody)
      else some (started, sh, l.goto .loopTest, .nobody)
  | .shrinkLock =>
      if sh.lock = none then
        some (started, { sh with lock := some me }, l.goto .setWaitExit, .nobody)
      else none
  | .setWaitExit =>
      some (started,
        { sh with pool := { sh.pool with waitExitThrNum := defaultThreadVary } },
        l.goto .shrinkUnlock, .nobody)
  | .shrinkUnlock =>
      some (started, { sh with lock := none }, { l with pc := .signals, i := 0 }, .nobody)
  | .signals =>
      if l.i < defaultThreadVary then some (started, sh, { l with i := l.i + 1 }, .signalNotEmpty)
      else some (started, sh, l.goto .loopTest, .nobody)
  | .ret => some (started, sh, l.goto .ended, .nobody)
  | .ended => none

/-! ## `treadpool_destory` and `threadpool_free` -/

/-- The statement the destroying thread executes next, with its line. -/
inductive DestroyPc
  /-- 348: `shutdown` is set.  Until then the function may not have been called. -/
  | setShutdown
  /-- 351: the manager is joined. -/
  | joinManager
  /-- 352: the test of the first loop. -/
  | broadcastTest
  /-- 355: the broadcast. -/
  | broadcast
  /-- 358: the test of the second loop. -/
  | joinTest
  /-- 360: a worker is joined. -/
  | join
  /-- 68: `threadpool_free` is called and frees `task_queue`. -/
  | freeQueue
  /-- 73: `threads` is freed. -/
  | freeThreads
  /-- 74: the lock. -/
  | lock
  /-- 75: it is destroyed. -/
  | destroyLock
  /-- 76: the lock of `thread_counter`. -/
  | counterLock
  /-- 77: it is destroyed. -/
  | destroyCounter
  /-- 78-81: the condition variables are destroyed, and the pool is freed. -/
  | freePool
  /-- 364: the return. -/
  | returned
  deriving DecidableEq

/-- The destroying thread: its program counter and its local `i`. -/
structure Destroyer where
  pc : DestroyPc
  i : ℕ

/-- The next statement moves the program counter only. -/
def Destroyer.goto (l : Destroyer) (pc : DestroyPc) : Destroyer := { l with pc := pc }

/-- The pool, the workers of which the first `started` exist, the other threads, and the
threads that have been joined and detached. -/
structure System (P F A : Type*) where
  shared : Shared (PoolThread P) F A
  started : ℕ
  worker : ℕ → PoolWorker F A
  producer : P → Producer F A
  manager : Adjuster
  destroyer : Destroyer
  joined : List (PoolThread P)
  detached : List (PoolThread P)

/-- A statement of the destroying thread that only goes on. -/
def System.destroyGoto (s : System P F A) (pc : DestroyPc) : System P F A :=
  { s with destroyer := s.destroyer.goto pc }

/-- Line 360.  The number in the slot is that of a worker, which has ended. -/
def System.joinWorker (s : System P F A) : Option (System P F A) :=
  match s.shared.pool.threads s.destroyer.i with
  | 0 => none
  | w + 1 =>
      if w < s.started ∧ (s.worker w).exit = ExitPc.ended then
        some { s with
          destroyer := ⟨DestroyPc.joinTest, s.destroyer.i + 1⟩
          joined := s.joined ++ [PoolThread.worker w] }
      else none

/-- The next statement of the destroying thread. -/
def System.destroyStmt (s : System P F A) : Option (System P F A) :=
  match s.destroyer.pc with
  | .setShutdown =>
      some { s with
        shared := { s.shared with pool := { s.shared.pool with shutdown := true } }
        destroyer := s.destroyer.goto .joinManager }
  | .joinManager =>
      if s.manager.pc = AdjustPc.ended then
        some { s with
          destroyer := ⟨DestroyPc.broadcastTest, 0⟩
          joined := s.joined ++ [PoolThread.manager] }
      else none
  | .broadcastTest =>
      if (s.destroyer.i : ℤ) < s.shared.pool.liveThrNum then some (s.destroyGoto .broadcast)
      else some { s with destroyer := ⟨DestroyPc.joinTest, 0⟩ }
  | .broadcast =>
      some { s with
        worker := fun w => (s.worker w).wake
        destroyer := ⟨DestroyPc.broadcastTest, s.destroyer.i + 1⟩ }
  | .joinTest =>
      if (s.destroyer.i : ℤ) < s.shared.pool.liveThrNum then some (s.destroyGoto .join)
      else some (s.destroyGoto .freeQueue)
  | .join => s.joinWorker
  | .freeQueue => some (s.destroyGoto .freeThreads)
  | .freeThreads => some (s.destroyGoto .lock)
  | .lock =>
      if s.shared.lock = none then
        some { s with
          shared := { s.shared with lock := some PoolThread.destroyer }
          destroyer := s.destroyer.goto .destroyLock }
      else none
  | .destroyLock => some (s.destroyGoto .counterLock)
  | .counterLock =>
      if s.shared.threadCounter = none then
        some { s with
          shared := { s.shared with threadCounter := some PoolThread.destroyer }
          destroyer := s.destroyer.goto .destroyCounter }
      else none
  | .destroyCounter => some (s.destroyGoto .freePool)
  | .freePool => some (s.destroyGoto .returned)
  | .returned => none

/-- What a statement of the destroying thread leaves: the pool but for `shutdown`, and the
other threads but for wake-ups. -/
structure System.DestroyKept (s s' : System P F A) : Prop where
  pool : s'.shared.pool = { s.shared.pool with shutdown := s'.shared.pool.shutdown }
  shutdown : s'.shared.pool.shutdown = false → s.shared.pool.shutdown = false
  started : s'.started = s.started
  manager : s'.manager = s.manager
  worker : ∀ w, s'.worker w = s.worker w ∨ s'.worker w = (s.worker w).wake

theorem System.destroyStmt_kept {s s' : System P F A} (h : s.destroyStmt = some s') :
    s.DestroyKept s' := by
  unfold System.destroyStmt at h
  cases hpc : s.destroyer.pc with
  | setShutdown =>
      simp only [hpc] at h
      cases h
      exact ⟨rfl, Bool.noConfusion, rfl, rfl, fun _ => Or.inl rfl⟩
  | broadcast =>
      simp only [hpc] at h
      cases h
      exact ⟨rfl, id, rfl, rfl, fun _ => Or.inr rfl⟩
  | join =>
      simp only [hpc] at h
      unfold System.joinWorker at h
      split at h
      · cases h
      · split_ifs at h
        cases h
        exact ⟨rfl, id, rfl, rfl, fun _ => Or.inl rfl⟩
  | _ =>
      simp only [hpc] at h
      (try split_ifs at h) <;> (try cases h) <;> exact ⟨rfl, id, rfl, rfl, fun _ => Or.inl rfl⟩

/-! ## The system -/

/-- The steps: the next statement of a thread (for a producer and the manager with the worker
that a signal of it wakes), a call of `threadpool_add`, a spurious wake-up. -/
inductive SystemMove (P F A : Type*)
  | worker (w : ℕ)
  | producer (p : P) (woken : Option ℕ)
  | call (p : P) (function : F) (arg : Option A)
  | manager (woken : Option ℕ)
  | destroyer
  | wakeWorker (w : ℕ)
  | wakeProducer (p : P)

/-- A worker is woken. -/
def System.wakeWorker (s : System P F A) (w : ℕ) : System P F A :=
  { s with worker := Function.update s.worker w (s.worker w).wake }

/-- A notification reaches the threads blocked on its condition variable.  A signal names
the worker it wakes, and may name none only if none is blocked. -/
def System.deliver (s : System P F A) (n : Notify) (woken : Option ℕ) : Option (System P F A) :=
  match n with
  | .nobody => some s
  | .broadcastNotEmpty => some { s with worker := fun w => (s.worker w).wake }
  | .broadcastNotFull => some { s with producer := fun p => (s.producer p).wake }
  | .signalNotEmpty =>
      match woken with
      | some w => if (s.worker w).body.pc = .blocked then some (s.wakeWorker w) else none
      | none => if ∀ w < s.started, (s.worker w).body.pc ≠ .blocked then some s else none

/-- The statement of a worker, before notifications. -/
def System.setWorker (s : System P F A) (w : ℕ) (sh : Shared (PoolThread P) F A)
    (l : PoolWorker F A) : System P F A :=
  { s with
    shared := sh
    worker := Function.update s.worker w l
    detached :=
      if (s.worker w).exit = ExitPc.detach then s.detached ++ [PoolThread.worker w]
      else s.detached }

/-- A statement of `threadpool_add` changes the queue and the lock at most. -/
theorem addStmt_shared {me : T} {sh sh' : Shared T F A} {l l' : Producer F A} {n : Notify}
    (h : addStmt me sh l = some (sh', l', n)) :
    ∃ q lock, sh' = ⟨{ sh.pool with toTaskQueue := q }, lock, sh.threadCounter⟩ := by
  obtain ⟨pc, task⟩ := l
  cases pc <;> simp only [addStmt] at h <;> (try split_ifs at h) <;> (try cases h) <;>
    exact ⟨_, _, rfl⟩

/-- Some of the blocked threads have been woken. -/
def System.Woken (s s' : System P F A) : Prop :=
  ∃ wk pr, s' = { s with worker := wk, producer := pr } ∧
    (∀ w, wk w = s.worker w ∨ wk w = (s.worker w).wake) ∧
    ∀ p, pr p = s.producer p ∨ pr p = (s.producer p).wake

/-- A spurious wake-up, or a signal. -/
theorem System.woken_wakeWorker (s : System P F A) (w : ℕ) : s.Woken (s.wakeWorker w) := by
  refine ⟨_, s.producer, rfl, ?_, fun _ => Or.inl rfl⟩
  intro v
  by_cases hv : v = w
  · right
    rw [hv, Function.update_self]
  · left
    rw [Function.update_of_ne hv]

/-- A notification wakes workers and producers. -/
theorem System.woken_of_deliver {s s' : System P F A} {n : Notify} {woken : Option ℕ}
    (h : s.deliver n woken = some s') : s.Woken s' := by
  have hrefl : s.Woken s := ⟨_, _, rfl, fun _ => Or.inl rfl, fun _ => Or.inl rfl⟩
  unfold System.deliver at h
  split at h
  · rw [← Option.some.inj h]
    exact hrefl
  · rw [← Option.some.inj h]
    exact ⟨_, s.producer, rfl, fun _ => Or.inr rfl, fun _ => Or.inl rfl⟩
  · rw [← Option.some.inj h]
    exact ⟨s.worker, _, rfl, fun _ => Or.inl rfl, fun _ => Or.inr rfl⟩
  · split at h <;> split_ifs at h
    · rw [← Option.some.inj h]
      exact s.woken_wakeWorker _
    · rw [← Option.some.inj h]
      exact hrefl

variable [DecidableEq P]

/-- The statement of a producer, before notifications. -/
def System.setProducer (s : System P F A) (p : P) (sh : Shared (PoolThread P) F A)
    (l : Producer F A) : System P F A :=
  { s with shared := sh, producer := Function.update s.producer p l }

/-- The statement of the manager, before notifications. -/
def System.setManager (s : System P F A) (started : ℕ) (sh : Shared (PoolThread P) F A)
    (l : Adjuster) : System P F A :=
  { s with shared := sh, started := started, manager := l }

/-- One step of the system. -/
def systemStep : SystemMove P F A → System P F A → Option (System P F A)
  | .worker w, s =>
      if w < s.started then
        (poolWorkerStmt (PoolThread.worker w) s.shared (s.worker w)).bind
          (fun r => (s.setWorker w r.1 r.2.1).deliver r.2.2 none)
      else none
  | .producer p woken, s =>
      (addStmt (PoolThread.producer p) s.shared (s.producer p)).bind
        (fun r => (s.setProducer p r.1 r.2.1).deliver r.2.2 woken)
  | .call p function arg, s =>
      if (s.producer p).pc = .idle then
        some (s.setProducer p s.shared ⟨.lock, ⟨function, arg⟩⟩)
      else none
  | .manager woken, s =>
      (adjustStmt PoolThread.manager s.started s.shared s.manager).bind
        (fun r => (s.setManager r.1 r.2.1 r.2.2.1).deliver r.2.2.2 woken)
  | .destroyer, s => s.destroyStmt
  | .wakeWorker w, s =>
      if (s.worker w).body.pc = .blocked then some (s.wakeWorker w) else none
  | .wakeProducer p, s =>
      if (s.producer p).pc = .blocked then
        some (s.setProducer p s.shared (s.producer p).wake)
      else none

/-- What a step can be: a statement of one thread with the wake-ups that follow from it, a
call of `threadpool_add`, or wake-ups only. -/
inductive System.Moves (s : System P F A) : SystemMove P F A → System P F A → Prop
  | worker {w : ℕ} {sh : Shared (PoolThread P) F A} {l : PoolWorker F A} {n : Notify}
      {s' : System P F A} (hw : w < s.started)
      (hstmt : poolWorkerStmt (PoolThread.worker w) s.shared (s.worker w) = some (sh, l, n))
      (hwoken : (s.setWorker w sh l).Woken s') : s.Moves (.worker w) s'
  | producer {p : P} {woken : Option ℕ} {sh : Shared (PoolThread P) F A} {l : Producer F A}
      {n : Notify} {s' : System P F A}
      (hstmt : addStmt (PoolThread.producer p) s.shared (s.producer p) = some (sh, l, n))
      (hwoken : (s.setProducer p sh l).Woken s') : s.Moves (.producer p woken) s'
  | call {p : P} {function : F} {arg : Option A} (hidle : (s.producer p).pc = .idle) :
      s.Moves (.call p function arg) (s.setProducer p s.shared ⟨.lock, ⟨function, arg⟩⟩)
  | manager {woken : Option ℕ} {started : ℕ} {sh : Shared (PoolThread P) F A} {l : Adjuster}
      {n : Notify} {s' : System P F A}
      (hstmt : adjustStmt PoolThread.manager s.started s.shared s.manager
        = some (started, sh, l, n))
      (hwoken : (s.setManager started sh l).Woken s') : s.Moves (.manager woken) s'
  | destroyer {s' : System P F A} (hstmt : s.destroyStmt = some s') : s.Moves .destroyer s'
  | wake {m : SystemMove P F A} {s' : System P F A} (hwoken : s.Woken s') : s.Moves m s'

/-- **Every step is one of these.** -/
theorem moves_of_systemStep {s s' : System P F A} {m : SystemMove P F A}
    (h : systemStep m s = some s') : s.Moves m s' := by
  cases m with
  | worker w =>
      simp only [systemStep] at h
      split_ifs at h with hw
      obtain ⟨⟨sh, l, n⟩, hstmt, hd⟩ := Option.bind_eq_some_iff.mp h
      exact System.Moves.worker hw hstmt (System.woken_of_deliver hd)
  | producer p woken =>
      obtain ⟨⟨sh, l, n⟩, hstmt, hd⟩ := Option.bind_eq_some_iff.mp h
      exact System.Moves.producer hstmt (System.woken_of_deliver hd)
  | call p function arg =>
      simp only [systemStep] at h
      split_ifs at h with hidle
      rw [← Option.some.inj h]
      exact System.Moves.call hidle
  | manager woken =>
      obtain ⟨⟨started, sh, l, n⟩, hstmt, hd⟩ := Option.bind_eq_some_iff.mp h
      exact System.Moves.manager hstmt (System.woken_of_deliver hd)
  | destroyer => exact System.Moves.destroyer h
  | wakeWorker w =>
      simp only [systemStep] at h
      split_ifs at h
      rw [← Option.some.inj h]
      exact System.Moves.wake (s.woken_wakeWorker w)
  | wakeProducer p =>
      simp only [systemStep] at h
      split_ifs at h
      rw [← Option.some.inj h]
      apply System.Moves.wake
      refine ⟨s.worker, _, rfl, fun _ => Or.inl rfl, ?_⟩
      intro q
      by_cases hq : q = p
      · right
        rw [hq, Function.update_self]
      · left
        rw [Function.update_of_ne hq]

/-- The system when `threadpool_create` has returned: `min_thr_num` workers are about to
run their loops, the manager its own, and no thread is inside `threadpool_add`.  What
`malloc` returned and the uninitialised variables is arbitrary. -/
def systemStart (minThrNum maxThrNum : ℤ) (queueMaxSize : ℕ) (junk : ℕ → Task F A)
    (locals : ℕ → Task F A) (calls : P → Task F A) : System P F A where
  shared := ⟨threadpoolCreate minThrNum maxThrNum queueMaxSize junk, none, none⟩
  started := minThrNum.toNat
  worker := fun w => ⟨⟨.loopTest, locals w⟩, ExitPc.running⟩
  producer := fun p => ⟨.idle, calls p⟩
  manager := ⟨AdjustPc.loopTest, 0, 0, 0, 0, 0⟩
  destroyer := ⟨DestroyPc.setShutdown, 0⟩
  joined := []
  detached := []

/-- The pool of `main`, and one thread that calls `threadpool_add`. -/
def mainPool : System Unit ℕ ℕ :=
  systemStart 3 100 100 (fun _ => ⟨0, none⟩) (fun _ => ⟨0, none⟩) (fun _ => ⟨0, none⟩)

end ThreadPool
