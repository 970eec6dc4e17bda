/-
# Workers and producers, one statement at a time (`threadpool/main.c`)

`threadpool_thread` (lines 91-156) and `threadpool_add` (lines 292-328) as
programs whose every statement on the pool is one atomic step.  A thread is a
program counter and its local copy of a task; the counters below are named after
the statement that comes next.

The mutexes and condition variables are the default ones of `pthread`:

* a lock waits until the mutex is free, also when the caller itself owns it;
* an unlock, and the unlock inside `pthread_cond_wait`, make the mutex free.  The
  default mutex does not check that the caller owns it, and `threadpool_thread`
  reaches both without ever having locked it;
* a signal wakes one blocked thread if there is one, a broadcast all of them, and
  a blocked thread may also wake up by itself; a woken thread returns from
  `pthread_cond_wait` once it has the mutex again.

The statements do not mention which threads there are: they are given the caller
as an argument, and say whom they notify.  Which blocked worker a signal wakes is
part of the label of a step.
-/
import NetStudy.Transition
import NetStudy.Pool

namespace ThreadPool

open Transition

/-- What the threads share: the pool and the owners of its two mutexes. -/
structure Shared (T F A : Type*) where
  pool : Pool F A
  lock : Option T
  threadCounter : Option T

/-- The notification a statement sends. -/
inductive Notify
  | nobody
  | signalNotEmpty
  | broadcastNotEmpty
  | broadcastNotFull

/-! ## `threadpool_thread` -/

/-- The statement a worker executes next, with its line. -/
inductive WorkerPc
  /-- 95: the loop test. -/
  | loopTest
  /-- 97: the call of `pthread_cond_wait`. -/
  | condWait
  /-- 97: blocked, no wake-up delivered. -/
  | blocked
  /-- 97: woken, about to take the mutex again. -/
  | woken
  /-- 100: `wait_exit_thr_num > 0`. -/
  | exitTest
  /-- 102: `wait_exit_thr_num--`. -/
  | exitDec
  /-- 105: `live_thr_num > min_thr_num`. -/
  | liveTest
  /-- 108: `live_thr_num--`. -/
  | liveDec
  /-- 109: the lock before a retirement. -/
  | retireLock
  /-- 116: the test of `shutdown`. -/
  | shutdownTest
  /-- 118: the lock before the exit at shutdown. -/
  | shutdownLock
  /-- 124: the function is copied. -/
  | copyFunction
  /-- 125: the argument is copied. -/
  | copyArg
  /-- 130: `queue_front` moves on. -/
  | advanceFront
  /-- 131: `queue_size--`. -/
  | decSize
  /-- 134: the broadcast on `queue_not_full`. -/
  | broadcast
  /-- 137: the unlock. -/
  | unlock
  /-- 142: the lock of `thread_counter`. -/
  | busyLock
  /-- 143: `busy_thr_num++`. -/
  | busyInc
  /-- 145: the unlock of `thread_counter`. -/
  | busyUnlock
  /-- 148: the task's function is called. -/
  | call
  /-- 152: the second lock of `thread_counter`. -/
  | idleLock
  /-- 153: `busy_thr_num--`. -/
  | busyDec
  /-- 154: the second unlock of `thread_counter`. -/
  | idleUnlock
  /-- 111, 121: the thread has ended. -/
  | exited
  deriving DecidableEq

/-- A worker: its program counter and the local `task`. -/
structure Worker (F A : Type*) where
  pc : WorkerPc
  task : Task F A

/-- The next statement of a worker moves the program counter only. -/
def Worker.goto {F A : Type*} (l : Worker F A) (pc : WorkerPc) : Worker F A := { l with pc := pc }

/-- A wake-up delivered to a worker, if it is blocked. -/
def Worker.wake {F A : Type*} (l : Worker F A) : Worker F A :=
  if l.pc = .blocked then l.goto .woken else l

variable {T F A : Type*} [DecidableEq T]

/-- The effect of a change to the queue fields. -/
def Shared.mapQueue (sh : Shared T F A) (f : TaskQueue F A → TaskQueue F A) : Shared T F A :=
  { sh with pool := { sh.pool with toTaskQueue := f sh.pool.toTaskQueue } }

/-- The next statement of the worker `me`; `none` while it has to wait. -/
def workerStmt (me : T) (sh : Shared T F A) (l : Worker F A) :
    Option (Shared T F A × Worker F A × Notify) :=
  match l.pc with
  | .loopTest =>
      if sh.pool.queueSize = 0 ∧ sh.pool.shutdown = false then
        some (sh, l.goto .condWait, .nobody)
      else some (sh, l.goto .shutdownTest, .nobody)
  | .condWait => some ({ sh with lock := none }, l.goto .blocked, .nobody)
  | .blocked => none
  | .woken =>
      if sh.lock = none then some ({ sh with lock := some me }, l.goto .exitTest, .nobody)
      else none
  | .exitTest =>
      if 0 < sh.pool.waitExitThrNum then some (sh, l.goto .exitDec, .nobody)
      else some (sh, l.goto .loopTest, .nobody)
  | .exitDec =>
      some ({ sh with pool := { sh.pool with waitExitThrNum := sh.pool.waitExitThrNum - 1 } },
        l.goto .liveTest, .nobody)
  | .liveTest =>
      if sh.pool.minThrNum < sh.pool.liveThrNum then some (sh, l.goto .liveDec, .nobody)
      else some (sh, l.goto .loopTest, .nobody)
  | .liveDec =>
      some ({ sh with pool := { sh.pool with liveThrNum := sh.pool.liveThrNum - 1 } },
        l.goto .retireLock, .nobody)
  -- 109 and 118 lock a mutex again and keep it: the thread exits with it
  | .retireLock | .shutdownLock =>
      if sh.lock = none then some ({ sh with lock := some me }, l.goto .exited, .nobody)
      else none
  | .shutdownTest =>
      if sh.pool.shutdown then some (sh, l.goto .shutdownLock, .nobody)
      else some (sh, l.goto .copyFunction, .nobody)
  | .copyFunction =>
      some (sh, { pc := .copyArg, task := { l.task with function := sh.pool.frontSlot.function } },
        .nobody)
  | .copyArg =>
      some (sh, { pc := .advanceFront, task := { l.task with arg := sh.pool.frontSlot.arg } },
        .nobody)
  | .advanceFront => some (sh.mapQueue TaskQueue.advanceFront, l.goto .decSize, .nobody)
  | .decSize => some (sh.mapQueue TaskQueue.decSize, l.goto .broadcast, .nobody)
  | .broadcast => some (sh, l.goto .unlock, .broadcastNotFull)
  | .unlock => some ({ sh with lock := none }, l.goto .busyLock, .nobody)
  | .busyLock =>
      if sh.threadCounter = none then
        some ({ sh with threadCounter := some me }, l.goto .busyInc, .nobody)
      else none
  | .busyInc =>
      some ({ sh with pool := { sh.pool with busyThrNum := sh.pool.busyThrNum + 1 } },
        l.goto .busyUnlock, .nobody)
  | .busyUnlock => some ({ sh with threadCounter := none }, l.goto .call, .nobody)
  | .call => some (sh, l.goto .idleLock, .nobody)
  | .idleLock =>
      if sh.threadCounter = none then
        some ({ sh with threadCounter := some me }, l.goto .busyDec, .nobody)
      else none
  | .busyDec =>
      some ({ sh with pool := { sh.pool with busyThrNum := sh.pool.busyThrNum - 1 } },
        l.goto .idleUnlock, .nobody)
  | .idleUnlock => some ({ sh with threadCounter := none }, l.goto .loopTest, .nobody)
  | .exited => none

/-! ## `threadpool_add` -/

/-- The statement a producer executes next, with its line. -/
inductive ProducerPc
  /-- Outside `threadpool_add`. -/
  | idle
  /-- 292: the lock. -/
  | lock
  /-- 295: the loop test. -/
  | loopTest
  /-- 297: the call of `pthread_cond_wait`. -/
  | condWait
  /-- 297: blocked, no wake-up delivered. -/
  | blocked
  /-- 297: woken, about to take the mutex again. -/
  | woken
  /-- 300: the test of `shutdown`. -/
  | shutdownTest
  /-- 302: the broadcast on `queue_not_empty`. -/
  | broadcast
  /-- 303: the unlock before the early return. -/
  | shutdownUnlock
  /-- 309: the test of the slot's old argument. -/
  | argTest
  /-- 311: the slot's old argument is cleared. -/
  | clearArg
  /-- 316: the function is stored. -/
  | setFunction
  /-- 318: the argument is stored. -/
  | setArg
  /-- 320: `queue_rear` moves on. -/
  | advanceRear
  /-- 322: `queue_size++`. -/
  | incSize
  /-- 325: the signal on `queue_not_empty`. -/
  | signal
  /-- 326: the unlock. -/
  | unlock
  deriving DecidableEq

/-- A producer: its program counter and the arguments of its call. -/
structure Producer (F A : Type*) where
  pc : ProducerPc
  task : Task F A

/-- The next statement of a producer moves the program counter only. -/
def Producer.goto {F A : Type*} (l : Producer F A) (pc : ProducerPc) : Producer F A :=
  { l with pc := pc }

/-- A wake-up delivered to a producer, if it is blocked. -/
def Producer.wake {F A : Type*} (l : Producer F A) : Producer F A :=
  if l.pc = .blocked then l.goto .woken else l

/-- The next statement of the producer `me`; `none` while it has to wait. -/
def addStmt (me : T) (sh : Shared T F A) (l : Producer F A) :
    Option (Shared T F A × Producer F A × Notify) :=
  match l.pc with
  | .idle => none
  | .lock =>
      if sh.lock = none then some ({ sh with lock := some me }, l.goto .loopTest, .nobody)
      else none
  | .loopTest =>
      if sh.pool.queueSize = sh.pool.queueMaxSize ∧ sh.pool.shutdown = false then
        some (sh, l.goto .condWait, .nobody)
      else some (sh, l.goto .shutdownTest, .nobody)
  | .condWait => some ({ sh with lock := none }, l.goto .blocked, .nobody)
  | .blocked => none
  | .woken =>
      if sh.lock = none then some ({ sh with lock := some me }, l.goto .loopTest, .nobody)
      else none
  | .shutdownTest =>
      if sh.pool.shutdown then some (sh, l.goto .broadcast, .nobody)
      else some (sh, l.goto .argTest, .nobody)
  | .broadcast => some (sh, l.goto .shutdownUnlock, .broadcastNotEmpty)
  | .shutdownUnlock => some ({ sh with lock := none }, l.goto .idle, .nobody)
  | .argTest =>
      if sh.pool.rearSlot.arg ≠ none then some (sh, l.goto .clearArg, .nobody)
      else some (sh, l.goto .setFunction, .nobody)
  | .clearArg => some (sh.mapQueue TaskQueue.clearArg, l.goto .setFunction, .nobody)
  | .setFunction =>
      some (sh.mapQueue (TaskQueue.setFunction · l.task.function), l.goto .setArg, .nobody)
  | .setArg => some (sh.mapQueue (TaskQueue.setArg · l.task.arg), l.goto .advanceRear, .nobody)
  | .advanceRear => some (sh.mapQueue TaskQueue.advanceRear, l.goto .incSize, .nobody)
  | .incSize => some (sh.mapQueue TaskQueue.incSize, l.goto .signal, .nobody)
  | .signal => some (sh, l.goto .unlock, .signalNotEmpty)
  | .unlock => some ({ sh with lock := none }, l.goto .idle, .nobody)

/-! ## Any number of workers and producers -/

/-- The threads that may own a mutex. -/
inductive ThreadId (W P : Type*)
  | worker (w : W)
  | producer (p : P)
  deriving DecidableEq

/-- The whole system, with the history of the tasks stored (each when line 322
counts it) and of the tasks copied out (each when line 125 completes the copy),
the latter with the worker that holds the copy. -/
structure PoolState (W P F A : Type*) where
  shared : Shared (ThreadId W P) F A
  worker : W → Worker F A
  producer : P → Producer F A
  stored : List (Task F A)
  taken : List (W × Task F A)

/-- The labels: the next statement of a worker or of a producer (with the worker
that a signal of it wakes), a call of `threadpool_add`, a spurious wake-up. -/
inductive Move (W P F A : Type*)
  | worker (w : W)
  | producer (p : P) (woken : Option W)
  | call (p : P) (function : F) (arg : Option A)
  | wakeWorker (w : W)
  | wakeProducer (p : P)

variable {W P : Type*} [DecidableEq W] [DecidableEq P]

/-- The statement of a worker with its history, before notifications. -/
def PoolState.setWorker (s : PoolState W P F A) (w : W)
    (sh : Shared (ThreadId W P) F A) (l : Worker F A) : PoolState W P F A :=
  { s with
    shared := sh
    worker := Function.update s.worker w l
    taken := if (s.worker w).pc = .copyArg then s.taken ++ [(w, l.task)] else s.taken }

/-- The statement of a producer with its history, before notifications. -/
def PoolState.setProducer (s : PoolState W P F A) (p : P)
    (sh : Shared (ThreadId W P) F A) (l : Producer F A) : PoolState W P F A :=
  { s with
    shared := sh
    producer := Function.update s.producer p l
    stored := if (s.producer p).pc = .incSize then s.stored ++ [l.task] else s.stored }

variable [Fintype W]

/-- A notification reaches the threads blocked on its condition variable.  A
signal names the worker it wakes, and may name none only if none is blocked. -/
def deliver (n : Notify) (woken : Option W) (s : PoolState W P F A) :
    Option (PoolState W P F A) :=
  match n with
  | .nobody => some s
  | .broadcastNotEmpty => some { s with worker := fun w => (s.worker w).wake }
  | .broadcastNotFull => some { s with producer := fun p => (s.producer p).wake }
  | .signalNotEmpty =>
      match woken with
      | some w =>
          if (s.worker w).pc = .blocked then
            some { s with worker := Function.update s.worker w (s.worker w).wake }
          else none
      | none => if ∀ w, (s.worker w).pc ≠ .blocked then some s else none

/-- One step of the system. -/
def poolStep : Move W P F A → PoolState W P F A → Option (PoolState W P F A)
  | .worker w, s => do
      let (sh, l, n) ← workerStmt (.worker w) s.shared (s.worker w)
      deliver n none (s.setWorker w sh l)
  | .producer p woken, s => do
      let (sh, l, n) ← addStmt (.producer p) s.shared (s.producer p)
      deliver n woken (s.setProducer p sh l)
  | .call p function arg, s =>
      if (s.producer p).pc = .idle then
        some { s with producer := Function.update s.producer p ⟨.lock, ⟨function, arg⟩⟩ }
      else none
  | .wakeWorker w, s =>
      if (s.worker w).pc = .blocked then
        some { s with worker := Function.update s.worker w (s.worker w).wake }
      else none
  | .wakeProducer p, s =>
      if (s.producer p).pc = .blocked then
        some { s with producer := Function.update s.producer p (s.producer p).wake }
      else none

/-- The pool as `threadpool_create` leaves it: every worker is about to run its
loop, no producer is inside `threadpool_add`, and what `malloc` returned and the
uninitialised local tasks held is arbitrary. -/
def poolStart (minThrNum maxThrNum : ℤ) (queueMaxSize : ℕ) (junk : ℕ → Task F A)
    (locals : W → Task F A) (calls : P → Task F A) : PoolState W P F A where
  shared := ⟨threadpoolCreate minThrNum maxThrNum queueMaxSize junk, none, none⟩
  worker := fun w => ⟨.loopTest, locals w⟩
  producer := fun p => ⟨.idle, calls p⟩
  stored := []
  taken := []

end ThreadPool
