/-
# Handing tasks over to the workers

Which worker gets which task when single statements of any number of workers and
producers interleave.  `HandOver` is what the pool promises: the size stays
between `0` and the capacity, a worker copies a task only from a queue that is
not empty, and the tasks copied out are, in order, the first ones stored, so that
no task goes to two workers.

`threadpool_thread` does not lock the pool before line 95.  Two workers that find
the queue nonempty at the same time both copy its first task
(`two_workers_copy_one_task`).  The other half is a refinement: as long as every
worker that leaves the test of line 95 towards the queue owns the lock, and no
worker enters `pthread_cond_wait` while another thread owns it (`LockedPass`),
every interleaving of statements is a run of whole store and take steps
(`poolStep_guarded`), which `PoolFifo.lean` shows to be a FIFO queue.
-/
import NetStudy.CriticalSection
import NetStudy.PoolFifo
import NetStudy.PoolThreads

namespace ThreadPool

open Transition CriticalSection

variable {F A : Type*}

/-! ## The critical sections -/

/-- The statements a worker executes with the lock, from its return from
`pthread_cond_wait` or from a passed test to the unlock. -/
def WorkerPc.inside : WorkerPc → Bool
  | .exitTest | .exitDec | .liveTest | .liveDec => true
  | .shutdownTest | .copyFunction | .copyArg | .advanceFront | .decSize => true
  | .broadcast | .unlock => true
  | _ => false

/-- The statements a producer executes with the lock. -/
def ProducerPc.inside : ProducerPc → Bool
  | .idle | .lock | .blocked | .woken => false
  | _ => true

/-- What the rest of a worker's section does to the queue and to the history. -/
def Worker.settle (l : Worker F A) (o : Fifo F A) : Fifo F A :=
  match l.pc with
  | .copyFunction => { o with queue := o.queue.take.2, taken := o.taken ++ [o.queue.take.1] }
  | .copyArg =>
      { o with
        queue := o.queue.advanceFront.decSize
        taken := o.taken ++ [⟨l.task.function, o.queue.frontSlot.arg⟩] }
  | .advanceFront => { o with queue := o.queue.advanceFront.decSize }
  | .decSize => { o with queue := o.queue.decSize }
  | _ => o

/-- What the rest of a producer's section does to the queue and to the history. -/
def Producer.settle (l : Producer F A) (o : Fifo F A) : Fifo F A :=
  let counted (q : TaskQueue F A) : Fifo F A :=
    { o with queue := q.incSize, stored := o.stored ++ [l.task] }
  match l.pc with
  | .argTest =>
      { o with
        queue := o.queue.store l.task.function l.task.arg
        stored := o.stored ++ [l.task] }
  | .clearArg =>
      counted ((o.queue.clearArg.setFunction l.task.function).setArg l.task.arg).advanceRear
  | .setFunction => counted ((o.queue.setFunction l.task.function).setArg l.task.arg).advanceRear
  | .setArg => counted (o.queue.setArg l.task.arg).advanceRear
  | .advanceRear => counted o.queue.advanceRear
  | .incSize => counted o.queue
  | _ => o

/-- A worker on its way through lines 116-131 knows that there is a task. -/
def Worker.fact (l : Worker F A) (o : Fifo F A) : Prop :=
  match l.pc with
  | .shutdownTest | .copyFunction | .copyArg | .advanceFront | .decSize =>
      0 < o.queue.queueSize ∧ o.queue.queueSize ≤ o.queue.queueMaxSize
  | _ => True

/-- A producer on its way through lines 300-322 knows that there is room. -/
def Producer.fact (l : Producer F A) (o : Fifo F A) : Prop :=
  match l.pc with
  | .shutdownTest | .argTest | .clearArg | .setFunction | .setArg | .advanceRear | .incSize =>
      0 ≤ o.queue.queueSize ∧ o.queue.queueSize < o.queue.queueMaxSize
  | _ => True

/-- The sections of both kinds of threads on the queue. -/
def handOverSection (F A : Type*) : Section (Worker F A ⊕ Producer F A) (Fifo F A) where
  inside := Sum.elim (fun l => l.pc.inside = true) (fun l => l.pc.inside = true)
  settle := Sum.elim Worker.settle Producer.settle
  fact := Sum.elim Worker.fact Producer.fact
  settle_outside := by
    rintro (⟨pc, t⟩ | ⟨pc, t⟩) o h <;> cases pc <;> first | rfl | exact absurd rfl h

variable {W P : Type*}

/-- The queue with its history, guarded by `lock`. -/
def PoolState.config (s : PoolState W P F A) :
    Config (ThreadId W P) (Worker F A ⊕ Producer F A) (Fifo F A) where
  lock := s.shared.lock
  loc := fun
    | .worker w => .inl (s.worker w)
    | .producer p => .inr (s.producer p)
  object := ⟨s.shared.pool.toTaskQueue, s.stored, s.taken.map Prod.snd⟩

/-- What the pool promises about the hand-over of tasks. -/
structure HandOver (queueMaxSize : ℕ) (s : PoolState W P F A) : Prop where
  size_nonneg : 0 ≤ s.shared.pool.queueSize
  size_le : s.shared.pool.queueSize ≤ queueMaxSize
  copy_nonempty : ∀ w, (s.worker w).pc = .copyFunction ∨ (s.worker w).pc = .copyArg →
    0 < s.shared.pool.queueSize
  taken_prefix : s.taken.map Prod.snd <+: s.stored

/-! ## What a guarded pool promises -/

/-- What holds of the queue once the owner of the lock has left: it is the
result of whole store and take steps. -/
def IsFifo (start : Fifo F A) (o : Fifo F A) : Prop := Reachable queueStep start o

variable {minThrNum maxThrNum : ℤ} {queueMaxSize : ℕ} {junk : ℕ → Task F A}

/-- The bounds of the size while the queue is the result of whole steps. -/
theorem FifoInv.size_bounds {o : Fifo F A} (h : FifoInv queueMaxSize o) :
    0 ≤ o.queue.queueSize ∧ o.queue.queueSize ≤ queueMaxSize :=
  ⟨h.queueOk.size_nonneg, h.max_eq ▸ h.queueOk.size_le⟩

/-- A worker's section: the bounds of the size and the order of the tasks now,
from what the worker knows and from what it leaves behind. -/
theorem Worker.bounds_of_settle {l : Worker F A} {o : Fifo F A} (hfact : l.fact o)
    (hinv : FifoInv queueMaxSize (l.settle o)) :
    0 ≤ o.queue.queueSize ∧ o.queue.queueSize ≤ queueMaxSize ∧ o.taken <+: o.stored := by
  obtain ⟨pc, t⟩ := l
  have hcontent := hinv.content
  have hmax := hinv.max_eq
  have hbounds := hinv.size_bounds
  cases pc <;>
    simp only [Worker.settle, Worker.fact, TaskQueue.take, TaskQueue.decSize,
      TaskQueue.advanceFront, List.append_assoc] at hcontent hmax hbounds hfact <;>
    exact ⟨by omega, by omega, ⟨_, hcontent⟩⟩

/-- What was stored stays, up to the task that is being stored. -/
theorem Producer.settle_stored (l : Producer F A) (o : Fifo F A) :
    (l.settle o).stored = o.stored ∨ (l.settle o).stored = o.stored ++ [l.task] := by
  obtain ⟨pc, t⟩ := l
  cases pc <;> first | exact Or.inl rfl | exact Or.inr rfl

theorem Producer.settle_taken (l : Producer F A) (o : Fifo F A) :
    (l.settle o).taken = o.taken := by
  obtain ⟨pc, t⟩ := l
  cases pc <;> rfl

/-- A producer's section: either nothing remains to be done, or the size is about
to grow by the task that is being stored. -/
theorem Producer.settle_size (l : Producer F A) (o : Fifo F A) :
    l.settle o = o ∨
      ((l.settle o).queue.queueSize = o.queue.queueSize + 1
        ∧ (l.settle o).queue.queueMaxSize = o.queue.queueMaxSize
        ∧ (l.fact o → 0 ≤ o.queue.queueSize ∧ o.queue.queueSize < o.queue.queueMaxSize)) := by
  obtain ⟨pc, t⟩ := l
  cases pc <;> first
    | exact Or.inl rfl
    | exact Or.inr ⟨rfl, rfl, id⟩
    | (refine Or.inr ⟨?_, ?_, id⟩ <;>
        · simp only [Producer.settle, TaskQueue.store_eq]
          rfl)

/-- A producer's section: the bounds of the size and the order of the tasks now. -/
theorem Producer.bounds_of_settle {l : Producer F A} {o : Fifo F A} (hfact : l.fact o)
    (hinv : FifoInv queueMaxSize (l.settle o)) :
    0 ≤ o.queue.queueSize ∧ o.queue.queueSize ≤ queueMaxSize ∧ o.taken <+: o.stored := by
  rcases l.settle_size o with hid | ⟨hsize, hmax, hroom⟩
  · rw [hid] at hinv
    exact ⟨hinv.size_bounds.1, hinv.size_bounds.2, ⟨_, hinv.content⟩⟩
  · have hroom := hroom hfact
    have hle := hinv.max_eq
    refine ⟨hroom.1, by omega, ?_⟩
    -- the task being stored is still pending, so the tasks taken are among the others
    have hcontent := hinv.content
    have hpending := hinv.queueOk.length_pending
    rw [l.settle_taken] at hcontent
    rcases l.settle_stored o with hst | hst
    · rw [hst] at hcontent
      exact ⟨_, hcontent⟩
    · rw [hst] at hcontent
      have hlen := congrArg List.length hcontent
      simp only [List.length_append, List.length_singleton] at hlen
      exact List.prefix_of_prefix_length_le ⟨_, hcontent⟩ ⟨_, rfl⟩ (by omega)

/-- **A guarded pool keeps its promise.** -/
theorem handOver_of_guarded {s : PoolState W P F A} (hq : 1 ≤ queueMaxSize)
    (h : Guarded (handOverSection F A)
      (IsFifo (fifoCreate minThrNum maxThrNum queueMaxSize junk)) s.config) :
    HandOver queueMaxSize s := by
  have hall : 0 ≤ s.shared.pool.queueSize ∧ s.shared.pool.queueSize ≤ queueMaxSize
      ∧ s.taken.map Prod.snd <+: s.stored := by
    cases hlock : s.config.lock with
    | none =>
        have hinv := fifoInv_reachable hq (h.object_free hlock)
        exact ⟨hinv.size_bounds.1, hinv.size_bounds.2, ⟨_, hinv.content⟩⟩
    | some t =>
        have hinv := fifoInv_reachable hq (h.object_owned hlock)
        by_cases hin : (handOverSection F A).inside (s.config.loc t)
        · have hfact := h.knows t hin
          cases t with
          | worker w => exact Worker.bounds_of_settle hfact hinv
          | producer p => exact Producer.bounds_of_settle hfact hinv
        · rw [(handOverSection F A).settle_outside _ _ hin] at hinv
          exact ⟨hinv.size_bounds.1, hinv.size_bounds.2, ⟨_, hinv.content⟩⟩
  refine ⟨hall.1, hall.2.1, fun w hw => ?_, hall.2.2⟩
  have hin : (handOverSection F A).inside (s.config.loc (.worker w)) := by
    show (s.worker w).pc.inside = true
    rcases hw with hw | hw <;> rw [hw] <;> rfl
  have hfact : (s.worker w).fact s.config.object := h.knows _ hin
  rw [Worker.fact] at hfact
  rcases hw with hw | hw <;> rw [hw] at hfact <;> exact hfact.1

/-! ## Every statement keeps the pool guarded -/

section Steps

variable [DecidableEq W] [DecidableEq P]

/-- The condition on a step: a worker leaves the test of line 95 towards the
queue only while it owns the lock, and enters `pthread_cond_wait` only while no
other thread owns it. -/
def LockedPass (s : PoolState W P F A) : Move W P F A → Prop
  | .worker w =>
      match (s.worker w).pc with
      | .loopTest =>
          (s.shared.pool.queueSize = 0 ∧ s.shared.pool.shutdown = false)
            ∨ s.shared.lock = some (.worker w)
      | .condWait => s.shared.lock = none ∨ s.shared.lock = some (.worker w)
      | _ => True
  | _ => True

instance (s : PoolState W P F A) (m : Move W P F A) : Decidable (LockedPass s m) := by
  unfold LockedPass
  split
  · split <;> infer_instance
  · infer_instance

/-- The guarded configuration after a statement of a worker. -/
theorem config_setWorker (s : PoolState W P F A) (w : W) (sh : Shared (ThreadId W P) F A)
    (l : Worker F A) :
    (s.setWorker w sh l).config
      = { lock := sh.lock
          loc := Function.update s.config.loc (.worker w) (.inl l)
          object := (s.setWorker w sh l).config.object } := by
  have hloc : (s.setWorker w sh l).config.loc
      = Function.update s.config.loc (.worker w) (.inl l) := by
    funext t
    cases t with
    | worker v =>
        by_cases hv : v = w
        · subst hv
          simp [PoolState.config, PoolState.setWorker]
        · simp [PoolState.config, PoolState.setWorker, hv]
    | producer p => simp [PoolState.config, PoolState.setWorker]
  rw [← hloc]
  rfl

omit [DecidableEq P] in
/-- A statement that completes no copy leaves the history alone. -/
theorem object_setWorker {s : PoolState W P F A} {w : W} (hpc : (s.worker w).pc ≠ .copyArg)
    (sh : Shared (ThreadId W P) F A) (l : Worker F A) :
    (s.setWorker w sh l).config.object
      = { s.config.object with queue := sh.pool.toTaskQueue } := by
  have htaken : (s.setWorker w sh l).taken = s.taken := if_neg hpc
  simp only [PoolState.config, htaken]
  rfl

omit [DecidableEq P] in
/-- The statement that completes a copy. -/
theorem object_setWorker_copyArg {s : PoolState W P F A} {w : W}
    (hpc : (s.worker w).pc = .copyArg) (sh : Shared (ThreadId W P) F A) (l : Worker F A) :
    (s.setWorker w sh l).config.object
      = { s.config.object with
          queue := sh.pool.toTaskQueue
          taken := s.config.object.taken ++ [l.task] } := by
  have htaken : (s.setWorker w sh l).taken = s.taken ++ [(w, l.task)] := if_pos hpc
  simp only [PoolState.config, htaken, List.map_append]
  rfl

/-- The guarded configuration after a statement of a producer. -/
theorem config_setProducer (s : PoolState W P F A) (p : P) (sh : Shared (ThreadId W P) F A)
    (l : Producer F A) :
    (s.setProducer p sh l).config
      = { lock := sh.lock
          loc := Function.update s.config.loc (.producer p) (.inr l)
          object := (s.setProducer p sh l).config.object } := by
  have hloc : (s.setProducer p sh l).config.loc
      = Function.update s.config.loc (.producer p) (.inr l) := by
    funext t
    cases t with
    | worker w => simp [PoolState.config, PoolState.setProducer]
    | producer v =>
        by_cases hv : v = p
        · subst hv
          simp [PoolState.config, PoolState.setProducer]
        · simp [PoolState.config, PoolState.setProducer, hv]
  rw [← hloc]
  rfl

omit [DecidableEq W] in
/-- A statement that does not count the task leaves the history alone. -/
theorem object_setProducer {s : PoolState W P F A} {p : P} (hpc : (s.producer p).pc ≠ .incSize)
    (sh : Shared (ThreadId W P) F A) (l : Producer F A) :
    (s.setProducer p sh l).config.object
      = { s.config.object with queue := sh.pool.toTaskQueue } := by
  have hstored : (s.setProducer p sh l).stored = s.stored := if_neg hpc
  simp only [PoolState.config, hstored]
  rfl

omit [DecidableEq W] in
/-- The statement that counts the task. -/
theorem object_setProducer_incSize {s : PoolState W P F A} {p : P}
    (hpc : (s.producer p).pc = .incSize) (sh : Shared (ThreadId W P) F A) (l : Producer F A) :
    (s.setProducer p sh l).config.object
      = { s.config.object with
          queue := sh.pool.toTaskQueue
          stored := s.config.object.stored ++ [l.task] } := by
  have hstored : (s.setProducer p sh l).stored = s.stored ++ [l.task] := if_pos hpc
  simp only [PoolState.config, hstored]
  rfl

variable {s : PoolState W P F A} {start : Fifo F A}

/-- The pool is guarded: the queue will be the result of whole steps. -/
abbrev PoolGuarded (start : Fifo F A) (s : PoolState W P F A) : Prop :=
  Guarded (handOverSection F A) (IsFifo start) s.config

section Worker

variable {w : W} {l₀ l : Worker F A} {sh : Shared (ThreadId W P) F A}

/-- A worker's statement outside its section. -/
theorem PoolGuarded.worker_outside (h : PoolGuarded start s) (hl : s.worker w = l₀)
    (hout : l₀.pc.inside = false) (hout' : l.pc.inside = false)
    (hlock : sh.lock = s.shared.lock)
    (hqueue : sh.pool.toTaskQueue = s.shared.pool.toTaskQueue) :
    PoolGuarded start (s.setWorker w sh l) := by
  subst hl
  have hne : (s.worker w).pc ≠ .copyArg := fun heq => by
    rw [heq] at hout
    exact Bool.noConfusion hout
  rw [PoolGuarded, config_setWorker, object_setWorker hne, hlock, hqueue]
  exact h.outside (t := .worker w) (fun hin => Bool.noConfusion (hout.symm.trans hin))
    (fun hin => Bool.noConfusion (hout'.symm.trans hin))

/-- A worker takes the lock. -/
theorem PoolGuarded.worker_acquire (h : PoolGuarded start s) (hl : s.worker w = l₀)
    (hne : l₀.pc ≠ .copyArg) (hfree : s.shared.lock = none) (hlock : sh.lock = some (.worker w))
    (hqueue : sh.pool.toTaskQueue = s.shared.pool.toTaskQueue)
    (hsettle : l.settle s.config.object = s.config.object) (hfact : l.fact s.config.object) :
    PoolGuarded start (s.setWorker w sh l) := by
  subst hl
  rw [PoolGuarded, config_setWorker, object_setWorker hne, hlock, hqueue]
  exact h.acquire hfree hsettle (fun _ => hfact)

/-- A worker leaves its section with the lock free. -/
theorem PoolGuarded.worker_release (h : PoolGuarded start s) (hl : s.worker w = l₀)
    (hne : l₀.pc ≠ .copyArg)
    (hown : s.shared.lock = none ∨ s.shared.lock = some (.worker w)) (hlock : sh.lock = none)
    (hqueue : sh.pool.toTaskQueue = s.shared.pool.toTaskQueue)
    (hsettle : l₀.settle s.config.object = s.config.object) (hout : l.pc.inside = false) :
    PoolGuarded start (s.setWorker w sh l) := by
  subst hl
  rw [PoolGuarded, config_setWorker, object_setWorker hne, hlock, hqueue]
  exact h.release (t := .worker w) hown hsettle (fun hin => Bool.noConfusion (hout.symm.trans hin))

/-- A statement of a worker that owns the lock. -/
theorem PoolGuarded.worker_owner (h : PoolGuarded start s)
    (hown : s.shared.lock = some (.worker w)) (hlock : sh.lock = s.shared.lock)
    {o : Fifo F A} (ho : (s.setWorker w sh l).config.object = o) (hfact : l.fact o)
    (hR : IsFifo start (l.settle o)) : PoolGuarded start (s.setWorker w sh l) := by
  rw [PoolGuarded, config_setWorker, hlock, ho]
  exact h.owner hown (fun _ => hfact) hR

/-- **Every statement of a worker keeps the pool guarded**, as long as it meets
`LockedPass`.  The queue takes its step when line 116 is passed; up to line 131
the statements only carry it out. -/
theorem PoolGuarded.workerStmt (hq : 1 ≤ queueMaxSize)
    (h : PoolGuarded (fifoCreate minThrNum maxThrNum queueMaxSize junk) s)
    (hdown : s.shared.pool.shutdown = false) (hok : LockedPass s (.worker w)) {n : Notify}
    (hstmt : workerStmt (.worker w) s.shared (s.worker w) = some (sh, l, n)) :
    PoolGuarded (fifoCreate minThrNum maxThrNum queueMaxSize junk) (s.setWorker w sh l) := by
  have hown : (s.worker w).pc.inside = true → s.shared.lock = some (.worker w) :=
    h.owns (.worker w)
  have hR : s.shared.lock = some (.worker w) →
      IsFifo (fifoCreate minThrNum maxThrNum queueMaxSize junk)
        ((s.worker w).settle s.config.object) :=
    h.object_owned (t := .worker w)
  have hknows : (s.worker w).pc.inside = true → (s.worker w).fact s.config.object :=
    h.knows (.worker w)
  rw [LockedPass] at hok
  rcases hl : s.worker w with ⟨pc, task⟩
  rw [hl] at hstmt hown hR hknows hok
  have ho : pc ≠ .copyArg → ∀ sh' l', (s.setWorker w sh' l').config.object
      = { s.config.object with queue := sh'.pool.toTaskQueue } :=
    fun hne => object_setWorker (by rw [hl]; exact hne)
  cases pc with
  | loopTest =>
      simp only [ThreadPool.workerStmt] at hstmt
      split_ifs at hstmt with htest <;> obtain ⟨rfl, rfl, rfl⟩ := hstmt
      · exact h.worker_outside hl rfl rfl rfl rfl
      · have hlock := hok.resolve_left htest
        -- the test failed and the pool is not shut down, so the queue is not empty
        have hsize : s.shared.pool.queueSize ≠ 0 := fun h0 => htest ⟨h0, hdown⟩
        have hqueue := (fifoInv_reachable hq (hR hlock)).queueOk
        refine h.worker_owner hlock rfl (ho (by decide) _ _) ⟨?_, hqueue.size_le⟩ (hR hlock)
        exact lt_of_le_of_ne hqueue.size_nonneg (Ne.symm hsize)
  | condWait =>
      obtain ⟨rfl, rfl, rfl⟩ := hstmt
      exact h.worker_release hl (by simp) hok rfl rfl rfl rfl
  | woken | retireLock | shutdownLock =>
      simp only [ThreadPool.workerStmt] at hstmt
      split_ifs at hstmt with hfree
      obtain ⟨rfl, rfl, rfl⟩ := hstmt
      exact h.worker_acquire hl (by simp) hfree rfl rfl rfl trivial
  | exitTest | liveTest =>
      simp only [ThreadPool.workerStmt] at hstmt
      split_ifs at hstmt <;> obtain ⟨rfl, rfl, rfl⟩ := hstmt <;>
        exact h.worker_owner (hown rfl) rfl (ho (by decide) _ _) trivial (hR (hown rfl))
  | exitDec | liveDec =>
      obtain ⟨rfl, rfl, rfl⟩ := hstmt
      exact h.worker_owner (hown rfl) rfl (ho (by decide) _ _) trivial (hR (hown rfl))
  | shutdownTest =>
      simp only [ThreadPool.workerStmt, hdown] at hstmt
      obtain ⟨rfl, rfl, rfl⟩ := hstmt
      have hfact := hknows rfl
      refine h.worker_owner (hown rfl) rfl (ho (by decide) _ _) hfact ?_
      -- the whole take step
      exact Reach.next (a := .take) (hR (hown rfl)) trivial (if_pos hfact.1)
  | copyFunction =>
      obtain ⟨rfl, rfl, rfl⟩ := hstmt
      exact h.worker_owner (hown rfl) rfl (ho (by decide) _ _) (hknows rfl) (hR (hown rfl))
  | copyArg =>
      obtain ⟨rfl, rfl, rfl⟩ := hstmt
      exact h.worker_owner (hown rfl) rfl (object_setWorker_copyArg (by rw [hl]) _ _) (hknows rfl)
        (hR (hown rfl))
  | advanceFront =>
      obtain ⟨rfl, rfl, rfl⟩ := hstmt
      exact h.worker_owner (hown rfl) rfl (ho (by decide) _ _) (hknows rfl) (hR (hown rfl))
  | decSize | broadcast =>
      obtain ⟨rfl, rfl, rfl⟩ := hstmt
      exact h.worker_owner (hown rfl) rfl (ho (by decide) _ _) trivial (hR (hown rfl))
  | unlock =>
      obtain ⟨rfl, rfl, rfl⟩ := hstmt
      exact h.worker_release hl (by simp) (Or.inr (hown rfl)) rfl rfl rfl rfl
  | busyLock | idleLock =>
      simp only [ThreadPool.workerStmt] at hstmt
      split_ifs at hstmt
      obtain ⟨rfl, rfl, rfl⟩ := hstmt
      exact h.worker_outside hl rfl rfl rfl rfl
  | busyInc | busyUnlock | call | busyDec | idleUnlock =>
      obtain ⟨rfl, rfl, rfl⟩ := hstmt
      exact h.worker_outside hl rfl rfl rfl rfl
  | blocked | exited => cases hstmt

end Worker

section Producer

variable {p : P} {l₀ l : Producer F A} {sh : Shared (ThreadId W P) F A}

/-- A producer takes the lock. -/
theorem PoolGuarded.producer_acquire (h : PoolGuarded start s) (hl : s.producer p = l₀)
    (hne : l₀.pc ≠ .incSize) (hfree : s.shared.lock = none)
    (hlock : sh.lock = some (.producer p))
    (hqueue : sh.pool.toTaskQueue = s.shared.pool.toTaskQueue)
    (hsettle : l.settle s.config.object = s.config.object) (hfact : l.fact s.config.object) :
    PoolGuarded start (s.setProducer p sh l) := by
  subst hl
  rw [PoolGuarded, config_setProducer, object_setProducer hne, hlock, hqueue]
  exact h.acquire hfree hsettle (fun _ => hfact)

/-- A producer leaves its section with the lock free. -/
theorem PoolGuarded.producer_release (h : PoolGuarded start s) (hl : s.producer p = l₀)
    (hne : l₀.pc ≠ .incSize) (hown : s.shared.lock = some (.producer p)) (hlock : sh.lock = none)
    (hqueue : sh.pool.toTaskQueue = s.shared.pool.toTaskQueue)
    (hsettle : l₀.settle s.config.object = s.config.object) (hout : l.pc.inside = false) :
    PoolGuarded start (s.setProducer p sh l) := by
  subst hl
  rw [PoolGuarded, config_setProducer, object_setProducer hne, hlock, hqueue]
  exact h.release (t := .producer p) (Or.inr hown) hsettle
    (fun hin => Bool.noConfusion (hout.symm.trans hin))

/-- A statement of a producer that owns the lock. -/
theorem PoolGuarded.producer_owner (h : PoolGuarded start s)
    (hown : s.shared.lock = some (.producer p)) (hlock : sh.lock = s.shared.lock)
    {o : Fifo F A} (ho : (s.setProducer p sh l).config.object = o) (hfact : l.fact o)
    (hR : IsFifo start (l.settle o)) : PoolGuarded start (s.setProducer p sh l) := by
  rw [PoolGuarded, config_setProducer, hlock, ho]
  exact h.owner hown (fun _ => hfact) hR

/-- **Every statement of a producer keeps the pool guarded.**  The queue takes its
step when line 300 is passed; up to line 322 the statements only carry it out. -/
theorem PoolGuarded.addStmt (hq : 1 ≤ queueMaxSize)
    (h : PoolGuarded (fifoCreate minThrNum maxThrNum queueMaxSize junk) s)
    (hdown : s.shared.pool.shutdown = false) {n : Notify}
    (hstmt : addStmt (.producer p) s.shared (s.producer p) = some (sh, l, n)) :
    PoolGuarded (fifoCreate minThrNum maxThrNum queueMaxSize junk) (s.setProducer p sh l) := by
  have hown : (s.producer p).pc.inside = true → s.shared.lock = some (.producer p) :=
    h.owns (.producer p)
  have hR : s.shared.lock = some (.producer p) →
      IsFifo (fifoCreate minThrNum maxThrNum queueMaxSize junk)
        ((s.producer p).settle s.config.object) :=
    h.object_owned (t := .producer p)
  have hknows : (s.producer p).pc.inside = true → (s.producer p).fact s.config.object :=
    h.knows (.producer p)
  rcases hl : s.producer p with ⟨pc, task⟩
  rw [hl] at hstmt hown hR hknows
  have ho : pc ≠ .incSize → ∀ sh' l', (s.setProducer p sh' l').config.object
      = { s.config.object with queue := sh'.pool.toTaskQueue } :=
    fun hne => object_setProducer (by rw [hl]; exact hne)
  cases pc with
  | lock | woken =>
      simp only [ThreadPool.addStmt] at hstmt
      split_ifs at hstmt with hfree
      obtain ⟨rfl, rfl, rfl⟩ := hstmt
      exact h.producer_acquire hl (by simp) hfree rfl rfl rfl trivial
  | loopTest =>
      simp only [ThreadPool.addStmt] at hstmt
      split_ifs at hstmt with htest <;> obtain ⟨rfl, rfl, rfl⟩ := hstmt
      · exact h.producer_owner (hown rfl) rfl (ho (by decide) _ _) trivial (hR (hown rfl))
      · -- the test failed and the pool is not shut down, so the queue is not full
        have hsize : s.shared.pool.queueSize ≠ s.shared.pool.queueMaxSize :=
          fun heq => htest ⟨heq, hdown⟩
        have hqueue := (fifoInv_reachable hq (hR (hown rfl))).queueOk
        refine h.producer_owner (hown rfl) rfl (ho (by decide) _ _) ⟨hqueue.size_nonneg, ?_⟩
          (hR (hown rfl))
        exact lt_of_le_of_ne hqueue.size_le hsize
  | condWait | shutdownUnlock | unlock =>
      obtain ⟨rfl, rfl, rfl⟩ := hstmt
      exact h.producer_release hl (by simp) (hown rfl) rfl rfl rfl rfl
  | shutdownTest =>
      simp only [ThreadPool.addStmt, hdown] at hstmt
      obtain ⟨rfl, rfl, rfl⟩ := hstmt
      have hfact := hknows rfl
      refine h.producer_owner (hown rfl) rfl (ho (by decide) _ _) hfact ?_
      -- the whole store step
      exact Reach.next (a := .store task.function task.arg) (hR (hown rfl)) trivial
        (if_pos hfact.2)
  | argTest =>
      have hsettled := hR (hown rfl)
      simp only [ThreadPool.addStmt] at hstmt
      simp only [Producer.settle, TaskQueue.store] at hsettled
      split_ifs at hstmt with harg <;> obtain ⟨rfl, rfl, rfl⟩ := hstmt
      · rw [if_pos (show s.config.object.queue.rearSlot.arg ≠ none from harg)] at hsettled
        exact h.producer_owner (hown rfl) rfl (ho (by decide) _ _) (hknows rfl) hsettled
      · rw [if_neg (show ¬ s.config.object.queue.rearSlot.arg ≠ none from harg)] at hsettled
        exact h.producer_owner (hown rfl) rfl (ho (by decide) _ _) (hknows rfl) hsettled
  | clearArg | setFunction | setArg | advanceRear =>
      obtain ⟨rfl, rfl, rfl⟩ := hstmt
      exact h.producer_owner (hown rfl) rfl (ho (by decide) _ _) (hknows rfl) (hR (hown rfl))
  | incSize =>
      obtain ⟨rfl, rfl, rfl⟩ := hstmt
      exact h.producer_owner (hown rfl) rfl (object_setProducer_incSize (by rw [hl]) _ _) trivial
        (hR (hown rfl))
  | broadcast | signal =>
      obtain ⟨rfl, rfl, rfl⟩ := hstmt
      exact h.producer_owner (hown rfl) rfl (ho (by decide) _ _) trivial (hR (hown rfl))
  | idle | blocked => cases hstmt

end Producer

/-! ## Notifications and calls -/

omit [DecidableEq W] [DecidableEq P] in
/-- The invariant does not see threads that change to similar local states. -/
theorem PoolGuarded.similar {s' : PoolState W P F A} (h : PoolGuarded start s)
    (hlock : s'.shared.lock = s.shared.lock) (hobject : s'.config.object = s.config.object)
    (hworker : ∀ w, (handOverSection F A).Similar (.inl (s.worker w)) (.inl (s'.worker w)))
    (hproducer : ∀ p,
      (handOverSection F A).Similar (.inr (s.producer p)) (.inr (s'.producer p))) :
    PoolGuarded start s' := by
  have hsim := Guarded.similar h s'.config.loc (by
    rintro (w | p)
    · exact hworker w
    · exact hproducer p)
  have hconfig : s'.config = { s.config with loc := s'.config.loc } := by
    show Config.mk s'.shared.lock s'.config.loc s'.config.object
      = Config.mk s.shared.lock s'.config.loc s.config.object
    rw [hlock, hobject]
  rw [PoolGuarded, hconfig]
  exact hsim

theorem similar_wake_worker (l : Worker F A) :
    (handOverSection F A).Similar (.inl l) (.inl l.wake) := by
  obtain ⟨pc, t⟩ := l
  cases pc <;> exact Section.Similar.refl _

theorem similar_wake_producer (l : Producer F A) :
    (handOverSection F A).Similar (.inr l) (.inr l.wake) := by
  obtain ⟨pc, t⟩ := l
  cases pc <;> exact Section.Similar.refl _

omit [DecidableEq P] in
/-- One worker woken. -/
theorem similar_update_wake (s : PoolState W P F A) (w v : W) :
    (handOverSection F A).Similar (.inl (s.worker v))
      (.inl (Function.update s.worker w (s.worker w).wake v)) := by
  by_cases hv : v = w
  · subst hv
    rw [Function.update_self]
    exact similar_wake_worker _
  · rw [Function.update_of_ne hv]
    exact Section.Similar.refl _

variable [Fintype W]

omit [DecidableEq P] in
/-- A notification keeps the pool guarded. -/
theorem PoolGuarded.deliver {s' : PoolState W P F A} (h : PoolGuarded start s) {n : Notify}
    {woken : Option W} (hd : deliver n woken s = some s') : PoolGuarded start s' := by
  cases n with
  | nobody =>
      obtain rfl := Option.some.inj hd
      exact h
  | broadcastNotEmpty =>
      obtain rfl := Option.some.inj hd
      exact h.similar rfl rfl (fun w => similar_wake_worker _) (fun _ => Section.Similar.refl _)
  | broadcastNotFull =>
      obtain rfl := Option.some.inj hd
      exact h.similar rfl rfl (fun _ => Section.Similar.refl _) (fun p => similar_wake_producer _)
  | signalNotEmpty =>
      cases woken with
      | none =>
          simp only [ThreadPool.deliver] at hd
          split_ifs at hd
          obtain rfl := Option.some.inj hd
          exact h
      | some w =>
          simp only [ThreadPool.deliver] at hd
          split_ifs at hd
          obtain rfl := Option.some.inj hd
          exact h.similar rfl rfl (similar_update_wake s w) (fun _ => Section.Similar.refl _)

omit [DecidableEq P] in
theorem shared_deliver {s' : PoolState W P F A} {n : Notify} {woken : Option W}
    (hd : ThreadPool.deliver n woken s = some s') : s'.shared = s.shared := by
  cases n <;> cases woken <;> simp only [ThreadPool.deliver] at hd <;>
    (try split_ifs at hd) <;> obtain rfl := Option.some.inj hd <;> rfl

/-- No statement of a worker or of a producer writes `shutdown`. -/
theorem shutdown_workerStmt {T : Type*} {me : T} {sh sh' : Shared T F A}
    {l l' : Worker F A} {n : Notify} (h : workerStmt me sh l = some (sh', l', n)) :
    sh'.pool.shutdown = sh.pool.shutdown := by
  obtain ⟨pc, t⟩ := l
  cases pc <;> simp only [workerStmt] at h <;> (try split_ifs at h) <;>
    (try cases h) <;> rfl

theorem shutdown_addStmt {T : Type*} {me : T} {sh sh' : Shared T F A}
    {l l' : Producer F A} {n : Notify} (h : addStmt me sh l = some (sh', l', n)) :
    sh'.pool.shutdown = sh.pool.shutdown := by
  obtain ⟨pc, t⟩ := l
  cases pc <;> simp only [addStmt] at h <;> (try split_ifs at h) <;>
    (try cases h) <;> rfl

/-- The invariant of the runs: the pool is guarded and never shut down. -/
structure HandOverInv (start : Fifo F A) (s : PoolState W P F A) : Prop where
  guarded : PoolGuarded start s
  running : s.shared.pool.shutdown = false

/-- **Every step that meets `LockedPass` keeps the invariant.** -/
theorem handOverInv_step (hq : 1 ≤ queueMaxSize) {s' : PoolState W P F A}
    (h : HandOverInv (fifoCreate minThrNum maxThrNum queueMaxSize junk) s) {m : Move W P F A}
    (hok : LockedPass s m) (hstep : poolStep m s = some s') :
    HandOverInv (fifoCreate minThrNum maxThrNum queueMaxSize junk) s' := by
  cases m with
  | worker w =>
      simp only [poolStep, Option.bind_eq_bind, Option.bind_eq_some_iff] at hstep
      obtain ⟨⟨sh, l, n⟩, hstmt, hd⟩ := hstep
      refine ⟨(h.guarded.workerStmt hq h.running hok hstmt).deliver hd, ?_⟩
      rw [shared_deliver hd]
      exact (shutdown_workerStmt hstmt).trans h.running
  | producer p woken =>
      simp only [poolStep, Option.bind_eq_bind, Option.bind_eq_some_iff] at hstep
      obtain ⟨⟨sh, l, n⟩, hstmt, hd⟩ := hstep
      refine ⟨(h.guarded.addStmt hq h.running hstmt).deliver hd, ?_⟩
      rw [shared_deliver hd]
      exact (shutdown_addStmt hstmt).trans h.running
  | call p function arg =>
      simp only [poolStep] at hstep
      split_ifs at hstep with hidle
      obtain rfl := Option.some.inj hstep
      refine ⟨h.guarded.similar rfl rfl (fun _ => Section.Similar.refl _) (fun v => ?_), h.running⟩
      by_cases hv : v = p
      · subst hv
        rcases hl : s.producer v with ⟨pc, t⟩
        rw [hl] at hidle
        obtain rfl : pc = .idle := hidle
        simp only [Function.update_self]
        exact Section.Similar.refl _
      · simp only [Function.update_of_ne hv]
        exact Section.Similar.refl _
  | wakeWorker w =>
      simp only [poolStep] at hstep
      split_ifs at hstep
      obtain rfl := Option.some.inj hstep
      exact ⟨h.guarded.similar rfl rfl (similar_update_wake s w)
        (fun _ => Section.Similar.refl _), h.running⟩
  | wakeProducer p =>
      simp only [poolStep] at hstep
      split_ifs at hstep
      obtain rfl := Option.some.inj hstep
      refine ⟨h.guarded.similar rfl rfl (fun _ => Section.Similar.refl _) (fun v => ?_), h.running⟩
      by_cases hv : v = p
      · subst hv
        simp only [Function.update_self]
        exact similar_wake_producer _
      · simp only [Function.update_of_ne hv]
        exact Section.Similar.refl _

/-- **The hand-over under the lock.**  For every capacity, any number of workers
and producers and every interleaving of their statements in which a worker passes
line 95 towards the queue only with the lock, and waits only while no other thread
owns it: the size stays within its bounds, no worker copies from an empty queue,
and the tasks copied out are the first tasks stored, each once and in order. -/
theorem handOver_of_lockedPass (hq : 1 ≤ queueMaxSize) {locals : W → Task F A}
    {calls : P → Task F A} {s : PoolState W P F A}
    (hs : Reach poolStep LockedPass
      (poolStart minThrNum maxThrNum queueMaxSize junk locals calls) s) :
    HandOver queueMaxSize s := by
  have hstart : HandOverInv (fifoCreate minThrNum maxThrNum queueMaxSize junk)
      (poolStart minThrNum maxThrNum queueMaxSize junk locals calls : PoolState W P F A) := by
    refine ⟨⟨?_, ?_, Reach.start⟩, rfl⟩ <;> rintro (w | p) h <;> exact Bool.noConfusion h
  have hinv := hs.invariant hstart (fun _ _ _ h hok hstep => handOverInv_step hq h hok hstep)
  exact handOver_of_guarded hq hinv.guarded

end Steps

/-! ## A run with the lock and a run without it -/

/-- The statements of one call of `threadpool_add` on a queue with room and a
cleared slot, from the call to the return. -/
def addMoves (function : ℕ) (woken : Option Bool) : List (Move Bool Unit ℕ ℕ) :=
  .call () function none
    :: List.replicate 8 (.producer () none) ++ [.producer () woken, .producer () none]

/-- Two workers, one producer and a queue of capacity one, all slots cleared. -/
def smallPool : PoolState Bool Unit ℕ ℕ :=
  poolStart 2 2 1 (fun _ => ⟨0, none⟩) (fun _ => ⟨0, none⟩) (fun _ => ⟨0, none⟩)

/-- The run with the lock: a worker blocks on the empty queue, is woken by the
signal of `threadpool_add` and copies the task. -/
theorem handOver_of_lockedPass_smallPool :
    ∃ s, Reach poolStep LockedPass smallPool s ∧ s.taken = [(false, ⟨7, none⟩)]
      ∧ HandOver 1 s := by
  obtain ⟨s, hs, htaken⟩ : ∃ s, Reach poolStep LockedPass smallPool s
      ∧ s.taken = [(false, ⟨7, none⟩)] :=
    exists_reach_of_run
      (List.replicate 2 (Move.worker false) ++ addMoves 7 (some false)
        ++ List.replicate 6 (Move.worker false)) (by decide)
  exact ⟨s, hs, htaken, handOver_of_lockedPass (by decide) hs⟩

/-- **Two workers copy one task.**  A producer stores one task before the two
workers reach line 95.  Neither of them blocks, so neither owns the lock; both
copy the task, both decrement the size, and it ends below zero. -/
theorem two_workers_copy_one_task :
    ∃ s, Reachable poolStep smallPool s
      ∧ (s.stored = [⟨7, none⟩] ∧ s.taken = [(false, ⟨7, none⟩), (true, ⟨7, none⟩)]
        ∧ s.shared.pool.queueSize = -1)
      ∧ ¬ HandOver 1 s := by
  obtain ⟨s, hs, hrun⟩ : ∃ s, Reachable poolStep smallPool s
      ∧ (s.stored = [⟨7, none⟩] ∧ s.taken = [(false, ⟨7, none⟩), (true, ⟨7, none⟩)]
        ∧ s.shared.pool.queueSize = -1) :=
    exists_reach_of_run
      (addMoves 7 none ++ List.replicate 4 (Move.worker false) ++ List.replicate 4 (Move.worker true)
        ++ List.replicate 2 (Move.worker false) ++ List.replicate 2 (Move.worker true)) (by decide)
  refine ⟨s, hs, hrun, fun h => ?_⟩
  have hlen := h.taken_prefix.length_le
  rw [hrun.1, hrun.2.1] at hlen
  exact absurd hlen (by decide)

end ThreadPool
