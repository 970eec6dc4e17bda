/-
# The lock discipline of the pool (`threadpool/main.c`)

A thread should lock only a mutex that it does not own, unlock a mutex or wait with it only
while it owns it, own none when it exits, destroy a mutex only while nobody owns it, and
write the fields of the queue and the counters `live_thr_num` and `wait_exit_thr_num` only
while it owns `lock`.  `System.Obeys` says so of the statement that a thread executes next.

`threadpool_add` and `adjust_thread` keep to it.  `threadpool_thread` never locks the mutex
with which it waits and under which it takes a task, exits with the mutex it has locked at
the shutdown, and `threadpool_free` destroys the mutex it has just locked.

* `obeys_iff_of_reach`: up to the first of these statements every statement obeys, and each
  of them does not;
* `waits_without_lock`: the first worker of the pool of `main` gets to one of them at once.
-/
import NetStudy.CriticalSection
import NetStudy.PoolHandOver
import NetStudy.PoolSystem

namespace ThreadPool

open Transition CriticalSection

variable {T P F A : Type*}

/-! ## What a statement does with the mutexes -/

/-- The mutexes of the pool. -/
inductive Mutex
  | lock
  | threadCounter
  deriving DecidableEq

/-- The owner of a mutex. -/
def Shared.owner (sh : Shared T F A) : Mutex → Option T
  | .lock => sh.lock
  | .threadCounter => sh.threadCounter

/-- What a statement does with a mutex, or with what `lock` protects. -/
inductive Use
  /-- `pthread_mutex_lock`. -/
  | lock (m : Mutex)
  /-- `pthread_mutex_unlock`, or `pthread_cond_wait` with this mutex. -/
  | release (m : Mutex)
  /-- `pthread_mutex_destroy`. -/
  | destroy (m : Mutex)
  /-- The thread exits. -/
  | exit
  /-- `queue_front`, `queue_rear`, `queue_size`, `live_thr_num` or `wait_exit_thr_num` is
  written. -/
  | write
  /-- Nothing of these. -/
  | other
  deriving DecidableEq

/-- The statements of `threadpool_thread`. -/
def WorkerPc.use : WorkerPc → Use
  | .condWait | .unlock => Use.release Mutex.lock
  | .retireLock | .shutdownLock => Use.lock Mutex.lock
  | .busyLock | .idleLock => Use.lock Mutex.threadCounter
  | .busyUnlock | .idleUnlock => Use.release Mutex.threadCounter
  | .exitDec | .liveDec | .advanceFront | .decSize => Use.write
  | _ => Use.other

/-- The statements of a worker. -/
def PoolWorker.use (l : PoolWorker F A) : Use :=
  match l.exit with
  | .running => l.body.pc.use
  | .retireExit | .exit => Use.exit
  | .detach | .ended => Use.other

/-- The statements of `threadpool_add`. -/
def ProducerPc.use : ProducerPc → Use
  | .lock => Use.lock Mutex.lock
  | .condWait | .shutdownUnlock | .unlock => Use.release Mutex.lock
  | .advanceRear | .incSize => Use.write
  | _ => Use.other

/-- The statements of `adjust_thread`. -/
def AdjustPc.use : AdjustPc → Use
  | .sizesLock | .growLock | .shrinkLock => Use.lock Mutex.lock
  | .sizesUnlock | .growUnlock | .shrinkUnlock => Use.release Mutex.lock
  | .busyLock => Use.lock Mutex.threadCounter
  | .busyUnlock => Use.release Mutex.threadCounter
  | .incLive | .setWaitExit => Use.write
  | .ret => Use.exit
  | _ => Use.other

/-- The statements of `treadpool_destory` and `threadpool_free`. -/
def DestroyPc.use : DestroyPc → Use
  | .lock => Use.lock Mutex.lock
  | .destroyLock => Use.destroy Mutex.lock
  | .counterLock => Use.lock Mutex.threadCounter
  | .destroyCounter => Use.destroy Mutex.threadCounter
  | _ => Use.other

/-- What the next statement of a thread does. -/
def System.use (s : System P F A) : PoolThread P → Use
  | .worker w => (s.worker w).use
  | .producer p => (s.producer p).pc.use
  | .manager => s.manager.pc.use
  | .destroyer => s.destroyer.pc.use

/-- **The discipline.**  The thread `t` may do this. -/
def Shared.Allows (sh : Shared T F A) (t : T) : Use → Prop
  | .lock m => sh.owner m ≠ some t
  | .release m => sh.owner m = some t
  | .destroy m => sh.owner m = none
  | .exit => ∀ m, sh.owner m ≠ some t
  | .write => sh.owner Mutex.lock = some t
  | .other => True

/-- The next statement of `t` obeys. -/
def System.Obeys (s : System P F A) (t : PoolThread P) : Prop := s.shared.Allows t (s.use t)

/-! ## The statements that do not obey -/

/-- Lines 97 and 130 of a worker in its loop, and line 121. -/
def PoolWorker.careless (l : PoolWorker F A) : Bool :=
  match l.exit, l.body.pc with
  | .running, .condWait => true
  | .running, .advanceFront => true
  | .exit, _ => true
  | _, _ => false

/-- The next statement of the thread is line 97, 121 or 130 of a worker, or line 75. -/
def System.careless (s : System P F A) : PoolThread P → Bool
  | .worker w => (s.worker w).careless
  | .destroyer => s.destroyer.pc = DestroyPc.destroyLock
  | _ => false

/-- The thread that makes a step. -/
def SystemMove.thread : SystemMove P F A → Option (PoolThread P)
  | .worker w => some (PoolThread.worker w)
  | .producer p _ => some (PoolThread.producer p)
  | .manager _ => some PoolThread.manager
  | .destroyer => some PoolThread.destroyer
  | _ => none

/-- The condition on a step: it is none of these statements. -/
def Careful (s : System P F A) (m : SystemMove P F A) : Prop :=
  ∀ t ∈ m.thread, s.careless t = false

instance (s : System P F A) (m : SystemMove P F A) : Decidable (Careful s m) :=
  inferInstanceAs (Decidable (∀ t ∈ m.thread, s.careless t = false))

/-! ## Where the threads own a mutex -/

/-- A worker in such a run: it has not got past line 97 or line 130. -/
def PoolWorker.early (l : PoolWorker F A) : Bool :=
  match l.exit, l.body.pc with
  | .running, .loopTest | .running, .condWait | .running, .shutdownTest => true
  | .running, .shutdownLock | .running, .copyFunction | .running, .copyArg => true
  | .running, .advanceFront => true
  | .detach, _ | .exit, _ => true
  | _, _ => false

/-- It owns `lock` behind line 118. -/
def PoolWorker.inside (l : PoolWorker F A) : Mutex → Bool
  | .lock => l.exit = ExitPc.detach || l.exit = ExitPc.exit
  | .threadCounter => false

/-- A thread inside `threadpool_add`. -/
def Producer.inside (l : Producer F A) : Mutex → Bool
  | .lock => l.pc.inside
  | .threadCounter => false

/-- The manager. -/
def AdjustPc.inside : AdjustPc → Mutex → Bool
  | .readSize, .lock | .readLive, .lock | .sizesUnlock, .lock => true
  | .readBusy, .threadCounter | .busyUnlock, .threadCounter => true
  | .growTest, .lock | .slotTest, .lock | .create, .lock | .incAdd, .lock => true
  | .incLive, .lock | .growUnlock, .lock | .setWaitExit, .lock | .shrinkUnlock, .lock => true
  | _, _ => false

/-- The destroying thread. -/
def DestroyPc.inside : DestroyPc → Mutex → Bool
  | .destroyLock, .lock => true
  | _, _ => false

/-- The destroying thread has not got past line 75. -/
def DestroyPc.beforeDestroy : DestroyPc → Bool
  | .counterLock | .destroyCounter | .freePool | .returned => false
  | _ => true

/-- The mutexes that the threads own by their program counters. -/
def System.inside (s : System P F A) (m : Mutex) : PoolThread P → Bool
  | .worker w => (s.worker w).inside m
  | .producer p => (s.producer p).inside m
  | .manager => s.manager.pc.inside m
  | .destroyer => s.destroyer.pc.inside m

/-- The invariant of the careful runs. -/
structure LockInv (s : System P F A) : Prop where
  owned : OwnedInside s.shared.owner s.inside
  worker : ∀ w, (s.worker w).early = true
  destroyer : s.destroyer.pc.beforeDestroy = true

theorem lockInv_start (minThrNum maxThrNum : ℤ) (queueMaxSize : ℕ) (junk : ℕ → Task F A)
    (locals : ℕ → Task F A) (calls : P → Task F A) :
    LockInv (systemStart minThrNum maxThrNum queueMaxSize junk locals calls) := by
  refine ⟨?_, fun _ => rfl, rfl⟩
  intro m t
  cases m <;> cases t <;> simp [systemStart, Shared.owner, System.inside, PoolWorker.inside,
    Producer.inside, ProducerPc.inside, AdjustPc.inside, DestroyPc.inside]

/-! ## The statements move the mutexes -/

/-- A statement of `threadpool_add`. -/
theorem addStmt_lockMove {me : T} {sh sh' : Shared T F A} {l l' : Producer F A} {n : Notify}
    (h : addStmt me sh l = some (sh', l', n)) (m : Mutex) :
    LockMove me (sh.owner m) (sh'.owner m) (l.inside m) (l'.inside m) := by
  cases m with
  | threadCounter =>
      obtain ⟨q, lock, rfl⟩ := addStmt_shared h
      exact Or.inl ⟨rfl, rfl⟩
  | lock =>
      obtain ⟨pc, task⟩ := l
      cases pc with
      | lock | woken =>
          simp only [addStmt] at h
          split_ifs at h with hfree
          cases h
          exact Or.inr (Or.inl ⟨hfree, rfl, rfl⟩)
      | condWait | shutdownUnlock | unlock =>
          cases h
          exact Or.inr (Or.inr ⟨rfl, rfl, rfl⟩)
      | _ =>
          simp only [addStmt] at h
          (try split_ifs at h) <;> (try cases h) <;> exact Or.inl ⟨rfl, rfl⟩

/-- A statement of `adjust_thread`. -/
theorem adjustStmt_lockMove {me : T} {started started' : ℕ} {sh sh' : Shared T F A}
    {l l' : Adjuster} {n : Notify} (h : adjustStmt me started sh l = some (started', sh', l', n))
    (m : Mutex) :
    LockMove me (sh.owner m) (sh'.owner m) (l.pc.inside m) (l'.pc.inside m) := by
  obtain ⟨pc, queueSize, liveThrNum, busyThrNum, i, add⟩ := l
  cases pc with
  | sizesLock | growLock | shrinkLock =>
      simp only [adjustStmt] at h
      split_ifs at h with hfree
      cases h
      cases m with
      | lock => exact Or.inr (Or.inl ⟨hfree, rfl, rfl⟩)
      | threadCounter => exact Or.inl ⟨rfl, rfl⟩
  | busyLock =>
      simp only [adjustStmt] at h
      split_ifs at h with hfree
      cases h
      cases m with
      | lock => exact Or.inl ⟨rfl, rfl⟩
      | threadCounter => exact Or.inr (Or.inl ⟨hfree, rfl, rfl⟩)
  | sizesUnlock | growUnlock | shrinkUnlock =>
      cases h
      cases m with
      | lock => exact Or.inr (Or.inr ⟨rfl, rfl, rfl⟩)
      | threadCounter => exact Or.inl ⟨rfl, rfl⟩
  | busyUnlock =>
      cases h
      cases m with
      | lock => exact Or.inl ⟨rfl, rfl⟩
      | threadCounter => exact Or.inr (Or.inr ⟨rfl, rfl, rfl⟩)
  | _ =>
      simp only [adjustStmt] at h
      (try split_ifs at h) <;> (try cases h) <;> cases m <;> exact Or.inl ⟨rfl, rfl⟩

/-- **A statement of a worker that is none of the three** takes the mutex on line 118 at
most. -/
theorem poolWorkerStmt_lockMove {me : T} {sh sh' : Shared T F A} {l l' : PoolWorker F A}
    {n : Notify} (hearly : l.early = true) (hcareful : l.careless = false)
    (h : poolWorkerStmt me sh l = some (sh', l', n)) :
    l'.early = true ∧
      ∀ m, LockMove me (sh.owner m) (sh'.owner m) (l.inside m) (l'.inside m) := by
  obtain ⟨⟨pc, task⟩, out⟩ := l
  cases out with
  | running =>
      obtain ⟨⟨sh₁, l₁, n₁⟩, hstmt, heq⟩ := Option.map_eq_some_iff.mp h
      cases heq
      cases pc with
      | shutdownLock =>
          simp only [workerStmt] at hstmt
          split_ifs at hstmt with hfree
          cases hstmt
          refine ⟨rfl, fun m => ?_⟩
          cases m with
          | lock => exact Or.inr (Or.inl ⟨hfree, rfl, rfl⟩)
          | threadCounter => exact Or.inl ⟨rfl, rfl⟩
      | loopTest | shutdownTest =>
          simp only [workerStmt] at hstmt
          split_ifs at hstmt <;> cases hstmt <;>
            exact ⟨rfl, fun m => Or.inl ⟨rfl, by cases m <;> rfl⟩⟩
      | copyFunction | copyArg =>
          cases hstmt
          exact ⟨rfl, fun m => Or.inl ⟨rfl, by cases m <;> rfl⟩⟩
      | condWait | advanceFront => cases hcareful
      | _ => cases hearly
  | detach =>
      cases h
      exact ⟨rfl, fun m => Or.inl ⟨rfl, by cases m <;> rfl⟩⟩
  | exit => cases hcareful
  | retireExit | ended => cases hearly

/-! ## The careful runs -/

/-- A wake-up is no matter to a worker that does not wait. -/
theorem PoolWorker.early_wake {l : PoolWorker F A} (h : l.early = true) : l.wake.early = true := by
  obtain ⟨⟨pc, task⟩, out⟩ := l
  cases out <;> cases pc <;> exact h

theorem PoolWorker.inside_wake (l : PoolWorker F A) : l.wake.inside = l.inside := rfl

theorem Producer.inside_wake (l : Producer F A) : l.wake.inside = l.inside := by
  obtain ⟨pc, task⟩ := l
  cases pc <;> rfl

/-- Wake-ups keep the invariant. -/
theorem LockInv.woken {s s' : System P F A} (h : LockInv s) (hwoken : s.Woken s') :
    LockInv s' := by
  obtain ⟨wk, pr, rfl, hwk, hpr⟩ := hwoken
  have hwin : ∀ w, (wk w).inside = (s.worker w).inside := by
    intro w
    rcases hwk w with heq | heq
    · rw [heq]
    · rw [heq, PoolWorker.inside_wake]
  have hpin : ∀ p, (pr p).inside = (s.producer p).inside := by
    intro p
    rcases hpr p with heq | heq
    · rw [heq]
    · rw [heq, Producer.inside_wake]
  have hinside : System.inside { s with worker := wk, producer := pr } = s.inside := by
    funext m t
    cases t with
    | worker w => exact congrFun (hwin w) m
    | producer p => exact congrFun (hpin p) m
    | manager | destroyer => rfl
  refine ⟨?_, ?_, h.destroyer⟩
  · rw [hinside]
    exact h.owned
  · intro w
    show (wk w).early = true
    rcases hwk w with heq | heq
    · rw [heq]
      exact h.worker w
    · rw [heq]
      exact PoolWorker.early_wake (h.worker w)

/-- A statement of the destroying thread before line 75. -/
theorem LockInv.destroyStmt {s s' : System P F A} (h : LockInv s)
    (hcareful : s.careless PoolThread.destroyer = false) (hs : s.destroyStmt = some s') :
    LockInv s' := by
  have hdestroy : s.destroyer.pc ≠ DestroyPc.destroyLock := by
    simpa [System.careless] using hcareful
  have hmove : ∀ {s₁ : System P F A}, s₁.worker = s.worker → s₁.producer = s.producer →
      s₁.manager = s.manager → s₁.destroyer.pc.beforeDestroy = true →
      (∀ m, LockMove PoolThread.destroyer (s.shared.owner m) (s₁.shared.owner m)
        (s.destroyer.pc.inside m) (s₁.destroyer.pc.inside m)) → LockInv s₁ := by
    intro s₁ hworker hproducer hmanager hbefore hself
    refine ⟨h.owned.step PoolThread.destroyer ?_ hself, ?_, hbefore⟩
    · intro m u hu
      cases u with
      | destroyer => exact absurd rfl hu
      | _ => simp only [System.inside, hworker, hproducer, hmanager]
    · rw [hworker]
      exact h.worker
  have hbefore := h.destroyer
  unfold System.destroyStmt at hs
  cases hpc : s.destroyer.pc with
  | destroyLock => exact absurd hpc hdestroy
  | counterLock | destroyCounter | freePool | returned =>
      rw [hpc] at hbefore
      cases hbefore
  | setShutdown =>
      simp only [hpc] at hs
      cases hs
      refine hmove rfl rfl rfl rfl (fun m => Or.inl ⟨?_, ?_⟩)
      · cases m <;> rfl
      · rw [hpc]
        cases m <;> rfl
  | lock =>
      simp only [hpc] at hs
      split_ifs at hs with hfree
      cases hs
      refine hmove rfl rfl rfl rfl (fun m => ?_)
      cases m with
      | lock => exact Or.inr (Or.inl ⟨hfree, rfl, rfl⟩)
      | threadCounter =>
          rw [hpc]
          exact Or.inl ⟨rfl, rfl⟩
  | broadcast =>
      simp only [hpc] at hs
      cases hs
      have hgo : LockInv { s with
          destroyer := ⟨DestroyPc.broadcastTest, s.destroyer.i + 1⟩ } := by
        refine hmove rfl rfl rfl rfl (fun m => Or.inl ⟨rfl, ?_⟩)
        rw [hpc]
        cases m <;> rfl
      exact hgo.woken ⟨_, s.producer, rfl, fun _ => Or.inr rfl, fun _ => Or.inl rfl⟩
  | join =>
      simp only [hpc] at hs
      unfold System.joinWorker at hs
      split at hs
      · cases hs
      · split_ifs at hs
        cases hs
        refine hmove rfl rfl rfl rfl (fun m => Or.inl ⟨rfl, ?_⟩)
        rw [hpc]
        cases m <;> rfl
  | _ =>
      simp only [hpc] at hs
      (try split_ifs at hs) <;> (try cases hs) <;>
        refine hmove rfl rfl rfl rfl (fun m => Or.inl ⟨rfl, ?_⟩) <;>
        rw [hpc] <;> cases m <;> rfl

/-- A worker moves. -/
theorem LockInv.setWorker {s : System P F A} (h : LockInv s) {w : ℕ}
    {sh : Shared (PoolThread P) F A} {l : PoolWorker F A} (hearly : l.early = true)
    (hself : ∀ m, LockMove (PoolThread.worker w) (s.shared.owner m) (sh.owner m)
      ((s.worker w).inside m) (l.inside m)) : LockInv (s.setWorker w sh l) := by
  refine ⟨h.owned.step (PoolThread.worker w) ?_ ?_, ?_, h.destroyer⟩
  · intro m u hu
    cases u with
    | worker v =>
        have hv : v ≠ w := fun heq => hu (congrArg PoolThread.worker heq)
        show (Function.update s.worker w l v).inside m = (s.worker v).inside m
        rw [Function.update_of_ne hv]
    | _ => rfl
  · intro m
    have hl : (s.setWorker w sh l).inside m (PoolThread.worker w) = l.inside m := by
      show (Function.update s.worker w l w).inside m = _
      rw [Function.update_self]
    rw [hl]
    exact hself m
  · intro v
    show (Function.update s.worker w l v).early = true
    by_cases hv : v = w
    · rw [hv, Function.update_self]
      exact hearly
    · rw [Function.update_of_ne hv]
      exact h.worker v

/-- The manager moves. -/
theorem LockInv.setManager {s : System P F A} (h : LockInv s) {started : ℕ}
    {sh : Shared (PoolThread P) F A} {l : Adjuster}
    (hself : ∀ m, LockMove PoolThread.manager (s.shared.owner m) (sh.owner m)
      (s.manager.pc.inside m) (l.pc.inside m)) : LockInv (s.setManager started sh l) := by
  refine ⟨h.owned.step PoolThread.manager ?_ hself, h.worker, h.destroyer⟩
  intro m u hu
  cases u with
  | manager => exact absurd rfl hu
  | _ => rfl

/-! ## Who obeys -/

/-- A worker before line 97 and line 130, or behind line 118. -/
theorem PoolWorker.allows_iff {t : T} {sh : Shared T F A} {l : PoolWorker F A}
    (hearly : l.early = true) (hown : ∀ m, sh.owner m = some t ↔ l.inside m = true) :
    sh.Allows t l.use ↔ l.careless = false := by
  obtain ⟨⟨pc, task⟩, out⟩ := l
  cases out with
  | running =>
      have hnot : ∀ m, ¬ sh.owner m = some t := by
        intro m
        rw [hown m]
        cases m <;> exact Bool.false_ne_true
      cases pc with
      | loopTest | shutdownTest | copyFunction | copyArg => exact iff_of_true trivial rfl
      | condWait | advanceFront => exact iff_of_false (hnot Mutex.lock) (fun h => by cases h)
      | shutdownLock => exact iff_of_true (hnot Mutex.lock) rfl
      | _ => cases hearly
  | detach => exact iff_of_true trivial rfl
  | exit =>
      refine iff_of_false ?_ (fun h => by cases h)
      exact fun hall => hall Mutex.lock ((hown Mutex.lock).mpr rfl)
  | retireExit | ended => cases hearly

/-- Every statement of `threadpool_add` obeys. -/
theorem Producer.allows {t : T} {sh : Shared T F A} {l : Producer F A}
    (hown : ∀ m, sh.owner m = some t ↔ l.inside m = true) : sh.Allows t l.pc.use := by
  have hlock := hown Mutex.lock
  obtain ⟨pc, task⟩ := l
  cases pc with
  | lock => exact fun h => Bool.false_ne_true (hlock.mp h)
  | condWait | shutdownUnlock | unlock | advanceRear | incSize => exact hlock.mpr rfl
  | _ => trivial

/-- Every statement of `adjust_thread` obeys. -/
theorem AdjustPc.allows {t : T} {sh : Shared T F A} {pc : AdjustPc}
    (hown : ∀ m, sh.owner m = some t ↔ pc.inside m = true) : sh.Allows t pc.use := by
  have hlock := hown Mutex.lock
  have hcounter := hown Mutex.threadCounter
  cases pc with
  | sizesLock | growLock | shrinkLock => exact fun h => Bool.false_ne_true (hlock.mp h)
  | busyLock => exact fun h => Bool.false_ne_true (hcounter.mp h)
  | sizesUnlock | growUnlock | shrinkUnlock | incLive | setWaitExit => exact hlock.mpr rfl
  | busyUnlock => exact hcounter.mpr rfl
  | ret =>
      intro m h
      have hin := (hown m).mp h
      cases m <;> cases hin
  | _ => trivial

/-- The statements of `treadpool_destory` and `threadpool_free` up to line 75. -/
theorem DestroyPc.allows_iff {t : T} {sh : Shared T F A} {pc : DestroyPc}
    (hbefore : pc.beforeDestroy = true) (hown : ∀ m, sh.owner m = some t ↔ pc.inside m = true) :
    sh.Allows t pc.use ↔ pc ≠ DestroyPc.destroyLock := by
  have hlock := hown Mutex.lock
  cases pc with
  | lock => exact iff_of_true (fun h => Bool.false_ne_true (hlock.mp h)) (by decide)
  | destroyLock =>
      have howner : sh.owner Mutex.lock = some t := hlock.mpr rfl
      refine iff_of_false ?_ (fun hne => hne rfl)
      intro hfree
      change sh.owner Mutex.lock = none at hfree
      rw [howner] at hfree
      cases hfree
  | counterLock | destroyCounter | freePool | returned => cases hbefore
  | _ => exact iff_of_true trivial (by decide)

/-- In a careful run exactly the careless statements do not obey. -/
theorem LockInv.obeys_iff {s : System P F A} (h : LockInv s) (t : PoolThread P) :
    s.Obeys t ↔ s.careless t = false := by
  have hown := fun m => h.owned m t
  cases t with
  | worker w => exact PoolWorker.allows_iff (h.worker w) hown
  | producer p => exact iff_of_true (Producer.allows hown) rfl
  | manager => exact iff_of_true (AdjustPc.allows hown) rfl
  | destroyer =>
      refine (DestroyPc.allows_iff h.destroyer hown).trans ?_
      show _ ↔ decide (s.destroyer.pc = DestroyPc.destroyLock) = false
      rw [decide_eq_false_iff_not]

/-! ## The steps -/

section Steps

variable [DecidableEq P]

/-- A producer moves. -/
theorem LockInv.setProducer {s : System P F A} (h : LockInv s) {p : P}
    {sh : Shared (PoolThread P) F A} {l : Producer F A}
    (hself : ∀ m, LockMove (PoolThread.producer p) (s.shared.owner m) (sh.owner m)
      ((s.producer p).inside m) (l.inside m)) : LockInv (s.setProducer p sh l) := by
  refine ⟨h.owned.step (PoolThread.producer p) ?_ ?_, h.worker, h.destroyer⟩
  · intro m u hu
    cases u with
    | producer q =>
        have hq : q ≠ p := fun heq => hu (congrArg PoolThread.producer heq)
        show (Function.update s.producer p l q).inside m = (s.producer q).inside m
        rw [Function.update_of_ne hq]
    | _ => rfl
  · intro m
    have hl : (s.setProducer p sh l).inside m (PoolThread.producer p) = l.inside m := by
      show (Function.update s.producer p l p).inside m = _
      rw [Function.update_self]
    rw [hl]
    exact hself m

/-- **A careful step.** -/
theorem LockInv.step {s s' : System P F A} (h : LockInv s) {m : SystemMove P F A}
    (hok : Careful s m) (hs : systemStep m s = some s') : LockInv s' := by
  cases moves_of_systemStep hs with
  | @worker w sh l n _ _ hstmt hwoken =>
      obtain ⟨hearly, hself⟩ := poolWorkerStmt_lockMove (h.worker w)
        (hok (PoolThread.worker w) rfl) hstmt
      exact (h.setWorker hearly hself).woken hwoken
  | producer hstmt hwoken =>
      exact (h.setProducer (fun m => addStmt_lockMove hstmt m)).woken hwoken
  | call hidle =>
      apply h.setProducer
      intro m
      refine Or.inl ⟨rfl, ?_⟩
      cases m with
      | lock =>
          show ProducerPc.inside .lock = ProducerPc.inside _
          rw [hidle]
          rfl
      | threadCounter => rfl
  | manager hstmt hwoken =>
      exact (h.setManager (fun m => adjustStmt_lockMove hstmt m)).woken hwoken
  | destroyer hstmt => exact h.destroyStmt (hok PoolThread.destroyer rfl) hstmt
  | wake hwoken => exact h.woken hwoken

/-- **The lock discipline.**  In every state that is reached without a wait on line 97, a task
taken on line 130, an exit on line 121 and the destruction on line 75, each thread is about to
obey, unless its next statement is one of these; and then it is not. -/
theorem obeys_iff_of_reach {minThrNum maxThrNum : ℤ} {queueMaxSize : ℕ} {junk : ℕ → Task F A}
    {locals : ℕ → Task F A} {calls : P → Task F A} {s : System P F A}
    (hreach : Reach systemStep Careful
      (systemStart minThrNum maxThrNum queueMaxSize junk locals calls) s) (t : PoolThread P) :
    s.Obeys t ↔ s.careless t = false := by
  have h : LockInv s :=
    hreach.invariant (lockInv_start minThrNum maxThrNum queueMaxSize junk locals calls)
      (fun _ _ _ h hok hs => h.step hok hs)
  exact h.obeys_iff t

end Steps

/-! ## A call of `threadpool_add`, and a worker that waits -/

/-- The producer has the lock and has stored a task, the manager waits for the lock, and the
first worker is about to take the task: it is the only one of them that does not obey. -/
theorem obeys_iff_storing :
    ∃ s, Reach systemStep Careful mainPool s ∧
      (s.shared.lock = some (PoolThread.producer ()) ∧ s.shared.pool.queueSize = 1 ∧
        s.careless (PoolThread.worker 0) = true) ∧
      ∀ t, s.Obeys t ↔ s.careless t = false := by
  obtain ⟨s, hreach, hs⟩ : ∃ s, Reach systemStep Careful mainPool s ∧
      (s.shared.lock = some (PoolThread.producer ()) ∧ s.shared.pool.queueSize = 1 ∧
        s.careless (PoolThread.worker 0) = true) :=
    exists_reach_of_run
      (.call () 7 none :: .manager none :: List.replicate 8 (.producer () none)
        ++ List.replicate 4 (.worker 0)) (by decide +kernel)
  exact ⟨s, hreach, hs, fun t => obeys_iff_of_reach hreach t⟩

/-- The first worker finds the queue empty and is about to wait with a mutex that it does not
own. -/
theorem waits_without_lock :
    ∃ s, Reachable systemStep mainPool s ∧
      (systemStep (.worker 0) s).isSome = true ∧ ¬ s.Obeys (PoolThread.worker 0) := by
  obtain ⟨s, hreach, hsome, hpc, hlock⟩ : ∃ s, Reachable systemStep mainPool s ∧
      ((systemStep (.worker 0) s).isSome = true ∧
        s.use (PoolThread.worker 0) = Use.release Mutex.lock ∧ s.shared.lock = none) :=
    exists_reach_of_run [.worker 0] (by decide +kernel)
  refine ⟨s, hreach, hsome, ?_⟩
  unfold System.Obeys
  rw [hpc]
  intro hown
  change s.shared.lock = some (PoolThread.worker 0) at hown
  rw [hlock] at hown
  cases hown

end ThreadPool
