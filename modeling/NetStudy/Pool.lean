/-
# The thread pool record and its task queue (`threadpool/main.c`)

The fields of `threadpool_t`, what `threadpool_create` puts into them, and the
single statements that `threadpool_add` and `threadpool_thread` execute on the
circular task queue:

* lines 309-322 of `threadpool_add` store a task (`TaskQueue.store`);
* lines 124-131 of `threadpool_thread` take one (`TaskQueue.take`).

Every statement is a function of its own, so that a whole pass and an
interleaving of single statements are built from the same pieces.  The counters
are C `int`s and are read as integers; the two indices never leave
`0 … queue_max_size - 1` and are naturals.  The task function and its argument
are of arbitrary types `F` and `A`, and `none` is the argument `NULL`.
-/
import NetStudy.CyclicWindow

namespace ThreadPool

open CyclicWindow

/-- `threadpool_task_t`: a function pointer and its argument. -/
structure Task (F A : Type*) where
  function : F
  arg : Option A
  deriving DecidableEq

/-- The queue fields of `threadpool_t`. -/
structure TaskQueue (F A : Type*) where
  taskQueue : ℕ → Task F A
  queueFront : ℕ
  queueRear : ℕ
  queueSize : ℤ
  queueMaxSize : ℕ

/-- `threadpool_t`, without its two mutexes, its two condition variables and the
manager's id.  The slots of `threads` are thread ids, with `0` for a slot that
`memset` has cleared. -/
structure Pool (F A : Type*) extends TaskQueue F A where
  threads : ℕ → ℕ
  minThrNum : ℤ
  maxThrNum : ℤ
  liveThrNum : ℤ
  busyThrNum : ℤ
  waitExitThrNum : ℤ
  shutdown : Bool

variable {F A : Type*}

/-- `threadpool_create` once every allocation has succeeded (lines 235-276).  The
task array comes from `malloc` with the content `junk`; the slots of the
`min_thr_num` workers that are started hold their ids, the others are zero. -/
def threadpoolCreate (minThrNum maxThrNum : ℤ) (queueMaxSize : ℕ) (junk : ℕ → Task F A) :
    Pool F A where
  threads := fun i => if (i : ℤ) < minThrNum then i + 1 else 0
  taskQueue := junk
  minThrNum := minThrNum
  maxThrNum := maxThrNum
  liveThrNum := 0
  busyThrNum := 0
  waitExitThrNum := 0
  queueFront := 0
  queueRear := 0
  queueSize := 0
  queueMaxSize := queueMaxSize
  shutdown := false

namespace TaskQueue

/-! ## The statements on the queue -/

/-- The slot at `queue_front`. -/
def frontSlot (q : TaskQueue F A) : Task F A := q.taskQueue q.queueFront

/-- The slot at `queue_rear`. -/
def rearSlot (q : TaskQueue F A) : Task F A := q.taskQueue q.queueRear

/-- An assignment to the slot at `queue_rear`. -/
def setRearSlot (q : TaskQueue F A) (t : Task F A) : TaskQueue F A :=
  { q with taskQueue := Function.update q.taskQueue q.queueRear t }

/-- Line 311: `task_queue[queue_rear].arg = NULL`. -/
def clearArg (q : TaskQueue F A) : TaskQueue F A := q.setRearSlot { q.rearSlot with arg := none }

/-- Line 316: `task_queue[queue_rear].function = function`. -/
def setFunction (q : TaskQueue F A) (function : F) : TaskQueue F A :=
  q.setRearSlot { q.rearSlot with function := function }

/-- Line 318: `task_queue[queue_rear].arg = arg`. -/
def setArg (q : TaskQueue F A) (arg : Option A) : TaskQueue F A :=
  q.setRearSlot { q.rearSlot with arg := arg }

/-- Line 320: `queue_rear = (queue_rear + 1) % queue_max_size`. -/
def advanceRear (q : TaskQueue F A) : TaskQueue F A :=
  { q with queueRear := (q.queueRear + 1) % q.queueMaxSize }

/-- Line 322: `queue_size++`. -/
def incSize (q : TaskQueue F A) : TaskQueue F A := { q with queueSize := q.queueSize + 1 }

/-- Line 130: `queue_front = (queue_front + 1) % queue_max_size`. -/
def advanceFront (q : TaskQueue F A) : TaskQueue F A :=
  { q with queueFront := (q.queueFront + 1) % q.queueMaxSize }

/-- Line 131: `queue_size--`. -/
def decSize (q : TaskQueue F A) : TaskQueue F A := { q with queueSize := q.queueSize - 1 }

/-- Lines 309-322 of `threadpool_add` as one step. -/
def store (q : TaskQueue F A) (function : F) (arg : Option A) : TaskQueue F A :=
  let q := if q.rearSlot.arg ≠ none then q.clearArg else q
  (((q.setFunction function).setArg arg).advanceRear).incSize

/-- Lines 124-131 of `threadpool_thread` as one step: the task that is copied
out, and the pool that is left. -/
def take (q : TaskQueue F A) : Task F A × TaskQueue F A :=
  (⟨q.frontSlot.function, q.frontSlot.arg⟩, q.advanceFront.decSize)

/-! ## The list behind the circular array -/

/-- The tasks stored and not yet taken, oldest first: the cyclic window of
`queue_size` slots from `queue_front`. -/
def pending (q : TaskQueue F A) : List (Task F A) :=
  window q.taskQueue q.queueMaxSize q.queueFront q.queueSize.toNat

/-- The relation between the two indices and the size that the queue keeps.
When `queue_front = queue_rear` the queue is empty or full, and only the size
tells which. -/
structure QueueOk (q : TaskQueue F A) : Prop where
  front_lt : q.queueFront < q.queueMaxSize
  rear_eq : q.queueRear = (q.queueFront + q.queueSize.toNat) % q.queueMaxSize
  size_nonneg : 0 ≤ q.queueSize
  size_le : q.queueSize ≤ q.queueMaxSize

/-- A fresh queue of positive capacity is well formed. -/
theorem queueOk_create (minThrNum maxThrNum : ℤ) {queueMaxSize : ℕ} (junk : ℕ → Task F A)
    (h : 1 ≤ queueMaxSize) :
    (threadpoolCreate minThrNum maxThrNum queueMaxSize junk).toTaskQueue.QueueOk where
  front_lt := h
  rear_eq := (Nat.zero_mod _).symm
  size_nonneg := le_rfl
  size_le := Int.natCast_nonneg _

/-- The rear index of a well-formed queue is inside the array. -/
theorem QueueOk.rear_lt {q : TaskQueue F A} (h : q.QueueOk) : q.queueRear < q.queueMaxSize := by
  rw [h.rear_eq]
  exact Nat.mod_lt _ (by have := h.front_lt; omega)

/-! ## Storing -/

/-- The five assignments of a store amount to one write of the rear slot, which
holds exactly the new task, and the two index updates. -/
theorem store_eq (q : TaskQueue F A) (function : F) (arg : Option A) :
    q.store function arg
      = ((q.setRearSlot ⟨function, arg⟩).advanceRear).incSize := by
  unfold store
  split_ifs with h <;>
    simp [clearArg, setFunction, setArg, setRearSlot, rearSlot, advanceRear, incSize]

/-- A store keeps a queue that is not full well formed. -/
theorem QueueOk.store {q : TaskQueue F A} (h : q.QueueOk) (hfree : q.queueSize < q.queueMaxSize)
    (function : F) (arg : Option A) : (q.store function arg).QueueOk := by
  have hsize : (q.queueSize + 1).toNat = q.queueSize.toNat + 1 := by
    have := h.size_nonneg
    omega
  rw [store_eq]
  refine ⟨h.front_lt, ?_, ?_, ?_⟩
  · show (q.queueRear + 1) % q.queueMaxSize
      = (q.queueFront + (q.queueSize + 1).toNat) % q.queueMaxSize
    rw [h.rear_eq, hsize, Nat.mod_add_mod, Nat.add_assoc]
  · show 0 ≤ q.queueSize + 1
    have := h.size_nonneg
    omega
  · show q.queueSize + 1 ≤ q.queueMaxSize
    omega

/-- **A store appends to the list of pending tasks**; the tasks that were
pending stay as they were. -/
theorem QueueOk.pending_store {q : TaskQueue F A} (h : q.QueueOk)
    (hfree : q.queueSize < q.queueMaxSize) (function : F) (arg : Option A) :
    (q.store function arg).pending = q.pending ++ [⟨function, arg⟩] := by
  have hsize : (q.queueSize + 1).toNat = q.queueSize.toNat + 1 := by
    have := h.size_nonneg
    omega
  have hlen : q.queueSize.toNat < q.queueMaxSize := by
    have := h.size_nonneg
    omega
  rw [store_eq]
  show window (Function.update q.taskQueue q.queueRear ⟨function, arg⟩) q.queueMaxSize
      q.queueFront (q.queueSize + 1).toNat = _
  rw [hsize, window_succ, h.rear_eq, window_update_rear hlen, Function.update_self, ← pending]

/-! ## Taking -/

/-- A take keeps a queue that is not empty well formed. -/
theorem QueueOk.take {q : TaskQueue F A} (h : q.QueueOk) (hpos : 0 < q.queueSize) :
    q.take.2.QueueOk := by
  have hsize : q.queueSize.toNat = (q.queueSize - 1).toNat + 1 := by omega
  refine ⟨?_, ?_, ?_, ?_⟩
  · exact Nat.mod_lt _ (by have := h.front_lt; omega)
  · show q.queueRear
      = ((q.queueFront + 1) % q.queueMaxSize + (q.queueSize - 1).toNat) % q.queueMaxSize
    rw [h.rear_eq, hsize, Nat.mod_add_mod,
      show q.queueFront + ((q.queueSize - 1).toNat + 1)
        = q.queueFront + 1 + (q.queueSize - 1).toNat by omega]
  · show 0 ≤ q.queueSize - 1
    omega
  · show q.queueSize - 1 ≤ q.queueMaxSize
    have := h.size_le
    omega

/-- **A take removes the oldest pending task** and hands it out. -/
theorem QueueOk.pending_take {q : TaskQueue F A} (h : q.QueueOk) (hpos : 0 < q.queueSize) :
    q.pending = q.take.1 :: q.take.2.pending := by
  have hsize : q.queueSize.toNat = (q.queueSize - 1).toNat + 1 := by omega
  show window q.taskQueue q.queueMaxSize q.queueFront q.queueSize.toNat
    = q.frontSlot :: window q.taskQueue q.queueMaxSize ((q.queueFront + 1) % q.queueMaxSize)
        (q.queueSize - 1).toNat
  rw [hsize, window_succ_front, Nat.mod_eq_of_lt h.front_lt, frontSlot]

end TaskQueue

end ThreadPool
