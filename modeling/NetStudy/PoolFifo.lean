/-
# The task queue is a bounded first-in first-out queue

Whole store steps of `threadpool_add` and whole take steps of
`threadpool_thread`, in any order, on the queue that `threadpool_create` sets
up.  The abstract queue is a list with a capacity (`listStep`); the circular
array simulates it step by step (`queueStep_simulates`), and the run theorem
`taskQueue_fifo` follows by induction over the run.

The statements a worker or a producer executes here are those of `Pool.lean`; in
this module nothing comes between the statements of one pass.
-/
import NetStudy.Transition
import NetStudy.Pool

namespace ThreadPool

open Transition CyclicWindow

variable {F A : Type*}

/-- The two whole steps on the queue. -/
inductive QueueOp (F A : Type*)
  | store (function : F) (arg : Option A)
  | take

/-- The queue together with the history of the tasks stored and taken. -/
structure Fifo (F A : Type*) where
  queue : TaskQueue F A
  stored : List (Task F A)
  taken : List (Task F A)

/-- A store is taken only when the queue is not full (line 295), a take only
when it is not empty (line 95). -/
def queueStep : QueueOp F A → Fifo F A → Option (Fifo F A)
  | .store function arg, s =>
      if s.queue.queueSize < s.queue.queueMaxSize then
        some { s with
          queue := s.queue.store function arg
          stored := s.stored ++ [⟨function, arg⟩] }
      else none
  | .take, s =>
      if 0 < s.queue.queueSize then
        some { s with
          queue := s.queue.take.2
          taken := s.taken ++ [s.queue.take.1] }
      else none

/-- The queue right after `threadpool_create`. -/
def fifoCreate (minThrNum maxThrNum : ℤ) (queueMaxSize : ℕ) (junk : ℕ → Task F A) : Fifo F A where
  queue := (threadpoolCreate minThrNum maxThrNum queueMaxSize junk).toTaskQueue
  stored := []
  taken := []

/-! ## The abstract queue -/

/-- The queue as a list: a store appends while the list is shorter than the
capacity, a take drops the head. -/
def listStep (capacity : ℕ) : QueueOp F A → List (Task F A) → Option (List (Task F A))
  | .store function arg, q =>
      if q.length < capacity then some (q ++ [⟨function, arg⟩]) else none
  | .take, q => q.tail?

theorem TaskQueue.QueueOk.length_pending {q : TaskQueue F A} (h : q.QueueOk) :
    (q.pending.length : ℤ) = q.queueSize := by
  rw [pending, length_window, Int.toNat_of_nonneg h.size_nonneg]

/-- **Simulation.**  On a well-formed queue each whole step is enabled exactly
when the step of the abstract queue is, and does to the pending tasks what the
abstract step does. -/
theorem queueStep_simulates {s : Fifo F A} (h : s.queue.QueueOk) (op : QueueOp F A) :
    (queueStep op s).map (·.queue.pending)
      = listStep s.queue.queueMaxSize op s.queue.pending := by
  have hlen := h.length_pending
  cases op with
  | store function arg =>
      simp only [queueStep, listStep]
      by_cases hfree : s.queue.queueSize < s.queue.queueMaxSize
      · rw [if_pos hfree, if_pos (by omega), Option.map_some,
          h.pending_store hfree function arg]
      · rw [if_neg hfree, if_neg (by omega), Option.map_none]
  | take =>
      simp only [queueStep, listStep]
      by_cases hpos : 0 < s.queue.queueSize
      · rw [if_pos hpos, Option.map_some, h.pending_take hpos]
        rfl
      · have hnil : s.queue.pending = [] := List.eq_nil_of_length_eq_zero (by omega)
        rw [if_neg hpos, Option.map_none, hnil]
        rfl

/-! ## Runs -/

/-- What holds after every prefix of a run: the queue is well formed, and its
pending tasks are those stored and not yet taken. -/
structure FifoInv (queueMaxSize : ℕ) (s : Fifo F A) : Prop where
  queueOk : s.queue.QueueOk
  max_eq : s.queue.queueMaxSize = queueMaxSize
  content : s.taken ++ s.queue.pending = s.stored

theorem fifoInv_create {minThrNum maxThrNum : ℤ} {queueMaxSize : ℕ} {junk : ℕ → Task F A}
    (h : 1 ≤ queueMaxSize) :
    FifoInv queueMaxSize (fifoCreate minThrNum maxThrNum queueMaxSize junk) where
  queueOk := TaskQueue.queueOk_create minThrNum maxThrNum junk h
  max_eq := rfl
  content := rfl

theorem TaskQueue.store_queueMaxSize (q : TaskQueue F A) (function : F) (arg : Option A) :
    (q.store function arg).queueMaxSize = q.queueMaxSize := by
  rw [store_eq]
  rfl

theorem fifoInv_step {queueMaxSize : ℕ} {s s' : Fifo F A} {op : QueueOp F A}
    (h : FifoInv queueMaxSize s) (hstep : queueStep op s = some s') :
    FifoInv queueMaxSize s' := by
  cases op with
  | store function arg =>
      simp only [queueStep] at hstep
      split_ifs at hstep with hfree
      obtain rfl := Option.some.inj hstep
      refine ⟨h.queueOk.store hfree function arg, ?_, ?_⟩
      · exact (s.queue.store_queueMaxSize function arg).trans h.max_eq
      · show s.taken ++ (s.queue.store function arg).pending = _
        rw [h.queueOk.pending_store hfree, ← List.append_assoc, h.content]
  | take =>
      simp only [queueStep] at hstep
      split_ifs at hstep with hpos
      obtain rfl := Option.some.inj hstep
      refine ⟨h.queueOk.take hpos, h.max_eq, ?_⟩
      show (s.taken ++ [s.queue.take.1]) ++ s.queue.take.2.pending = s.stored
      rw [List.append_assoc, List.singleton_append, ← h.queueOk.pending_take hpos, h.content]

theorem fifoInv_reachable {minThrNum maxThrNum : ℤ} {queueMaxSize : ℕ}
    {junk : ℕ → Task F A} (h : 1 ≤ queueMaxSize) {s : Fifo F A}
    (hs : Reachable queueStep (fifoCreate minThrNum maxThrNum queueMaxSize junk) s) :
    FifoInv queueMaxSize s :=
  hs.invariant (fifoInv_create h) (fun _ _ _ hinv _ hstep => fifoInv_step hinv hstep)

/-- A store writes no slot that holds a task not yet taken. -/
theorem store_keeps_pending_slots {s s' : Fifo F A} {function : F} {arg : Option A}
    (h : s.queue.QueueOk) (hstep : queueStep (.store function arg) s = some s') {k : ℕ}
    (hk : (k : ℤ) < s.queue.queueSize) :
    s'.queue.taskQueue ((s.queue.queueFront + k) % s.queue.queueMaxSize)
      = s.queue.taskQueue ((s.queue.queueFront + k) % s.queue.queueMaxSize) := by
  simp only [queueStep] at hstep
  split_ifs at hstep with hfree
  obtain rfl := Option.some.inj hstep
  rw [TaskQueue.store_eq]
  show Function.update s.queue.taskQueue s.queue.queueRear _ _ = _
  rw [h.rear_eq]
  exact Function.update_of_ne (add_mod_ne (by omega) (by omega)) _ _

/-- **The task queue is a bounded FIFO queue.**  After every sequence of whole
store and take steps from the queue of `threadpool_create`: the indices stay in
the array and determine each other through the size, the size stays between `0`
and the capacity, the cyclic window from `queue_front` holds exactly the tasks
stored and not yet taken, in order, what was taken is a prefix of what was
stored, and a further store leaves the slots of those tasks alone. -/
theorem taskQueue_fifo {minThrNum maxThrNum : ℤ} {queueMaxSize : ℕ} {junk : ℕ → Task F A}
    (h : 1 ≤ queueMaxSize) {s : Fifo F A}
    (hs : Reachable queueStep (fifoCreate minThrNum maxThrNum queueMaxSize junk) s) :
    (s.queue.queueRear : ℤ) = (s.queue.queueFront + s.queue.queueSize) % queueMaxSize
      ∧ s.queue.queueFront < queueMaxSize ∧ s.queue.queueRear < queueMaxSize
      ∧ 0 ≤ s.queue.queueSize ∧ s.queue.queueSize ≤ queueMaxSize
      ∧ s.taken ++ window s.queue.taskQueue queueMaxSize s.queue.queueFront
          s.queue.queueSize.toNat = s.stored
      ∧ s.taken <+: s.stored
      ∧ ∀ function arg s', queueStep (.store function arg) s = some s' →
          ∀ k : ℕ, (k : ℤ) < s.queue.queueSize →
            s'.queue.taskQueue ((s.queue.queueFront + k) % queueMaxSize)
              = s.queue.taskQueue ((s.queue.queueFront + k) % queueMaxSize) := by
  obtain ⟨hok, rfl, hcontent⟩ := fifoInv_reachable h hs
  have hrear : (s.queue.queueRear : ℤ)
      = (s.queue.queueFront + s.queue.queueSize) % s.queue.queueMaxSize := by
    rw [hok.rear_eq]
    push_cast
    rw [Int.toNat_of_nonneg hok.size_nonneg]
  refine ⟨hrear, hok.front_lt, hok.rear_lt, hok.size_nonneg, hok.size_le, hcontent,
    ⟨_, hcontent⟩, ?_⟩
  intro function arg s' hstep k hk
  exact store_keeps_pending_slots hok hstep hk

/-- Capacity one, where the indices are always equal: store, take, store. -/
theorem taskQueue_fifo_capacity_one :
    ∃ s : Fifo ℕ ℕ, Reachable queueStep (fifoCreate 1 1 1 (fun _ => ⟨0, some 9⟩)) s
      ∧ (s.queue.queueSize = 1 ∧ s.stored = [⟨7, none⟩, ⟨8, some 5⟩]) ∧ s.taken <+: s.stored := by
  have hrun : ∃ s : Fifo ℕ ℕ, Reachable queueStep (fifoCreate 1 1 1 (fun _ => ⟨0, some 9⟩)) s
      ∧ (s.queue.queueSize = 1 ∧ s.stored = [⟨7, none⟩, ⟨8, some 5⟩]) :=
    exists_reach_of_run [.store 7 none, .take, .store 8 (some 5)] (by decide)
  obtain ⟨s, hs, hsize⟩ := hrun
  exact ⟨s, hs, hsize, (taskQueue_fifo (by decide) hs).2.2.2.2.2.2.1⟩

end ThreadPool
