/-
# The mutex `thread_counter` and the number of busy workers (`threadpool/main.c`)

`threadpool_thread` does not keep to the discipline of `lock` (`NetStudy.PoolLocks`), but it
keeps to that of `thread_counter`, and so do `adjust_thread` and `treadpool_destory` up to
the destruction: in any run, whatever happens to `lock`, the mutex is owned by the one thread
that is inside one of its sections, and `busy_thr_num` is written by its owner only.  So
`busy_thr_num` is at any time the number of the workers between line 143 and line 153.
-/
import NetStudy.PoolCounters
import NetStudy.PoolLocks

namespace ThreadPool

open Transition CriticalSection

variable {T P F A : Type*}

/-! ## The sections of `thread_counter` -/

/-- A worker is inside: behind line 142 or 152, up to line 145 or 154. -/
def WorkerPc.counting : WorkerPc → Bool
  | .busyInc | .busyUnlock | .busyDec | .idleUnlock => true
  | _ => false

/-- 1 for a worker behind line 143, up to line 153. -/
def WorkerPc.busy : WorkerPc → ℕ
  | .busyUnlock | .call | .idleLock | .busyDec => 1
  | _ => 0

/-- The destroying thread has locked the mutex on line 76, which it destroys. -/
def DestroyPc.counting : DestroyPc → Bool
  | .destroyCounter | .freePool | .returned => true
  | _ => false

/-- The threads that are inside, by their program counters. -/
def System.counting (s : System P F A) : PoolThread P → Bool
  | .worker w => (s.worker w).body.pc.counting
  | .producer _ => false
  | .manager => s.manager.pc.inside Mutex.threadCounter
  | .destroyer => s.destroyer.pc.counting

/-- The workers that should be counted as busy. -/
def System.busyWorkers (s : System P F A) : ℕ :=
  ∑ w ∈ Finset.range s.started, (s.worker w).body.pc.busy

/-- The invariant. -/
structure BusyInv (s : System P F A) : Prop where
  owned : OwnedInside (fun _ : Unit => s.shared.threadCounter) (fun _ => s.counting)
  fresh : ∀ w, s.started ≤ w → (s.worker w).body.pc = .loopTest
  left : ∀ w, (s.worker w).exit ≠ ExitPc.running → (s.worker w).body.pc = .exited
  busy : s.shared.pool.busyThrNum = s.busyWorkers

theorem busyInv_start (minThrNum maxThrNum : ℤ) (queueMaxSize : ℕ) (junk : ℕ → Task F A)
    (locals : ℕ → Task F A) (calls : P → Task F A) :
    BusyInv (systemStart minThrNum maxThrNum queueMaxSize junk locals calls) where
  owned := by
    intro _ t
    cases t <;> simp [systemStart, System.counting, WorkerPc.counting, AdjustPc.inside,
      DestroyPc.counting]
  fresh := fun _ _ => rfl
  left := fun _ hne => absurd rfl hne
  busy := by
    show (0 : ℤ) = ((∑ w ∈ Finset.range minThrNum.toNat, WorkerPc.loopTest.busy : ℕ) : ℤ)
    have hzero : ∑ w ∈ Finset.range minThrNum.toNat, WorkerPc.loopTest.busy = 0 :=
      Finset.sum_eq_zero (fun _ _ => rfl)
    rw [hzero]
    rfl

/-! ## The statements -/

/-- **A statement of a worker** takes the mutex and gives it back where it should, and
counts the worker. -/
theorem workerStmt_busy {me : T} {sh sh' : Shared T F A} {l l' : Worker F A} {n : Notify}
    (h : workerStmt me sh l = some (sh', l', n)) :
    LockMove me sh.threadCounter sh'.threadCounter l.pc.counting l'.pc.counting ∧
      sh'.pool.busyThrNum + l.pc.busy = sh.pool.busyThrNum + l'.pc.busy := by
  obtain ⟨pc, task⟩ := l
  cases pc with
  | busyLock | idleLock =>
      simp only [workerStmt] at h
      split_ifs at h with hfree
      cases h
      exact ⟨Or.inr (Or.inl ⟨hfree, rfl, rfl⟩), rfl⟩
  | busyInc =>
      cases h
      refine ⟨Or.inl ⟨rfl, rfl⟩, ?_⟩
      show sh.pool.busyThrNum + 1 + (0 : ℕ) = sh.pool.busyThrNum + (1 : ℕ)
      omega
  | busyDec =>
      cases h
      refine ⟨Or.inl ⟨rfl, rfl⟩, ?_⟩
      show sh.pool.busyThrNum - 1 + (1 : ℕ) = sh.pool.busyThrNum + (0 : ℕ)
      omega
  | busyUnlock | idleUnlock =>
      cases h
      exact ⟨Or.inr (Or.inr ⟨rfl, rfl, rfl⟩), rfl⟩
  | _ =>
      simp only [workerStmt] at h
      (try split_ifs at h) <;> (try cases h) <;> exact ⟨Or.inl ⟨rfl, rfl⟩, rfl⟩

/-- A statement of the manager starts a worker, or leaves the workers alone, and does not
write `busy_thr_num`. -/
theorem adjustStmt_busy {me : T} {started started' : ℕ} {sh sh' : Shared T F A}
    {l l' : Adjuster} {n : Notify}
    (h : adjustStmt me started sh l = some (started', sh', l', n)) :
    sh'.pool.busyThrNum = sh.pool.busyThrNum ∧ (started' = started ∨ started' = started + 1) := by
  obtain ⟨pc, queueSize, liveThrNum, busyThrNum, i, add⟩ := l
  cases pc with
  | create =>
      cases h
      exact ⟨rfl, Or.inr rfl⟩
  | _ =>
      simp only [adjustStmt] at h
      (try split_ifs at h) <;> (try cases h) <;> exact ⟨rfl, Or.inl rfl⟩

/-- A statement of the destroying thread takes the mutex on line 76. -/
theorem destroyStmt_busy {s s' : System P F A} (h : s.destroyStmt = some s') :
    LockMove PoolThread.destroyer s.shared.threadCounter s'.shared.threadCounter
      s.destroyer.pc.counting s'.destroyer.pc.counting := by
  unfold System.destroyStmt at h
  cases hpc : s.destroyer.pc with
  | counterLock =>
      simp only [hpc] at h
      split_ifs at h with hfree
      cases h
      exact Or.inr (Or.inl ⟨hfree, rfl, rfl⟩)
  | join =>
      simp only [hpc] at h
      unfold System.joinWorker at h
      split at h
      · cases h
      · split_ifs at h
        cases h
        exact Or.inl ⟨rfl, rfl⟩
  | _ =>
      simp only [hpc] at h
      (try split_ifs at h) <;> (try cases h) <;> exact Or.inl ⟨rfl, rfl⟩

/-! ## The steps -/

/-- A wake-up moves nobody into a section or out of one. -/
theorem BusyInv.woken {s s' : System P F A} (h : BusyInv s) (hwoken : s.Woken s') :
    BusyInv s' := by
  obtain ⟨wk, pr, rfl, hwk, -⟩ := hwoken
  have hpc := fun w => PoolWorker.pc_of_wake (hwk w)
  refine ⟨?_, ?_, ?_, ?_⟩
  · have hsame : System.counting { s with worker := wk, producer := pr } = s.counting := by
      funext t
      cases t with
      | worker w =>
          show (wk w).body.pc.counting = (s.worker w).body.pc.counting
          rcases hpc w with heq | ⟨hblocked, hwoken⟩
          · rw [heq]
          · rw [hblocked, hwoken]
            rfl
      | _ => rfl
    rw [hsame]
    exact h.owned
  · intro w hw
    rcases hpc w with heq | ⟨hblocked, -⟩
    · exact heq.trans (h.fresh w hw)
    · rw [h.fresh w hw] at hblocked
      cases hblocked
  · intro w hw
    change (wk w).exit ≠ ExitPc.running at hw
    rw [PoolWorker.exit_of_wake (hwk w)] at hw
    rcases hpc w with heq | ⟨hblocked, -⟩
    · exact heq.trans (h.left w hw)
    · rw [h.left w hw] at hblocked
      cases hblocked
  · have hsame : System.busyWorkers { s with worker := wk, producer := pr } = s.busyWorkers := by
      apply Finset.sum_congr rfl
      intro w _
      show (wk w).body.pc.busy = (s.worker w).body.pc.busy
      rcases hpc w with heq | ⟨hblocked, hwoken⟩
      · rw [heq]
      · rw [hblocked, hwoken]
        rfl
    rw [hsame]
    exact h.busy

/-- The next statement of a worker. -/
theorem BusyInv.worker {s : System P F A} (h : BusyInv s) {w : ℕ} (hw : w < s.started)
    {sh : Shared (PoolThread P) F A} {l : PoolWorker F A} {n : Notify}
    (hs : poolWorkerStmt (PoolThread.worker w) s.shared (s.worker w) = some (sh, l, n)) :
    BusyInv (s.setWorker w sh l) := by
  -- what the statement does to this worker
  obtain ⟨hmove, hbusy, hleft⟩ : LockMove (PoolThread.worker w) s.shared.threadCounter
      sh.threadCounter (s.worker w).body.pc.counting l.body.pc.counting ∧
      sh.pool.busyThrNum + (s.worker w).body.pc.busy
        = s.shared.pool.busyThrNum + l.body.pc.busy ∧
      (l.exit ≠ ExitPc.running → l.body.pc = .exited) := by
    obtain ⟨body, out⟩ := l
    rcases poolWorkerStmt_cases hs with ⟨hstmt, rfl⟩ | ⟨hexit, rfl, rfl⟩
    · obtain ⟨hmove, hbusy⟩ := workerStmt_busy hstmt
      refine ⟨hmove, hbusy, ?_⟩
      -- the locks of lines 109 and 118 are the last statements of the loop
      intro hleave
      cases hpc : (s.worker w).body.pc with
      | retireLock | shutdownLock =>
          simp only [workerStmt, hpc] at hstmt
          split_ifs at hstmt
          cases hstmt
          rfl
      | _ =>
          rw [hpc] at hleave
          exact absurd rfl hleave
    · exact ⟨Or.inl ⟨rfl, rfl⟩, rfl, fun _ => h.left w hexit⟩
  refine ⟨h.owned.step (PoolThread.worker w) ?_ ?_, ?_, ?_, ?_⟩
  · intro _ u hu
    cases u with
    | worker v =>
        have hv : v ≠ w := fun heq => hu (congrArg PoolThread.worker heq)
        show (Function.update s.worker w l v).body.pc.counting = _
        rw [Function.update_of_ne hv]
        rfl
    | _ => rfl
  · intro _
    have hself : (s.setWorker w sh l).counting (PoolThread.worker w) = l.body.pc.counting := by
      show (Function.update s.worker w l w).body.pc.counting = _
      rw [Function.update_self]
    rw [hself]
    exact hmove
  · intro v (hv : s.started ≤ v)
    show (Function.update s.worker w l v).body.pc = .loopTest
    rw [Function.update_of_ne (by omega)]
    exact h.fresh v hv
  · intro v
    show (Function.update s.worker w l v).exit ≠ ExitPc.running →
      (Function.update s.worker w l v).body.pc = .exited
    by_cases hvw : v = w
    · rw [hvw, Function.update_self]
      exact hleft
    · rw [Function.update_of_ne hvw]
      exact h.left v
  · have hsum := sum_range_update (fun l : PoolWorker F A => l.body.pc.busy) s.worker l hw
    have hbefore := h.busy
    show sh.pool.busyThrNum
      = ((∑ v ∈ Finset.range s.started, (Function.update s.worker w l v).body.pc.busy : ℕ) : ℤ)
    unfold System.busyWorkers at hbefore
    omega

/-- A change that the workers do not see. -/
theorem BusyInv.of_eq {s s' : System P F A} (h : BusyInv s) {t : PoolThread P}
    (hmove : LockMove t s.shared.threadCounter s'.shared.threadCounter (s.counting t)
      (s'.counting t))
    (hother : ∀ u, u ≠ t → s'.counting u = s.counting u) (hworker : s'.worker = s.worker)
    (hstarted : s'.started = s.started ∨ s'.started = s.started + 1)
    (hbusy : s'.shared.pool.busyThrNum = s.shared.pool.busyThrNum) : BusyInv s' := by
  refine ⟨h.owned.step t (fun _ => hother) (fun _ => hmove), ?_, ?_, ?_⟩
  · rw [hworker]
    exact fun w hw => h.fresh w (by rcases hstarted with heq | heq <;> omega)
  · rw [hworker]
    exact h.left
  · rw [hbusy, h.busy, System.busyWorkers, System.busyWorkers, hworker]
    rcases hstarted with heq | heq
    · rw [heq]
    · -- the new worker is about to run its loop
      rw [heq, Finset.sum_range_succ, h.fresh s.started le_rfl]
      rfl

/-- The next statement of the destroying thread. -/
theorem BusyInv.destroyStmt {s s' : System P F A} (h : BusyInv s) (hs : s.destroyStmt = some s') :
    BusyInv s' := by
  have hkept := s.destroyStmt_kept hs
  have hmove := destroyStmt_busy hs
  have hsame : BusyInv { s' with worker := s.worker } := by
    refine h.of_eq (t := PoolThread.destroyer) hmove ?_ rfl
      (Or.inl hkept.started) ?_
    · intro u hu
      cases u with
      | destroyer => exact absurd rfl hu
      | manager =>
          show s'.manager.pc.inside _ = _
          rw [hkept.manager]
          rfl
      | _ => rfl
    · show s'.shared.pool.busyThrNum = _
      rw [hkept.pool]
  exact hsame.woken ⟨s'.worker, s'.producer, rfl, hkept.worker, fun _ => Or.inl rfl⟩

section Steps

variable [DecidableEq P]

/-- **Every step** keeps the invariant. -/
theorem BusyInv.step {s s' : System P F A} (h : BusyInv s) {m : SystemMove P F A}
    (hs : systemStep m s = some s') : BusyInv s' := by
  cases moves_of_systemStep hs with
  | worker hw hstmt hwoken => exact (h.worker hw hstmt).woken hwoken
  | @producer p woken sh l n s' hstmt hwoken =>
      obtain ⟨q, lock, rfl⟩ := addStmt_shared hstmt
      refine BusyInv.woken ?_ hwoken
      exact h.of_eq (t := PoolThread.producer p) (Or.inl ⟨rfl, rfl⟩)
        (fun u _ => by cases u <;> rfl) rfl (Or.inl rfl) rfl
  | @call p function arg hidle =>
      exact h.of_eq (t := PoolThread.producer p) (Or.inl ⟨rfl, rfl⟩)
        (fun u _ => by cases u <;> rfl) rfl (Or.inl rfl) rfl
  | @manager woken started sh l n s' hstmt hwoken =>
      obtain ⟨hbusy, hstarted⟩ := adjustStmt_busy hstmt
      refine BusyInv.woken ?_ hwoken
      refine h.of_eq (t := PoolThread.manager)
        (adjustStmt_lockMove hstmt Mutex.threadCounter) ?_ rfl hstarted hbusy
      intro u hu
      cases u with
      | manager => exact absurd rfl hu
      | _ => rfl
  | destroyer hstmt => exact h.destroyStmt hstmt
  | wake hwoken => exact h.woken hwoken

/-- The worker is behind line 143, up to line 153. -/
def System.Busy (s : System P F A) (w : ℕ) : Prop := (s.worker w).body.pc.busy = 1

instance (s : System P F A) (w : ℕ) : Decidable (s.Busy w) := inferInstanceAs (Decidable (_ = 1))

omit [DecidableEq P] in
/-- The workers that are counted. -/
theorem busyWorkers_eq_card (s : System P F A) :
    s.busyWorkers = ((Finset.range s.started).filter s.Busy).card := by
  rw [System.busyWorkers, Finset.card_filter]
  apply Finset.sum_congr rfl
  intro w _
  have hbool : ∀ pc : WorkerPc, pc.busy = if pc.busy = 1 then 1 else 0 := by
    intro pc
    cases pc <;> rfl
  exact hbool _

/-- What a statement may do with `thread_counter`, where `inside` tells whether the thread is
inside one of its sections. -/
structure Fits (use : Use) (inside : Bool) : Prop where
  lock : use = Use.lock Mutex.threadCounter → inside = false
  release : use = Use.release Mutex.threadCounter → inside = true
  exit : use = Use.exit → inside = false

theorem WorkerPc.fits (pc : WorkerPc) : Fits pc.use pc.counting := by
  cases pc <;> exact ⟨by decide, by decide, by decide⟩

theorem ProducerPc.fits (pc : ProducerPc) : Fits pc.use false := by
  cases pc <;> exact ⟨by decide, by decide, by decide⟩

theorem AdjustPc.fits (pc : AdjustPc) : Fits pc.use (pc.inside Mutex.threadCounter) := by
  cases pc <;> exact ⟨by decide, by decide, by decide⟩

theorem DestroyPc.fits (pc : DestroyPc) : Fits pc.use pc.counting := by
  cases pc <;> exact ⟨by decide, by decide, by decide⟩

omit [DecidableEq P] in
/-- **Every statement fits.** -/
theorem BusyInv.fits {s : System P F A} (h : BusyInv s) (t : PoolThread P) :
    Fits (s.use t) (s.counting t) := by
  cases t with
  | worker w =>
      show Fits (s.worker w).use (s.worker w).body.pc.counting
      have hleft : (s.worker w).exit ≠ ExitPc.running → (s.worker w).body.pc.counting = false := by
        intro hexit
        rw [h.left w hexit]
        rfl
      rw [PoolWorker.use]
      cases hexit : (s.worker w).exit with
      | running => exact (s.worker w).body.pc.fits
      | retireExit | exit =>
          rw [hleft (by rw [hexit]; decide)]
          show Fits Use.exit false
          exact ⟨by decide, by decide, by decide⟩
      | detach | ended =>
          rw [hleft (by rw [hexit]; decide)]
          show Fits Use.other false
          exact ⟨by decide, by decide, by decide⟩
  | producer p => exact (s.producer p).pc.fits
  | manager => exact s.manager.pc.fits
  | destroyer => exact s.destroyer.pc.fits

/-- The next statement of a thread, as far as it is about `thread_counter`: it locks the mutex
only when it does not own it, unlocks it only when it does, and does not exit with it. -/
structure System.ObeysCounter (s : System P F A) (t : PoolThread P) : Prop where
  lock : s.use t = Use.lock Mutex.threadCounter → s.shared.threadCounter ≠ some t
  release : s.use t = Use.release Mutex.threadCounter → s.shared.threadCounter = some t
  exit : s.use t = Use.exit → s.shared.threadCounter ≠ some t

omit [DecidableEq P] in
theorem BusyInv.obeysCounter {s : System P F A} (h : BusyInv s) (t : PoolThread P) :
    s.ObeysCounter t := by
  have hown : s.shared.threadCounter = some t ↔ s.counting t = true := h.owned () t
  have hout : s.counting t = false → s.shared.threadCounter ≠ some t :=
    fun hno howns => Bool.false_ne_true (hno.symm.trans (hown.mp howns))
  have hfits := h.fits t
  exact ⟨fun huse => hout (hfits.lock huse), fun huse => hown.mpr (hfits.release huse),
    fun huse => hout (hfits.exit huse)⟩

/-- **Busy workers.**  In every state that is reached, whatever the workers do with `lock`,
`busy_thr_num` is the number of workers between lines 143 and 153, `thread_counter` is owned
by the thread inside one of its sections if there is one, and every thread locks it only when
it does not own it, unlocks it only when it does, and does not exit with it. -/
theorem busyThrNum_of_reach {minThrNum maxThrNum : ℤ} {queueMaxSize : ℕ} {junk : ℕ → Task F A}
    {locals : ℕ → Task F A} {calls : P → Task F A} {s : System P F A}
    (hreach : Reachable systemStep
      (systemStart minThrNum maxThrNum queueMaxSize junk locals calls) s) :
    s.shared.pool.busyThrNum = ((Finset.range s.started).filter s.Busy).card ∧
      (∀ t, s.shared.threadCounter = some t ↔ s.counting t = true) ∧
      ∀ t, s.ObeysCounter t := by
  have h : BusyInv s :=
    hreach.invariant (busyInv_start minThrNum maxThrNum queueMaxSize junk locals calls)
      (fun _ _ _ h _ hs => h.step hs)
  refine ⟨?_, h.owned (), h.obeysCounter⟩
  rw [h.busy, busyWorkers_eq_card]

end Steps

/-- The first worker of the pool of `main` has taken a task and is about to run it, the
manager has the mutex. -/
theorem busyThrNum_of_reach_running :
    ∃ s, Reachable systemStep mainPool s ∧
      (s.shared.pool.busyThrNum = 1 ∧ s.shared.threadCounter = some PoolThread.manager) ∧
      s.shared.pool.busyThrNum = ((Finset.range s.started).filter s.Busy).card := by
  obtain ⟨s, hreach, hs⟩ : ∃ s, Reachable systemStep mainPool s ∧
      (s.shared.pool.busyThrNum = 1 ∧ s.shared.threadCounter = some PoolThread.manager) :=
    exists_reach_of_run
      (.call () 7 none :: List.replicate 10 (.producer () none)
        ++ List.replicate 11 (.worker 0) ++ List.replicate 6 (.manager none)) (by decide +kernel)
  exact ⟨s, hreach, hs, (busyThrNum_of_reach hreach).1⟩

end ThreadPool
