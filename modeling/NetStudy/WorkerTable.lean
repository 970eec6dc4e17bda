/-
# The table of the workers (`threadpool/main.c`)

`pool->threads` holds the ids of the workers.  Line 247 allocates it for `queue_max_size`
tasks, line 253 clears `max_thr_num` ids in it, line 272 fills `min_thr_num` slots, and
`adjust_thread` goes over `max_thr_num` slots.  It is to start workers in the empty slots,
but line 193 passes the slots that are not empty.

* `slotTable_law`: the accesses lie inside the block exactly if `max_thr_num` is at most
  twice `queue_max_size`; the table is as it should be until a slot passes the test of
  line 193; and a round starts the missing workers exactly if there are as many slots with
  a worker;
* `first_worker_overwritten`: the first slot of a small pool.
-/
import NetStudy.PoolCounters

namespace ThreadPool

open Transition

variable {T P F A : Type*}

/-! ## The block and the accesses to it -/

/-- `sizeof(pthread_t)`. -/
def sizeofPthread : ℕ := 8

/-- `sizeof(threadpool_task_t)`. -/
def sizeofTask : ℕ := 16

/-- Line 247: the size of the block that is allocated for `threads`. -/
def threadsBlock (queueMaxSize : ℕ) : ℕ := sizeofTask * queueMaxSize

/-- An access to a block: the first byte, counted from its beginning, and the number of
bytes. -/
structure Access where
  offset : ℕ
  size : ℕ

/-- All the bytes are in a block of this size. -/
def Access.Inside (a : Access) (block : ℕ) : Prop := a.offset + a.size ≤ block

/-- Line 253: the `memset`. -/
def clearAccess (maxThrNum : ℤ) : Access := ⟨0, sizeofPthread * maxThrNum.toNat⟩

/-- `threads[i]`. -/
def slotAccess (i : ℕ) : Access := ⟨sizeofPthread * i, sizeofPthread⟩

/-- The accesses of `threadpool_create`: line 253, and the loop of lines 272-276. -/
def createAccesses (minThrNum maxThrNum : ℤ) : List Access :=
  clearAccess maxThrNum :: (List.range minThrNum.toNat).map slotAccess

/-- The access of the manager's next statement: lines 193 and 195. -/
def Adjuster.accesses (l : Adjuster) : List Access :=
  match l.pc with
  | .slotTest | .create => [slotAccess l.i]
  | _ => []

/-! ## The law -/

/-- The accesses of `threadpool_create` and of the manager's next statement are inside. -/
def System.AccessesInside (minThrNum maxThrNum : ℤ) (queueMaxSize : ℕ) (s : System P F A) :
    Prop :=
  ∀ a ∈ createAccesses minThrNum maxThrNum ++ s.manager.accesses,
    a.Inside (threadsBlock queueMaxSize)

/-- Line 195 does not start a worker in the slot of one that has not ended. -/
def System.SlotsKept (s : System P F A) : Prop :=
  s.manager.pc = .create →
    ∀ w, s.shared.pool.threads s.manager.i = w + 1 → (s.worker w).exit = ExitPc.ended

/-- At line 200 a growth round has started the workers that were missing in line 184. -/
def System.MissingStarted (s : System P F A) : Prop :=
  s.manager.pc = .growUnlock →
    (s.manager.add : ℤ)
      = min (defaultThreadVary : ℤ) (s.shared.pool.maxThrNum - s.manager.liveThrNum)

/-- The table as it should be. -/
structure SlotTableOk (minThrNum maxThrNum : ℤ) (queueMaxSize : ℕ) (s : System P F A) : Prop where
  inside : s.AccessesInside minThrNum maxThrNum queueMaxSize
  kept : s.SlotsKept
  started : s.MissingStarted

/-- No slot passes the test of line 193. -/
def NoSlotPasses (s : System P F A) : SystemMove P F A → Prop
  | .manager _ => s.manager.pc = .slotTest → s.shared.pool.threads s.manager.i = 0
  | _ => True

/-- From line 176, where it reads `live_thr_num`, to the end of the round the manager goes by
what it has read. -/
def AdjustPc.goesByLive : AdjustPc → Bool
  | .sizesUnlock | .busyLock | .readBusy | .busyUnlock | .growCheck | .growLock => true
  | .growTest | .slotTest | .create | .incAdd | .incLive | .growUnlock => true
  | _ => false

/-- No worker takes itself off `live_thr_num` in that time. -/
def RetiresOutside (s : System P F A) : SystemMove P F A → Prop
  | .worker w => (s.worker w).body.pc = .liveDec → s.manager.pc.goesByLive = false
  | _ => True

instance (s : System P F A) (m : SystemMove P F A) : Decidable (NoSlotPasses s m) := by
  cases m <;> unfold NoSlotPasses <;> infer_instance

instance (s : System P F A) (m : SystemMove P F A) : Decidable (RetiresOutside s m) := by
  cases m <;> unfold RetiresOutside <;> infer_instance

/-- The accesses of `threadpool_create` alone. -/
theorem createAccesses_inside {minThrNum maxThrNum : ℤ} (hmin : minThrNum ≤ maxThrNum)
    {queueMaxSize : ℕ} (hmax : maxThrNum ≤ 2 * queueMaxSize) :
    ∀ a ∈ createAccesses minThrNum maxThrNum, a.Inside (threadsBlock queueMaxSize) := by
  intro a ha
  rcases List.mem_cons.mp ha with rfl | ha
  · show 0 + 8 * maxThrNum.toNat ≤ 16 * queueMaxSize
    omega
  · obtain ⟨i, hi, rfl⟩ := List.mem_map.mp ha
    have hlt : i < minThrNum.toNat := List.mem_range.mp hi
    show 8 * i + 8 ≤ 16 * queueMaxSize
    omega

/-! ## The steps that leave the table alone -/

/-- The table, the manager, and `live_thr_num` unless a worker retires. -/
structure TableKept (m : SystemMove P F A) (s s' : System P F A) : Prop where
  threads : s'.shared.pool.threads = s.shared.pool.threads
  minThrNum : s'.shared.pool.minThrNum = s.shared.pool.minThrNum
  maxThrNum : s'.shared.pool.maxThrNum = s.shared.pool.maxThrNum
  started : s'.started = s.started
  manager : s'.manager = s.manager
  live : (∀ w, m = .worker w → (s.worker w).body.pc ≠ .liveDec) →
    s'.shared.pool.liveThrNum = s.shared.pool.liveThrNum

/-- A statement of a worker. -/
theorem workerStmt_table {me : T} {sh sh' : Shared T F A} {l l' : Worker F A} {n : Notify}
    (h : workerStmt me sh l = some (sh', l', n)) :
    sh'.pool.threads = sh.pool.threads ∧ sh'.pool.minThrNum = sh.pool.minThrNum ∧
      sh'.pool.maxThrNum = sh.pool.maxThrNum ∧
      (l.pc ≠ .liveDec → sh'.pool.liveThrNum = sh.pool.liveThrNum) := by
  obtain ⟨pc, task⟩ := l
  cases pc with
  | liveDec =>
      cases h
      exact ⟨rfl, rfl, rfl, fun hne => absurd rfl hne⟩
  | _ =>
      simp only [workerStmt] at h
      (try split_ifs at h) <;> (try cases h) <;> exact ⟨rfl, rfl, rfl, fun _ => rfl⟩

/-- The same for a worker on its way out. -/
theorem poolWorkerStmt_table {me : T} {sh sh' : Shared T F A} {l l' : PoolWorker F A} {n : Notify}
    (h : poolWorkerStmt me sh l = some (sh', l', n)) :
    sh'.pool.threads = sh.pool.threads ∧ sh'.pool.minThrNum = sh.pool.minThrNum ∧
      sh'.pool.maxThrNum = sh.pool.maxThrNum ∧
      (l.body.pc ≠ .liveDec → sh'.pool.liveThrNum = sh.pool.liveThrNum) := by
  rcases poolWorkerStmt_cases h with ⟨hstmt, -⟩ | ⟨-, rfl, -⟩
  · exact workerStmt_table hstmt
  · exact ⟨rfl, rfl, rfl, fun _ => rfl⟩

/-- A statement of the destroying thread. -/
theorem destroyStmt_table {m : SystemMove P F A} {s s' : System P F A}
    (h : s.destroyStmt = some s') : TableKept m s s' := by
  have hkept := s.destroyStmt_kept h
  refine ⟨?_, ?_, ?_, hkept.started, hkept.manager, fun _ => ?_⟩ <;> rw [hkept.pool]

/-- **A step** is a statement of the manager, or leaves the table alone. -/
theorem systemStep_table [DecidableEq P] {m : SystemMove P F A} {s s' : System P F A}
    (h : systemStep m s = some s') :
    (∃ n woken, m = .manager woken ∧
        adjustStmt PoolThread.manager s.started s.shared s.manager
          = some (s'.started, s'.shared, s'.manager, n)) ∨
      TableKept m s s' := by
  cases moves_of_systemStep h with
  | worker hw hstmt hwoken =>
      obtain ⟨wk, pr, rfl, -, -⟩ := hwoken
      obtain ⟨hthreads, hmin, hmax, hlive⟩ := poolWorkerStmt_table hstmt
      right
      exact ⟨hthreads, hmin, hmax, rfl, rfl, fun hstay => hlive (hstay _ rfl)⟩
  | producer hstmt hwoken =>
      obtain ⟨wk, pr, rfl, -, -⟩ := hwoken
      obtain ⟨q, lock, rfl⟩ := addStmt_shared hstmt
      right
      exact ⟨rfl, rfl, rfl, rfl, rfl, fun _ => rfl⟩
  | call _ =>
      right
      exact ⟨rfl, rfl, rfl, rfl, rfl, fun _ => rfl⟩
  | manager hstmt hwoken =>
      obtain ⟨wk, pr, rfl, -, -⟩ := hwoken
      left
      exact ⟨_, _, rfl, hstmt⟩
  | destroyer hstmt => exact Or.inr (destroyStmt_table hstmt)
  | wake hwoken =>
      obtain ⟨wk, pr, rfl, -, -⟩ := hwoken
      right
      exact ⟨rfl, rfl, rfl, rfl, rfl, fun _ => rfl⟩

/-! ## The occupied slots -/

/-- The slot of the manager's next statement. -/
def Adjuster.InRange (minThrNum maxThrNum : ℤ) (l : Adjuster) : Prop :=
  match l.pc with
  | .slotTest => (l.i : ℤ) < maxThrNum
  | .create => (l.i : ℤ) < minThrNum
  | _ => True

/-- In every run the occupied slots are those of the workers that `threadpool_create` has
started: the manager uses these again and no others. -/
structure TableInv (minThrNum maxThrNum : ℤ) (sh : Shared T F A) (l : Adjuster) : Prop where
  minEq : sh.pool.minThrNum = minThrNum
  maxEq : sh.pool.maxThrNum = maxThrNum
  occupied : ∀ i, sh.pool.threads i ≠ 0 ↔ (i : ℤ) < minThrNum
  range : l.InRange minThrNum maxThrNum

/-- **The manager** fills occupied slots only. -/
theorem TableInv.adjustStmt {minThrNum maxThrNum : ℤ} {me : T} {started started' : ℕ}
    {sh sh' : Shared T F A} {l l' : Adjuster} {n : Notify} (h : TableInv minThrNum maxThrNum sh l)
    (hs : adjustStmt me started sh l = some (started', sh', l', n)) :
    TableInv minThrNum maxThrNum sh' l' := by
  obtain ⟨hmin, hmax, hocc, hrange⟩ := h
  obtain ⟨pc, queueSize, liveThrNum, busyThrNum, i, add⟩ := l
  cases pc with
  | growTest =>
      simp only [ThreadPool.adjustStmt] at hs
      split_ifs at hs with htest
      · cases hs
        rw [hmax] at htest
        exact ⟨hmin, hmax, hocc, htest.1⟩
      · cases hs
        exact ⟨hmin, hmax, hocc, trivial⟩
  | slotTest =>
      simp only [ThreadPool.adjustStmt] at hs
      split_ifs at hs with hslot
      · cases hs
        exact ⟨hmin, hmax, hocc, (hocc i).mp hslot⟩
      · cases hs
        exact ⟨hmin, hmax, hocc, trivial⟩
  | create =>
      cases hs
      -- the slot was occupied before, and is so again
      refine ⟨hmin, hmax, ?_, trivial⟩
      intro j
      show Function.update sh.pool.threads i (started + 1) j ≠ 0 ↔ (j : ℤ) < minThrNum
      by_cases hji : j = i
      · subst hji
        rw [Function.update_self]
        exact ⟨fun _ => hrange, fun _ => Nat.succ_ne_zero started⟩
      · rw [Function.update_of_ne hji]
        exact hocc j
  | _ =>
      simp only [ThreadPool.adjustStmt] at hs
      (try split_ifs at hs) <;> (try cases hs) <;> exact ⟨hmin, hmax, hocc, trivial⟩

/-- Its accesses are inside the block if those of `threadpool_create` are. -/
theorem TableInv.accesses_inside {minThrNum maxThrNum : ℤ} {sh : Shared T F A} {l : Adjuster}
    (h : TableInv minThrNum maxThrNum sh l) (hmin : minThrNum ≤ maxThrNum) {queueMaxSize : ℕ}
    (hmax : maxThrNum ≤ 2 * queueMaxSize) :
    ∀ a ∈ l.accesses, a.Inside (threadsBlock queueMaxSize) := by
  have hslot : (l.i : ℤ) < maxThrNum → (slotAccess l.i).Inside (threadsBlock queueMaxSize) := by
    intro hi
    show 8 * l.i + 8 ≤ 16 * queueMaxSize
    omega
  intro a ha
  have hrange := h.range
  unfold Adjuster.accesses at ha
  unfold Adjuster.InRange at hrange
  cases hpc : l.pc with
  | slotTest =>
      simp only [hpc] at ha hrange
      rw [List.mem_singleton.mp ha]
      exact hslot hrange
  | create =>
      simp only [hpc] at ha hrange
      rw [List.mem_singleton.mp ha]
      exact hslot (lt_of_lt_of_le hrange hmin)
  | _ =>
      simp only [hpc] at ha
      exact absurd ha List.not_mem_nil

/-! ## Until a slot passes the test -/

/-- Where the manager is: it tests the first slot at most. -/
def Adjuster.AtFirst (l : Adjuster) : Prop :=
  match l.pc with
  | .growTest | .slotTest => l.i = 0 ∧ l.add = 0
  | .create | .incAdd | .incLive | .growUnlock => False
  | _ => True

/-- The pool has the workers of `threadpool_create` and counts none of them, and the first
slot holds the first worker. -/
structure Untouched (minThrNum maxThrNum : ℤ) (started : ℕ) (sh : Shared T F A) (l : Adjuster) :
    Prop where
  started : started = minThrNum.toNat
  zeroth : sh.pool.threads 0 = 1
  minEq : sh.pool.minThrNum = minThrNum
  maxEq : sh.pool.maxThrNum = maxThrNum
  live : sh.pool.liveThrNum = 0
  first : l.AtFirst

/-- **The manager** can do nothing before the first slot passes. -/
theorem Untouched.adjustStmt {minThrNum maxThrNum : ℤ} (hmin : 1 ≤ minThrNum)
    (hmax : minThrNum ≤ maxThrNum) {me : T} {started started' : ℕ} {sh sh' : Shared T F A}
    {l l' : Adjuster} {n : Notify} (h : Untouched minThrNum maxThrNum started sh l)
    (hempty : l.pc = .slotTest → sh.pool.threads l.i = 0)
    (hs : adjustStmt me started sh l = some (started', sh', l', n)) :
    Untouched minThrNum maxThrNum started' sh' l' := by
  obtain ⟨hstarted, hzeroth, hminEq, hmaxEq, hlive, hfirst⟩ := h
  obtain ⟨pc, queueSize, liveThrNum, busyThrNum, i, add⟩ := l
  cases pc with
  | growLock =>
      simp only [ThreadPool.adjustStmt] at hs
      split_ifs at hs
      cases hs
      exact ⟨hstarted, hzeroth, hminEq, hmaxEq, hlive, rfl, rfl⟩
  | growTest =>
      obtain ⟨hi, hadd⟩ : i = 0 ∧ add = 0 := hfirst
      -- all three conditions of line 189 hold in the beginning
      have htest : (i : ℤ) < sh.pool.maxThrNum ∧ add < defaultThreadVary ∧
          sh.pool.liveThrNum < sh.pool.maxThrNum := by
        rw [hi, hadd, hmaxEq, hlive]
        refine ⟨?_, by decide, ?_⟩ <;> omega
      simp only [ThreadPool.adjustStmt] at hs
      rw [if_pos htest] at hs
      cases hs
      exact ⟨hstarted, hzeroth, hminEq, hmaxEq, hlive, hi, hadd⟩
  | slotTest =>
      obtain ⟨hi, -⟩ : i = 0 ∧ add = 0 := hfirst
      -- the first slot is not empty, so it would pass
      have hslot : sh.pool.threads i = 0 := hempty rfl
      rw [hi, hzeroth] at hslot
      cases hslot
  | create | incAdd | incLive | growUnlock => exact hfirst.elim
  | _ =>
      simp only [ThreadPool.adjustStmt] at hs
      (try split_ifs at hs) <;> (try cases hs) <;>
        exact ⟨hstarted, hzeroth, hminEq, hmaxEq, hlive, trivial⟩

/-- A worker comes to line 108 only from the test of line 105. -/
theorem workerStmt_liveDec {me : T} {sh sh' : Shared T F A} {l l' : Worker F A} {n : Notify}
    (h : workerStmt me sh l = some (sh', l', n)) (hpc : l'.pc = .liveDec) :
    sh.pool.minThrNum < sh.pool.liveThrNum := by
  obtain ⟨pc, task⟩ := l
  cases pc with
  | liveTest =>
      simp only [workerStmt] at h
      split_ifs at h with htest
      · exact htest
      · cases h
        cases hpc
  | _ =>
      simp only [workerStmt] at h
      (try split_ifs at h) <;> (try cases h) <;> cases hpc

theorem poolWorkerStmt_liveDec {me : T} {sh sh' : Shared T F A} {l l' : PoolWorker F A}
    {n : Notify} (h : poolWorkerStmt me sh l = some (sh', l', n))
    (hpc : l'.body.pc = .liveDec) :
    l.body.pc = .liveDec ∨ sh.pool.minThrNum < sh.pool.liveThrNum := by
  rcases poolWorkerStmt_cases h with ⟨hstmt, -⟩ | ⟨-, rfl, hbody⟩
  · exact Or.inr (workerStmt_liveDec hstmt hpc)
  · rw [hbody] at hpc
    exact Or.inl hpc

/-- A wake-up brings no worker there. -/
theorem liveDec_of_wake {l l' : PoolWorker F A} (hwake : l' = l ∨ l' = l.wake)
    (h : l'.body.pc = .liveDec) : l.body.pc = .liveDec := by
  rcases PoolWorker.pc_of_wake hwake with heq | ⟨-, hwoken⟩
  · rw [← heq]
    exact h
  · rw [hwoken] at h
    cases h

theorem System.Woken.liveDec {s s' : System P F A} (hwoken : s.Woken s') {w : ℕ}
    (h : (s'.worker w).body.pc = .liveDec) : (s.worker w).body.pc = .liveDec := by
  obtain ⟨wk, pr, rfl, hwk, -⟩ := hwoken
  exact liveDec_of_wake (hwk w) h

/-- **No worker retires** while the count is not above `min_thr_num`. -/
theorem liveDec_of_step [DecidableEq P] {m : SystemMove P F A} {s s' : System P F A}
    (h : systemStep m s = some s') {v : ℕ} (hpc : (s'.worker v).body.pc = .liveDec) :
    (s.worker v).body.pc = .liveDec ∨
      s.shared.pool.minThrNum < s.shared.pool.liveThrNum := by
  cases moves_of_systemStep h with
  | @worker w sh l n _ hw hstmt hwoken =>
      have hv : (Function.update s.worker w l v).body.pc = .liveDec := hwoken.liveDec hpc
      by_cases hvw : v = w
      · subst hvw
        rw [Function.update_self] at hv
        exact poolWorkerStmt_liveDec hstmt hv
      · rw [Function.update_of_ne hvw] at hv
        exact Or.inl hv
  | producer hstmt hwoken =>
      left
      exact hwoken.liveDec hpc
  | call _ => exact Or.inl hpc
  | manager hstmt hwoken =>
      left
      exact hwoken.liveDec hpc
  | destroyer hstmt => exact Or.inl (liveDec_of_wake ((s.destroyStmt_kept hstmt).worker v) hpc)
  | wake hwoken => exact Or.inl (hwoken.liveDec hpc)

/-! ## A growth round -/

/-- Where a round that found `found` in `live_thr_num` stands before slot `i`: it has started
one worker for each occupied slot that it has passed. -/
structure RoundAt (minThrNum maxThrNum live found : ℤ) (i add : ℕ) : Prop where
  counted : live = found + add
  passed : (add : ℤ) = min (i : ℤ) minThrNum
  vary : add ≤ defaultThreadVary
  bound : live ≤ maxThrNum

/-- Line 189. -/
def RoundGoes (maxThrNum live : ℤ) (i add : ℕ) : Prop :=
  (i : ℤ) < maxThrNum ∧ add < defaultThreadVary ∧ live < maxThrNum

/-- What the manager knows from line 176 to line 200. -/
def Adjuster.Round (minThrNum maxThrNum live : ℤ) (l : Adjuster) : Prop :=
  match l.pc with
  | .sizesUnlock | .busyLock | .readBusy | .busyUnlock | .growCheck => live = l.liveThrNum
  | .growLock => live = l.liveThrNum ∧ live < maxThrNum
  | .growTest => RoundAt minThrNum maxThrNum live l.liveThrNum l.i l.add
  | .slotTest =>
      RoundAt minThrNum maxThrNum live l.liveThrNum l.i l.add ∧ RoundGoes maxThrNum live l.i l.add
  | .create | .incAdd =>
      RoundAt minThrNum maxThrNum live l.liveThrNum l.i l.add ∧
        RoundGoes maxThrNum live l.i l.add ∧ (l.i : ℤ) < minThrNum
  | .incLive => RoundAt minThrNum maxThrNum (live + 1) l.liveThrNum (l.i + 1) l.add
  | .growUnlock =>
      RoundAt minThrNum maxThrNum live l.liveThrNum l.i l.add ∧ ¬ RoundGoes maxThrNum live l.i l.add
  | _ => True

/-- Nothing has been started before the first slot. -/
theorem roundAt_zero {minThrNum maxThrNum live : ℤ} (hmin : 1 ≤ minThrNum)
    (hlive : live < maxThrNum) : RoundAt minThrNum maxThrNum live live 0 0 := by
  constructor
  · omega
  · omega
  · exact Nat.zero_le _
  · omega

/-- An empty slot is passed. -/
theorem RoundAt.skip {minThrNum maxThrNum live found : ℤ} {i add : ℕ}
    (h : RoundAt minThrNum maxThrNum live found i add) (hempty : minThrNum ≤ i) :
    RoundAt minThrNum maxThrNum live found (i + 1) add := by
  obtain ⟨hlive, hadd, hvary, hbound⟩ := h
  refine ⟨hlive, ?_, hvary, hbound⟩
  omega

/-- A worker is started in an occupied slot. -/
theorem RoundAt.start {minThrNum maxThrNum live found : ℤ} {i add : ℕ}
    (h : RoundAt minThrNum maxThrNum live found i add) (hgoes : RoundGoes maxThrNum live i add)
    (hoccupied : (i : ℤ) < minThrNum) :
    RoundAt minThrNum maxThrNum (live + 1) found (i + 1) (add + 1) := by
  obtain ⟨hlive, hadd, -, -⟩ := h
  obtain ⟨-, hvary, hbound⟩ := hgoes
  constructor
  · omega
  · omega
  · exact hvary
  · exact hbound

/-- **The end of a round**: which of the three conditions of line 189 has ended it. -/
theorem RoundAt.add_eq {minThrNum maxThrNum live found : ℤ} {i add : ℕ}
    (h : RoundAt minThrNum maxThrNum live found i add) (hmax : minThrNum ≤ maxThrNum)
    (hover : ¬ RoundGoes maxThrNum live i add) :
    (add : ℤ) = min (min (defaultThreadVary : ℤ) (maxThrNum - found)) minThrNum := by
  obtain ⟨hlive, hadd, hvary, hbound⟩ := h
  unfold RoundGoes at hover
  unfold defaultThreadVary at hover hvary ⊢
  omega

/-- **The manager** keeps the account of its round. -/
theorem TableInv.round {minThrNum maxThrNum : ℤ} (hmin : 1 ≤ minThrNum) {me : T}
    {started started' : ℕ} {sh sh' : Shared T F A} {l l' : Adjuster} {n : Notify}
    (h : TableInv minThrNum maxThrNum sh l)
    (hround : l.Round minThrNum maxThrNum sh.pool.liveThrNum)
    (hs : ThreadPool.adjustStmt me started sh l = some (started', sh', l', n)) :
    l'.Round minThrNum maxThrNum sh'.pool.liveThrNum := by
  obtain ⟨-, hmax, hocc, -⟩ := h
  obtain ⟨pc, queueSize, liveThrNum, busyThrNum, i, add⟩ := l
  cases pc with
  | readLive =>
      cases hs
      rfl
  | sizesUnlock | readBusy | busyUnlock =>
      cases hs
      exact hround
  | busyLock =>
      simp only [ThreadPool.adjustStmt] at hs
      split_ifs at hs
      cases hs
      exact hround
  | growCheck =>
      have heq : sh.pool.liveThrNum = liveThrNum := hround
      simp only [ThreadPool.adjustStmt] at hs
      split_ifs at hs with htest
      · cases hs
        refine ⟨heq, ?_⟩
        rw [heq, ← hmax]
        exact htest.2
      · cases hs
        trivial
  | growLock =>
      obtain ⟨heq, hlt⟩ : sh.pool.liveThrNum = liveThrNum ∧ sh.pool.liveThrNum < maxThrNum :=
        hround
      simp only [ThreadPool.adjustStmt] at hs
      split_ifs at hs
      cases hs
      -- the round begins with what was read in line 176
      show RoundAt minThrNum maxThrNum sh.pool.liveThrNum liveThrNum 0 0
      rw [← heq]
      exact roundAt_zero hmin hlt
  | growTest =>
      simp only [ThreadPool.adjustStmt, hmax] at hs
      split_ifs at hs with htest
      · cases hs
        exact ⟨hround, htest⟩
      · cases hs
        exact ⟨hround, htest⟩
  | slotTest =>
      obtain ⟨hat, hgoes⟩ := hround
      simp only [ThreadPool.adjustStmt] at hs
      split_ifs at hs with hslot
      · cases hs
        exact ⟨hat, hgoes, (hocc i).mp hslot⟩
      · cases hs
        -- an empty slot is left alone: the inverse of what is meant
        exact hat.skip (not_lt.mp (fun hlt => hslot ((hocc i).mpr hlt)))
  | create =>
      cases hs
      exact hround
  | incAdd =>
      obtain ⟨hat, hgoes, hoccupied⟩ := hround
      -- `add` counts the worker here, and `live_thr_num` in the next statement
      cases hs
      exact hat.start hgoes hoccupied
  | incLive =>
      cases hs
      exact hround
  | _ =>
      simp only [ThreadPool.adjustStmt] at hs
      (try split_ifs at hs) <;> (try cases hs) <;> trivial

/-- Only `live_thr_num` counts, and only in that time. -/
theorem Adjuster.Round.of_live {minThrNum maxThrNum live live' : ℤ} {l : Adjuster}
    (h : l.Round minThrNum maxThrNum live) (hlive : l.pc.goesByLive = true → live' = live) :
    l.Round minThrNum maxThrNum live' := by
  by_cases hgoes : l.pc.goesByLive = true
  · rw [hlive hgoes]
    exact h
  · unfold Adjuster.Round
    cases hpc : l.pc with
    | loopTest | sizesLock | readSize | readLive => trivial
    | shrinkCheck | shrinkLock | setWaitExit | shrinkUnlock | signals | ret | ended => trivial
    | _ => exact absurd (by rw [hpc]; rfl) hgoes

/-! ## Runs -/

section Runs

variable {minThrNum maxThrNum : ℤ} {queueMaxSize : ℕ} {junk : ℕ → Task F A}
  {locals : ℕ → Task F A} {calls : P → Task F A}

theorem tableInv_start :
    TableInv minThrNum maxThrNum
      (systemStart minThrNum maxThrNum queueMaxSize junk locals calls).shared
      (systemStart minThrNum maxThrNum queueMaxSize junk locals calls).manager := by
  refine ⟨rfl, rfl, ?_, trivial⟩
  intro i
  show (if (i : ℤ) < minThrNum then i + 1 else 0) ≠ 0 ↔ (i : ℤ) < minThrNum
  split_ifs with hi
  · exact ⟨fun _ => hi, fun _ => Nat.succ_ne_zero i⟩
  · exact ⟨fun hne => absurd rfl hne, fun hlt => absurd hlt hi⟩

theorem untouched_start (hmin : 1 ≤ minThrNum) :
    Untouched minThrNum maxThrNum
      (systemStart minThrNum maxThrNum queueMaxSize junk locals calls).started
      (systemStart minThrNum maxThrNum queueMaxSize junk locals calls).shared
      (systemStart minThrNum maxThrNum queueMaxSize junk locals calls).manager := by
  refine ⟨rfl, ?_, rfl, rfl, rfl, trivial⟩
  show (if ((0 : ℕ) : ℤ) < minThrNum then 0 + 1 else 0) = 1
  rw [if_pos (by omega)]

/-- A step that leaves the table alone. -/
theorem TableKept.tableInv {m : SystemMove P F A} {s s' : System P F A}
    (hkept : TableKept m s s') (h : TableInv minThrNum maxThrNum s.shared s.manager) :
    TableInv minThrNum maxThrNum s'.shared s'.manager := by
  refine ⟨hkept.minThrNum.trans h.minEq, hkept.maxThrNum.trans h.maxEq, ?_, ?_⟩
  · rw [hkept.threads]
    exact h.occupied
  · rw [hkept.manager]
    exact h.range

variable [DecidableEq P]

/-- **Every step** keeps to the slots that `threadpool_create` has filled. -/
theorem TableInv.step {m : SystemMove P F A} {s s' : System P F A}
    (h : TableInv minThrNum maxThrNum s.shared s.manager) (hs : systemStep m s = some s') :
    TableInv minThrNum maxThrNum s'.shared s'.manager := by
  rcases systemStep_table hs with ⟨n, -, -, hstmt⟩ | hkept
  · exact h.adjustStmt hstmt
  · exact hkept.tableInv h

theorem tableInv_of_reach {ok : System P F A → SystemMove P F A → Prop} {s : System P F A}
    (hreach : Reach systemStep ok
      (systemStart minThrNum maxThrNum queueMaxSize junk locals calls) s) :
    TableInv minThrNum maxThrNum s.shared s.manager :=
  hreach.invariant (I := fun s => TableInv minThrNum maxThrNum s.shared s.manager)
    tableInv_start (fun _ _ _ h _ hs => h.step hs)

/-- **The accesses lie inside** exactly if the number of ids that are cleared is at most
twice the number of tasks that was allocated. -/
theorem accessesInside_iff (hmin : minThrNum ≤ maxThrNum) {s : System P F A}
    (hreach : Reachable systemStep
      (systemStart minThrNum maxThrNum queueMaxSize junk locals calls) s) :
    s.AccessesInside minThrNum maxThrNum queueMaxSize ↔ maxThrNum ≤ 2 * queueMaxSize := by
  constructor
  · intro hinside
    have hclear : 0 + 8 * maxThrNum.toNat ≤ 16 * queueMaxSize :=
      hinside (clearAccess maxThrNum) (List.mem_append_left _ List.mem_cons_self)
    omega
  · intro hmax a ha
    rcases List.mem_append.mp ha with ha | ha
    · exact createAccesses_inside hmin hmax a ha
    · exact (tableInv_of_reach hreach).accesses_inside hmin hmax a ha

/-- A run in which no slot passes the test. -/
theorem untouched_of_reach (hmin : 1 ≤ minThrNum) (hmax : minThrNum ≤ maxThrNum)
    {s : System P F A} (hreach : Reach systemStep NoSlotPasses
      (systemStart minThrNum maxThrNum queueMaxSize junk locals calls) s) :
    Untouched minThrNum maxThrNum s.started s.shared s.manager ∧
      ∀ w, (s.worker w).body.pc ≠ .liveDec := by
  refine hreach.invariant
    (I := fun s => Untouched minThrNum maxThrNum s.started s.shared s.manager ∧
      ∀ w, (s.worker w).body.pc ≠ .liveDec) ⟨untouched_start hmin, ?_⟩ ?_
  · intro w
    show WorkerPc.loopTest ≠ .liveDec
    decide
  · rintro s m s' ⟨h, hstay⟩ hok hs
    constructor
    · rcases systemStep_table hs with ⟨n, woken, rfl, hstmt⟩ | hkept
      · exact h.adjustStmt hmin hmax hok hstmt
      · have hlive := hkept.live (fun w _ => hstay w)
        refine ⟨hkept.started.trans h.started, ?_, hkept.minThrNum.trans h.minEq,
          hkept.maxThrNum.trans h.maxEq, hlive.trans h.live, ?_⟩
        · rw [hkept.threads]
          exact h.zeroth
        · rw [hkept.manager]
          exact h.first
    · intro w hw
      -- a worker retires only if `live_thr_num` is above `min_thr_num`
      rcases liveDec_of_step hs hw with hpc | hlt
      · exact hstay w hpc
      · rw [h.minEq, h.live] at hlt
        omega

/-- The table is as it should be, if there is room for it. -/
theorem Untouched.slotTableOk_iff {s : System P F A}
    (h : Untouched minThrNum maxThrNum s.started s.shared s.manager)
    (hmax : minThrNum ≤ maxThrNum) (hreach : Reachable systemStep
      (systemStart minThrNum maxThrNum queueMaxSize junk locals calls) s) :
    SlotTableOk minThrNum maxThrNum queueMaxSize s ↔ maxThrNum ≤ 2 * queueMaxSize := by
  have hfirst := h.first
  unfold Adjuster.AtFirst at hfirst
  constructor
  · intro hok
    exact (accessesInside_iff hmax hreach).mp hok.inside
  · intro hsize
    refine ⟨(accessesInside_iff hmax hreach).mpr hsize, ?_, ?_⟩
    · intro hpc
      rw [hpc] at hfirst
      exact hfirst.elim
    · intro hpc
      rw [hpc] at hfirst
      exact hfirst.elim

/-- Before the shutdown all the workers that were started run, when as many of them were
started as `live_thr_num` is short. -/
theorem running_of_reach (hmin : 1 ≤ minThrNum) {s : System P F A}
    (hreach : Reachable systemStep
      (systemStart minThrNum maxThrNum queueMaxSize junk locals calls) s)
    (hrun : s.shared.pool.shutdown = false) (hlive : s.shared.pool.liveThrNum = 0)
    (hstarted : s.started = minThrNum.toNat) {w : ℕ} (hw : w < s.started) :
    (s.worker w).exit ≠ ExitPc.ended := by
  have hcount := liveThrNum_of_reach hmin hreach hrun
  -- as many workers are alive as were started
  have hall : (Finset.range s.started).card ≤ s.alive := by
    rw [Finset.card_range]
    omega
  have heq : s.alive = (Finset.range s.started).card :=
    le_antisymm (Finset.card_filter_le _ _) hall
  exact Finset.card_filter_eq_iff.mp heq w (Finset.mem_range.mpr hw)

/-- **The first slot that passes** holds a worker that runs. -/
theorem Untouched.not_kept_of_passes (hmin : 1 ≤ minThrNum) {s s' : System P F A}
    {m : SystemMove P F A} (h : Untouched minThrNum maxThrNum s.started s.shared s.manager)
    (hpasses : ¬ NoSlotPasses s m) (hs : systemStep m s = some s')
    (hreach : Reachable systemStep
      (systemStart minThrNum maxThrNum queueMaxSize junk locals calls) s')
    (hrun : s.shared.pool.shutdown = false) : ¬ s'.SlotsKept := by
  cases m with
  | manager woken =>
      obtain ⟨hpc, hslot⟩ := Classical.not_imp.mp hpasses
      have hfirst := h.first
      simp only [Adjuster.AtFirst, hpc] at hfirst
      obtain ⟨⟨started, sh, l, n⟩, hstmt, hdeliver⟩ := Option.bind_eq_some_iff.mp hs
      simp only [ThreadPool.adjustStmt, hpc] at hstmt
      rw [if_pos hslot] at hstmt
      cases hstmt
      obtain ⟨wk, pr, rfl, -, -⟩ := System.woken_of_deliver hdeliver
      intro hkept
      have hworker : s.shared.pool.threads s.manager.i = 0 + 1 := by
        rw [hfirst.1, h.zeroth]
      have hstarted : 0 < s.started := by
        rw [h.started]
        omega
      exact running_of_reach hmin hreach hrun h.live h.started hstarted (hkept rfl 0 hworker)
  | _ => exact absurd trivial hpasses

/-- **A step** with no worker that retires within the round. -/
theorem TableInv.round_step (hmin : 1 ≤ minThrNum) {m : SystemMove P F A} {s s' : System P F A}
    (h : TableInv minThrNum maxThrNum s.shared s.manager)
    (hround : s.manager.Round minThrNum maxThrNum s.shared.pool.liveThrNum)
    (hok : RetiresOutside s m) (hs : systemStep m s = some s') :
    s'.manager.Round minThrNum maxThrNum s'.shared.pool.liveThrNum := by
  rcases systemStep_table hs with ⟨n, -, -, hstmt⟩ | hkept
  · exact h.round hmin hround hstmt
  · rw [hkept.manager]
    apply hround.of_live
    -- within the round only the manager changes `live_thr_num`
    intro hgoes
    apply hkept.live
    rintro w rfl hpc
    rw [hok hpc] at hgoes
    cases hgoes

/-- A run in which no worker retires within a round. -/
theorem round_of_reach (hmin : 1 ≤ minThrNum) {s : System P F A}
    (hreach : Reach systemStep RetiresOutside
      (systemStart minThrNum maxThrNum queueMaxSize junk locals calls) s) :
    s.manager.Round minThrNum maxThrNum s.shared.pool.liveThrNum := by
  have hboth : TableInv minThrNum maxThrNum s.shared s.manager ∧
      s.manager.Round minThrNum maxThrNum s.shared.pool.liveThrNum := by
    refine hreach.invariant
      (I := fun s => TableInv minThrNum maxThrNum s.shared s.manager ∧
        s.manager.Round minThrNum maxThrNum s.shared.pool.liveThrNum)
      ⟨tableInv_start, trivial⟩ ?_
    rintro s m s' ⟨h, hround⟩ hok hs
    exact ⟨h.step hs, h.round_step hmin hround hok hs⟩
  exact hboth.2

/-- **How many workers a round starts**: one for each slot with a worker, up to the ten or
the missing ones. -/
theorem add_of_reach (hmin : 1 ≤ minThrNum) (hmax : minThrNum ≤ maxThrNum) {s : System P F A}
    (hreach : Reach systemStep RetiresOutside
      (systemStart minThrNum maxThrNum queueMaxSize junk locals calls) s)
    (hpc : s.manager.pc = .growUnlock) :
    (s.manager.add : ℤ)
      = min (min (defaultThreadVary : ℤ) (maxThrNum - s.manager.liveThrNum)) minThrNum := by
  have hround := round_of_reach hmin hreach
  unfold Adjuster.Round at hround
  rw [hpc] at hround
  exact hround.1.add_eq hmax hround.2

/-- They are the missing ones if there are as many slots with a worker. -/
theorem missingStarted_iff (hmin : 1 ≤ minThrNum) (hmax : minThrNum ≤ maxThrNum)
    {s : System P F A} (hreach : Reach systemStep RetiresOutside
      (systemStart minThrNum maxThrNum queueMaxSize junk locals calls) s)
    (hpc : s.manager.pc = .growUnlock) :
    s.MissingStarted ↔
      min (defaultThreadVary : ℤ) (maxThrNum - s.manager.liveThrNum) ≤ minThrNum := by
  have hadd := add_of_reach hmin hmax hreach hpc
  have hmaxEq := (tableInv_of_reach hreach).maxEq
  constructor
  · intro hstarted
    have hright := hstarted hpc
    rw [hmaxEq] at hright
    omega
  · intro hle _
    rw [hmaxEq, hadd]
    exact min_eq_left hle

/-- **The table of the workers.**  In every run the accesses lie inside the block if and only
if `max_thr_num` is at most twice `queue_max_size`.  As long as no slot passes the test of
line 193 nothing else goes wrong; the first one that passes before the shutdown is the slot
of a worker that runs.  And a round within which no worker retires starts the missing
workers if and only if they are not more than `min_thr_num`, or ten. -/
theorem slotTable_law (hmin : 1 ≤ minThrNum) (hmax : minThrNum ≤ maxThrNum)
    (queueMaxSize : ℕ) (junk : ℕ → Task F A) (locals : ℕ → Task F A) (calls : P → Task F A) :
    (∀ s, Reachable systemStep
        (systemStart minThrNum maxThrNum queueMaxSize junk locals calls) s →
        (s.AccessesInside minThrNum maxThrNum queueMaxSize ↔ maxThrNum ≤ 2 * queueMaxSize)) ∧
      (∀ s, Reach systemStep NoSlotPasses
        (systemStart minThrNum maxThrNum queueMaxSize junk locals calls) s →
        (SlotTableOk minThrNum maxThrNum queueMaxSize s ↔ maxThrNum ≤ 2 * queueMaxSize) ∧
          ∀ m s', systemStep m s = some s' → s.shared.pool.shutdown = false →
            (SlotTableOk minThrNum maxThrNum queueMaxSize s' ↔
              maxThrNum ≤ 2 * queueMaxSize ∧ NoSlotPasses s m)) ∧
      ∀ s, Reach systemStep RetiresOutside
        (systemStart minThrNum maxThrNum queueMaxSize junk locals calls) s →
        s.manager.pc = .growUnlock →
        (s.MissingStarted ↔
          min (defaultThreadVary : ℤ) (maxThrNum - s.manager.liveThrNum) ≤ minThrNum) := by
  refine ⟨fun s hreach => accessesInside_iff hmax hreach, ?_,
    fun s hreach hpc => missingStarted_iff hmin hmax hreach hpc⟩
  intro s hreach
  -- the accesses are a matter of every run, the rest of this one
  have hany := hreach.weaken (fun _ _ _ => trivial)
  obtain ⟨huntouched, -⟩ := untouched_of_reach hmin hmax hreach
  refine ⟨huntouched.slotTableOk_iff hmax hany, ?_⟩
  intro m s' hs hrun
  have hany' : Reachable systemStep
      (systemStart minThrNum maxThrNum queueMaxSize junk locals calls) s' :=
    hany.next trivial hs
  constructor
  · intro hok
    refine ⟨(accessesInside_iff hmax hany').mp hok.inside, ?_⟩
    by_contra hpasses
    exact huntouched.not_kept_of_passes hmin hpasses hs hany' hrun hok.kept
  · rintro ⟨hsize, hpasses⟩
    obtain ⟨huntouched', -⟩ := untouched_of_reach hmin hmax (hreach.next hpasses hs)
    exact (huntouched'.slotTableOk_iff hmax hany').mpr hsize

end Runs

/-! ## Two small pools -/

/-- A pool for ten tasks. -/
def tenTasks (minThrNum maxThrNum : ℤ) : System Unit ℕ ℕ :=
  systemStart minThrNum maxThrNum 10 (fun _ => ⟨0, none⟩) (fun _ => ⟨0, none⟩)
    (fun _ => ⟨0, none⟩)

/-- Ten calls of `threadpool_add`, one after another, and statements of the manager. -/
def addsThenManager (stmts : ℕ) : List (SystemMove Unit ℕ ℕ) :=
  (List.replicate 10 (.call () 7 none :: List.replicate 10 (.producer () none))).flatten ++
    List.replicate stmts (.manager none)

/-- With two slots for two workers the manager comes to its first slot and nothing has gone
wrong; a round starts the two workers that it takes to be missing. -/
theorem slotTable_law_twoSlots :
    (∃ s, Reach systemStep NoSlotPasses (tenTasks 2 2) s ∧ s.manager.pc = .slotTest ∧
        SlotTableOk 2 2 10 s) ∧
      ∃ s, Reach systemStep RetiresOutside (tenTasks 2 2) s ∧ s.manager.pc = .growUnlock ∧
        s.MissingStarted := by
  obtain ⟨-, hfirst, hround⟩ := slotTable_law (P := Unit) (by decide : (1 : ℤ) ≤ 2)
    (by decide : (2 : ℤ) ≤ 2) 10 (fun _ => (⟨0, none⟩ : Task ℕ ℕ)) (fun _ => ⟨0, none⟩)
    (fun _ => ⟨0, none⟩)
  constructor
  · obtain ⟨s, hreach, hpc⟩ : ∃ s, Reach systemStep NoSlotPasses (tenTasks 2 2) s ∧
        s.manager.pc = .slotTest :=
      exists_reach_of_run (addsThenManager 11) (by decide +kernel)
    exact ⟨s, hreach, hpc, (hfirst s hreach).1.mpr (by decide)⟩
  · obtain ⟨s, hreach, hpc, hfound⟩ : ∃ s, Reach systemStep RetiresOutside (tenTasks 2 2) s ∧
        (s.manager.pc = .growUnlock ∧ s.manager.liveThrNum = 0) :=
      exists_reach_of_run (addsThenManager 21) (by decide +kernel)
    refine ⟨s, hreach, hpc, (hround s hreach hpc).mpr ?_⟩
    rw [hfound]
    decide

/-- **The law fails.**  Three ids are cleared in the block for one task.  And with one worker
and room for three the manager starts a worker in the slot of the first one, which runs; its
round ends with one worker started and three missing, and the id of the first worker is in no
slot. -/
theorem first_worker_overwritten :
    (∀ calls : Unit → Task ℕ ℕ,
        ¬ (systemStart 1 3 1 (fun _ => ⟨0, none⟩) (fun _ => ⟨0, none⟩) calls).AccessesInside
          1 3 1) ∧
      (∃ s, Reachable systemStep (tenTasks 1 3) s ∧ ¬ s.SlotsKept) ∧
      ∃ s, Reachable systemStep (tenTasks 1 3) s ∧ ¬ s.MissingStarted ∧
        (s.worker 0).exit = .running ∧ ∀ i, s.shared.pool.threads i ≠ 0 + 1 := by
  refine ⟨?_, ?_, ?_⟩
  · intro calls hinside
    have hclear : 0 + 8 * 3 ≤ 16 * 1 :=
      hinside (clearAccess 3) (List.mem_append_left _ List.mem_cons_self)
    omega
  · obtain ⟨s, hreach, hpc, hslot, hexit⟩ : ∃ s, Reachable systemStep (tenTasks 1 3) s ∧
        (s.manager.pc = .create ∧ s.shared.pool.threads s.manager.i = 0 + 1 ∧
          (s.worker 0).exit = .running) :=
      exists_reach_of_run (addsThenManager 12) (by decide +kernel)
    refine ⟨s, hreach, ?_⟩
    intro hkept
    rw [hkept hpc 0 hslot] at hexit
    cases hexit
  · obtain ⟨s, hreach, ⟨hpc, hadd, hfound⟩, hexit, hslot⟩ :
        ∃ s, Reachable systemStep (tenTasks 1 3) s ∧
          ((s.manager.pc = .growUnlock ∧ s.manager.add = 1 ∧ s.manager.liveThrNum = 0) ∧
            (s.worker 0).exit = .running ∧ s.shared.pool.threads 0 = 2) :=
      exists_reach_of_run (addsThenManager 20) (by decide +kernel)
    have htable : TableInv 1 3 s.shared s.manager := tableInv_of_reach hreach
    refine ⟨s, hreach, ?_, hexit, ?_⟩
    · intro hstarted
      have hright := hstarted hpc
      rw [hadd, hfound, htable.maxEq] at hright
      exact absurd hright (by decide)
    · intro i hi
      -- only the first slot is occupied
      have hlt : (i : ℤ) < 1 := (htable.occupied i).mp (by rw [hi]; decide)
      have hzero : i = 0 := by omega
      rw [hzero, hslot] at hi
      cases hi

end ThreadPool
