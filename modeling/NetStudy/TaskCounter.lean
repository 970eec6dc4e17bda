/-
# Threads that share a counter of tasks (`blockio/test.cc`)

Any number of threads run `Task::handle` on one `Task`.  A thread tests `_x` without the
lock, takes the value of `_x` as its task inside the lock, where it tests again, and then
executes the do-task statement with whatever its `task_id` is.

The unlocked test, the locked section and the do-task statement are one step each; the
history `executed` lists the tasks executed, with the threads that did.

* `exactlyOnce_iff_reach`: once all threads have returned, the tasks `1, …, N` have been
  executed, each once, exactly if no thread entered the locked section with `_x` at 0;
* `lastTask_twoThreads`: two threads that both test `_x = 1` before one of them takes the
  last task execute the task 0.
-/
import NetStudy.Transition

namespace TaskCounter

open Transition

/-! ## `Task::handle` -/

/-- The statement a thread executes next. -/
inductive Pc
  /-- 16: the test without the lock. -/
  | test
  /-- 17-20: the locked section. -/
  | locked
  /-- 24: the do-task statement. -/
  | doTask
  /-- 21: the thread has returned. -/
  | returned
  deriving DecidableEq

/-- A thread inside `handle`, with its `task_id`. -/
structure Thread where
  pc : Pc
  taskId : ℤ
  deriving DecidableEq

/-- The shared `_x`, the threads, and the tasks executed so far. -/
structure State (ι : Type*) where
  x : ℤ
  thread : ι → Thread
  executed : List (ι × ℤ)

variable {ι : Type*} [DecidableEq ι]

/-- One thread changes. -/
def State.set (s : State ι) (t : ι) (l : Thread) : State ι :=
  { s with thread := Function.update s.thread t l }

/-- Lines 18-19. -/
def State.takeTask (s : State ι) (t : ι) : State ι :=
  if 0 < s.x then ⟨s.x - 1, Function.update s.thread t ⟨Pc.doTask, s.x⟩, s.executed⟩
  else ⟨0, Function.update s.thread t ⟨Pc.doTask, (s.thread t).taskId⟩, s.executed⟩

/-- Line 24. -/
def State.execute (s : State ι) (t : ι) : State ι :=
  ⟨s.x, Function.update s.thread t { s.thread t with pc := Pc.test },
    s.executed ++ [(t, (s.thread t).taskId)]⟩

/-- The next statement of the thread `t`. -/
def handle (t : ι) (s : State ι) : Option (State ι) :=
  match (s.thread t).pc with
  | Pc.test =>
      if 0 < s.x then some (s.set t { s.thread t with pc := Pc.locked })
      else some (s.set t { s.thread t with pc := Pc.returned })
  | Pc.locked => some (s.takeTask t)
  | Pc.doTask => some (s.execute t)
  | Pc.returned => none

/-- `N` tasks, and every thread about to run `handle`. -/
def start (N : ℕ) : State ι := ⟨N, fun _ => ⟨Pc.test, 0⟩, []⟩

/-! ## The tasks executed -/

/-- The ids executed, in order. -/
def State.ids (s : State ι) : List ℤ := s.executed.map Prod.snd

/-- All threads have returned. -/
def AllReturned (s : State ι) : Prop := ∀ t, (s.thread t).pc = Pc.returned

/-- The ids `1, …, N` and no others have been executed, each of them once. -/
def ExactlyOnce (N : ℕ) (s : State ι) : Prop :=
  ∀ k : ℤ, s.ids.count k = if 1 ≤ k ∧ k ≤ N then 1 else 0

/-- The condition on a step: a locked section finds a task. -/
def SectionFindsTask (s : State ι) (t : ι) : Prop :=
  (s.thread t).pc = Pc.locked → 0 < s.x

instance [Fintype ι] (s : State ι) : Decidable (AllReturned s) :=
  inferInstanceAs (Decidable (∀ _, _))

instance (s : State ι) (t : ι) : Decidable (SectionFindsTask s t) :=
  inferInstanceAs (Decidable (_ → _))

/-- What a step can be. -/
theorem handle_cases {t : ι} {s s' : State ι} (h : handle t s = some s') :
    ((s.thread t).pc = Pc.test ∧ 0 < s.x ∧
        s' = s.set t { s.thread t with pc := Pc.locked }) ∨
      ((s.thread t).pc = Pc.test ∧ s.x ≤ 0 ∧
        s' = s.set t { s.thread t with pc := Pc.returned }) ∨
      ((s.thread t).pc = Pc.locked ∧ s' = s.takeTask t) ∨
      ((s.thread t).pc = Pc.doTask ∧ s' = s.execute t) := by
  unfold handle at h
  cases hpc : (s.thread t).pc with
  | test =>
      simp only [hpc] at h
      split_ifs at h with hx
      · exact Or.inl ⟨rfl, hx, (Option.some.inj h).symm⟩
      · exact Or.inr (Or.inl ⟨rfl, by omega, (Option.some.inj h).symm⟩)
  | locked =>
      simp only [hpc] at h
      exact Or.inr (Or.inr (Or.inl ⟨rfl, (Option.some.inj h).symm⟩))
  | doTask =>
      simp only [hpc] at h
      exact Or.inr (Or.inr (Or.inr ⟨rfl, (Option.some.inj h).symm⟩))
  | returned =>
      simp only [hpc] at h
      cases h

/-! ## Runs whose sections find a task -/

/-- The thread holds the task `k`, taken and not executed. -/
def State.Holds (s : State ι) (t : ι) (k : ℤ) : Prop := s.thread t = ⟨Pc.doTask, k⟩

omit [DecidableEq ι] in
theorem holds_taskId {s : State ι} {t : ι} (h : (s.thread t).pc = Pc.doTask) :
    s.Holds t (s.thread t).taskId := by
  rw [State.Holds, ← h]

/-- Every id above `_x` is executed or held, by one thread and once. -/
structure Fair (N : ℕ) (s : State ι) : Prop where
  x_nonneg : 0 ≤ s.x
  x_le : s.x ≤ N
  nodup : s.ids.Nodup
  executed_range : ∀ k ∈ s.ids, s.x < k ∧ k ≤ N
  held_range : ∀ t k, s.Holds t k → s.x < k ∧ k ≤ N
  held_new : ∀ t k, s.Holds t k → k ∉ s.ids
  held_once : ∀ t u k, s.Holds t k → s.Holds u k → t = u
  covered : ∀ k, s.x < k → k ≤ N → k ∈ s.ids ∨ ∃ t, s.Holds t k
  idle : ∀ t, (s.thread t).pc ≠ Pc.doTask →
    (s.thread t).taskId = 0 ∨ (s.thread t).taskId ∈ s.ids
  returned : ∀ t, (s.thread t).pc = Pc.returned → s.x = 0

omit [DecidableEq ι] in
theorem fair_start (N : ℕ) : Fair N (start (ι := ι) N) where
  x_nonneg := Int.natCast_nonneg N
  x_le := le_rfl
  nodup := List.nodup_nil
  executed_range := fun _ hk => absurd hk List.not_mem_nil
  held_range := fun _ _ hk => by cases hk
  held_new := fun _ _ hk => by cases hk
  held_once := fun _ _ _ hk => by cases hk
  covered := fun k hlt hle => absurd hle (not_le.mpr hlt)
  idle := fun _ _ => Or.inl rfl
  returned := fun _ hpc => by cases hpc

/-- Who holds what after one thread has changed. -/
theorem holds_update {s s' : State ι} {t : ι} {l : Thread}
    (hs' : s'.thread = Function.update s.thread t l) {u : ι} {k : ℤ} :
    s'.Holds u k ↔ (u = t ∧ l = ⟨Pc.doTask, k⟩) ∨ (u ≠ t ∧ s.Holds u k) := by
  by_cases hut : u = t
  · simp [State.Holds, hs', hut]
  · simp [State.Holds, hs', hut]

/-- A thread that holds no task before and after changes nothing else. -/
theorem Fair.set_idle {N : ℕ} {s : State ι} (h : Fair N s) {t : ι} {pc : Pc}
    (hold : (s.thread t).pc ≠ Pc.doTask) (hnew : pc ≠ Pc.doTask)
    (hret : pc = Pc.returned → s.x = 0) :
    Fair N (s.set t { s.thread t with pc := pc }) := by
  have hholds : ∀ u k, (s.set t { s.thread t with pc := pc }).Holds u k ↔ s.Holds u k := by
    intro u k
    rw [holds_update rfl]
    constructor
    · rintro (⟨-, heq⟩ | ⟨-, hu⟩)
      · exact absurd (congrArg Thread.pc heq) hnew
      · exact hu
    · intro hu
      refine Or.inr ⟨?_, hu⟩
      rintro rfl
      exact hold (congrArg Thread.pc hu)
  refine ⟨h.x_nonneg, h.x_le, h.nodup, h.executed_range, ?_, ?_, ?_, ?_, ?_, ?_⟩
  · intro u k hu
    exact h.held_range u k ((hholds u k).mp hu)
  · intro u k hu
    exact h.held_new u k ((hholds u k).mp hu)
  · intro u v k hu hv
    exact h.held_once u v k ((hholds u k).mp hu) ((hholds v k).mp hv)
  · intro k hlt hle
    exact (h.covered k hlt hle).imp_right (fun ⟨u, hu⟩ => ⟨u, (hholds u k).mpr hu⟩)
  · apply (Function.forall_update_iff s.thread
      (fun _ l => l.pc ≠ Pc.doTask → l.taskId = 0 ∨ l.taskId ∈ s.ids)).mpr
    constructor
    · intro _
      exact h.idle t hold
    · intro u _
      exact h.idle u
  · apply (Function.forall_update_iff s.thread (fun _ l => l.pc = Pc.returned → s.x = 0)).mpr
    constructor
    · exact hret
    · intro u _
      exact h.returned u

/-- **A section that finds a task** hands out the id that is next, held by nobody. -/
theorem Fair.takeTask {N : ℕ} {s : State ι} (h : Fair N s) {t : ι}
    (hpc : (s.thread t).pc = Pc.locked) (hx : 0 < s.x) : Fair N (s.takeTask t) := by
  rw [State.takeTask, if_pos hx]
  have hle := h.x_le
  refine ⟨?_, ?_, h.nodup, ?_, ?_, ?_, ?_, ?_, ?_, ?_⟩
  · show 0 ≤ s.x - 1
    omega
  · show s.x - 1 ≤ N
    omega
  · intro k hk
    show s.x - 1 < k ∧ k ≤ N
    have := h.executed_range k hk
    omega
  · intro u k hu
    show s.x - 1 < k ∧ k ≤ N
    rcases (holds_update rfl).mp hu with ⟨-, heq⟩ | ⟨-, hu⟩
    · have : s.x = k := congrArg Thread.taskId heq
      omega
    · have := h.held_range u k hu
      omega
  · intro u k hu
    rcases (holds_update rfl).mp hu with ⟨-, heq⟩ | ⟨-, hu⟩
    · -- the ids executed lie above `_x`
      intro hmem
      have hlt := (h.executed_range k hmem).1
      have : s.x = k := congrArg Thread.taskId heq
      omega
    · exact h.held_new u k hu
  · intro u v k hu hv
    rcases (holds_update rfl).mp hu with ⟨hut, heq⟩ | ⟨hut, hu⟩
    · rcases (holds_update rfl).mp hv with ⟨hvt, -⟩ | ⟨-, hv⟩
      · rw [hut, hvt]
      · have hlt := (h.held_range v k hv).1
        have : s.x = k := congrArg Thread.taskId heq
        omega
    · rcases (holds_update rfl).mp hv with ⟨-, heq⟩ | ⟨-, hv⟩
      · have hlt := (h.held_range u k hu).1
        have : s.x = k := congrArg Thread.taskId heq
        omega
      · exact h.held_once u v k hu hv
  · intro k hlt hle
    by_cases hk : k = s.x
    · exact Or.inr ⟨t, (holds_update rfl).mpr (Or.inl ⟨rfl, by rw [hk]⟩)⟩
    · change s.x - 1 < k at hlt
      refine (h.covered k (by omega) hle).imp_right ?_
      rintro ⟨u, hu⟩
      refine ⟨u, (holds_update rfl).mpr (Or.inr ⟨?_, hu⟩)⟩
      rintro rfl
      rw [State.Holds] at hu
      rw [hu] at hpc
      cases hpc
  · apply (Function.forall_update_iff s.thread
      (fun _ l => l.pc ≠ Pc.doTask → l.taskId = 0 ∨ l.taskId ∈ s.ids)).mpr
    constructor
    · intro hne
      exact absurd rfl hne
    · intro u _
      exact h.idle u
  · apply (Function.forall_update_iff s.thread (fun _ l => l.pc = Pc.returned → s.x - 1 = 0)).mpr
    constructor
    · intro hpc'
      cases hpc'
    · intro u _ hu
      have := h.returned u hu
      omega

theorem ids_execute (s : State ι) (t : ι) : (s.execute t).ids = s.ids ++ [(s.thread t).taskId] := by
  rw [State.ids, State.execute, List.map_append]
  rfl

/-- **Executing a task that is held** makes it one of those executed. -/
theorem Fair.execute {N : ℕ} {s : State ι} (h : Fair N s) {t : ι}
    (hpc : (s.thread t).pc = Pc.doTask) : Fair N (s.execute t) := by
  have hheld := holds_taskId hpc
  have hholds : ∀ u k, (s.execute t).Holds u k ↔ u ≠ t ∧ s.Holds u k := by
    intro u k
    rw [holds_update (s := s) (t := t) (l := { s.thread t with pc := Pc.test }) rfl]
    constructor
    · rintro (⟨-, heq⟩ | hother)
      · cases congrArg Thread.pc heq
      · exact hother
    · exact Or.inr
  have hmem : ∀ k, k ∈ (s.execute t).ids ↔ k ∈ s.ids ∨ k = (s.thread t).taskId := by
    intro k
    rw [ids_execute, List.mem_append, List.mem_singleton]
  refine ⟨h.x_nonneg, h.x_le, ?_, ?_, ?_, ?_, ?_, ?_, ?_, ?_⟩
  · rw [ids_execute, List.nodup_append]
    refine ⟨h.nodup, List.nodup_singleton _, ?_⟩
    rintro a ha b hb rfl
    rw [List.mem_singleton] at hb
    exact h.held_new t _ hheld (hb ▸ ha)
  · intro k hk
    rcases (hmem k).mp hk with hk | rfl
    · exact h.executed_range k hk
    · exact h.held_range t _ hheld
  · intro u k hu
    exact h.held_range u k ((hholds u k).mp hu).2
  · intro u k hu hk
    obtain ⟨hut, hu⟩ := (hholds u k).mp hu
    rcases (hmem k).mp hk with hk | rfl
    · exact h.held_new u k hu hk
    · exact hut (h.held_once u t _ hu hheld)
  · intro u v k hu hv
    exact h.held_once u v k ((hholds u k).mp hu).2 ((hholds v k).mp hv).2
  · intro k hlt hle
    rcases h.covered k hlt hle with hk | ⟨u, hu⟩
    · exact Or.inl ((hmem k).mpr (Or.inl hk))
    · by_cases hut : u = t
      · rw [hut] at hu
        exact Or.inl ((hmem k).mpr (Or.inr (congrArg Thread.taskId hu).symm))
      · exact Or.inr ⟨u, (hholds u k).mpr ⟨hut, hu⟩⟩
  · apply (Function.forall_update_iff s.thread
      (fun _ l => l.pc ≠ Pc.doTask → l.taskId = 0 ∨ l.taskId ∈ (s.execute t).ids)).mpr
    constructor
    · intro _
      exact Or.inr ((hmem _).mpr (Or.inr rfl))
    · intro u _ hu
      exact (h.idle u hu).imp_right (fun hk => (hmem _).mpr (Or.inl hk))
  · apply (Function.forall_update_iff s.thread (fun _ l => l.pc = Pc.returned → s.x = 0)).mpr
    constructor
    · intro hpc'
      cases hpc'
    · intro u _
      exact h.returned u

/-- One step that meets the condition. -/
theorem Fair.handle {N : ℕ} {s s' : State ι} (h : Fair N s) {t : ι}
    (hfinds : SectionFindsTask s t) (hs : handle t s = some s') : Fair N s' := by
  rcases handle_cases hs with ⟨hpc, -, rfl⟩ | ⟨hpc, hx, rfl⟩ | ⟨hpc, rfl⟩ | ⟨hpc, rfl⟩
  · refine h.set_idle ?_ ?_ ?_
    · rw [hpc]
      decide
    · decide
    · intro hret
      cases hret
  · refine h.set_idle ?_ ?_ ?_
    · rw [hpc]
      decide
    · decide
    · intro _
      have := h.x_nonneg
      omega
  · exact h.takeTask hpc (hfinds hpc)
  · exact h.execute hpc

omit [DecidableEq ι] in
/-- The end of such a run: every id has been executed once. -/
theorem Fair.exactlyOnce {N : ℕ} {s : State ι} (h : Fair N s) (hall : AllReturned s) (t : ι) :
    ExactlyOnce N s := by
  have hx : s.x = 0 := h.returned t (hall t)
  have hnone : ∀ u k, ¬ s.Holds u k := by
    intro u k hu
    have := hall u
    rw [State.Holds] at hu
    rw [hu] at this
    cases this
  intro k
  by_cases hk : 1 ≤ k ∧ k ≤ N
  · rw [if_pos hk]
    rcases h.covered k (by omega) hk.2 with hmem | ⟨u, hu⟩
    · exact List.count_eq_one_of_mem h.nodup hmem
    · exact absurd hu (hnone u k)
  · rw [if_neg hk]
    apply List.count_eq_zero_of_not_mem
    intro hmem
    have := h.executed_range k hmem
    omega

/-! ## Runs with a section that finds none -/

/-- An id is executed, or about to be, that is 0 or has been executed before. -/
def Stale (s : State ι) : Prop :=
  (∃ t k, s.Holds t k ∧ (k = 0 ∨ k ∈ s.ids)) ∨ 0 ∈ s.ids ∨ ¬ s.ids.Nodup

/-- A section that finds no task leaves its thread with the `task_id` it had. -/
theorem Fair.stale {N : ℕ} {s : State ι} (h : Fair N s) {t : ι}
    (hpc : (s.thread t).pc = Pc.locked) (hx : ¬ 0 < s.x) : Stale (s.takeTask t) := by
  left
  rw [State.takeTask, if_neg hx]
  refine ⟨t, (s.thread t).taskId, (holds_update rfl).mpr (Or.inl ⟨rfl, rfl⟩), ?_⟩
  apply h.idle t
  rw [hpc]
  decide

/-- A thread without a task does not change that. -/
theorem Stale.update {s s' : State ι} (h : Stale s) {t : ι} {l : Thread}
    (hold : (s.thread t).pc ≠ Pc.doTask) (hids : s'.ids = s.ids)
    (hs' : s'.thread = Function.update s.thread t l) : Stale s' := by
  rw [Stale, hids]
  rcases h with ⟨u, k, hu, hk⟩ | hbad
  · refine Or.inl ⟨u, k, (holds_update hs').mpr (Or.inr ⟨?_, hu⟩), hk⟩
    rintro rfl
    exact hold (congrArg Thread.pc hu)
  · exact Or.inr hbad

/-- An id once executed wrongly stays in the history. -/
theorem Stale.handle {s s' : State ι} (h : Stale s) {t : ι} (hs : handle t s = some s') :
    Stale s' := by
  rcases handle_cases hs with ⟨hpc, -, rfl⟩ | ⟨hpc, -, rfl⟩ | ⟨hpc, rfl⟩ | ⟨hpc, rfl⟩
  · exact h.update (by rw [hpc]; decide) rfl rfl
  · exact h.update (by rw [hpc]; decide) rfl rfl
  · rw [State.takeTask]
    split_ifs
    · exact h.update (by rw [hpc]; decide) rfl rfl
    · exact h.update (by rw [hpc]; decide) rfl rfl
  · rw [Stale, ids_execute]
    rcases h with ⟨u, k, hu, hk⟩ | hzero | hdup
    · by_cases hut : u = t
      · have htask : (s.thread t).taskId = k := by
          rw [← hut]
          exact congrArg Thread.taskId hu
        right
        rw [htask]
        rcases hk with rfl | hmem
        · exact Or.inl (List.mem_append_right _ (List.mem_singleton_self 0))
        · right
          intro hnodup
          exact (List.nodup_append.mp hnodup).2.2 k hmem k (List.mem_singleton_self k) rfl
      · refine Or.inl ⟨u, k, (holds_update rfl).mpr (Or.inr ⟨hut, hu⟩), ?_⟩
        exact hk.imp_right (fun hmem => List.mem_append_left _ hmem)
    · exact Or.inr (Or.inl (List.mem_append_left _ hzero))
    · exact Or.inr (Or.inr (fun hnodup => hdup (List.nodup_append.mp hnodup).1))

omit [DecidableEq ι] in
/-- Once all threads have returned it shows in the ids executed. -/
theorem Stale.not_exactlyOnce {N : ℕ} {s : State ι} (h : Stale s) (hall : AllReturned s) :
    ¬ ExactlyOnce N s := by
  intro honce
  rcases h with ⟨u, k, hu, -⟩ | hzero | hdup
  · have := hall u
    rw [State.Holds] at hu
    rw [hu] at this
    cases this
  · have := honce 0
    rw [if_neg (by omega)] at this
    exact List.count_eq_zero.mp this hzero
  · refine hdup (List.nodup_iff_count_le_one.mpr (fun k => ?_))
    rw [honce k]
    split_ifs <;> omega

/-- Every run either meets the condition all along, or goes wrong for good. -/
theorem fair_or_stale {N : ℕ} {s : State ι} (h : Reachable handle (start N) s) :
    Reach handle SectionFindsTask (start N) s ∧ Fair N s ∨ Stale s := by
  induction h with
  | start => exact Or.inl ⟨Reach.start, fair_start N⟩
  | @next s s' t hreach _ hstep ih =>
      rcases ih with ⟨hrun, hfair⟩ | hstale
      · by_cases hfinds : SectionFindsTask s t
        · exact Or.inl ⟨Reach.next hrun hfinds hstep, hfair.handle hfinds hstep⟩
        · right
          obtain ⟨hpc, hx⟩ := Classical.not_imp.mp hfinds
          have hs' : s' = s.takeTask t := by
            rw [handle, hpc] at hstep
            exact (Option.some.inj hstep).symm
          rw [hs']
          exact hfair.stale hpc hx
      · exact Or.inr (hstale.handle hstep)

/-- **The tasks executed**: with at least one thread, once all of them have returned the
tasks `1, …, N` and no others have been executed, each once, exactly if the run is one
whose locked sections all found a task. -/
theorem exactlyOnce_iff_reach {N : ℕ} {s : State ι} (t : ι)
    (h : Reachable handle (start N) s) (hall : AllReturned s) :
    ExactlyOnce N s ↔ Reach handle SectionFindsTask (start N) s := by
  constructor
  · intro honce
    rcases fair_or_stale h with ⟨hrun, -⟩ | hstale
    · exact hrun
    · exact absurd honce (hstale.not_exactlyOnce hall)
  · intro hrun
    have hfair : Fair N s :=
      hrun.invariant (fair_start N) (fun _ _ _ hfair hfinds hstep => hfair.handle hfinds hstep)
    exact hfair.exactlyOnce hall t

/-- Two threads that share two tasks and execute one each. -/
def shareTwo : List Bool :=
  [false, false, true, true, false, true, false, true]

/-- The run of `shareTwo` executes both tasks once. -/
theorem exactlyOnce_shareTwo :
    ∃ s : State Bool, Reachable handle (start 2) s ∧ AllReturned s ∧ ExactlyOnce 2 s := by
  obtain ⟨s, hreach, hall⟩ : ∃ s : State Bool, Reach handle SectionFindsTask (start 2) s ∧
      AllReturned s := exists_reach_of_run shareTwo (by decide)
  have hreach' := hreach.weaken (fun _ _ _ => trivial)
  exact ⟨s, hreach', hall, (exactlyOnce_iff_reach true hreach' hall).mpr hreach⟩

/-- Two threads that both see the last task. -/
def seeLast : List Bool :=
  [false, true, false, true, false, true, false, true]

/-- **The last task and one too many**: of two threads that have both seen `_x = 1` one
executes the task 0. -/
theorem lastTask_twoThreads :
    ∃ s : State Bool, Reachable handle (start 1) s ∧
      (AllReturned s ∧ s.executed = [(false, 1), (true, 0)]) ∧ ¬ ExactlyOnce 1 s := by
  obtain ⟨s, hreach, hend⟩ : ∃ s : State Bool, Reachable handle (start 1) s ∧
      (AllReturned s ∧ s.executed = [(false, 1), (true, 0)]) :=
    exists_reach_of_run seeLast (by decide)
  refine ⟨s, hreach, hend, ?_⟩
  intro honce
  have hzero := honce 0
  rw [State.ids, hend.2] at hzero
  exact absurd hzero (by decide)

end TaskCounter
