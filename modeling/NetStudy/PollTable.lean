/-
# The slot table of the `poll` server (`poll/pollServer.c`)

`main` keeps its clients in `pollfds`, an array of `OPEN_MAX` slots with the listener in
slot 0 and -1 in a free slot.  A new client gets the first free slot; `max`, the last
slot that `poll` and the loop behind it look at, is raised by one for every client that
is accepted and never lowered.

An iteration of the main loop is one step.  Its label says what the environment answers:
the number that `poll` returns and the entries it reports, the descriptor that `accept`
returns, and what each `Read` gets.  There is no step where the process exits, nor where
the code would look at a slot outside the array.

* `TableOk` is the invariant of the table;
* `tableOk_iff_roomToAccept`: it holds as long as clients are accepted only while `max`
  is below `OPEN_MAX - 1`, and fails at the first one that is accepted later;
* `max_outside_table`: 1024 clients, each gone before the next one comes, are enough.
-/
import NetStudy.Transition
import Mathlib.Data.Finset.Basic
import Mathlib.Data.List.Range

namespace PollServer

open Transition

/-! ## The server -/

/-- `OPEN_MAX`, the number of slots. -/
abbrev OPEN_MAX : ℕ := 1024

/-- What outlives an iteration: the fields `fd` of `pollfds`, whether its field `revents`
equals `POLL_IN`, and `max`; and the accepted descriptors that are open. -/
structure State where
  fd : ℕ → ℤ
  revents : ℕ → Bool
  max : ℕ
  opened : Finset ℤ

/-- What the environment answers in an iteration.  `nread i` is for the `Read` of slot
`i`. -/
structure Turn where
  nready : ℤ
  ready : ℕ → Bool
  cfd : ℕ
  nread : ℕ → ℤ

/-- Lines 27-38.  Nothing has been written to the fields `revents` yet. -/
def start (fd : ℕ) (junk : ℕ → Bool) : State :=
  ⟨fun i => if i = 0 then fd else -1, junk, 0, ∅⟩

/-- Line 43: `poll` sets `revents` in the entries `0, …, max`, and reports nothing for
those with a negative descriptor. -/
def State.poll (s : State) (t : Turn) : State :=
  { s with
    revents := fun i =>
      if i ≤ s.max then t.ready i && decide (0 ≤ s.fd i) else s.revents i }

/-- The search of lines 55-57. -/
def State.freeSlot (s : State) : Option ℕ :=
  (List.range' 1 (OPEN_MAX - 1)).find? (fun i => decide (s.fd i = -1))

/-- Lines 55-63.  Without a free slot the descriptor is stored nowhere. -/
def State.store (s : State) (cfd : ℕ) : State :=
  match s.freeSlot with
  | some i => { s with fd := Function.update s.fd i cfd }
  | none => s

/-- Lines 52-64. -/
def State.accept (s : State) (cfd : ℕ) : State :=
  { s.store cfd with max := s.max + 1, opened := insert (cfd : ℤ) s.opened }

/-- Lines 81-82. -/
def State.close (s : State) (i : ℕ) : State :=
  { s with fd := Function.update s.fd i (-1), opened := s.opened.erase (s.fd i) }

/-- Lines 74-96.  `Read` does not return below 0, it exits. -/
def State.serve (s : State) (t : Turn) (i : ℕ) : Option State :=
  if s.revents i then
    if t.nread i = 0 then some (s.close i)
    else if 0 < t.nread i then some s
    else none
  else some s

/-- The loop of lines 72-97 over the slots that are left. -/
def scan (t : Turn) : List ℕ → State → Option State
  | [], s => some s
  | i :: is, s => (s.serve t i).bind (scan t is)

/-- The loop of lines 72-97, as far as it stays inside the array. -/
def State.scanSlots (s : State) (t : Turn) : Option State :=
  if s.max < OPEN_MAX then scan t (List.range' 1 s.max) s else none

/-- One iteration.  `accept` returns a descriptor that is not in use. -/
def turn (t : Turn) (s : State) : Option State :=
  if OPEN_MAX < s.max + 1 ∨ t.nready < 0 then none
  else if (s.poll t).revents 0 then
    if (t.cfd : ℤ) = s.fd 0 ∨ (t.cfd : ℤ) ∈ s.opened then none
    -- lines 66-69: nothing but the listener was ready
    else if t.nready - 1 = 0 then some ((s.poll t).accept t.cfd)
    else ((s.poll t).accept t.cfd).scanSlots t
  else (s.poll t).scanSlots t

/-! ## The invariant -/

/-- The table at the top of the loop. -/
structure TableOk (s : State) : Prop where
  stored : ∀ d ∈ s.opened, ∃! i, (1 ≤ i ∧ i < OPEN_MAX) ∧ s.fd i = d
  occupied : ∀ i, 1 ≤ i → i < OPEN_MAX → s.fd i ≠ -1 → i ≤ s.max
  max_le : s.max ≤ OPEN_MAX - 1

/-- The condition on an iteration: a client is accepted only while `max` is below
`OPEN_MAX - 1`. -/
def RoomToAccept (s : State) (t : Turn) : Prop :=
  (s.poll t).revents 0 = true → s.max < OPEN_MAX - 1

/-- The table with what its slots hold. -/
structure TableInv (s : State) : Prop extends TableOk s where
  held : ∀ i, 1 ≤ i → i < OPEN_MAX → s.fd i = -1 ∨ s.fd i ∈ s.opened
  nonneg : ∀ d ∈ s.opened, 0 ≤ d

theorem tableInv_start (fd : ℕ) (junk : ℕ → Bool) : TableInv (start fd junk) := by
  have hfree : ∀ i, 1 ≤ i → (start fd junk).fd i = -1 := by
    intro i hi
    exact if_neg (by omega)
  refine ⟨⟨?_, ?_, ?_⟩, ?_, ?_⟩
  · intro d hd
    exact absurd hd (Finset.notMem_empty d)
  · intro i hi _ hocc
    exact absurd (hfree i hi) hocc
  · exact Nat.zero_le _
  · intro i hi _
    exact Or.inl (hfree i hi)
  · intro d hd
    exact absurd hd (Finset.notMem_empty d)

/-- The invariant does not read `revents`. -/
theorem TableInv.poll {s : State} (h : TableInv s) (t : Turn) : TableInv (s.poll t) :=
  ⟨⟨h.stored, h.occupied, h.max_le⟩, h.held, h.nonneg⟩

/-- An open descriptor sits in one slot only. -/
theorem TableInv.slot_unique {s : State} (h : TableInv s) {i j : ℕ} (hi : 1 ≤ i ∧ i < OPEN_MAX)
    (hj : 1 ≤ j ∧ j < OPEN_MAX) (hopen : s.fd i ∈ s.opened) (heq : s.fd j = s.fd i) : j = i := by
  obtain ⟨k, -, hk⟩ := h.stored (s.fd i) hopen
  rw [hk j ⟨hj, heq⟩, hk i ⟨hi, rfl⟩]

/-! ## Closing -/

/-- **Freeing a slot keeps the invariant**: the descriptor it held was in no other. -/
theorem TableInv.close {s : State} (h : TableInv s) {i : ℕ} (hi : 1 ≤ i ∧ i < OPEN_MAX) :
    TableInv (s.close i) := by
  have hother : ∀ j, j ≠ i → (s.close i).fd j = s.fd j :=
    fun j hj => Function.update_of_ne hj _ _
  have hself : (s.close i).fd i = -1 := Function.update_self _ _ _
  refine ⟨⟨?_, ?_, h.max_le⟩, ?_, ?_⟩
  · intro d hd
    obtain ⟨hne, hopen⟩ := Finset.mem_erase.mp hd
    obtain ⟨j, ⟨hj, hjd⟩, huniq⟩ := h.stored d hopen
    have hji : j ≠ i := by
      rintro rfl
      exact hne hjd.symm
    refine ⟨j, ⟨hj, by rw [hother j hji, hjd]⟩, ?_⟩
    rintro k ⟨hk, hkd⟩
    have hki : k ≠ i := by
      rintro rfl
      have := h.nonneg d hopen
      rw [hself] at hkd
      omega
    exact huniq k ⟨hk, by rw [← hother k hki, hkd]⟩
  · intro j hj1 hj2 hocc
    have hji : j ≠ i := by
      rintro rfl
      exact hocc hself
    exact h.occupied j hj1 hj2 (by rwa [hother j hji] at hocc)
  · intro j hj1 hj2
    by_cases hji : j = i
    · left
      rw [hji, hself]
    · rw [hother j hji]
      rcases h.held j hj1 hj2 with hfree | hopen
      · exact Or.inl hfree
      · right
        refine Finset.mem_erase.mpr ⟨?_, hopen⟩
        intro heq
        rw [heq] at hopen
        exact hji (h.slot_unique hi ⟨hj1, hj2⟩ hopen heq)
  · intro d hd
    exact h.nonneg d (Finset.mem_of_mem_erase hd)

/-- A pass over a slot keeps the invariant. -/
theorem TableInv.serve {s s' : State} (h : TableInv s) {t : Turn} {i : ℕ}
    (hi : 1 ≤ i ∧ i < OPEN_MAX) (hs : s.serve t i = some s') : TableInv s' := by
  unfold State.serve at hs
  split_ifs at hs
  · rw [← Option.some.inj hs]
    exact h.close hi
  · rw [← Option.some.inj hs]
    exact h
  · rw [← Option.some.inj hs]
    exact h

/-- The loop keeps it, over any slots of the table. -/
theorem TableInv.scan {s s' : State} (h : TableInv s) {t : Turn} {is : List ℕ}
    (his : ∀ i ∈ is, 1 ≤ i ∧ i < OPEN_MAX) (hs : scan t is s = some s') : TableInv s' := by
  induction is generalizing s with
  | nil =>
      rw [← Option.some.inj hs]
      exact h
  | cons i is ih =>
      obtain ⟨s₁, h₁, hrest⟩ := Option.bind_eq_some_iff.mp hs
      exact ih (h.serve (his i List.mem_cons_self) h₁)
        (fun j hj => his j (List.mem_cons_of_mem i hj)) hrest

theorem TableInv.scanSlots {s s' : State} (h : TableInv s) {t : Turn}
    (hs : s.scanSlots t = some s') : TableInv s' := by
  unfold State.scanSlots at hs
  split_ifs at hs with hmax
  refine h.scan ?_ hs
  intro i hi
  rw [List.mem_range'_1] at hi
  omega

/-! ## Accepting -/

theorem mem_slots {i : ℕ} : i ∈ List.range' 1 (OPEN_MAX - 1) ↔ 1 ≤ i ∧ i < OPEN_MAX := by
  rw [List.mem_range'_1]
  omega

/-- **A free slot within reach**: as every slot above `max` is free, the first free slot
is at most `max + 1`. -/
theorem TableInv.freeSlot {s : State} (h : TableInv s) (hroom : s.max < OPEN_MAX - 1) :
    ∃ i, s.freeSlot = some i ∧ (1 ≤ i ∧ i < OPEN_MAX) ∧ s.fd i = -1 ∧ i ≤ s.max + 1 := by
  have hnext : s.fd (s.max + 1) = -1 := by
    by_contra hocc
    have := h.occupied (s.max + 1) (by omega) (by omega) hocc
    omega
  have hmem : s.max + 1 ∈ List.range' 1 (OPEN_MAX - 1) := mem_slots.mpr (by omega)
  cases hfind : s.freeSlot with
  | none =>
      have := List.find?_eq_none.mp hfind (s.max + 1) hmem
      simp [hnext] at this
  | some i =>
      have hi := mem_slots.mp (List.mem_of_find?_eq_some hfind)
      have hfree : s.fd i = -1 := by simpa using List.find?_some hfind
      refine ⟨i, rfl, hi, hfree, ?_⟩
      by_contra hgt
      -- the search would have stopped at `max + 1`
      obtain ⟨-, pre, post, hsplit, hpre⟩ := List.find?_eq_some_iff_append.mp hfind
      have hsorted : (List.range' 1 (OPEN_MAX - 1)).Pairwise (· < ·) := List.pairwise_lt_range'
      rw [hsplit] at hmem hsorted
      rcases List.mem_append.mp hmem with hpre' | hpost
      · have := hpre _ hpre'
        simp [hnext] at this
      · rcases List.mem_cons.mp hpost with heq | hpost
        · omega
        · have := (List.pairwise_cons.mp (List.pairwise_append.mp hsorted).2.1).1 _ hpost
          omega

/-- **A client that finds room is stored in one slot**, and the slot is within the new
`max`. -/
theorem TableInv.accept {s : State} (h : TableInv s) {cfd : ℕ} (hnew : (cfd : ℤ) ∉ s.opened)
    (hroom : s.max < OPEN_MAX - 1) : TableInv (s.accept cfd) := by
  obtain ⟨i, hslot, hi, hfree, hle⟩ := h.freeSlot hroom
  have hfd : (s.accept cfd).fd = Function.update s.fd i (cfd : ℤ) := by
    show (s.store cfd).fd = _
    rw [State.store, hslot]
  have hself : (s.accept cfd).fd i = cfd := by rw [hfd, Function.update_self]
  have hother : ∀ j, j ≠ i → (s.accept cfd).fd j = s.fd j := by
    intro j hj
    rw [hfd, Function.update_of_ne hj]
  refine ⟨⟨?_, ?_, ?_⟩, ?_, ?_⟩
  · intro d hd
    rcases Finset.mem_insert.mp hd with rfl | hd
    · refine ⟨i, ⟨hi, hself⟩, ?_⟩
      rintro k ⟨hk, hkd⟩
      by_contra hki
      rw [hother k hki] at hkd
      rcases h.held k hk.1 hk.2 with hminus | hopen
      · omega
      · exact hnew (hkd ▸ hopen)
    · obtain ⟨j, ⟨hj, hjd⟩, huniq⟩ := h.stored d hd
      have hji : j ≠ i := by
        rintro rfl
        have := h.nonneg d hd
        omega
      refine ⟨j, ⟨hj, by rw [hother j hji, hjd]⟩, ?_⟩
      rintro k ⟨hk, hkd⟩
      have hki : k ≠ i := by
        rintro rfl
        rw [hself] at hkd
        exact hnew (hkd ▸ hd)
      exact huniq k ⟨hk, by rw [← hother k hki, hkd]⟩
  · intro j hj1 hj2 hocc
    show j ≤ s.max + 1
    by_cases hji : j = i
    · omega
    · have := h.occupied j hj1 hj2 (by rwa [hother j hji] at hocc)
      omega
  · show s.max + 1 ≤ OPEN_MAX - 1
    omega
  · intro j hj1 hj2
    by_cases hji : j = i
    · right
      rw [hji, hself]
      exact Finset.mem_insert_self _ _
    · rw [hother j hji]
      exact (h.held j hj1 hj2).imp_right Finset.mem_insert_of_mem
  · intro d hd
    rcases Finset.mem_insert.mp hd with rfl | hd
    · exact Int.natCast_nonneg cfd
    · exact h.nonneg d hd

/-! ## One client after the other -/

/-- The turn in which a client connects. -/
def connects : Turn := ⟨1, fun i => i == 0, 4, fun _ => 0⟩

/-- The turn in which the client in slot 1 is seen to have gone. -/
def leaves : Turn := ⟨1, fun i => i == 1, 4, fun _ => 0⟩

/-- The descriptors in the table of a server whose listener is 3, with no client. -/
def noClient : ℕ → ℤ := (start 3 (fun _ => false)).fd

/-- A state with these descriptors in its table, with `max = n` and nothing reported
beyond. -/
structure Shows (fd : ℕ → ℤ) (opened : Finset ℤ) (n : ℕ) (s : State) : Prop where
  fd : s.fd = fd
  opened : s.opened = opened
  max : s.max = n
  revents : ∀ i, n < i → s.revents i = false

/-- What `poll` reports up to `max`, and nothing beyond. -/
theorem Shows.poll_revents {fd : ℕ → ℤ} {opened : Finset ℤ} {n : ℕ} {s : State}
    (h : Shows fd opened n s) (t : Turn) (i : ℕ) :
    (s.poll t).revents i = (decide (i ≤ n) && (t.ready i && decide (0 ≤ fd i))) := by
  show (if i ≤ s.max then t.ready i && decide (0 ≤ s.fd i) else s.revents i) = _
  rw [h.max, h.fd]
  by_cases hi : i ≤ n
  · rw [if_pos hi, decide_eq_true hi, Bool.true_and]
  · rw [if_neg hi, decide_eq_false hi, Bool.false_and]
    exact h.revents i (by omega)

/-- Slots that are not reported are passed over. -/
theorem scan_of_quiet {t : Turn} {is : List ℕ} {s : State}
    (h : ∀ i ∈ is, s.revents i = false) : scan t is s = some s := by
  induction is with
  | nil => rfl
  | cons i is ih =>
      have hi : s.serve t i = some s := by
        rw [State.serve, h i List.mem_cons_self]
        rfl
      rw [scan, hi, Option.bind_some]
      exact ih (fun j hj => h j (List.mem_cons_of_mem i hj))

/-- A client that connects to a server without clients gets slot 1. -/
theorem turn_connects {n : ℕ} {s : State} (h : Shows noClient ∅ n s) (hn : n < OPEN_MAX) :
    ∃ s', turn connects s = some s' ∧ Shows (Function.update noClient 1 4) {4} (n + 1) s' := by
  have hlisten : (s.poll connects).revents 0 = true := by
    rw [h.poll_revents, decide_eq_true (Nat.zero_le n)]
    rfl
  have hslot : (s.poll connects).freeSlot = some 1 := by
    show (List.range' 1 (OPEN_MAX - 1)).find? (fun i => decide (s.fd i = -1)) = some 1
    rw [h.fd]
    rfl
  have hguard : ¬ (OPEN_MAX < s.max + 1 ∨ connects.nready < 0) := by
    rw [h.max, show connects.nready = 1 from rfl]
    omega
  have hnew : ¬ (((connects.cfd : ℕ) : ℤ) = s.fd 0 ∨ ((connects.cfd : ℕ) : ℤ) ∈ s.opened) := by
    rw [h.fd, h.opened]
    decide
  refine ⟨(s.poll connects).accept 4, ?_, ?_, ?_, ?_, ?_⟩
  · rw [turn, if_neg hguard, if_pos hlisten, if_neg hnew]
    rfl
  · rw [State.accept, State.store, hslot]
    show Function.update s.fd 1 4 = _
    rw [h.fd]
  · show insert 4 s.opened = {4}
    rw [h.opened]
    rfl
  · show s.max + 1 = n + 1
    rw [h.max]
  · intro i hi
    rw [State.accept, State.store, hslot]
    show (s.poll connects).revents i = false
    rw [h.poll_revents, decide_eq_false (by omega), Bool.false_and]

/-- The client goes, and the server is without clients again. -/
theorem turn_leaves {n : ℕ} {s : State} (h : Shows (Function.update noClient 1 4) {4} (n + 1) s)
    (hn : n + 1 < OPEN_MAX) :
    ∃ s', turn leaves s = some s' ∧ Shows noClient ∅ (n + 1) s' := by
  have hquiet : ∀ i, i ≠ 1 → (s.poll leaves).revents i = false := by
    intro i hi
    have hne : leaves.ready i = false := by simpa [leaves] using hi
    rw [h.poll_revents, hne, Bool.false_and, Bool.and_false]
  have hready : (s.poll leaves).revents 1 = true := by
    rw [h.poll_revents, decide_eq_true (by omega), Function.update_self]
    rfl
  have hguard : ¬ (OPEN_MAX < s.max + 1 ∨ leaves.nready < 0) := by
    rw [h.max, show leaves.nready = 1 from rfl]
    omega
  have hserve : (s.poll leaves).serve leaves 1 = some ((s.poll leaves).close 1) := by
    rw [State.serve, hready]
    rfl
  have hmax : (s.poll leaves).max = n + 1 := h.max
  refine ⟨(s.poll leaves).close 1, ?_, ?_, ?_, h.max, ?_⟩
  · rw [turn, if_neg hguard, if_neg (by rw [hquiet 0 (by decide)]; decide), State.scanSlots, hmax,
      if_pos hn, List.range'_succ, scan, hserve, Option.bind_some]
    apply scan_of_quiet
    intro i hi
    rw [List.mem_range'_1] at hi
    exact hquiet i (by omega)
  · show Function.update s.fd 1 (-1) = noClient
    rw [h.fd, Function.update_idem]
    funext i
    by_cases hi : i = 1
    · rw [hi, Function.update_self]
      rfl
    · rw [Function.update_of_ne hi]
  · show s.opened.erase (s.fd 1) = ∅
    rw [h.fd, h.opened, Function.update_self]
    rfl
  · intro i hi
    exact hquiet i (by omega)

/-! ## Whole runs -/

/-- What an iteration amounts to, with the guards it has passed. -/
theorem turn_cases {t : Turn} {s s' : State} (h : turn t s = some s') :
    ((s.poll t).revents 0 = true ∧ (t.cfd : ℤ) ∉ s.opened ∧
        (s' = (s.poll t).accept t.cfd ∨ ((s.poll t).accept t.cfd).scanSlots t = some s')) ∨
      ((s.poll t).revents 0 = false ∧ (s.poll t).scanSlots t = some s') := by
  unfold turn at h
  split_ifs at h with h1 h2 h3 h4
  · exact Or.inl ⟨h2, fun hopen => h3 (Or.inr hopen), Or.inl (Option.some.inj h).symm⟩
  · exact Or.inl ⟨h2, fun hopen => h3 (Or.inr hopen), Or.inr h⟩
  · exact Or.inr ⟨by simpa using h2, h⟩

/-- **One iteration that finds room keeps the invariant.** -/
theorem TableInv.turn {s s' : State} (h : TableInv s) {t : Turn} (hroom : RoomToAccept s t)
    (hs : turn t s = some s') : TableInv s' := by
  rcases turn_cases hs with ⟨hlisten, hnew, rfl | hscan⟩ | ⟨-, hscan⟩
  · exact (h.poll t).accept hnew (hroom hlisten)
  · exact ((h.poll t).accept hnew (hroom hlisten)).scanSlots hscan
  · exact (h.poll t).scanSlots hscan

/-- A run that accepts clients only while there is room keeps the invariant. -/
theorem tableInv_of_reach {fd : ℕ} {junk : ℕ → Bool} {s : State}
    (h : Reach turn RoomToAccept (start fd junk) s) : TableInv s :=
  h.invariant (tableInv_start fd junk) (fun _ _ _ hinv hroom hstep => hinv.turn hroom hstep)

/-- The loop leaves `max` as it is. -/
theorem max_of_scan {t : Turn} {is : List ℕ} {s s' : State} (h : scan t is s = some s') :
    s'.max = s.max := by
  induction is generalizing s with
  | nil => rw [← Option.some.inj h]
  | cons i is ih =>
      obtain ⟨s₁, h₁, hrest⟩ := Option.bind_eq_some_iff.mp h
      rw [ih hrest]
      unfold State.serve at h₁
      split_ifs at h₁
      · rw [← Option.some.inj h₁]
        rfl
      · rw [← Option.some.inj h₁]
      · rw [← Option.some.inj h₁]

/-- A client that is accepted at `OPEN_MAX - 1` or above leaves `max` outside the
table. -/
theorem not_tableOk_of_full {t : Turn} {s s' : State} (h : turn t s = some s')
    (hroom : ¬ RoomToAccept s t) : ¬ TableOk s' := by
  obtain ⟨hlisten, hmax⟩ := Classical.not_imp.mp hroom
  intro hok
  have hle := hok.max_le
  have hs' : s'.max = s.max + 1 := by
    rcases turn_cases h with ⟨-, -, rfl | hscan⟩ | ⟨hno, -⟩
    · rfl
    · unfold State.scanSlots at hscan
      split_ifs at hscan
      exact max_of_scan hscan
    · rw [hno] at hlisten
      cases hlisten
  omega

/-- **The table**: in every run that accepts clients only while `max` is below
`OPEN_MAX - 1` the table is as it should be, and an iteration keeps it so exactly if it
meets this condition too. -/
theorem tableOk_iff_roomToAccept {fd : ℕ} {junk : ℕ → Bool} {s : State}
    (h : Reach turn RoomToAccept (start fd junk) s) :
    TableOk s ∧ ∀ t s', turn t s = some s' → (TableOk s' ↔ RoomToAccept s t) := by
  have hinv := tableInv_of_reach h
  refine ⟨hinv.toTableOk, ?_⟩
  intro t s' hstep
  constructor
  · intro hok
    by_contra hroom
    exact not_tableOk_of_full hstep hroom hok
  · intro hroom
    exact (hinv.turn hroom hstep).toTableOk

/-- After a first client has connected the table is as it should be. -/
theorem tableOk_first_client :
    ∃ s, Reach turn RoomToAccept (start 3 (fun _ => false)) s ∧ s.opened = {4} ∧ TableOk s := by
  obtain ⟨s, hstep, hs⟩ :=
    turn_connects (⟨rfl, rfl, rfl, fun _ _ => rfl⟩ : Shows noClient ∅ 0 _) (by decide)
  have hreach : Reach turn RoomToAccept (start 3 (fun _ => false)) s :=
    Reach.single (fun _ => by decide) hstep
  exact ⟨s, hreach, hs.opened, (tableOk_iff_roomToAccept hreach).1⟩

/-- Every client that has come and gone leaves `max` one higher. -/
theorem reach_noClient (n : ℕ) (hn : n < OPEN_MAX) :
    ∃ s, Reachable turn (start 3 (fun _ => false)) s ∧ Shows noClient ∅ n s := by
  induction n with
  | zero => exact ⟨_, Reach.start, rfl, rfl, rfl, fun _ _ => rfl⟩
  | succ n ih =>
      obtain ⟨s, hreach, hs⟩ := ih (by omega)
      obtain ⟨s₁, hstep₁, hs₁⟩ := turn_connects hs (by omega)
      obtain ⟨s₂, hstep₂, hs₂⟩ := turn_leaves hs₁ hn
      exact ⟨s₂, Reach.next (Reach.next hreach trivial hstep₁) trivial hstep₂, hs₂⟩

/-- 1024 clients, each gone before the next one connects, leave `max` outside the
table. -/
theorem max_outside_table :
    ∃ s, Reachable turn (start 3 (fun _ => false)) s ∧ ¬ TableOk s := by
  obtain ⟨s, hreach, hs⟩ := reach_noClient (OPEN_MAX - 1) (by decide)
  obtain ⟨s', hstep, hs'⟩ := turn_connects hs (by decide)
  refine ⟨s', Reach.next hreach trivial hstep, ?_⟩
  intro hok
  have := hok.max_le
  rw [hs'.max] at this
  exact absurd this (by decide)

end PollServer
