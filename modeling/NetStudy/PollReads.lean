/-
# What the `poll` server reads (`poll/pollServer.c`)

`poll` stores in the field `revents` of each slot that it is given the bits of what it
has found there.  The loop behind it reads a slot if its `revents` equals `POLL_IN`.

The fields `revents` are never initialised, as `fd` and `events` are (lines 31-38), and
`max` grows between `poll` and the loop, so the loop may look at a slot that `poll` has
not written.  And a client may be reported with `POLLIN` and other bits at once.

`iterate` is an iteration with the list of its reads; `step_table` says that the table
is that of `turn`.  `readsReady_iff` says in which iterations the reads are those that
`poll` has reported.
-/
import NetStudy.PollTable

namespace PollServer

open Transition

/-! ## An iteration with its reads -/

/-- The bit of `revents` for data. -/
abbrev POLLIN : UInt16 := 1

/-- The constant that the code compares `revents` with.  It has the same value. -/
abbrev POLL_IN : UInt16 := 1

/-- The bits that `poll` finds. -/
structure Bits where
  pollin : Bool
  pollerr : Bool
  pollhup : Bool
  deriving DecidableEq

/-- The value that `poll` stores for them. -/
def Bits.value (b : Bits) : UInt16 :=
  (if b.pollin then 1 else 0) ||| (if b.pollerr then 8 else 0) ||| (if b.pollhup then 16 else 0)

/-- As in `State`, with the fields `revents`. -/
structure Pollfds where
  fd : ℕ → ℤ
  revents : ℕ → UInt16
  max : ℕ
  opened : Finset ℤ

/-- The table. -/
def Pollfds.table (s : Pollfds) : State := ⟨s.fd, fun i => s.revents i == POLL_IN, s.max, s.opened⟩

/-- The same fields `revents` with another table. -/
def Pollfds.withTable (s : Pollfds) (T : State) : Pollfds := ⟨T.fd, s.revents, T.max, T.opened⟩

/-- What the environment answers in an iteration: the bits that `poll` finds, the
descriptor that `accept` returns, and what each `Read` gets. -/
structure Report where
  bits : ℕ → Bits
  cfd : ℕ
  nread : ℕ → ℤ

/-- Lines 27-38.  The fields `revents` hold anything. -/
def Pollfds.start (fd : ℕ) (junk : ℕ → UInt16) : Pollfds :=
  ⟨fun i => if i = 0 then fd else -1, junk, 0, ∅⟩

/-- Line 43.  Nothing is found at a negative descriptor. -/
def Pollfds.poll (s : Pollfds) (r : Report) : Pollfds :=
  { s with
    revents := fun i =>
      if i ≤ s.max then (if 0 ≤ s.fd i then (r.bits i).value else 0) else s.revents i }

/-- What `poll` returns: the number of entries in which it has found something. -/
def Pollfds.nready (s : Pollfds) (r : Report) : ℤ :=
  ((List.range (s.max + 1)).countP (fun i => (s.poll r).revents i ≠ 0) : ℕ)

/-- Lines 52-64. -/
def Pollfds.accept (s : Pollfds) (cfd : ℕ) : Pollfds := s.withTable (s.table.accept cfd)

/-- Lines 79-95, behind a `Read` that has returned. -/
def Pollfds.handle (s : Pollfds) (r : Report) (i : ℕ) : Pollfds :=
  if r.nread i = 0 then s.withTable (s.table.close i) else s

/-- The loop of lines 72-97 over the slots that are left: the slots and descriptors that
it reads, and the state behind it.  There is none where `Read` exits. -/
def Pollfds.scan (r : Report) : List ℕ → Pollfds → List (ℕ × ℤ) × Option Pollfds
  | [], s => ([], some s)
  | i :: is, s =>
      if s.revents i = POLL_IN then
        if r.nread i < 0 then ([(i, s.fd i)], none)
        else ((i, s.fd i) :: (Pollfds.scan r is (s.handle r i)).1,
          (Pollfds.scan r is (s.handle r i)).2)
      else Pollfds.scan r is s

/-- The loop of lines 72-97, as far as it stays inside the array. -/
def Pollfds.scanSlots (s : Pollfds) (r : Report) : Option (List (ℕ × ℤ) × Option Pollfds) :=
  if s.max < OPEN_MAX then some (Pollfds.scan r (List.range' 1 s.max) s) else none

/-- One iteration, as far as it stays inside the array: its reads, and the state behind
it. -/
def iterate (r : Report) (s : Pollfds) : Option (List (ℕ × ℤ) × Option Pollfds) :=
  if OPEN_MAX < s.max + 1 then none
  else if (s.poll r).revents 0 = POLL_IN then
    -- lines 66-69: nothing but the listener was ready
    if s.nready r - 1 = 0 then some ([], some ((s.poll r).accept r.cfd))
    else ((s.poll r).accept r.cfd).scanSlots r
  else (s.poll r).scanSlots r

/-- What the system may answer: `poll` waits until it finds something, and `accept`
returns a descriptor that is not in use. -/
def Possible (s : Pollfds) (r : Report) : Prop :=
  0 < s.nready r ∧
    ((s.poll r).revents 0 = POLL_IN → (r.cfd : ℤ) ≠ s.fd 0 ∧ (r.cfd : ℤ) ∉ s.opened)

instance (s : Pollfds) (r : Report) : Decidable (Possible s r) :=
  inferInstanceAs (Decidable (_ ∧ (_ → _)))

/-- An iteration as a step. -/
def step (r : Report) (s : Pollfds) : Option Pollfds :=
  if Possible s r then (iterate r s).bind Prod.snd else none

/-! ### The table is that of `turn` -/

/-- The numbers of a report. -/
def Report.turn (r : Report) (s : Pollfds) : Turn :=
  ⟨s.nready r, fun i => (r.bits i).value == POLL_IN, r.cfd, r.nread⟩

theorem poll_table (s : Pollfds) (r : Report) : (s.poll r).table = s.table.poll (r.turn s) := by
  have hrev : (s.poll r).table.revents = (s.table.poll (r.turn s)).revents := by
    funext i
    show ((if i ≤ s.max then (if 0 ≤ s.fd i then (r.bits i).value else 0) else s.revents i)
      == POLL_IN) = if i ≤ s.max then ((r.bits i).value == POLL_IN) && decide (0 ≤ s.fd i)
        else s.revents i == POLL_IN
    by_cases hi : i ≤ s.max
    · rw [if_pos hi, if_pos hi]
      by_cases hfd : 0 ≤ s.fd i
      · rw [if_pos hfd, decide_eq_true hfd, Bool.and_true]
      · rw [if_neg hfd, decide_eq_false hfd, Bool.and_false]
        rfl
    · rw [if_neg hi, if_neg hi]
  -- the two agree but for the field `revents`, and there by `hrev`
  have hpoll : s.table.poll (r.turn s)
      = ⟨s.fd, (s.table.poll (r.turn s)).revents, s.max, s.opened⟩ := rfl
  rw [hpoll, ← hrev]
  rfl

/-- A table that shows the same `revents` is put in place. -/
theorem table_withTable {s : Pollfds} {T : State} (h : T.revents = s.table.revents) :
    (s.withTable T).table = T := by
  have hT : T = ⟨T.fd, T.revents, T.max, T.opened⟩ := rfl
  rw [hT, h]
  rfl

theorem store_revents (s : State) (cfd : ℕ) : (s.store cfd).revents = s.revents := by
  rw [State.store]
  rcases s.freeSlot with _ | i <;> rfl

theorem accept_table (s : Pollfds) (cfd : ℕ) : (s.accept cfd).table = s.table.accept cfd :=
  table_withTable (store_revents s.table cfd)

/-- A pass over a slot does what it does in the table. -/
theorem scan_table (r : Report) (is : List ℕ) (s s₀ : Pollfds) :
    (Pollfds.scan r is s).2.map Pollfds.table = PollServer.scan (r.turn s₀) is s.table := by
  induction is generalizing s with
  | nil => rfl
  | cons i is ih =>
      have hn : (r.turn s₀).nread i = r.nread i := rfl
      have hrev : s.table.revents i = true ↔ s.revents i = POLL_IN := beq_iff_eq
      rw [Pollfds.scan, PollServer.scan, State.serve, hn]
      by_cases hi : s.revents i = POLL_IN
      · rw [if_pos hi, if_pos (hrev.mpr hi)]
        -- `Read` fails, finds the end, or gets data
        rcases lt_trichotomy (r.nread i) 0 with hneg | hzero | hpos
        · rw [if_pos hneg, if_neg (by omega), if_neg (by omega)]
          rfl
        · rw [if_neg (by omega), if_pos hzero, Option.bind_some, ih, Pollfds.handle, if_pos hzero,
            table_withTable (T := s.table.close i) rfl]
        · rw [if_neg (by omega), if_neg (by omega), if_pos hpos, Option.bind_some, ih,
            Pollfds.handle, if_neg (by omega)]
      · rw [if_neg hi, if_neg (fun h => hi (hrev.mp h)), Option.bind_some, ih]

theorem scanSlots_map_table (s s₀ : Pollfds) (r : Report) :
    ((s.scanSlots r).bind Prod.snd).map Pollfds.table = s.table.scanSlots (r.turn s₀) := by
  have hmax : s.table.max = s.max := rfl
  rw [Pollfds.scanSlots, State.scanSlots, hmax]
  split_ifs
  · rw [Option.bind_some, scan_table r _ s s₀]
  · rfl

/-- **The table behind an iteration** is the one of `turn`. -/
theorem step_table {s : Pollfds} {r : Report} (h : Possible s r) :
    (step r s).map Pollfds.table = turn (r.turn s) s.table := by
  have hready : (r.turn s).nready = s.nready r := rfl
  have hcfd : (r.turn s).cfd = r.cfd := rfl
  have hmax : s.table.max = s.max := rfl
  have hlisten : (s.table.poll (r.turn s)).revents 0 = true ↔ (s.poll r).revents 0 = POLL_IN := by
    rw [← poll_table]
    exact beq_iff_eq
  rw [step, if_pos h, iterate, turn, hready, hcfd, hmax]
  by_cases hin : OPEN_MAX < s.max + 1
  · rw [if_pos hin, if_pos (Or.inl hin)]
    rfl
  · rw [if_neg hin, if_neg (not_or.mpr ⟨hin, not_lt.mpr h.1.le⟩)]
    by_cases hrev : (s.poll r).revents 0 = POLL_IN
    · have hnew : ¬ ((r.cfd : ℤ) = s.table.fd 0 ∨ (r.cfd : ℤ) ∈ s.table.opened) :=
        not_or.mpr (h.2 hrev)
      rw [if_pos hrev, if_pos (hlisten.mpr hrev), if_neg hnew]
      by_cases hone : s.nready r - 1 = 0
      · rw [if_pos hone, if_pos hone, ← poll_table, ← accept_table]
        rfl
      · rw [if_neg hone, if_neg hone, scanSlots_map_table _ s, accept_table, poll_table]
    · rw [if_neg hrev, if_neg (fun hno => hrev (hlisten.mp hno)), scanSlots_map_table _ s, poll_table]

/-- A run of the server is a run of its table. -/
theorem table_of_reach {ok : Pollfds → Report → Prop} {fd : ℕ} {junk : ℕ → UInt16} {s : Pollfds}
    (h : Reach step ok (Pollfds.start fd junk) s) :
    Reachable turn (start fd (fun i => junk i == POLL_IN)) s.table := by
  induction h with
  | start => exact Reach.start
  | next _ _ hstep ih =>
      rename_i s s' r _ _
      -- a step is taken only if the system may answer so
      have hpos : Possible s r := by
        by_contra hno
        rw [step, if_neg hno] at hstep
        cases hstep
      have htable := step_table hpos
      rw [hstep, Option.map_some] at htable
      exact Reach.next ih trivial htable.symm

/-! ## The slots that are read -/

/-- The slots of a list that the loop reads: those with `POLL_IN`, up to the first one
where `Read` fails. -/
def readSlots (revents : ℕ → UInt16) (nread : ℕ → ℤ) : List ℕ → List ℕ
  | [] => []
  | i :: is =>
      if revents i = POLL_IN then
        if nread i < 0 then [i] else i :: readSlots revents nread is
      else readSlots revents nread is

theorem readSlots_sublist (revents : ℕ → UInt16) (nread : ℕ → ℤ) (is : List ℕ) :
    (readSlots revents nread is).Sublist is := by
  induction is with
  | nil => exact List.Sublist.refl []
  | cons i is ih =>
      rw [readSlots]
      split_ifs
      · exact (List.nil_sublist is).cons_cons i
      · exact ih.cons_cons i
      · exact ih.cons i

/-- **The slots that are read**, over slots in their order: those with `POLL_IN` that
have no failing `Read` before them. -/
theorem mem_readSlots_iff {revents : ℕ → UInt16} {nread : ℕ → ℤ} {is : List ℕ}
    (hsorted : is.Pairwise (· < ·)) (i : ℕ) :
    i ∈ readSlots revents nread is ↔
      i ∈ is ∧ revents i = POLL_IN ∧
        ∀ j ∈ is, j < i → revents j = POLL_IN → 0 ≤ nread j := by
  induction is with
  | nil => exact iff_of_false List.not_mem_nil (fun h => List.not_mem_nil h.1)
  | cons k is ih =>
      rw [List.pairwise_cons] at hsorted
      obtain ⟨hfirst, hsorted⟩ := hsorted
      rw [readSlots, List.mem_cons]
      by_cases hik : i = k
      · subst hik
        -- the first slot has none before it
        have hnone : ∀ j ∈ i :: is, j < i → revents j = POLL_IN → 0 ≤ nread j := by
          intro j hj hlt
          rcases List.mem_cons.mp hj with rfl | hj
          · omega
          · have := hfirst j hj
            omega
        have hnot : i ∉ readSlots revents nread is := by
          intro hmem
          have := hfirst i ((readSlots_sublist revents nread is).subset hmem)
          omega
        split_ifs with hrev hfail
        · exact iff_of_true (List.mem_singleton_self i) ⟨Or.inl rfl, hrev, hnone⟩
        · exact iff_of_true List.mem_cons_self ⟨Or.inl rfl, hrev, hnone⟩
        · exact iff_of_false hnot (fun h => hrev h.2.1)
      · split_ifs with hrev hfail
        · rw [List.mem_singleton]
          -- `Read` fails at the first slot, and nothing behind it is read
          refine iff_of_false hik ?_
          rintro ⟨hmem, -, hok⟩
          have := hok k List.mem_cons_self (hfirst i (hmem.resolve_left hik)) hrev
          omega
        · rw [List.mem_cons, or_iff_right hik, or_iff_right hik, ih hsorted, List.forall_mem_cons]
          have hk : k < i → revents k = POLL_IN → 0 ≤ nread k := by
            intro _ _
            omega
          rw [and_iff_right hk]
        · rw [or_iff_right hik, ih hsorted, List.forall_mem_cons]
          have hk : k < i → revents k = POLL_IN → 0 ≤ nread k := by
            intro _ h
            exact absurd h hrev
          rw [and_iff_right hk]

/-- A pass over a slot leaves the others, and what `poll` has stored. -/
theorem handle_revents (s : Pollfds) (r : Report) (i : ℕ) : (s.handle r i).revents = s.revents := by
  rw [Pollfds.handle]
  split_ifs <;> rfl

theorem handle_fd_of_ne (s : Pollfds) (r : Report) {i j : ℕ} (hj : j ≠ i) :
    (s.handle r i).fd j = s.fd j := by
  rw [Pollfds.handle]
  split_ifs
  · exact Function.update_of_ne hj _ _
  · rfl

/-- The reads of the loop.  Closing a descriptor changes no slot that is still ahead. -/
theorem scan_reads {r : Report} {is : List ℕ} (hnodup : is.Nodup) (s : Pollfds) :
    (Pollfds.scan r is s).1
      = (readSlots s.revents r.nread is).map (fun i => (i, s.fd i)) := by
  induction is generalizing s with
  | nil => rfl
  | cons i is ih =>
      rw [List.nodup_cons] at hnodup
      rw [Pollfds.scan, readSlots]
      split_ifs with hi hfail
      · rfl
      · show (i, s.fd i) :: (Pollfds.scan r is (s.handle r i)).1 = _
        rw [List.map_cons, ih hnodup.2, handle_revents]
        congr 1
        apply List.map_congr_left
        intro j hj
        have hne : j ≠ i := by
          rintro rfl
          exact hnodup.1 ((readSlots_sublist _ _ _).subset hj)
        rw [handle_fd_of_ne s r hne]
      · exact ih hnodup.2 s

/-- The slots `1, …, n` are in order, each once. -/
theorem pairwise_slots (n : ℕ) : (List.range' 1 n).Pairwise (· < ·) := List.pairwise_lt_range'

/-- The slots that the loop over `1, …, n` reads. -/
theorem mem_readSlots_range'_iff {revents : ℕ → UInt16} {nread : ℕ → ℤ} (n i : ℕ) :
    i ∈ readSlots revents nread (List.range' 1 n) ↔
      (1 ≤ i ∧ i ≤ n) ∧ revents i = POLL_IN ∧
        ∀ j, 1 ≤ j → j < i → revents j = POLL_IN → 0 ≤ nread j := by
  have hmem : ∀ j, j ∈ List.range' 1 n ↔ 1 ≤ j ∧ j ≤ n := by
    intro j
    rw [List.mem_range'_1]
    omega
  rw [mem_readSlots_iff (pairwise_slots n), hmem]
  apply and_congr_right
  intro hi
  apply and_congr_right
  intro _
  constructor
  · intro h j hj hlt
    exact h j ((hmem j).mpr ⟨hj, by omega⟩) hlt
  · intro h j hj hlt
    exact h j ((hmem j).mp hj).1 hlt

/-! ## The slots that poll has reported -/

/-- Slot `i` has been given to `poll`, and what is stored there contains `POLLIN`. -/
def Pollfds.Readable (s : Pollfds) (r : Report) (i : ℕ) : Prop :=
  (1 ≤ i ∧ i ≤ s.max) ∧ (s.poll r).revents i &&& POLLIN ≠ 0

/-- Every slot that is reported readable is read once, and nothing else is read. -/
def ReportedReads (s : Pollfds) (r : Report) (reads : List (ℕ × ℤ)) : Prop :=
  (∀ i, s.Readable r i → (reads.map Prod.fst).count i = 1) ∧
    ∀ e ∈ reads, s.Readable r e.1 ∧ e.2 = s.fd e.1

/-- The iteration stays inside the array and reads what is reported. -/
def ReadsReady (s : Pollfds) (r : Report) : Prop :=
  ∃ reads next, iterate r s = some (reads, next) ∧ ReportedReads s r reads

/-- The iterations that read what is reported, where the fields `revents` have held
`junk` at the start. -/
structure OnlyReady (junk : ℕ → UInt16) (s : Pollfds) (r : Report) : Prop where
  /-- `poll` stays inside the array. -/
  inside : s.max < OPEN_MAX
  /-- A slot that is readable is reported with no other bit. -/
  plain : ∀ i, s.Readable r i → (s.poll r).revents i = POLL_IN
  /-- Only the last `Read` fails. -/
  lastFails : ∀ i j, s.Readable r i → s.Readable r j → i < j → 0 ≤ r.nread i
  /-- If the loop follows an `accept`, then it stays inside the array, and the slot that
  `max` has reached has not been `POLL_IN` from the start, unless a `Read` fails before
  it. -/
  newSlot : (s.poll r).revents 0 = POLL_IN → s.nready r ≠ 1 →
    s.max + 1 < OPEN_MAX ∧
      (junk (s.max + 1) = POLL_IN → ∃ i, s.Readable r i ∧ r.nread i < 0)

theorem poll_revents_of_le {s : Pollfds} (r : Report) {i : ℕ} (hi : i ≤ s.max) :
    (s.poll r).revents i = if 0 ≤ s.fd i then (r.bits i).value else 0 := if_pos hi

theorem poll_revents_of_lt {s : Pollfds} (r : Report) {i : ℕ} (hi : s.max < i) :
    (s.poll r).revents i = s.revents i := if_neg (by omega)

/-- A slot with `POLL_IN` is readable. -/
theorem readable_of_eq {s : Pollfds} {r : Report} {i : ℕ} (hi : 1 ≤ i ∧ i ≤ s.max)
    (h : (s.poll r).revents i = POLL_IN) : s.Readable r i := by
  refine ⟨hi, ?_⟩
  rw [h]
  decide

/-- Nothing is reported at a free slot. -/
theorem fd_nonneg_of_eq {s : Pollfds} {r : Report} {i : ℕ} (hi : i ≤ s.max)
    (h : (s.poll r).revents i = POLL_IN) : 0 ≤ s.fd i := by
  rw [poll_revents_of_le r hi] at h
  by_contra hneg
  rw [if_neg hneg] at h
  exact absurd h (by decide)

/-- A new client goes to a free slot. -/
theorem accept_fd {s : Pollfds} (cfd : ℕ) {i : ℕ} (hi : 0 ≤ s.fd i) :
    (s.accept cfd).fd i = s.fd i := by
  show (s.table.store cfd).fd i = s.fd i
  rw [State.store]
  rcases hslot : s.table.freeSlot with _ | k
  · rfl
  · have hfree : s.table.fd k = -1 := by simpa using List.find?_some hslot
    -- the slot that is filled held -1
    apply Function.update_of_ne
    rintro rfl
    have : s.fd i = -1 := hfree
    omega

/-- Where the listener is all that `poll` has found, no slot is readable. -/
theorem not_readable_of_one {s : Pollfds} {r : Report} (hlisten : (s.poll r).revents 0 = POLL_IN)
    (hone : s.nready r = 1) (i : ℕ) : ¬ s.Readable r i := by
  rintro ⟨⟨hi, hmax⟩, hbits⟩
  have hzero : decide ((s.poll r).revents 0 ≠ 0) = true := by
    rw [hlisten]
    decide
  -- the listener is the one that is counted
  have hrest : (List.range' 1 s.max).countP (fun i => (s.poll r).revents i ≠ 0) = 0 := by
    rw [Pollfds.nready, List.range_eq_range', List.range'_succ, Nat.zero_add,
      List.countP_cons_of_pos (p := fun i => decide ((s.poll r).revents i ≠ 0)) hzero] at hone
    omega
  rw [List.countP_eq_zero] at hrest
  apply hrest i (List.mem_range'_1.mpr (by omega))
  apply decide_eq_true
  intro hno
  rw [hno] at hbits
  exact hbits rfl

/-- A slot that is in the list of the reads once. -/
theorem count_reads_eq_one_iff {revents : ℕ → UInt16} {nread : ℕ → ℤ} (fd : ℕ → ℤ) (n i : ℕ) :
    (((readSlots revents nread (List.range' 1 n)).map (fun i => (i, fd i))).map Prod.fst).count i = 1
      ↔ i ∈ readSlots revents nread (List.range' 1 n) := by
  have hnodup : (readSlots revents nread (List.range' 1 n)).Nodup :=
    (readSlots_sublist revents nread _).nodup List.nodup_range'
  have hfst : (Prod.fst ∘ fun i => (i, fd i)) = id := rfl
  rw [List.map_map, hfst, List.map_id]
  constructor
  · intro h
    exact List.count_pos_iff.mp (by omega)
  · exact List.count_eq_one_of_mem hnodup

/-- **The reads of the loop** over `1, …, n` are those that are reported exactly if
reported slots hold nothing but `POLL_IN`, only the last `Read` fails, and no slot is read
beyond those that `poll` was given. -/
theorem reportedReads_iff {s : Pollfds} {r : Report} {n : ℕ} {fd : ℕ → ℤ} (hn : s.max ≤ n)
    (hfd : ∀ i, i ≤ s.max → (s.poll r).revents i = POLL_IN → fd i = s.fd i) :
    ReportedReads s r ((readSlots (s.poll r).revents r.nread (List.range' 1 n)).map
        (fun i => (i, fd i))) ↔
      (∀ i, s.Readable r i → (s.poll r).revents i = POLL_IN) ∧
      (∀ i j, s.Readable r i → s.Readable r j → i < j → 0 ≤ r.nread i) ∧
      ∀ i, s.max < i → i ∉ readSlots (s.poll r).revents r.nread (List.range' 1 n) := by
  rw [ReportedReads]
  simp only [count_reads_eq_one_iff, mem_readSlots_range'_iff, List.forall_mem_map]
  constructor
  · rintro ⟨hall, honly⟩
    have hplain : ∀ i, s.Readable r i → (s.poll r).revents i = POLL_IN := fun i hi => (hall i hi).2.1
    refine ⟨hplain, ?_, ?_⟩
    · intro i j hi hj hlt
      exact (hall j hj).2.2 i hi.1.1 hlt (hplain i hi)
    · intro i hlt hi
      have := (honly i hi).1.1.2
      omega
  · rintro ⟨hplain, hlast, hbeyond⟩
    constructor
    · intro i hi
      refine ⟨⟨hi.1.1, by have := hi.1.2; omega⟩, hplain i hi, ?_⟩
      intro j hj hlt hrev
      have hjmax : j ≤ s.max := by
        have := hi.1.2
        omega
      exact hlast j i (readable_of_eq ⟨hj, hjmax⟩ hrev) hi hlt
    · intro i hi
      have hle : i ≤ s.max := by
        by_contra hlt
        exact hbeyond i (by omega) hi
      exact ⟨readable_of_eq ⟨hi.1.1, hle⟩ hi.2.1, hfd i hle hi.2.1⟩

/-! ### From the start -/

/-- The loop leaves what `poll` has stored, and `max`. -/
theorem scan_next {r : Report} {is : List ℕ} {s s' : Pollfds}
    (h : (Pollfds.scan r is s).2 = some s') : s'.revents = s.revents ∧ s'.max = s.max := by
  induction is generalizing s with
  | nil =>
      rw [← Option.some.inj h]
      exact ⟨rfl, rfl⟩
  | cons i is ih =>
      rw [Pollfds.scan] at h
      split_ifs at h with hi hfail
      · obtain ⟨hrev, hmax⟩ := ih h
        have hhandle : (s.handle r i).max = s.max := by
          rw [Pollfds.handle]
          split_ifs <;> rfl
        exact ⟨by rw [hrev, handle_revents], by rw [hmax, hhandle]⟩
      · exact ih h

theorem scanSlots_next {r : Report} {s s' : Pollfds}
    (h : (s.scanSlots r).bind Prod.snd = some s') : s'.revents = s.revents ∧ s'.max = s.max := by
  rw [Pollfds.scanSlots] at h
  split_ifs at h
  · exact scan_next h
  · cases h

/-- An iteration leaves the fields `revents` behind `max`, and does not lower `max`. -/
theorem step_next {r : Report} {s s' : Pollfds} (h : step r s = some s') :
    s'.revents = (s.poll r).revents ∧ s.max ≤ s'.max := by
  rw [step] at h
  split_ifs at h with hposs
  rw [iterate] at h
  split_ifs at h with hin hlisten hone
  · cases h
  · have hs : (s.poll r).accept r.cfd = s' := Option.some.inj h
    rw [← hs]
    exact ⟨rfl, Nat.le_succ s.max⟩
  · obtain ⟨hrev, hmax⟩ := scanSlots_next h
    exact ⟨hrev, hmax ▸ Nat.le_succ s.max⟩
  · obtain ⟨hrev, hmax⟩ := scanSlots_next h
    exact ⟨hrev, hmax.ge⟩

/-- **The slots behind `max` have never been written**: they hold what the memory of the
array has held at the start. -/
theorem revents_of_reach {ok : Pollfds → Report → Prop} {fd : ℕ} {junk : ℕ → UInt16} {s : Pollfds}
    (h : Reach step ok (Pollfds.start fd junk) s) : ∀ i, s.max < i → s.revents i = junk i := by
  apply h.invariant (I := fun s => ∀ i, s.max < i → s.revents i = junk i)
  · intro i _
    rfl
  · intro s r s' hinv _ hstep i hi
    obtain ⟨hrev, hmax⟩ := step_next hstep
    rw [hrev, poll_revents_of_lt r (lt_of_le_of_lt hmax hi)]
    exact hinv i (lt_of_le_of_lt hmax hi)

/-- The slot that `max` has reached is read if it has been `POLL_IN` from the start and no
`Read` fails before it. -/
theorem newSlot_notMem_iff {s : Pollfds} {r : Report}
    (hplain : ∀ i, s.Readable r i → (s.poll r).revents i = POLL_IN) :
    (∀ i, s.max < i → i ∉ readSlots (s.poll r).revents r.nread (List.range' 1 (s.max + 1))) ↔
      (s.revents (s.max + 1) = POLL_IN → ∃ i, s.Readable r i ∧ r.nread i < 0) := by
  simp only [mem_readSlots_range'_iff]
  constructor
  · intro h hrev
    by_contra hno
    push Not at hno
    -- no `Read` has failed, so the loop comes to the slot
    refine h (s.max + 1) (Nat.lt_succ_self _) ⟨⟨by omega, le_refl _⟩, ?_, ?_⟩
    · rw [poll_revents_of_lt r (Nat.lt_succ_self _)]
      exact hrev
    · intro j hj hlt hjrev
      exact hno j (readable_of_eq ⟨hj, by omega⟩ hjrev)
  · rintro h i hlt ⟨⟨hi, hle⟩, hrev, hbefore⟩
    have hnew : i = s.max + 1 := by omega
    rw [poll_revents_of_lt r hlt, hnew] at hrev
    obtain ⟨j, hj, hfail⟩ := h hrev
    have := hbefore j hj.1.1 (by have := hj.1.2; omega) (hplain j hj)
    omega

/-- What an iteration that ends reads. -/
theorem exists_reads_iff {p : List (ℕ × ℤ) × Option Pollfds} {P : List (ℕ × ℤ) → Prop} :
    (∃ reads next, some p = some (reads, next) ∧ P reads) ↔ P p.1 := by
  constructor
  · rintro ⟨reads, next, heq, h⟩
    rw [Option.some.inj heq]
    exact h
  · intro h
    exact ⟨p.1, p.2, rfl, h⟩

/-- The loop as the last part of an iteration. -/
theorem scanSlots_reads_iff {s s₁ : Pollfds} {r : Report}
    (hrev : s₁.revents = (s.poll r).revents) (hmax : s.max ≤ s₁.max)
    (hfd : ∀ i, i ≤ s.max → (s.poll r).revents i = POLL_IN → s₁.fd i = s.fd i) :
    (∃ reads next, s₁.scanSlots r = some (reads, next) ∧ ReportedReads s r reads) ↔
      s₁.max < OPEN_MAX ∧ (∀ i, s.Readable r i → (s.poll r).revents i = POLL_IN) ∧
        (∀ i j, s.Readable r i → s.Readable r j → i < j → 0 ≤ r.nread i) ∧
        ∀ i, s.max < i → i ∉ readSlots (s.poll r).revents r.nread (List.range' 1 s₁.max) := by
  rw [Pollfds.scanSlots]
  by_cases hin : s₁.max < OPEN_MAX
  · rw [if_pos hin, exists_reads_iff, scan_reads List.nodup_range', hrev,
      reportedReads_iff hmax hfd]
    exact ⟨fun h => ⟨hin, h⟩, fun h => h.2⟩
  · rw [if_neg hin]
    refine iff_of_false ?_ (fun h => hin h.1)
    rintro ⟨reads, next, hno, -⟩
    cases hno

/-- Where nothing is readable, it is right to read nothing. -/
theorem reportedReads_nil {s : Pollfds} {r : Report} (hnone : ∀ i, ¬ s.Readable r i) :
    ReportedReads s r [] :=
  ⟨fun i hi => absurd hi (hnone i), fun _ he => absurd he List.not_mem_nil⟩

/-- The reads of an iteration, in a state whose next slot has not been written. -/
theorem readsReady_iff {junk : ℕ → UInt16} {s : Pollfds}
    (hjunk : s.revents (s.max + 1) = junk (s.max + 1)) (r : Report) :
    ReadsReady s r ↔ OnlyReady junk s r := by
  rw [ReadsReady, iterate]
  by_cases hin : OPEN_MAX < s.max + 1
  · rw [if_pos hin]
    refine iff_of_false ?_ (fun hok => ?_)
    · rintro ⟨reads, next, hno, -⟩
      cases hno
    · have := hok.inside
      omega
  · rw [if_neg hin]
    have hmax : s.max < OPEN_MAX := not_lt.mp hin
    by_cases hlisten : (s.poll r).revents 0 = POLL_IN
    · rw [if_pos hlisten]
      by_cases hone : s.nready r - 1 = 0
      · rw [if_pos hone]
        have hnone := not_readable_of_one hlisten (by omega)
        refine iff_of_true ⟨[], _, rfl, reportedReads_nil hnone⟩ ⟨hmax, ?_, ?_, ?_⟩
        · intro i hi
          exact absurd hi (hnone i)
        · intro i j hi
          exact absurd hi (hnone i)
        · intro _ hne
          omega
      · -- the loop goes one slot further than `poll`
        have hfd : ∀ i, i ≤ s.max → (s.poll r).revents i = POLL_IN →
            ((s.poll r).accept r.cfd).fd i = s.fd i := by
          intro i hi hrev
          have hopen : 0 ≤ s.fd i := fd_nonneg_of_eq hi hrev
          exact accept_fd (s := s.poll r) r.cfd hopen
        have hrevents : ((s.poll r).accept r.cfd).revents = (s.poll r).revents := rfl
        rw [if_neg hone, scanSlots_reads_iff hrevents (Nat.le_succ s.max) hfd]
        constructor
        · rintro ⟨hroom, hplain, hlast, hbeyond⟩
          refine ⟨hmax, hplain, hlast, fun _ _ => ⟨hroom, ?_⟩⟩
          rw [← hjunk]
          exact (newSlot_notMem_iff hplain).mp hbeyond
        · intro hok
          obtain ⟨hroom, hnew⟩ := hok.newSlot hlisten (by omega)
          rw [← hjunk] at hnew
          exact ⟨hroom, hok.plain, hok.lastFails, (newSlot_notMem_iff hok.plain).mpr hnew⟩
    · rw [if_neg hlisten, scanSlots_reads_iff (s := s) rfl (le_refl s.max) (fun _ _ _ => rfl)]
      constructor
      · rintro ⟨-, hplain, hlast, -⟩
        exact ⟨hmax, hplain, hlast, fun hno _ => absurd hno hlisten⟩
      · intro hok
        refine ⟨hmax, hok.plain, hok.lastFails, ?_⟩
        intro i hi hmem
        have hbounds := (mem_readSlots_range'_iff s.max i).mp hmem
        omega

/-- **Exactly the ready clients**: in every state that is reached, and whatever the system
answers, an iteration reads what is reported exactly if it is one of `OnlyReady`. -/
theorem readsReady_of_reach {fd : ℕ} {junk : ℕ → UInt16} {s : Pollfds}
    (h : Reachable step (Pollfds.start fd junk) s) (r : Report) :
    ReadsReady s r ↔ OnlyReady junk s r :=
  readsReady_iff (revents_of_reach h (s.max + 1) (Nat.lt_succ_self _)) r

/-! ### Two runs -/

/-- A client connects, and gets the descriptor 4. -/
def connecting : Report :=
  ⟨fun i => if i = 0 then ⟨true, false, false⟩ else ⟨false, false, false⟩, 4, fun _ => 1⟩

/-- The state after it, where the fields `revents` have held `junk`. -/
def connected (junk : ℕ → UInt16) : Pollfds :=
  ((Pollfds.start 3 junk).poll connecting).accept 4

/-- The client in slot 1 is reported with these bits, and another one connects or not. -/
def clientReport (listener : Bool) (b : Bits) : Report :=
  ⟨fun i => if i = 0 then ⟨listener, false, false⟩ else b, 5, fun _ => 1⟩

theorem step_connecting (junk : ℕ → UInt16) :
    step connecting (Pollfds.start 3 junk) = some (connected junk) := by
  have hlisten : ((Pollfds.start 3 junk).poll connecting).revents 0 = POLL_IN := rfl
  have hready : (Pollfds.start 3 junk).nready connecting = 1 := by
    have hzero : decide (((Pollfds.start 3 junk).poll connecting).revents 0 ≠ 0) = true := by
      rw [hlisten]
      decide
    have hslots : List.range ((Pollfds.start 3 junk).max + 1) = [0] := rfl
    rw [Pollfds.nready, hslots, List.countP_singleton, if_pos hzero]
    rfl
  have hposs : Possible (Pollfds.start 3 junk) connecting := by
    rw [Possible, hready]
    refine ⟨by decide, fun _ => ⟨?_, Finset.notMem_empty _⟩⟩
    show (4 : ℤ) ≠ 3
    decide
  have hin : ¬ OPEN_MAX < (Pollfds.start 3 junk).max + 1 := by
    show ¬ OPEN_MAX < 0 + 1
    decide
  rw [step, if_pos hposs, iterate, if_neg hin, if_pos hlisten, hready, if_pos (by decide)]
  rfl

theorem reach_connected (junk : ℕ → UInt16) :
    Reachable step (Pollfds.start 3 junk) (connected junk) :=
  Reach.single trivial (step_connecting junk)

/-- The only slot that the second call of `poll` is given, beside the listener. -/
theorem eq_one_of_readable {junk : ℕ → UInt16} {r : Report} {i : ℕ}
    (h : (connected junk).Readable r i) : i = 1 := by
  have hmax : (connected junk).max = 1 := rfl
  have hi := h.1
  omega

/-- A client that is reported with `POLLIN` alone is read. -/
theorem readsReady_client :
    ReadsReady (connected (fun _ => 0)) (clientReport false ⟨true, false, false⟩) := by
  refine (readsReady_of_reach (reach_connected (fun _ => 0)) _).mpr ⟨by decide, ?_, ?_, ?_⟩
  · intro i hi
    rw [eq_one_of_readable hi]
    decide
  · intro i j hi hj hlt
    rw [eq_one_of_readable hi, eq_one_of_readable hj] at hlt
    omega
  · intro hlisten
    exact absurd hlisten (by decide)

/-- **A client that has sent its last bytes and closed is not read**: it is reported with
`POLLIN` and `POLLHUP`.  **And one that has just been accepted is read**, into a slot that
`poll` has not written, if the memory of the array has held `POLL_IN` there. -/
theorem hangup_not_read :
    (Possible (connected (fun _ => 0)) (clientReport false ⟨true, false, true⟩) ∧
      ¬ ReadsReady (connected (fun _ => 0)) (clientReport false ⟨true, false, true⟩)) ∧
    (Possible (connected (fun _ => 1)) (clientReport true ⟨true, false, false⟩) ∧
      ¬ ReadsReady (connected (fun _ => 1)) (clientReport true ⟨true, false, false⟩)) ∧
    ∀ junk, Reachable step (Pollfds.start 3 junk) (connected junk) := by
  refine ⟨⟨by decide, fun h => ?_⟩, ⟨by decide, fun h => ?_⟩, reach_connected⟩
  · have hok : OnlyReady (fun _ => 0) (connected (fun _ => 0)) _ :=
      (readsReady_iff (by decide) _).mp h
    have hplain := hok.plain 1 ⟨⟨by decide, by decide⟩, by decide⟩
    exact absurd hplain (by decide)
  · have hok : OnlyReady (fun _ => 1) (connected (fun _ => 1)) _ :=
      (readsReady_iff (by decide) _).mp h
    obtain ⟨i, -, hfail⟩ := (hok.newSlot (by decide) (by decide)).2 rfl
    have hneg : (1 : ℤ) < 0 := hfail
    exact absurd hneg (by decide)

end PollServer
