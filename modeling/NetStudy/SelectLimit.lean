/-
# The descriptors of `seclect/server2.c` and the size of an `fd_set`

`server2.c` hands its descriptors to `FD_SET`, `FD_CLR` and `FD_ISSET`, which take those
below `FD_SETSIZE`.  What keeps it there is the table of 1024 slots: with no free slot
the server exits.  But the table counts clients, and the first client is descriptor 4.

The server is that of `SelectServer`, with `accept` giving the lowest descriptor that is
not in use (`lowest`).  `fdArgs` lists what an iteration hands to the three macros.

* `withinSet_iff_room`: in a run that accepts clients only while fewer than 1020 are
  connected all descriptors are below `FD_SETSIZE`, and the next iteration keeps to that
  exactly if it meets this condition too;
* `client_outside_set`: 1020 clients are enough for the next one to be outside.
-/
import NetStudy.SelectAgree
import NetStudy.Transition
import Mathlib.Order.Interval.Finset.Nat

/-! ## The lowest descriptor -/

/-- The lowest number that is not in use. -/
def lowest (used : Finset ℕ) : ℕ := Nat.find (Infinite.exists_notMem_finset used)

theorem lowest_notMem (used : Finset ℕ) : lowest used ∉ used :=
  Nat.find_spec (Infinite.exists_notMem_finset used)

theorem mem_of_lt_lowest {used : Finset ℕ} {d : ℕ} (hd : d < lowest used) : d ∈ used :=
  not_not.mp (Nat.find_min (Infinite.exists_notMem_finset used) hd)

/-- There are not more numbers below it than are in use. -/
theorem lowest_le_card (used : Finset ℕ) : lowest used ≤ used.card := by
  have hsub : Finset.range (lowest used) ⊆ used := by
    intro d hd
    exact mem_of_lt_lowest (Finset.mem_range.mp hd)
  have hcard := Finset.card_le_card hsub
  rw [Finset.card_range] at hcard
  exact hcard

namespace SelectServers

open Transition

/-! ## The descriptors handed to the macros -/

/-- `FD_SETSIZE`. -/
abbrev FD_SETSIZE : ℕ := 1024

variable {κ : Type*}

namespace SlotServer

/-- What is handed over for a slot that is not free: the client to `FD_ISSET`, and to
`FD_CLR` at its end. -/
def slotArgs (K : Kernel κ) (rset : Finset ℕ) (i : ℕ) (x : State × κ) : List ℕ :=
  x.1.fdAt i :: if x.1.fdAt i ∈ rset ∧ (K.read (x.1.fdAt i) x.2).1 = [] then [x.1.fdAt i] else []

/-- What the loop of lines 91-137 hands over. -/
def scanArgs (K : Kernel κ) (rset : Finset ℕ) : List ℕ → ℤ → State × κ → List ℕ
  | [], _, _ => []
  | i :: is, ret, x =>
      if x.1.cfds i < 0 then scanArgs K rset is ret x
      else slotArgs K rset i x ++
        if x.1.fdAt i ∈ rset then
          if ret - 1 = 0 then [] else scanArgs K rset is (ret - 1) (serve K i x)
        else scanArgs K rset is ret x

/-- What an iteration hands to the macros: the listener in line 48, a new client in
line 72 unless the server exits, and the clients. -/
def fdArgs (K : Kernel κ) (fd : ℕ) (rset : Finset ℕ) (ret : ℤ) (x : State × κ) : List ℕ :=
  fd :: if fd ∈ rset then
    match acceptClient K x with
    | none => []
    | some y =>
        (K.accept x.2).1 :: if ret - 1 = 0 then [] else scanArgs K rset y.1.slots (ret - 1) y
  else scanArgs K rset x.1.slots ret x

/-- Serving a client may free its slot, and leaves the others. -/
theorem serve_cfds_of_nonneg (K : Kernel κ) {i j : ℕ} (x : State × κ)
    (h : 0 ≤ (serve K i x).1.cfds j) : (serve K i x).1.cfds j = x.1.cfds j := by
  by_cases hij : j = i
  · subst hij
    unfold serve at h ⊢
    split_ifs at h ⊢ with heof
    · change 0 ≤ Function.update x.1.cfds j (-1) j at h
      rw [Function.update_self] at h
      omega
    · rfl
  · exact serve_cfds K x hij

theorem eq_of_mem_slotArgs {K : Kernel κ} {rset : Finset ℕ} {i d : ℕ} {x : State × κ}
    (h : d ∈ slotArgs K rset i x) : d = x.1.fdAt i := by
  rcases List.mem_cons.mp h with rfl | h
  · rfl
  · split_ifs at h
    · exact List.mem_singleton.mp h
    · exact absurd h List.not_mem_nil

/-- The loop hands over the descriptors of occupied slots only. -/
theorem exists_slot_of_mem_scanArgs {K : Kernel κ} {rset : Finset ℕ} {is : List ℕ} {ret : ℤ}
    {x : State × κ} {d : ℕ} (h : d ∈ scanArgs K rset is ret x) :
    ∃ i, 0 ≤ x.1.cfds i ∧ d = x.1.fdAt i := by
  induction is generalizing ret x with
  | nil => exact absurd h List.not_mem_nil
  | cons i is ih =>
      rw [scanArgs] at h
      by_cases hfree : x.1.cfds i < 0
      · rw [if_pos hfree] at h
        exact ih h
      · rw [if_neg hfree, List.mem_append] at h
        rcases h with h | h
        · exact ⟨i, not_lt.mp hfree, eq_of_mem_slotArgs h⟩
        · split_ifs at h with hready hzero
          · exact absurd h List.not_mem_nil
          · obtain ⟨j, hj, hd⟩ := ih h
            have hkept := serve_cfds_of_nonneg K x hj
            rw [hkept] at hj
            rw [State.fdAt, hkept] at hd
            exact ⟨j, hj, hd⟩
          · exact ih h

/-- **The descriptors of an iteration** are the listener, a new client that has found a
slot, and clients that have one. -/
theorem mem_fdArgs {K : Kernel κ} {fd : ℕ} {rset : Finset ℕ} {ret : ℤ} {x : State × κ} {d : ℕ}
    (h : d ∈ fdArgs K fd rset ret x) :
    d = fd ∨ (fd ∈ rset ∧ d = (K.accept x.2).1) ∨ ∃ i, 0 ≤ x.1.cfds i ∧ d = x.1.fdAt i := by
  rcases List.mem_cons.mp h with hd | h
  · exact Or.inl hd
  · right
    by_cases hlisten : fd ∈ rset
    · rw [if_pos hlisten] at h
      rcases haccept : acceptClient K x with _ | y
      · rw [haccept] at h
        exact absurd h List.not_mem_nil
      · rw [haccept] at h
        rcases List.mem_cons.mp h with hd | h
        · exact Or.inl ⟨hlisten, hd⟩
        · split_ifs at h
          · exact absurd h List.not_mem_nil
          · obtain ⟨j, hj, hd⟩ := exists_slot_of_mem_scanArgs h
            obtain ⟨index, -, rfl⟩ := Option.map_eq_some_iff.mp haccept
            -- the slot of the new client, or one that was occupied before
            by_cases hindex : j = index
            · left
              refine ⟨hlisten, ?_⟩
              rw [hd, State.fdAt, hindex]
              show (Function.update x.1.cfds index ((K.accept x.2).1 : ℤ) index).toNat = _
              rw [Function.update_self, Int.toNat_natCast]
            · have hother : (storeClient K index x).1.cfds j = x.1.cfds j :=
                Function.update_of_ne hindex _ _
              rw [hother] at hj
              rw [State.fdAt, hother] at hd
              exact Or.inr ⟨j, hj, hd⟩
    · rw [if_neg hlisten] at h
      exact Or.inr (exists_slot_of_mem_scanArgs h)

/-- A client that finds a slot is handed to `FD_SET`. -/
theorem accepted_mem_fdArgs {K : Kernel κ} {fd : ℕ} {rset : Finset ℕ} {x : State × κ}
    {index : ℕ} (hlisten : fd ∈ rset) (hfree : freeSlot x.1.cfds = some index) (ret : ℤ) :
    (K.accept x.2).1 ∈ fdArgs K fd rset ret x := by
  have haccept : acceptClient K x = some (storeClient K index x) := by
    rw [acceptClient, hfree, Option.map_some]
  rw [fdArgs, if_pos hlisten, haccept]
  exact List.mem_cons_of_mem fd List.mem_cons_self

end SlotServer

/-! ## The server with its descriptors -/

open SlotServer

/-- The descriptors that are open before `main` begins. -/
def standard : Finset ℕ := {0, 1, 2}

/-- The listener. -/
def listener : ℕ := lowest standard

/-- The descriptors in use while these clients are open. -/
def inUse (clients : Finset ℕ) : Finset ℕ := insert listener (standard ∪ clients)

/-- What the environment answers in an iteration, beside the number of a new client. -/
structure Answer where
  rset : Finset ℕ
  readRes : ℕ → List UInt8

/-- The environment: a new client is the lowest descriptor that is not in use. -/
def Answer.env (a : Answer) (clients : Finset ℕ) : Env :=
  ⟨a.rset, lowest (inUse clients), a.readRes⟩

/-- One iteration; what `select` reports is in `allset`. -/
def lowestStep (a : Answer) (x : SlotServer.State × Trace) : Option (SlotServer.State × Trace) :=
  if a.rset ⊆ x.1.allset then SlotServer.step listener (a.env x.2.clients) x else none

/-- The server before its first iteration. -/
def atStart : SlotServer.State × Trace := (SlotServer.start listener, ⟨∅, []⟩)

/-- What an iteration hands to the macros. -/
def handedOver (a : Answer) (x : SlotServer.State × Trace) : List ℕ :=
  fdArgs (a.env x.2.clients).kernel listener a.rset (a.env x.2.clients).ret (x.1, ⟨x.2.clients, []⟩)

/-- Everything is below `FD_SETSIZE`. -/
def WithinSet (x : SlotServer.State × Trace) (a : Answer) : Prop :=
  ∀ d ∈ handedOver a x, d < FD_SETSIZE

/-- The slots that are occupied. -/
def occupied (cfds : ℕ → ℤ) : Finset ℕ := (Finset.range 1024).filter (fun i => 0 ≤ cfds i)

/-- A client is accepted only while fewer than 1020 slots are occupied. -/
def Room (x : SlotServer.State × Trace) (a : Answer) : Prop :=
  listener ∈ a.rset → (occupied x.1.cfds).card < FD_SETSIZE - 4

theorem mem_standard {d : ℕ} (h : d < 3) : d ∈ standard := by
  have hall : ∀ d < 3, d ∈ standard := by decide
  exact hall d h

theorem listener_eq : listener = 3 := by
  have hle : listener ≤ 3 := lowest_le_card standard
  have hnot : listener ∉ standard := lowest_notMem standard
  by_contra hne
  exact hnot (mem_standard (by omega))

/-! ## The invariant -/

/-- The states of a run that has stayed below `FD_SETSIZE`: the slots hold the clients,
as in a run beside `server.c`. -/
structure Below (x : SlotServer.State × Trace) : Prop where
  agree : ∃ s₁, Agree listener s₁ x.1 x.2.clients
  below : ∀ c ∈ x.2.clients, c < FD_SETSIZE

theorem below_atStart : Below atStart :=
  ⟨⟨ScanServer.start listener, agree_start listener⟩, fun c hc => absurd hc (Finset.notMem_empty c)⟩

/-- As many slots are occupied as there are clients. -/
theorem card_occupied {s₁ : ScanServer.State} {s₂ : SlotServer.State} {fd : ℕ}
    {clients : Finset ℕ} (h : Agree fd s₁ s₂ clients) :
    (occupied s₂.cfds).card = clients.card := by
  have hocc : ∀ i, i ∈ occupied s₂.cfds ↔ 0 ≤ s₂.cfds i := by
    intro i
    rw [occupied, Finset.mem_filter, Finset.mem_range]
    exact ⟨fun hi => hi.2, fun hi => ⟨h.slot_lt i hi, hi⟩⟩
  -- the descriptors of the occupied slots are the clients, each once
  apply Finset.card_bij (fun i _ => s₂.fdAt i)
  · intro i hi
    exact h.slot_mem i ((hocc i).mp hi)
  · intro i hi j hj heq
    exact h.fdAt_inj ((hocc i).mp hi) ((hocc j).mp hj) heq
  · intro c hc
    obtain ⟨i, hi⟩ := h.slot_surj c hc
    refine ⟨i, (hocc i).mpr (by omega), ?_⟩
    rw [SlotServer.State.fdAt, hi, Int.toNat_natCast]

theorem card_inUse_le (clients : Finset ℕ) : (inUse clients).card ≤ clients.card + 4 := by
  have hinsert := Finset.card_insert_le listener (standard ∪ clients)
  have hunion := Finset.card_union_le standard clients
  have hstandard : standard.card = 3 := rfl
  rw [inUse]
  omega

/-- A new client is above the listener, and is not one of the others. -/
theorem lowest_fresh (clients : Finset ℕ) :
    listener < lowest (inUse clients) ∧ lowest (inUse clients) ∉ clients := by
  have hnot := lowest_notMem (inUse clients)
  generalize lowest (inUse clients) = d at hnot ⊢
  rw [inUse, Finset.mem_insert, Finset.mem_union, not_or, not_or] at hnot
  obtain ⟨hne, hstandard, hclients⟩ := hnot
  refine ⟨?_, hclients⟩
  by_contra hle
  rw [listener_eq] at hne hle
  exact hstandard (mem_standard (by omega))

/-- With fewer than 1020 clients the next one is below `FD_SETSIZE`. -/
theorem lowest_lt {clients : Finset ℕ} (h : clients.card < FD_SETSIZE - 4) :
    lowest (inUse clients) < FD_SETSIZE := by
  have hle := lowest_le_card (inUse clients)
  have hcard := card_inUse_le clients
  omega

/-- Clients above the listener and below `FD_SETSIZE` are no more than 1020. -/
theorem card_le_of_below {clients : Finset ℕ} (habove : ∀ c ∈ clients, listener < c)
    (hbelow : ∀ c ∈ clients, c < FD_SETSIZE) : clients.card ≤ FD_SETSIZE - 4 := by
  have hsub : clients ⊆ Finset.Ioo listener FD_SETSIZE := by
    intro c hc
    exact Finset.mem_Ioo.mpr ⟨habove c hc, hbelow c hc⟩
  have hcard := Finset.card_le_card hsub
  rw [Nat.card_Ioo, listener_eq] at hcard
  exact hcard

/-- **The boundary**: when 1020 clients are connected, all below `FD_SETSIZE`, they use
all its numbers, and the next one is outside. -/
theorem le_lowest {clients : Finset ℕ} (habove : ∀ c ∈ clients, listener < c)
    (hbelow : ∀ c ∈ clients, c < FD_SETSIZE) (hcard : FD_SETSIZE - 4 ≤ clients.card) :
    FD_SETSIZE ≤ lowest (inUse clients) := by
  have hsub : clients ⊆ Finset.Ioo listener FD_SETSIZE := by
    intro c hc
    exact Finset.mem_Ioo.mpr ⟨habove c hc, hbelow c hc⟩
  -- 1020 numbers between the listener and `FD_SETSIZE` are all of them
  have hall : clients = Finset.Ioo listener FD_SETSIZE := by
    apply Finset.eq_of_subset_of_card_le hsub
    rw [Nat.card_Ioo, listener_eq]
    omega
  have hnot := lowest_notMem (inUse clients)
  generalize lowest (inUse clients) = d at hnot ⊢
  by_contra hlt
  apply hnot
  rw [inUse, Finset.mem_insert, Finset.mem_union, hall, Finset.mem_Ioo, listener_eq]
  by_cases hthree : d < 3
  · exact Or.inr (Or.inl (mem_standard hthree))
  · omega

/-! ## Runs -/

theorem serve_clients (e : Env) (i : ℕ) (x : SlotServer.State × Trace) :
    (SlotServer.serve e.kernel i x).2.clients ⊆ x.2.clients := by
  rw [SlotServer.serve]
  split_ifs
  · exact Finset.erase_subset _ _
  · exact Finset.Subset.refl _

/-- The loop accepts nobody. -/
theorem scan_clients (e : Env) (rset : Finset ℕ) (is : List ℕ) (ret : ℤ)
    (x : SlotServer.State × Trace) :
    (SlotServer.scan e.kernel rset is ret x).2.clients ⊆ x.2.clients := by
  induction is generalizing ret x with
  | nil => exact Finset.Subset.refl _
  | cons i is ih =>
      rw [SlotServer.scan]
      split_ifs
      · exact ih ret x
      · exact serve_clients e i x
      · exact (ih (ret - 1) _).trans (serve_clients e i x)
      · exact ih ret x

/-- An iteration accepts at most one client. -/
theorem iterate_clients {e : Env} {fd : ℕ} {ret : ℤ} {x y : SlotServer.State × Trace}
    (h : SlotServer.iterate e.kernel fd e.rset ret x = some y) {c : ℕ} (hc : c ∈ y.2.clients) :
    c ∈ x.2.clients ∨ (fd ∈ e.rset ∧ c = e.accepted) := by
  rw [SlotServer.iterate] at h
  by_cases hlisten : fd ∈ e.rset
  · rw [if_pos hlisten] at h
    obtain ⟨z, haccept, hy⟩ := Option.map_eq_some_iff.mp h
    obtain ⟨index, -, rfl⟩ := Option.map_eq_some_iff.mp haccept
    have hz : y.2.clients ⊆ insert e.accepted x.2.clients := by
      rw [← hy]
      split_ifs
      · exact Finset.Subset.refl _
      · exact scan_clients e e.rset _ _ _
    rcases Finset.mem_insert.mp (hz hc) with rfl | hc
    · exact Or.inr ⟨hlisten, rfl⟩
    · exact Or.inl hc
  · rw [if_neg hlisten, Option.some.injEq] at h
    rw [← h] at hc
    exact Or.inl (scan_clients e e.rset _ _ _ hc)

/-- **One iteration with room** stays below `FD_SETSIZE`. -/
theorem Below.step {x y : SlotServer.State × Trace} {a : Answer} (h : Below x) (hroom : Room x a)
    (hstep : lowestStep a x = some y) : Below y := by
  obtain ⟨⟨s₁, hagree⟩, hbelow⟩ := h
  rw [lowestStep] at hstep
  split_ifs at hstep with hrset
  have hcard : listener ∈ a.rset → x.2.clients.card < FD_SETSIZE - 4 := by
    intro hlisten
    rw [← card_occupied hagree]
    exact hroom hlisten
  -- with room, the answers are those that `server.c` may get as well
  have hlegal : (a.env x.2.clients).Legal listener s₁.allset x.2.clients := by
    constructor
    · rw [hagree.allset₁, ← hagree.allset₂]
      exact hrset
    · intro _
      exact lowest_fresh x.2.clients
    · intro hlisten
      exact lt_of_lt_of_le (hcard hlisten) (Nat.sub_le FD_SETSIZE 4)
  obtain ⟨y', cs, ds, hiterate, hserves⟩ :=
    exists_serves_iterate (s₁, ⟨x.2.clients, []⟩) (x.1, ⟨x.2.clients, []⟩) hagree rfl hlegal
  rw [SlotServer.step, hiterate, Option.some.injEq] at hstep
  subst hstep
  refine ⟨⟨_, hserves.clients ▸ hserves.agree⟩, ?_⟩
  intro c hc
  rcases iterate_clients hiterate hc with hc | ⟨hlisten, rfl⟩
  · exact hbelow c hc
  · exact lowest_lt (hcard hlisten)

/-- A run that accepts clients only while there is room. -/
theorem below_of_reach {x : SlotServer.State × Trace} (h : Reach lowestStep Room atStart x) :
    Below x :=
  h.invariant below_atStart (fun _ _ _ hinv hroom hstep => hinv.step hroom hstep)

/-- What an iteration hands over is below `FD_SETSIZE` exactly if there is room for the
client that it accepts. -/
theorem Below.withinSet_iff {x : SlotServer.State × Trace} (h : Below x) (a : Answer) :
    WithinSet x a ↔ Room x a := by
  obtain ⟨⟨s₁, hagree⟩, hbelow⟩ := h
  have hcard := card_occupied hagree
  constructor
  · intro hwithin hlisten
    by_contra hfull
    rw [hcard] at hfull
    -- all the numbers below `FD_SETSIZE` are in use, but there is a slot
    have hle : FD_SETSIZE ≤ lowest (inUse x.2.clients) :=
      le_lowest hagree.above hbelow (not_lt.mp hfull)
    have hclients : x.2.clients.card < 1024 :=
      lt_of_le_of_lt (card_le_of_below hagree.above hbelow) (by decide)
    obtain ⟨index, hfree, -⟩ := hagree.exists_freeSlot hclients
    have hmem : lowest (inUse x.2.clients) ∈ handedOver a x :=
      accepted_mem_fdArgs (x := (x.1, (⟨x.2.clients, []⟩ : Trace)))
        (K := (a.env x.2.clients).kernel) hlisten hfree _
    exact absurd (hwithin _ hmem) (not_lt.mpr hle)
  · intro hroom d hd
    rcases mem_fdArgs hd with rfl | ⟨hlisten, rfl⟩ | ⟨i, hi, rfl⟩
    · rw [listener_eq]
      decide
    · apply lowest_lt
      rw [← hcard]
      exact hroom hlisten
    · exact hbelow _ (hagree.slot_mem i hi)

/-- **Within the set**: in every run that accepts clients only while fewer than 1020 are
connected, an iteration hands over descriptors below `FD_SETSIZE` only, exactly if it
meets this condition too. -/
theorem withinSet_iff_room {x : SlotServer.State × Trace} (h : Reach lowestStep Room atStart x)
    (a : Answer) : WithinSet x a ↔ Room x a :=
  (below_of_reach h).withinSet_iff a

/-- Somebody connects, and nobody sends. -/
def somebody : Answer := ⟨{listener}, fun _ => []⟩

/-- A server with room accepts the client. -/
theorem Below.connects {x : SlotServer.State × Trace} (h : Below x)
    (hcard : x.2.clients.card < FD_SETSIZE - 4) :
    ∃ y, lowestStep somebody x = some y ∧ Room x somebody ∧
      y.2.clients.card = x.2.clients.card + 1 := by
  obtain ⟨⟨s₁, hagree⟩, hbelow⟩ := h
  have hrset : somebody.rset ⊆ x.1.allset := by
    rw [hagree.allset₂]
    exact Finset.singleton_subset_iff.mpr (Finset.mem_insert_self _ _)
  obtain ⟨index, hfree, -⟩ :=
    hagree.exists_freeSlot (lt_of_lt_of_le hcard (Nat.sub_le FD_SETSIZE 4))
  have hlisten : listener ∈ (somebody.env x.2.clients).rset := Finset.mem_singleton_self _
  have hret : (somebody.env x.2.clients).ret - 1 = 0 := rfl
  refine ⟨storeClient (somebody.env x.2.clients).kernel index (x.1, ⟨x.2.clients, []⟩), ?_, ?_, ?_⟩
  · rw [lowestStep, if_pos hrset, SlotServer.step, SlotServer.iterate, if_pos hlisten,
      acceptClient, hfree, Option.map_some, Option.map_some, if_pos hret]
  · intro _
    rw [card_occupied hagree]
    exact hcard
  · exact Finset.card_insert_of_notMem (lowest_fresh x.2.clients).2

/-- Up to 1020 clients connect. -/
theorem exists_reach_clients (n : ℕ) (hn : n ≤ FD_SETSIZE - 4) :
    ∃ x, Reach lowestStep Room atStart x ∧ x.2.clients.card = n := by
  induction n with
  | zero => exact ⟨atStart, Reach.start, rfl⟩
  | succ n ih =>
      obtain ⟨x, hreach, hcard⟩ := ih (by omega)
      obtain ⟨y, hstep, hroom, hnext⟩ := (below_of_reach hreach).connects (by omega)
      exact ⟨y, Reach.next hreach hroom hstep, by rw [hnext, hcard]⟩

/-- With one client connected everything is below `FD_SETSIZE`, also while the second one
connects. -/
theorem withinSet_iff_room_second :
    ∃ x, Reach lowestStep Room atStart x ∧ x.2.clients.card = 1 ∧ WithinSet x somebody := by
  obtain ⟨x, hreach, hcard⟩ := exists_reach_clients 1 (by decide)
  obtain ⟨y, -, hroom, -⟩ := (below_of_reach hreach).connects (by rw [hcard]; decide)
  exact ⟨x, hreach, hcard, (withinSet_iff_room hreach somebody).mpr hroom⟩

/-- **With 1020 clients connected the next one is handed to `FD_SET` as 1024**: there is
still a slot for it. -/
theorem client_outside_set :
    ∃ x, Reachable lowestStep atStart x ∧ x.2.clients.card = 1020 ∧
      somebody.rset ⊆ x.1.allset ∧ ¬ WithinSet x somebody := by
  obtain ⟨x, hreach, hcard⟩ := exists_reach_clients 1020 (by decide)
  have hbelow := below_of_reach hreach
  obtain ⟨s₁, hagree⟩ := hbelow.agree
  refine ⟨x, hreach.weaken (fun _ _ _ => trivial), hcard, ?_, ?_⟩
  · rw [hagree.allset₂]
    exact Finset.singleton_subset_iff.mpr (Finset.mem_insert_self _ _)
  · intro hwithin
    have hroom := (hbelow.withinSet_iff somebody).mp hwithin (Finset.mem_singleton_self _)
    rw [card_occupied hagree, hcard] at hroom
    exact absurd hroom (by decide)

end SelectServers
