/-
# The two `select` servers agree

The servers are driven by the same environment (`Env`): the same ready sets and counts,
the same accepted descriptors, the same results of `read`.  Their traces say which
descriptors are open and what has been called.

`Agree` relates the two: both have the listener and the same clients in `allset`, all
clients lie between the listener and `maxfd`, and the occupied slots up to `maxindex`
hold each client once.  `exists_serves_iterate` keeps it; with `SlotServer.scan_eq_foldl` it
makes the two loops serve the same clients, each once, in different orders.
-/
import NetStudy.SelectServer

namespace SelectServers

/-! ## The environment -/

/-- The calls of an iteration. -/
inductive Effect
  | read (fd : ℕ)
  | write (fd : ℕ) (buf : List UInt8)
  | print (buf : List UInt8)
  | close (fd : ℕ)
  deriving DecidableEq

/-- The clients that are open, and the calls so far. -/
structure Trace where
  clients : Finset ℕ
  effects : List Effect
  deriving DecidableEq

/-- What the environment answers in one iteration: the ready set, the descriptor that
`accept` returns, and what each `read` gives. -/
structure Env where
  rset : Finset ℕ
  accepted : ℕ
  readRes : ℕ → List UInt8

namespace Env

/-- The number that `select` returns. -/
def ret (e : Env) : ℤ := e.rset.card

/-- The environment as a kernel that keeps a trace. -/
def kernel (e : Env) : Kernel Trace where
  accept := fun t => (e.accepted, ⟨insert e.accepted t.clients, t.effects⟩)
  read := fun fd t => (e.readRes fd, ⟨t.clients, t.effects ++ [Effect.read fd]⟩)
  write := fun fd buf t => ⟨t.clients, t.effects ++ [Effect.write fd buf]⟩
  print := fun buf t => ⟨t.clients, t.effects ++ [Effect.print buf]⟩
  close := fun fd t => ⟨t.clients.erase fd, t.effects ++ [Effect.close fd]⟩

/-- What the environment may answer a server whose listener is `fd`, with this `allset`
and these clients: ready descriptors are in `allset`; `accept` returns a descriptor that
is not in use, where those up to the listener are in use all the time; and no more than
1024 clients come to be open. -/
structure Legal (e : Env) (fd : ℕ) (allset clients : Finset ℕ) : Prop where
  ready : e.rset ⊆ allset
  fresh : fd ∈ e.rset → fd < e.accepted ∧ e.accepted ∉ clients
  room : fd ∈ e.rset → clients.card < 1024

/-- The calls that serve a client. -/
def served (e : Env) (c : ℕ) : List Effect :=
  if e.readRes c = [] then [Effect.read c, Effect.close c]
  else [Effect.read c, Effect.write c ((e.readRes c).map toUpper),
    Effect.print ((e.readRes c).map toUpper)]

/-- The clients of a list that have reached the end of file. -/
def ended (e : Env) (cs : List ℕ) : Finset ℕ := (cs.filter (fun c => e.readRes c = [])).toFinset

/-- The trace behind the service of these clients. -/
def after (e : Env) (cs : List ℕ) (t : Trace) : Trace :=
  ⟨t.clients \ e.ended cs, t.effects ++ cs.flatMap e.served⟩

theorem mem_ended {e : Env} {cs : List ℕ} {c : ℕ} :
    c ∈ e.ended cs ↔ c ∈ cs ∧ e.readRes c = [] := by
  rw [ended, List.mem_toFinset, List.mem_filter, decide_eq_true_eq]

@[simp] theorem after_nil (e : Env) (t : Trace) : e.after [] t = t := by
  simp [after, ended]

theorem ended_cons_of_eof {e : Env} {c : ℕ} (cs : List ℕ) (h : e.readRes c = []) (A : Finset ℕ) :
    A \ e.ended (c :: cs) = A.erase c \ e.ended cs := by
  ext d
  simp only [Finset.mem_sdiff, Finset.mem_erase, mem_ended, List.mem_cons]
  constructor
  · rintro ⟨hA, hno⟩
    exact ⟨⟨fun hd => hno ⟨Or.inl hd, hd ▸ h⟩, hA⟩, fun hd => hno ⟨Or.inr hd.1, hd.2⟩⟩
  · rintro ⟨⟨hne, hA⟩, hno⟩
    refine ⟨hA, ?_⟩
    rintro ⟨hd | hd, heof⟩
    · exact hne hd
    · exact hno ⟨hd, heof⟩

theorem ended_cons_of_data {e : Env} {c : ℕ} (cs : List ℕ) (h : e.readRes c ≠ []) :
    e.ended (c :: cs) = e.ended cs := by
  rw [ended, List.filter_cons_of_neg (by simpa using h), ended]

end Env

/-! ## Serving a list of clients -/

/-- The loop of `server.c` over the clients it serves. -/
theorem ScanServer.foldl_serve (e : Env) (cs : List ℕ) (s : ScanServer.State) (t : Trace) :
    cs.foldl (fun y i => ScanServer.serve e.kernel i y) (s, t)
      = (⟨s.allset \ e.ended cs, s.maxfd⟩, e.after cs t) := by
  induction cs generalizing s t with
  | nil => simp [Env.ended]
  | cons c cs ih =>
      rw [List.foldl_cons, ScanServer.serve]
      by_cases heof : e.readRes c = []
      · rw [if_pos (show (e.kernel.read c t).1 = [] from heof), ih]
        simp only [Env.after, Env.ended_cons_of_eof cs heof, List.flatMap_cons, Env.served,
          if_pos heof, Env.kernel, List.append_assoc, List.cons_append, List.nil_append]
      · rw [if_neg (show (e.kernel.read c t).1 ≠ [] from heof), ih]
        simp only [Env.after, Env.ended_cons_of_data cs heof, List.flatMap_cons, Env.served,
          if_neg heof, Env.kernel, Kernel.echo, List.append_assoc, List.cons_append,
          List.nil_append]

/-- The table behind the service of the slots `is`. -/
def SlotServer.State.freed (s : SlotServer.State) (e : Env) (is : List ℕ) (j : ℕ) : ℤ :=
  if j ∈ is ∧ e.readRes (s.fdAt j) = [] then -1 else s.cfds j

/-- The loop of `server2.c` over the slots it serves. -/
theorem SlotServer.foldl_serve (e : Env) {is : List ℕ} (hnodup : is.Nodup)
    (s : SlotServer.State) (t : Trace) :
    is.foldl (fun y i => SlotServer.serve e.kernel i y) (s, t)
      = (⟨s.allset \ e.ended (is.map s.fdAt), s.maxfd, s.freed e is, s.maxindex⟩,
          e.after (is.map s.fdAt) t) := by
  induction is generalizing s t with
  | nil =>
      have hfreed : s.freed e [] = s.cfds := by
        funext j
        simp [SlotServer.State.freed]
      simp [Env.ended, hfreed]
  | cons i is ih =>
      obtain ⟨hi, hnodup⟩ := List.nodup_cons.mp hnodup
      rw [List.foldl_cons, SlotServer.serve, List.map_cons]
      by_cases heof : e.readRes (s.fdAt i) = []
      · rw [if_pos (show (e.kernel.read (s.fdAt i) t).1 = [] from heof), ih hnodup]
        -- the slots behind `i` are as they were
        have hsame : ∀ j, j ≠ i →
            (Function.update s.cfds i (-1) : ℕ → ℤ) j = s.cfds j :=
          fun j hj => Function.update_of_ne hj _ _
        have hmap : is.map (SlotServer.State.fdAt ⟨s.allset.erase (s.fdAt i), s.maxfd,
            Function.update s.cfds i (-1), s.maxindex⟩) = is.map s.fdAt := by
          apply List.map_congr_left
          intro j hj
          simp only [SlotServer.State.fdAt, hsame j (fun h => hi (h ▸ hj))]
        have hfreed : SlotServer.State.freed ⟨s.allset.erase (s.fdAt i), s.maxfd,
            Function.update s.cfds i (-1), s.maxindex⟩ e is = s.freed e (i :: is) := by
          funext j
          by_cases hj : j = i
          · subst hj
            simp [SlotServer.State.freed, hi, heof]
          · simp [SlotServer.State.freed, SlotServer.State.fdAt, hj]
        show (_, _) = (_, _)
        rw [hmap, hfreed]
        simp only [Env.after, Env.ended_cons_of_eof _ heof, List.flatMap_cons, Env.served,
          if_pos heof, Env.kernel, List.append_assoc, List.cons_append, List.nil_append]
      · rw [if_neg (show (e.kernel.read (s.fdAt i) t).1 ≠ [] from heof), ih hnodup]
        have hfreed : s.freed e is = s.freed e (i :: is) := by
          funext j
          by_cases hj : j = i
          · subst hj
            simp [SlotServer.State.freed, heof]
          · simp [SlotServer.State.freed, hj]
        simp only [hfreed, Env.after, Env.ended_cons_of_data _ heof, List.flatMap_cons, Env.served,
          if_neg heof, Env.kernel, Kernel.echo, List.append_assoc, List.cons_append,
          List.nil_append]

/-! ## The invariant -/

/-- The servers are in these states, with these clients open. -/
structure Agree (fd : ℕ) (s₁ : ScanServer.State) (s₂ : SlotServer.State) (clients : Finset ℕ) :
    Prop where
  allset₁ : s₁.allset = insert fd clients
  allset₂ : s₂.allset = insert fd clients
  /-- the clients lie in the range that `server.c` looks at -/
  above : ∀ c ∈ clients, fd < c
  below : ∀ c ∈ clients, c ≤ s₁.maxfd
  /-- the occupied slots lie in the range that `server2.c` looks at -/
  slot_le : ∀ i, 0 ≤ s₂.cfds i → (i : ℤ) ≤ s₂.maxindex
  slot_lt : ∀ i, 0 ≤ s₂.cfds i → i < 1024
  /-- they hold the clients, each one once -/
  slot_mem : ∀ i, 0 ≤ s₂.cfds i → s₂.fdAt i ∈ clients
  slot_inj : ∀ i j, 0 ≤ s₂.cfds i → s₂.cfds i = s₂.cfds j → i = j
  slot_surj : ∀ c ∈ clients, ∃ i, s₂.cfds i = c

theorem agree_start (fd : ℕ) : Agree fd (ScanServer.start fd) (SlotServer.start fd) ∅ where
  allset₁ := rfl
  allset₂ := rfl
  above := by simp
  below := by simp
  slot_le := by simp [SlotServer.start]
  slot_lt := by simp [SlotServer.start]
  slot_mem := by simp [SlotServer.start]
  slot_inj := by simp [SlotServer.start]
  slot_surj := by simp

section

variable {fd : ℕ} {s₁ : ScanServer.State} {s₂ : SlotServer.State} {clients : Finset ℕ}

/-- Two occupied slots with one descriptor are one slot. -/
theorem Agree.fdAt_inj (h : Agree fd s₁ s₂ clients) {i j : ℕ} (hi : 0 ≤ s₂.cfds i)
    (hj : 0 ≤ s₂.cfds j) (heq : s₂.fdAt i = s₂.fdAt j) : i = j := by
  apply h.slot_inj i j hi
  rw [← Int.toNat_of_nonneg hi, ← Int.toNat_of_nonneg hj]
  exact congrArg Nat.cast heq

/-- With fewer than 1024 clients a slot is free, and the search finds one. -/
theorem Agree.exists_freeSlot (h : Agree fd s₁ s₂ clients) (hroom : clients.card < 1024) :
    ∃ i, SlotServer.freeSlot s₂.cfds = some i ∧ i < 1024 ∧ s₂.cfds i < 0 := by
  rcases hfind : SlotServer.freeSlot s₂.cfds with _ | i
  · exfalso
    have hfull : ∀ i < 1024, 0 ≤ s₂.cfds i := by
      intro i hi
      have := List.find?_eq_none.mp hfind i (List.mem_range.mpr hi)
      simpa using this
    -- 1024 occupied slots would hold 1024 clients
    have hcard : (Finset.range 1024).card ≤ clients.card := by
      apply Finset.card_le_card_of_injOn s₂.fdAt
      · intro i hi
        exact h.slot_mem i (hfull i (Finset.mem_range.mp hi))
      · intro i hi j hj heq
        exact h.fdAt_inj (hfull i (Finset.mem_range.mp hi)) (hfull j (Finset.mem_range.mp hj)) heq
    rw [Finset.card_range] at hcard
    omega
  · unfold SlotServer.freeSlot at hfind
    have hi : i ∈ List.range 1024 := List.mem_of_find?_eq_some hfind
    refine ⟨i, rfl, List.mem_range.mp hi, ?_⟩
    simpa using List.find?_some hfind

/-- **A new client.** -/
theorem Agree.accept (h : Agree fd s₁ s₂ clients) {c i : ℕ} (hc : fd < c ∧ c ∉ clients)
    (hi : i < 1024) (hfree : s₂.cfds i < 0) :
    Agree fd ⟨insert c s₁.allset, if s₁.maxfd < c then c else s₁.maxfd⟩
      ⟨insert c s₂.allset, if s₂.maxfd < c then c else s₂.maxfd,
        Function.update s₂.cfds i (c : ℤ), if s₂.maxindex < i then (i : ℤ) else s₂.maxindex⟩
      (insert c clients) := by
  have hother : ∀ j, j ≠ i → (Function.update s₂.cfds i (c : ℤ) : ℕ → ℤ) j = s₂.cfds j :=
    fun j hj => Function.update_of_ne hj _ _
  have hself : (Function.update s₂.cfds i (c : ℤ) : ℕ → ℤ) i = c := Function.update_self _ _ _
  -- no slot holds the new client yet
  have hnew : ∀ j, 0 ≤ s₂.cfds j → s₂.cfds j ≠ c := by
    intro j hj heq
    apply hc.2
    have hmem := h.slot_mem j hj
    rwa [SlotServer.State.fdAt, heq, Int.toNat_natCast] at hmem
  constructor
  · rw [h.allset₁, Finset.insert_comm]
  · rw [h.allset₂, Finset.insert_comm]
  · intro d hd
    rcases Finset.mem_insert.mp hd with rfl | hd
    · exact hc.1
    · exact h.above d hd
  · intro d hd
    show d ≤ if s₁.maxfd < c then c else s₁.maxfd
    rcases Finset.mem_insert.mp hd with rfl | hd
    · split_ifs <;> omega
    · have hle := h.below d hd
      split_ifs <;> omega
  · intro j hj
    show (j : ℤ) ≤ if s₂.maxindex < i then (i : ℤ) else s₂.maxindex
    by_cases hji : j = i
    · subst hji
      split_ifs <;> omega
    · have hle := h.slot_le j ((hother j hji) ▸ hj)
      split_ifs <;> omega
  · intro j hj
    by_cases hji : j = i
    · exact hji ▸ hi
    · exact h.slot_lt j ((hother j hji) ▸ hj)
  · intro j hj
    show ((Function.update s₂.cfds i (c : ℤ) : ℕ → ℤ) j).toNat ∈ _
    by_cases hji : j = i
    · rw [hji, hself, Int.toNat_natCast]
      exact Finset.mem_insert_self _ _
    · rw [hother j hji]
      exact Finset.mem_insert_of_mem (h.slot_mem j ((hother j hji) ▸ hj))
  · intro j k hj heq
    change 0 ≤ (Function.update s₂.cfds i (c : ℤ) : ℕ → ℤ) j at hj
    change (Function.update s₂.cfds i (c : ℤ) : ℕ → ℤ) j =
      (Function.update s₂.cfds i (c : ℤ) : ℕ → ℤ) k at heq
    by_cases hji : j = i
    · by_cases hki : k = i
      · rw [hji, hki]
      · rw [hji, hself, hother k hki] at heq
        exact absurd heq.symm (hnew k (by omega))
    · rw [hother j hji] at hj heq
      by_cases hki : k = i
      · rw [hki, hself] at heq
        exact absurd heq (hnew j hj)
      · rw [hother k hki] at heq
        exact h.slot_inj j k hj heq
  · intro d hd
    rcases Finset.mem_insert.mp hd with rfl | hd
    · exact ⟨i, hself⟩
    · obtain ⟨j, hj⟩ := h.slot_surj d hd
      refine ⟨j, ?_⟩
      show (Function.update s₂.cfds i (c : ℤ) : ℕ → ℤ) j = d
      rw [hother j (fun hji => by rw [← hji, hj] at hfree; omega), hj]

/-- **Clients served.**  The two servers have served the same clients, `server2.c` those
in the slots `is`, and closed the ones that had ended. -/
theorem Agree.serve (h : Agree fd s₁ s₂ clients) (e : Env) {cs is : List ℕ} (hfd : fd ∉ cs)
    (hocc : ∀ i ∈ is, 0 ≤ s₂.cfds i) (hsame : ∀ c, c ∈ is.map s₂.fdAt ↔ c ∈ cs) :
    Agree fd ⟨s₁.allset \ e.ended cs, s₁.maxfd⟩
      ⟨s₂.allset \ e.ended cs, s₂.maxfd, s₂.freed e is, s₂.maxindex⟩
      (clients \ e.ended cs) := by
  have hlisten : insert fd clients \ e.ended cs = insert fd (clients \ e.ended cs) :=
    Finset.insert_sdiff_of_notMem _ (fun hmem => hfd (Env.mem_ended.mp hmem).1)
  -- a slot that is still occupied is as it was, and its client has not ended
  have hkept : ∀ j, 0 ≤ s₂.freed e is j →
      s₂.freed e is j = s₂.cfds j ∧ 0 ≤ s₂.cfds j ∧ s₂.fdAt j ∉ e.ended cs := by
    intro j hj
    rw [SlotServer.State.freed] at hj ⊢
    split_ifs at hj ⊢ with hfree
    · omega
    · refine ⟨rfl, hj, fun hmem => ?_⟩
      obtain ⟨hcs, heof⟩ := Env.mem_ended.mp hmem
      obtain ⟨i, hi, heq⟩ := List.mem_map.mp ((hsame _).mpr hcs)
      have hij : i = j := h.fdAt_inj (hocc i hi) hj heq
      exact hfree ⟨hij ▸ hi, heof⟩
  constructor
  · show s₁.allset \ e.ended cs = _
    rw [h.allset₁, hlisten]
  · show s₂.allset \ e.ended cs = _
    rw [h.allset₂, hlisten]
  · intro c hc
    exact h.above c (Finset.mem_sdiff.mp hc).1
  · intro c hc
    exact h.below c (Finset.mem_sdiff.mp hc).1
  · intro j hj
    exact h.slot_le j (hkept j hj).2.1
  · intro j hj
    exact h.slot_lt j (hkept j hj).2.1
  · intro j hj
    obtain ⟨heq, hocc', hended⟩ := hkept j hj
    show (s₂.freed e is j).toNat ∈ _
    rw [heq]
    exact Finset.mem_sdiff.mpr ⟨h.slot_mem j hocc', hended⟩
  · intro j k hj heq
    change 0 ≤ s₂.freed e is j at hj
    change s₂.freed e is j = s₂.freed e is k at heq
    obtain ⟨hj', hocc', -⟩ := hkept j hj
    obtain ⟨hk', -, -⟩ := hkept k (heq ▸ hj)
    rw [hj', hk'] at heq
    exact h.slot_inj j k hocc' heq
  · intro c hc
    obtain ⟨hclient, hended⟩ := Finset.mem_sdiff.mp hc
    obtain ⟨j, hj⟩ := h.slot_surj c hclient
    refine ⟨j, ?_⟩
    show s₂.freed e is j = c
    have hfdAt : s₂.fdAt j = c := by rw [SlotServer.State.fdAt, hj, Int.toNat_natCast]
    rw [SlotServer.State.freed, hfdAt, if_neg, hj]
    rintro ⟨hmem, heof⟩
    exact hended (Env.mem_ended.mpr ⟨(hsame c).mp (List.mem_map.mpr ⟨j, hmem, hfdAt⟩), heof⟩)

end

/-! ## One iteration -/

/-- The ready clients that `server.c` serves, in the order of their descriptors. -/
def ScanServer.State.ready (s : ScanServer.State) (fd : ℕ) (rset : Finset ℕ) : List ℕ :=
  (ScanServer.descriptors fd s.maxfd).filter (· ∈ rset)

/-- The slots that `server2.c` serves. -/
def SlotServer.State.ready (s : SlotServer.State) (rset : Finset ℕ) : List ℕ :=
  SlotServer.readySlots rset s.cfds s.slots

theorem ScanServer.nodup_ready (s : ScanServer.State) (fd : ℕ) (rset : Finset ℕ) :
    (s.ready fd rset).Nodup :=
  List.Nodup.filter _ List.nodup_range'

theorem SlotServer.nodup_ready (s : SlotServer.State) (rset : Finset ℕ) : (s.ready rset).Nodup :=
  List.Nodup.filter _ List.nodup_range

theorem SlotServer.ready_nonneg {s : SlotServer.State} {rset : Finset ℕ} {i : ℕ}
    (hi : i ∈ s.ready rset) : 0 ≤ s.cfds i :=
  (SlotServer.mem_readySlots.mp hi).2.1

section

variable {fd : ℕ} {s₁ : ScanServer.State} {s₂ : SlotServer.State} {clients rset : Finset ℕ}

theorem mem_clients_of_ready (hrset : rset ⊆ insert fd clients) {c : ℕ} (hc : c ∈ rset)
    (hne : c ≠ fd) : c ∈ clients :=
  (Finset.mem_insert.mp (hrset hc)).resolve_left hne

/-- `server.c` serves the ready clients. -/
theorem Agree.mem_ready₁ (h : Agree fd s₁ s₂ clients) (hrset : rset ⊆ insert fd clients) {c : ℕ} :
    c ∈ s₁.ready fd rset ↔ c ∈ rset ∧ c ≠ fd := by
  rw [ScanServer.State.ready, List.mem_filter, ScanServer.mem_descriptors, decide_eq_true_eq]
  constructor
  · rintro ⟨⟨hlt, -⟩, hc⟩
    exact ⟨hc, by omega⟩
  · rintro ⟨hc, hne⟩
    have hmem := mem_clients_of_ready hrset hc hne
    exact ⟨⟨h.above c hmem, h.below c hmem⟩, hc⟩

/-- So does `server2.c`. -/
theorem Agree.mem_ready₂ (h : Agree fd s₁ s₂ clients) (hrset : rset ⊆ insert fd clients) {c : ℕ} :
    c ∈ (s₂.ready rset).map s₂.fdAt ↔ c ∈ rset ∧ c ≠ fd := by
  rw [List.mem_map]
  constructor
  · rintro ⟨i, hi, rfl⟩
    obtain ⟨-, hnonneg, hmem⟩ := SlotServer.mem_readySlots.mp hi
    exact ⟨hmem, (h.above _ (h.slot_mem i hnonneg)).ne'⟩
  · rintro ⟨hc, hne⟩
    obtain ⟨i, hi⟩ := h.slot_surj c (mem_clients_of_ready hrset hc hne)
    have hle := h.slot_le i (by omega)
    have hslot : i ∈ s₂.slots := by
      rw [SlotServer.State.slots, List.mem_range]
      omega
    refine ⟨i, SlotServer.mem_readySlots.mpr ⟨hslot, by omega, ?_⟩, ?_⟩
    · rwa [hi, Int.toNat_natCast]
    · rw [SlotServer.State.fdAt, hi, Int.toNat_natCast]

/-- And it serves each of them once. -/
theorem Agree.nodup_ready₂ (h : Agree fd s₁ s₂ clients) :
    ((s₂.ready rset).map s₂.fdAt).Nodup :=
  (List.nodup_map_iff_inj_on (SlotServer.nodup_ready s₂ rset)).mpr
    (fun _ hi _ hj heq => h.fdAt_inj (SlotServer.ready_nonneg hi) (SlotServer.ready_nonneg hj) heq)

/-- The count that is left behind the listener includes all of them. -/
theorem Agree.length_ready₂_le (h : Agree fd s₁ s₂ clients) (hrset : rset ⊆ insert fd clients) :
    ((s₂.ready rset).length : ℤ) ≤ (rset.erase fd).card := by
  rw [← List.length_map (f := s₂.fdAt), ← List.toFinset_card_of_nodup h.nodup_ready₂]
  apply Nat.cast_le.mpr
  apply Finset.card_le_card
  intro c hc
  obtain ⟨hready, hne⟩ := (h.mem_ready₂ hrset).mp (List.mem_toFinset.mp hc)
  exact Finset.mem_erase.mpr ⟨hne, hready⟩

end

/-- What the two servers do with the ready clients: `server.c` serves `cs` and
`server2.c` serves `ds`, each ready client once, and they agree behind it. -/
structure Serves (e : Env) (fd : ℕ) (x₁ : ScanServer.State × Trace) (x₂ : SlotServer.State × Trace)
    (y₁ : ScanServer.State × Trace) (y₂ : SlotServer.State × Trace) (cs ds : List ℕ) : Prop where
  nodup₁ : cs.Nodup
  nodup₂ : ds.Nodup
  ready₁ : ∀ c, c ∈ cs ↔ c ∈ e.rset ∧ c ≠ fd
  ready₂ : ∀ c, c ∈ ds ↔ c ∈ e.rset ∧ c ≠ fd
  effects₁ : y₁.2.effects = x₁.2.effects ++ cs.flatMap e.served
  effects₂ : y₂.2.effects = x₂.2.effects ++ ds.flatMap e.served
  clients : y₁.2.clients = y₂.2.clients
  agree : Agree fd y₁.1 y₂.1 y₁.2.clients

/-- **The scans.**  Both servers serve every ready client once. -/
theorem exists_serves_scan {fd : ℕ} (x₁ : ScanServer.State × Trace)
    (x₂ : SlotServer.State × Trace) (h : Agree fd x₁.1 x₂.1 x₁.2.clients)
    (hclients : x₁.2.clients = x₂.2.clients) (e : Env)
    (hrset : e.rset ⊆ insert fd x₁.2.clients) :
    ∃ cs ds, Serves e fd x₁ x₂
      (ScanServer.scan e.kernel e.rset (ScanServer.descriptors fd x₁.1.maxfd) x₁)
      (SlotServer.scan e.kernel e.rset x₂.1.slots (e.rset.erase fd).card x₂) cs ds := by
  obtain ⟨s₁, t₁⟩ := x₁
  obtain ⟨s₂, t₂⟩ := x₂
  change t₁.clients = t₂.clients at hclients
  have hready₁ := fun c => h.mem_ready₁ hrset (c := c)
  have hready₂ := fun c => h.mem_ready₂ hrset (c := c)
  -- the same clients, so the same ones come to their end
  have hsame : ∀ c, c ∈ (s₂.ready e.rset).map s₂.fdAt ↔ c ∈ s₁.ready fd e.rset :=
    fun c => (hready₂ c).trans (hready₁ c).symm
  have hended : e.ended ((s₂.ready e.rset).map s₂.fdAt) = e.ended (s₁.ready fd e.rset) := by
    ext c
    rw [Env.mem_ended, Env.mem_ended, hsame]
  have hscan₁ : ScanServer.scan e.kernel e.rset (ScanServer.descriptors fd s₁.maxfd) (s₁, t₁)
      = (⟨s₁.allset \ e.ended (s₁.ready fd e.rset), s₁.maxfd⟩,
          e.after (s₁.ready fd e.rset) t₁) := by
    rw [ScanServer.scan_eq_foldl]
    exact ScanServer.foldl_serve e _ s₁ t₁
  have hscan₂ : SlotServer.scan e.kernel e.rset s₂.slots (e.rset.erase fd).card (s₂, t₂)
      = (⟨s₂.allset \ e.ended (s₁.ready fd e.rset), s₂.maxfd, s₂.freed e (s₂.ready e.rset),
            s₂.maxindex⟩, e.after ((s₂.ready e.rset).map s₂.fdAt) t₂) := by
    have hnodup : s₂.slots.Nodup := List.nodup_range
    rw [SlotServer.scan_eq_foldl (x := (s₂, t₂)) e.kernel e.rset hnodup (h.length_ready₂_le hrset),
      ← hended]
    exact SlotServer.foldl_serve e (SlotServer.nodup_ready s₂ e.rset) s₂ t₂
  refine ⟨s₁.ready fd e.rset, (s₂.ready e.rset).map s₂.fdAt, ?_⟩
  rw [hscan₁, hscan₂]
  constructor
  · exact ScanServer.nodup_ready s₁ fd e.rset
  · exact h.nodup_ready₂
  · exact hready₁
  · exact hready₂
  · rfl
  · rfl
  · show t₁.clients \ _ = t₂.clients \ _
    rw [hclients, hended]
  · exact h.serve e (fun hmem => ((hready₁ fd).mp hmem).2 rfl)
      (fun _ hi => SlotServer.ready_nonneg hi) hsame

/-- **The new client** is accepted by both servers. -/
theorem Agree.exists_acceptClient {fd : ℕ} {x₁ : ScanServer.State × Trace}
    {x₂ : SlotServer.State × Trace} (h : Agree fd x₁.1 x₂.1 x₁.2.clients)
    (hclients : x₁.2.clients = x₂.2.clients) {e : Env}
    (he : e.Legal fd x₁.1.allset x₁.2.clients) (hfd : fd ∈ e.rset) :
    ∃ z₂, SlotServer.acceptClient e.kernel x₂ = some z₂ ∧
      Agree fd (ScanServer.acceptClient e.kernel x₁).1 z₂.1
        (ScanServer.acceptClient e.kernel x₁).2.clients ∧
      (ScanServer.acceptClient e.kernel x₁).2.clients = z₂.2.clients ∧
      z₂.2.effects = x₂.2.effects := by
  obtain ⟨i, hfind, hi, hfree⟩ := h.exists_freeSlot (he.room hfd)
  refine ⟨SlotServer.storeClient e.kernel i x₂, ?_, ?_, ?_, ?_⟩
  · rw [SlotServer.acceptClient, hfind, Option.map_some]
  · exact h.accept (he.fresh hfd) hi hfree
  · show insert e.accepted x₁.2.clients = insert e.accepted x₂.2.clients
    rw [hclients]
  · rfl

/-- **One iteration**, from states that agree and with answers that are legal: neither
server exits, both serve every ready client once, and they agree again. -/
theorem exists_serves_iterate {fd : ℕ} (x₁ : ScanServer.State × Trace)
    (x₂ : SlotServer.State × Trace) (h : Agree fd x₁.1 x₂.1 x₁.2.clients)
    (hclients : x₁.2.clients = x₂.2.clients) {e : Env}
    (he : e.Legal fd x₁.1.allset x₁.2.clients) :
    ∃ y₂ cs ds, SlotServer.iterate e.kernel fd e.rset e.ret x₂ = some y₂ ∧
      Serves e fd x₁ x₂ (ScanServer.iterate e.kernel fd e.rset e.ret x₁) y₂ cs ds := by
  have hrset : e.rset ⊆ insert fd x₁.2.clients := h.allset₁ ▸ he.ready
  rw [ScanServer.iterate, SlotServer.iterate]
  by_cases hfd : fd ∈ e.rset
  · have hcard : (e.ret : ℤ) - 1 = (e.rset.erase fd).card := by
      have := Finset.card_erase_add_one hfd
      rw [Env.ret]
      omega
    obtain ⟨z₂, haccept, hagree, hclients', heffects⟩ := h.exists_acceptClient hclients he hfd
    rw [if_pos hfd, if_pos hfd, haccept, Option.map_some]
    by_cases hret : e.ret = 1
    · -- nothing but the listener is ready
      rw [if_pos hret, if_pos (by omega)]
      have hnone : ∀ c, ¬ (c ∈ e.rset ∧ c ≠ fd) := by
        rintro c ⟨hc, hne⟩
        have hpos := Finset.card_pos.mpr ⟨c, Finset.mem_erase.mpr ⟨hne, hc⟩⟩
        omega
      refine ⟨_, [], [], rfl, ?_⟩
      constructor
      · exact List.nodup_nil
      · exact List.nodup_nil
      · intro c
        exact iff_of_false List.not_mem_nil (hnone c)
      · intro c
        exact iff_of_false List.not_mem_nil (hnone c)
      · exact (List.append_nil _).symm
      · exact heffects.trans (List.append_nil _).symm
      · exact hclients'
      · exact hagree
    · rw [if_neg hret, if_neg (by omega), hcard]
      have hrset' : e.rset ⊆ insert fd (insert e.accepted x₁.2.clients) :=
        hrset.trans (Finset.insert_subset_insert fd (Finset.subset_insert _ _))
      obtain ⟨cs, ds, hserves⟩ :=
        exists_serves_scan (ScanServer.acceptClient e.kernel x₁) z₂ hagree hclients' e hrset'
      refine ⟨_, cs, ds, rfl, hserves.nodup₁, hserves.nodup₂, hserves.ready₁, hserves.ready₂,
        hserves.effects₁, ?_, hserves.clients, hserves.agree⟩
      rw [← heffects]
      exact hserves.effects₂
  · have hcard : e.ret = (e.rset.erase fd).card := by
      rw [Env.ret, Finset.erase_eq_of_notMem hfd]
    rw [if_neg hfd, if_neg hfd, hcard]
    obtain ⟨cs, ds, hserves⟩ := exists_serves_scan x₁ x₂ h hclients e hrset
    exact ⟨_, cs, ds, rfl, hserves⟩

/-! ## Runs -/

/-- The calls of `read`, in order. -/
def reads (effects : List Effect) : List ℕ :=
  effects.filterMap (fun f => match f with
    | Effect.read fd => some fd
    | _ => none)

/-- What is written to a descriptor, in order. -/
def writesTo (c : ℕ) (effects : List Effect) : List (List UInt8) :=
  effects.filterMap (fun f => match f with
    | Effect.write fd buf => if fd = c then some buf else none
    | _ => none)

theorem reads_served (e : Env) (c : ℕ) : reads (e.served c) = [c] := by
  rw [Env.served]
  split_ifs <;> rfl

/-- Each client that is served is read once. -/
theorem reads_flatMap_served (e : Env) (cs : List ℕ) : reads (cs.flatMap e.served) = cs := by
  induction cs with
  | nil => rfl
  | cons c cs ih =>
      rw [List.flatMap_cons, reads, List.filterMap_append]
      show reads (e.served c) ++ reads (cs.flatMap e.served) = _
      rw [reads_served, ih, List.singleton_append]

theorem writesTo_served_of_ne (e : Env) {c d : ℕ} (h : d ≠ c) : writesTo c (e.served d) = [] := by
  rw [Env.served]
  split_ifs
  · rfl
  · simp [writesTo, h]

/-- What is written to a client does not depend on the order of service. -/
theorem writesTo_flatMap_served (e : Env) {cs : List ℕ} (hnodup : cs.Nodup) (c : ℕ) :
    writesTo c (cs.flatMap e.served) = if c ∈ cs then writesTo c (e.served c) else [] := by
  induction cs with
  | nil => rfl
  | cons d cs ih =>
      obtain ⟨hd, hnodup⟩ := List.nodup_cons.mp hnodup
      have happend : writesTo c ((d :: cs).flatMap e.served)
          = writesTo c (e.served d) ++ writesTo c (cs.flatMap e.served) := by
        rw [List.flatMap_cons, writesTo, List.filterMap_append]
        rfl
      rw [happend, ih hnodup]
      by_cases hcd : d = c
      · subst hcd
        rw [if_neg hd, if_pos List.mem_cons_self, List.append_nil]
      · rw [writesTo_served_of_ne e hcd, List.nil_append]
        have hiff : c ∈ d :: cs ↔ c ∈ cs := by
          rw [List.mem_cons, or_iff_right (Ne.symm hcd)]
        simp only [hiff]

/-- An iteration of `server.c`; the trace keeps the calls of the last iteration. -/
def ScanServer.step (fd : ℕ) (e : Env) (x : ScanServer.State × Trace) : ScanServer.State × Trace :=
  ScanServer.iterate e.kernel fd e.rset e.ret (x.1, ⟨x.2.clients, []⟩)

/-- The iterations of `server.c`, one for each of the answers. -/
def ScanServer.run (fd : ℕ) : List Env → ScanServer.State × Trace → ScanServer.State × Trace
  | [], x => x
  | e :: es, x => ScanServer.run fd es (ScanServer.step fd e x)

/-- An iteration of `server2.c`, likewise. -/
def SlotServer.step (fd : ℕ) (e : Env) (x : SlotServer.State × Trace) :
    Option (SlotServer.State × Trace) :=
  SlotServer.iterate e.kernel fd e.rset e.ret (x.1, ⟨x.2.clients, []⟩)

/-- The iterations of `server2.c`, until it exits. -/
def SlotServer.run (fd : ℕ) :
    List Env → SlotServer.State × Trace → Option (SlotServer.State × Trace)
  | [], x => some x
  | e :: es, x => (SlotServer.step fd e x).bind (SlotServer.run fd es)

/-- All answers are legal, each in the state in which it is given. -/
def LegalRun (fd : ℕ) : List Env → ScanServer.State × Trace → Prop
  | [], _ => True
  | e :: es, x => e.Legal fd x.1.allset x.2.clients ∧ LegalRun fd es (ScanServer.step fd e x)

/-- In these calls every ready client is read once, and nothing else. -/
def ReadsReadyOnce (e : Env) (fd : ℕ) (effects : List Effect) : Prop :=
  (reads effects).Nodup ∧ ∀ c, c ∈ reads effects ↔ c ∈ e.rset ∧ c ≠ fd

/-- A run from states that agree, and the service of its last iteration. -/
theorem exists_run_serves {fd : ℕ} (es : List Env) (e : Env) (x₁ : ScanServer.State × Trace)
    (x₂ : SlotServer.State × Trace) (h : Agree fd x₁.1 x₂.1 x₁.2.clients)
    (hclients : x₁.2.clients = x₂.2.clients) (hlegal : LegalRun fd (es ++ [e]) x₁) :
    ∃ z₁ z₂ y₂ cs ds, SlotServer.run fd (es ++ [e]) x₂ = some y₂ ∧
      z₁.2.effects = [] ∧ z₂.2.effects = [] ∧
      Serves e fd z₁ z₂ (ScanServer.run fd (es ++ [e]) x₁) y₂ cs ds := by
  induction es generalizing x₁ x₂ with
  | nil =>
      obtain ⟨y₂, cs, ds, hiterate, hserves⟩ :=
        exists_serves_iterate (x₁.1, ⟨x₁.2.clients, []⟩) (x₂.1, ⟨x₂.2.clients, []⟩) h hclients
          hlegal.1
      refine ⟨_, _, y₂, cs, ds, ?_, rfl, rfl, hserves⟩
      rw [List.nil_append, SlotServer.run, SlotServer.step, hiterate]
      rfl
  | cons e' es ih =>
      obtain ⟨y₂, cs, ds, hiterate, hserves⟩ :=
        exists_serves_iterate (x₁.1, ⟨x₁.2.clients, []⟩) (x₂.1, ⟨x₂.2.clients, []⟩) h hclients
          hlegal.1
      obtain ⟨z₁, z₂, y₂', cs', ds', hrun, hz₁, hz₂, hserves'⟩ :=
        ih _ _ hserves.agree hserves.clients hlegal.2
      refine ⟨z₁, z₂, y₂', cs', ds', ?_, hz₁, hz₂, hserves'⟩
      rw [List.cons_append, SlotServer.run, SlotServer.step, hiterate]
      exact hrun

/-- **The two servers agree.**  Behind every iteration of every run with legal answers
`server2.c` has not exited, both have the same `allset` and the same clients open, in
that iteration both have read every ready client once and nothing else, and they have
written the same to each client. -/
theorem servers_agree (fd : ℕ) (es : List Env) (e : Env)
    (hlegal : LegalRun fd (es ++ [e]) (ScanServer.start fd, ⟨∅, []⟩)) :
    ∃ y₁ y₂, ScanServer.run fd (es ++ [e]) (ScanServer.start fd, ⟨∅, []⟩) = y₁ ∧
      SlotServer.run fd (es ++ [e]) (SlotServer.start fd, ⟨∅, []⟩) = some y₂ ∧
      y₁.1.allset = y₂.1.allset ∧ y₁.2.clients = y₂.2.clients ∧
      ReadsReadyOnce e fd y₁.2.effects ∧ ReadsReadyOnce e fd y₂.2.effects ∧
      ∀ c, writesTo c y₁.2.effects = writesTo c y₂.2.effects := by
  obtain ⟨z₁, z₂, y₂, cs, ds, hrun, hz₁, hz₂, hserves⟩ :=
    exists_run_serves es e (ScanServer.start fd, ⟨∅, []⟩) (SlotServer.start fd, ⟨∅, []⟩)
      (agree_start fd) rfl hlegal
  have heffects₁ := hserves.effects₁
  have heffects₂ := hserves.effects₂
  rw [hz₁, List.nil_append] at heffects₁
  rw [hz₂, List.nil_append] at heffects₂
  refine ⟨_, y₂, rfl, hrun, ?_, hserves.clients, ?_, ?_, ?_⟩
  · rw [hserves.agree.allset₁, hserves.agree.allset₂]
  · rw [ReadsReadyOnce, heffects₁, reads_flatMap_served]
    exact ⟨hserves.nodup₁, hserves.ready₁⟩
  · rw [ReadsReadyOnce, heffects₂, reads_flatMap_served]
    exact ⟨hserves.nodup₂, hserves.ready₂⟩
  · intro c
    rw [heffects₁, heffects₂, writesTo_flatMap_served e hserves.nodup₁,
      writesTo_flatMap_served e hserves.nodup₂]
    simp only [hserves.ready₁, hserves.ready₂]

/-- The listener alone is ready, and its client becomes descriptor 4. -/
def firstClient : Env := ⟨{3}, 4, fun _ => []⟩

/-- Another client comes while the first one has sent a byte. -/
def secondClient : Env := ⟨{3, 4}, 5, fun _ => [97]⟩

/-- The servers agree behind these two iterations. -/
theorem servers_agree_two : LegalRun 3 ([firstClient] ++ [secondClient]) (ScanServer.start 3, ⟨∅, []⟩) ∧
    ∃ y₁ y₂, ScanServer.run 3 ([firstClient] ++ [secondClient]) (ScanServer.start 3, ⟨∅, []⟩) = y₁ ∧
      SlotServer.run 3 ([firstClient] ++ [secondClient]) (SlotServer.start 3, ⟨∅, []⟩) = some y₂ ∧
      y₁.1.allset = y₂.1.allset ∧ y₁.2.clients = y₂.2.clients ∧
      ReadsReadyOnce secondClient 3 y₁.2.effects ∧ ReadsReadyOnce secondClient 3 y₂.2.effects ∧
      ∀ c, writesTo c y₁.2.effects = writesTo c y₂.2.effects := by
  have hlegal : LegalRun 3 ([firstClient] ++ [secondClient]) (ScanServer.start 3, ⟨∅, []⟩) :=
    ⟨⟨by decide, by decide, by decide⟩, ⟨by decide, by decide, by decide⟩, trivial⟩
  exact ⟨hlegal, servers_agree 3 [firstClient] secondClient hlegal⟩

end SelectServers
