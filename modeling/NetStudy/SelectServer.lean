/-
# The two `select` servers (`seclect/server.c` and `seclect/server2.c`)

Both accept clients, read from every client that `select` has reported, and send back
what they have read in upper case.  `ScanServer` looks at every descriptor between the
listener and `maxfd`; `SlotServer` keeps the clients in a table of 1024 slots, looks at
the slots up to `maxindex`, and counts the descriptors of `ret` down to leave its loop
early.

Both run over a `Kernel`, which is what they use of the operating system, so that the
same definitions serve for a scripted environment and for a model of connections.  An
iteration gets what `select` has left in `rset` and the number `ret` it returned.  Set-up
of the listener, prints and error exits other than the one for a full table are left out.

* `SlotServer.scan_eq_foldl`: counting down loses no client, provided `ret` counts all
  the ready ones.
-/
import Mathlib.Tactic
import Mathlib.Data.Finset.Basic
import Mathlib.Data.List.Range

namespace SelectServers

/-- `toupper` in the C locale. -/
def toUpper (c : UInt8) : UInt8 := if 97 ≤ c ∧ c ≤ 122 then c - 32 else c

/-- What the servers use of the operating system, over its states `κ`: `accept`, `read`
with no bytes for its 0 at the end of file, `write` to a descriptor and to the standard
output, and `close`. -/
structure Kernel (κ : Type*) where
  accept : κ → ℕ × κ
  read : ℕ → κ → List UInt8 × κ
  write : ℕ → List UInt8 → κ → κ
  print : List UInt8 → κ → κ
  close : ℕ → κ → κ

variable {κ : Type*}

/-- What both servers do with bytes they have read: `toupper` on each of them, and the
two calls of `write`. -/
def Kernel.echo (K : Kernel κ) (fd : ℕ) (buf : List UInt8) (k : κ) : κ :=
  K.print (buf.map toUpper) (K.write fd (buf.map toUpper) k)

/-! ## `server.c` -/

namespace ScanServer

/-- The variables of `main` that outlive an iteration. -/
structure State where
  allset : Finset ℕ
  maxfd : ℕ
  deriving DecidableEq

/-- Lines 25-28. -/
def start (fd : ℕ) : State := ⟨{fd}, fd⟩

/-- Lines 42-53. -/
def acceptClient (K : Kernel κ) (x : State × κ) : State × κ :=
  (⟨insert (K.accept x.2).1 x.1.allset,
    if x.1.maxfd < (K.accept x.2).1 then (K.accept x.2).1 else x.1.maxfd⟩, (K.accept x.2).2)

/-- Lines 66-84, for a descriptor that is ready. -/
def serve (K : Kernel κ) (i : ℕ) (x : State × κ) : State × κ :=
  if (K.read i x.2).1 = [] then
    (⟨x.1.allset.erase i, x.1.maxfd⟩, K.close i (K.read i x.2).2)
  else (x.1, K.echo i (K.read i x.2).1 (K.read i x.2).2)

/-- The loop of lines 61-87 over the descriptors that are left. -/
def scan (K : Kernel κ) (rset : Finset ℕ) : List ℕ → State × κ → State × κ
  | [], x => x
  | i :: is, x => if i ∈ rset then scan K rset is (serve K i x) else scan K rset is x

/-- The descriptors `fd + 1, …, maxfd` that the loop runs over. -/
def descriptors (fd maxfd : ℕ) : List ℕ := List.range' (fd + 1) (maxfd - fd)

/-- One iteration of the main loop, behind `select`. -/
def iterate (K : Kernel κ) (fd : ℕ) (rset : Finset ℕ) (ret : ℤ) (x : State × κ) : State × κ :=
  if fd ∈ rset then
    -- line 55: nothing but the listener was ready
    if ret = 1 then acceptClient K x
    else scan K rset (descriptors fd (acceptClient K x).1.maxfd) (acceptClient K x)
  else scan K rset (descriptors fd x.1.maxfd) x

/-- The loop serves the ready ones among its descriptors, in order. -/
theorem scan_eq_foldl (K : Kernel κ) (rset : Finset ℕ) (is : List ℕ) (x : State × κ) :
    scan K rset is x = (is.filter (· ∈ rset)).foldl (fun y i => serve K i y) x := by
  induction is generalizing x with
  | nil => rfl
  | cons i is ih =>
      rw [scan, List.filter_cons]
      by_cases hi : i ∈ rset
      · rw [if_pos hi, if_pos (decide_eq_true hi), List.foldl_cons, ih]
      · rw [if_neg hi, if_neg (by simpa using hi), ih]

theorem mem_descriptors {fd maxfd i : ℕ} : i ∈ descriptors fd maxfd ↔ fd < i ∧ i ≤ maxfd := by
  rw [descriptors, List.mem_range'_1]
  omega

end ScanServer

/-! ## `server2.c` -/

namespace SlotServer

/-- The variables of `main` that outlive an iteration.  A slot is free if it is
negative. -/
structure State where
  allset : Finset ℕ
  maxfd : ℕ
  cfds : ℕ → ℤ
  maxindex : ℤ

/-- Lines 25-33. -/
def start (fd : ℕ) : State := ⟨{fd}, fd, fun _ => -1, -1⟩

/-- The search of lines 59-67 for the first free slot. -/
def freeSlot (cfds : ℕ → ℤ) : Option ℕ := (List.range 1024).find? (fun i => decide (cfds i < 0))

/-- A new client is stored in the slot `index`. -/
def storeClient (K : Kernel κ) (index : ℕ) (x : State × κ) : State × κ :=
  (⟨insert (K.accept x.2).1 x.1.allset,
    if x.1.maxfd < (K.accept x.2).1 then (K.accept x.2).1 else x.1.maxfd,
    Function.update x.1.cfds index ((K.accept x.2).1 : ℤ),
    if x.1.maxindex < index then (index : ℤ) else x.1.maxindex⟩, (K.accept x.2).2)

/-- Lines 50-83.  With no free slot the server exits. -/
def acceptClient (K : Kernel κ) (x : State × κ) : Option (State × κ) :=
  (freeSlot x.1.cfds).map (fun index => storeClient K index x)

/-- The descriptor in a slot that is not free. -/
def State.fdAt (s : State) (i : ℕ) : ℕ := (s.cfds i).toNat

/-- Lines 104-124, for a slot whose client is ready. -/
def serve (K : Kernel κ) (i : ℕ) (x : State × κ) : State × κ :=
  if (K.read (x.1.fdAt i) x.2).1 = [] then
    (⟨x.1.allset.erase (x.1.fdAt i), x.1.maxfd, Function.update x.1.cfds i (-1), x.1.maxindex⟩,
      K.close (x.1.fdAt i) (K.read (x.1.fdAt i) x.2).2)
  else (x.1, K.echo (x.1.fdAt i) (K.read (x.1.fdAt i) x.2).1 (K.read (x.1.fdAt i) x.2).2)

/-- The loop of lines 91-137 over the slots that are left, with the `ret` that is left
to count down. -/
def scan (K : Kernel κ) (rset : Finset ℕ) : List ℕ → ℤ → State × κ → State × κ
  | [], _, x => x
  | i :: is, ret, x =>
      if x.1.cfds i < 0 then scan K rset is ret x
      else if x.1.fdAt i ∈ rset then
        -- line 126: the count includes this client
        if ret - 1 = 0 then serve K i x else scan K rset is (ret - 1) (serve K i x)
      else scan K rset is ret x

/-- The slots `0, …, maxindex` that the loop runs over. -/
def State.slots (s : State) : List ℕ := List.range (s.maxindex + 1).toNat

/-- One iteration of the main loop, behind `select`, or `none` for the exit. -/
def iterate (K : Kernel κ) (fd : ℕ) (rset : Finset ℕ) (ret : ℤ) (x : State × κ) :
    Option (State × κ) :=
  if fd ∈ rset then
    -- line 85: nothing but the listener was ready
    (acceptClient K x).map
      (fun y => if ret - 1 = 0 then y else scan K rset y.1.slots (ret - 1) y)
  else some (scan K rset x.1.slots ret x)

/-- The slots of `is` whose client is ready. -/
def readySlots (rset : Finset ℕ) (cfds : ℕ → ℤ) (is : List ℕ) : List ℕ :=
  is.filter (fun i => decide (0 ≤ cfds i) && decide ((cfds i).toNat ∈ rset))

theorem mem_readySlots {rset : Finset ℕ} {cfds : ℕ → ℤ} {is : List ℕ} {i : ℕ} :
    i ∈ readySlots rset cfds is ↔ i ∈ is ∧ 0 ≤ cfds i ∧ (cfds i).toNat ∈ rset := by
  rw [readySlots, List.mem_filter, Bool.and_eq_true, decide_eq_true_eq, decide_eq_true_eq]

/-- Serving a client changes no other slot. -/
theorem serve_cfds (K : Kernel κ) {i j : ℕ} (x : State × κ) (h : j ≠ i) :
    (serve K i x).1.cfds j = x.1.cfds j := by
  unfold serve
  split_ifs
  · exact Function.update_of_ne h _ _
  · rfl

theorem readySlots_congr {rset : Finset ℕ} {cfds cfds' : ℕ → ℤ} {is : List ℕ}
    (h : ∀ i ∈ is, cfds i = cfds' i) : readySlots rset cfds is = readySlots rset cfds' is :=
  List.filter_congr (fun i hi => by rw [h i hi])

/-- **The countdown loses nothing**: if `ret` is at least the number of ready clients in
the slots that are left, all of them are served before the loop is left. -/
theorem scan_eq_foldl (K : Kernel κ) (rset : Finset ℕ) {is : List ℕ} {ret : ℤ} {x : State × κ}
    (hnodup : is.Nodup) (hret : ((readySlots rset x.1.cfds is).length : ℤ) ≤ ret) :
    scan K rset is ret x = (readySlots rset x.1.cfds is).foldl (fun y i => serve K i y) x := by
  induction is generalizing ret x with
  | nil => rfl
  | cons i is ih =>
      obtain ⟨hi, hnodup⟩ := List.nodup_cons.mp hnodup
      by_cases hready : 0 ≤ x.1.cfds i ∧ (x.1.cfds i).toNat ∈ rset
      · have hcons : readySlots rset x.1.cfds (i :: is) = i :: readySlots rset x.1.cfds is := by
          rw [readySlots, List.filter_cons_of_pos (by simp [hready])]
          rfl
        have hsame : readySlots rset (serve K i x).1.cfds is = readySlots rset x.1.cfds is :=
          readySlots_congr (fun j hj => serve_cfds K x (fun h => hi (h ▸ hj)))
        rw [hcons, List.length_cons] at hret
        rw [scan, if_neg (by omega), if_pos (show x.1.fdAt i ∈ rset from hready.2), hcons,
          List.foldl_cons]
        split_ifs with hzero
        · -- the count is used up, and so are the ready clients
          have hnil : readySlots rset x.1.cfds is = [] :=
            List.length_eq_zero_iff.mp (by omega)
          rw [hnil]
          rfl
        · rw [ih hnodup (by rw [hsame]; omega), hsame]
      · have hcons : readySlots rset x.1.cfds (i :: is) = readySlots rset x.1.cfds is := by
          rw [readySlots, List.filter_cons_of_neg (by simpa using hready)]
          rfl
        rw [hcons] at hret ⊢
        rw [scan]
        split_ifs with hfree hmem
        · exact ih hnodup hret
        · exact absurd ⟨by omega, hmem⟩ hready
        · exact absurd ⟨by omega, hmem⟩ hready
        · exact ih hnodup hret

end SlotServer

end SelectServers
