/-
# A reset client of the `poll` server (`poll/pollServer.c`, `poll/wrapper.c`)

The loop of `main` has a branch for a `read` that fails with `ECONNRESET`: it closes the
descriptor and frees the slot, as it does when a client has closed.  But `main` calls
`Read`, and `Read` ends the process when `read` returns a negative number, so the branch
is never reached.

A run with resets is compared with the run in which those clients close instead.  The
server is that of the slot table, with what is written back: `isolated_iff` says that
the two runs agree exactly if no slot is read that has been reset.
-/
import NetStudy.PollTable

namespace PollServer

open Transition

/-! ## Reading -/

/-- What `read` gives: bytes, as many as a pointer has at most, since `Read` asks for
`sizeof(buf)`; the end of the file; or -1, with `ECONNRESET` or with another error. -/
inductive ReadRet
  | data (bytes : List UInt8) (size : 1 ≤ bytes.length ∧ bytes.length ≤ 8)
  | eof
  | reset
  | failed
  deriving DecidableEq

/-- The number that `read` returns. -/
def ReadRet.n : ReadRet → ℤ
  | data bytes _ => bytes.length
  | eof => 0
  | reset => -1
  | failed => -1

/-- The bytes in `buf`. -/
def ReadRet.bytes : ReadRet → List UInt8
  | data bytes _ => bytes
  | _ => []

/-- `Read`: there is no result where the process exits. -/
def Read (r : ReadRet) : Option ℤ := if r.n < 0 then none else some r.n

/-- What the environment answers in an iteration: as in a `Turn`, with what each `read`
gives. -/
structure Round where
  nready : ℤ
  ready : ℕ → Bool
  cfd : ℕ
  result : ℕ → ReadRet

/-- The numbers of a round. -/
def Round.turn (r : Round) : Turn := ⟨r.nready, r.ready, r.cfd, fun i => (r.result i).n⟩

/-- The round in which the clients that are reset close instead. -/
def Round.mild (r : Round) : Round :=
  { r with result := fun i => if r.result i = ReadRet.reset then ReadRet.eof else r.result i }

/-! ## The server with its echo -/

/-- The table, and what has been written to the descriptors. -/
structure Server where
  table : State
  echoed : List (ℤ × List UInt8)

/-- Lines 79-95, behind a `Read` that has returned `nread`. -/
def Server.handle (s : Server) (i : ℕ) (r : ReadRet) (nread : ℤ) : Server :=
  if nread = 0 then { s with table := s.table.close i }
  else if 0 < nread then { s with echoed := s.echoed ++ [(s.table.fd i, r.bytes)] }
  -- line 90: `errno == ECONNRESET`
  else if r = ReadRet.reset then { s with table := s.table.close i }
  else s

/-- Lines 74-96. -/
def Server.serve (s : Server) (r : Round) (i : ℕ) : Option Server :=
  if s.table.revents i then (Read (r.result i)).map (s.handle i (r.result i)) else some s

/-- The loop of lines 72-97 over the slots that are left. -/
def echoScan (r : Round) : List ℕ → Server → Option Server
  | [], s => some s
  | i :: is, s => (s.serve r i).bind (echoScan r is)

/-- The loop of lines 72-97. -/
def Server.scanSlots (s : Server) (r : Round) : Option Server :=
  if s.table.max < OPEN_MAX then echoScan r (List.range' 1 s.table.max) s else none

/-- One iteration, as in `turn`. -/
def echoTurn (r : Round) (s : Server) : Option Server :=
  if OPEN_MAX < s.table.max + 1 ∨ r.nready < 0 then none
  else if (s.table.poll r.turn).revents 0 then
    if (r.cfd : ℤ) = s.table.fd 0 ∨ (r.cfd : ℤ) ∈ s.table.opened then none
    else if r.nready - 1 = 0 then
      some { s with table := (s.table.poll r.turn).accept r.cfd }
    else Server.scanSlots { s with table := (s.table.poll r.turn).accept r.cfd } r
  else Server.scanSlots { s with table := s.table.poll r.turn } r

/-! ### The table is that of `turn` -/

/-- What `Read` lets through. -/
theorem serve_table (s : Server) (r : Round) (i : ℕ) :
    (s.serve r i).map Server.table = s.table.serve r.turn i := by
  have hn : r.turn.nread i = (r.result i).n := rfl
  rw [Server.serve, State.serve, hn]
  split_ifs with hrev hzero hpos
  · rw [Read, hzero, if_neg (by decide), Option.map_some, Option.map_some, Server.handle,
      if_pos rfl]
  · rw [Read, if_neg (by omega), Option.map_some, Option.map_some, Server.handle, if_neg hzero,
      if_pos hpos]
  · rw [Read, if_pos (by omega)]
    rfl
  · rfl

theorem echoScan_table (r : Round) (is : List ℕ) (s : Server) :
    (echoScan r is s).map Server.table = scan r.turn is s.table := by
  induction is generalizing s with
  | nil => rfl
  | cons i is ih =>
      rw [echoScan, scan, ← serve_table]
      rcases s.serve r i with _ | s'
      · rfl
      · exact ih s'

theorem scanSlots_table (s : Server) (r : Round) :
    (s.scanSlots r).map Server.table = s.table.scanSlots r.turn := by
  rw [Server.scanSlots, State.scanSlots]
  split_ifs
  · exact echoScan_table r _ s
  · rfl

/-- **The table after an iteration** is the one that the server without its echo has. -/
theorem echoTurn_table (r : Round) (s : Server) :
    (echoTurn r s).map Server.table = turn r.turn s.table := by
  have hready : r.turn.nready = r.nready := rfl
  have hcfd : r.turn.cfd = r.cfd := rfl
  rw [echoTurn, turn, hready, hcfd]
  split_ifs
  · rfl
  · rfl
  · rfl
  · exact scanSlots_table _ r
  · exact scanSlots_table _ r

/-! ## Resets -/

/-- The loop of an iteration reads the slot: it is reported, and the loop comes to it. -/
def Server.Reads (s : Server) (r : Round) (i : ℕ) : Prop :=
  (s.table.poll r.turn).revents i = true ∧ 1 ≤ i ∧
    if (s.table.poll r.turn).revents 0 then r.nready - 1 ≠ 0 ∧ i ≤ s.table.max + 1
    else i ≤ s.table.max

/-- Accepting a client leaves what `poll` has reported. -/
theorem accept_revents (s : State) (cfd : ℕ) : (s.accept cfd).revents = s.revents := by
  rw [State.accept, State.store]
  rcases s.freeSlot with _ | i <;> rfl

/-- A pass over a slot leaves what `poll` has reported. -/
theorem serve_revents {s s' : Server} {r : Round} {i : ℕ} (h : s.serve r i = some s') :
    s'.table.revents = s.table.revents := by
  rw [Server.serve] at h
  split_ifs at h with hrev
  · obtain ⟨nread, -, rfl⟩ := Option.map_eq_some_iff.mp h
    rw [Server.handle]
    split_ifs <;> rfl
  · rw [← Option.some.inj h]

/-- A slot that has not been reset is served as in the other run. -/
theorem serve_mild {s : Server} {r : Round} {i : ℕ}
    (h : s.table.revents i = true → r.result i ≠ ReadRet.reset) :
    s.serve r.mild i = s.serve r i := by
  rw [Server.serve, Server.serve]
  split_ifs with hrev
  · have hres : r.mild.result i = r.result i := if_neg (h hrev)
    rw [hres]
  · rfl

/-- `Read` ends the process at a slot that has been reset. -/
theorem serve_reset {s : Server} {r : Round} {i : ℕ} (hrev : s.table.revents i = true)
    (hreset : r.result i = ReadRet.reset) : s.serve r i = none := by
  rw [Server.serve, if_pos hrev, hreset]
  rfl

/-- The loop over slots that have not been reset. -/
theorem echoScan_mild {s : Server} {r : Round} {is : List ℕ}
    (h : ∀ i ∈ is, s.table.revents i = true → r.result i ≠ ReadRet.reset) :
    echoScan r.mild is s = echoScan r is s := by
  induction is generalizing s with
  | nil => rfl
  | cons i is ih =>
      rw [echoScan, echoScan, serve_mild (h i List.mem_cons_self)]
      rcases hserve : s.serve r i with _ | s'
      · rfl
      · rw [Option.bind_some, Option.bind_some]
        apply ih
        intro j hj
        rw [serve_revents hserve]
        exact h j (List.mem_cons_of_mem i hj)

/-- The loop over slots of which one has been reset. -/
theorem echoScan_reset {s : Server} {r : Round} {is : List ℕ} {i : ℕ} (hi : i ∈ is)
    (hrev : s.table.revents i = true) (hreset : r.result i = ReadRet.reset) :
    echoScan r is s = none := by
  induction is generalizing s with
  | nil => cases hi
  | cons j is ih =>
      rw [echoScan]
      rcases hserve : s.serve r j with _ | s'
      · rfl
      · rw [Option.bind_some]
        rcases List.mem_cons.mp hi with rfl | hmem
        · rw [serve_reset hrev hreset] at hserve
          cases hserve
        · exact ih hmem (by rw [serve_revents hserve]; exact hrev)

/-- The loop of an iteration over slots that have not been reset. -/
theorem scanSlots_mild {s : Server} {r : Round}
    (h : ∀ i, 1 ≤ i → i ≤ s.table.max → s.table.revents i = true →
      r.result i ≠ ReadRet.reset) : s.scanSlots r.mild = s.scanSlots r := by
  rw [Server.scanSlots, Server.scanSlots]
  split_ifs
  · apply echoScan_mild
    intro i hi
    rw [List.mem_range'_1] at hi
    exact h i hi.1 (by omega)
  · rfl

/-- The loop of an iteration over slots of which one has been reset. -/
theorem scanSlots_reset {s : Server} {r : Round} {i : ℕ} (hi : 1 ≤ i) (hmax : i ≤ s.table.max)
    (hrev : s.table.revents i = true) (hreset : r.result i = ReadRet.reset) :
    s.scanSlots r = none := by
  rw [Server.scanSlots]
  split_ifs
  · apply echoScan_reset _ hrev hreset
    rw [List.mem_range'_1]
    omega
  · rfl

/-- **An iteration that reads no slot that has been reset** does what it does when the
clients close instead. -/
theorem echoTurn_mild {s : Server} {r : Round}
    (h : ∀ i, s.Reads r i → r.result i ≠ ReadRet.reset) : echoTurn r.mild s = echoTurn r s := by
  have hpoll : s.table.poll r.mild.turn = s.table.poll r.turn := rfl
  have hready : r.mild.nready = r.nready := rfl
  have hcfd : r.mild.cfd = r.cfd := rfl
  rw [echoTurn, echoTurn, hpoll, hready, hcfd]
  split_ifs with hguard hlisten hnew hone
  · rfl
  · rfl
  · rfl
  · apply scanSlots_mild
    intro i hi hmax hrev
    refine h i ⟨?_, hi, ?_⟩
    · rw [← accept_revents _ r.cfd]
      exact hrev
    · rw [if_pos hlisten]
      exact ⟨hone, hmax⟩
  · apply scanSlots_mild
    intro i hi hmax hrev
    refine h i ⟨hrev, hi, ?_⟩
    rw [if_neg hlisten]
    exact hmax

/-- **An iteration that reads a slot that has been reset** is the end of the process. -/
theorem echoTurn_reset {s : Server} {r : Round} {i : ℕ} (h : s.Reads r i)
    (hreset : r.result i = ReadRet.reset) : echoTurn r s = none := by
  obtain ⟨hrev, hi, hloop⟩ := h
  rw [echoTurn]
  split_ifs with hguard hlisten hnew hone
  · rfl
  · rfl
  · rw [if_pos hlisten] at hloop
    exact absurd hone hloop.1
  · rw [if_pos hlisten] at hloop
    apply scanSlots_reset hi hloop.2 _ hreset
    show ((s.table.poll r.turn).accept r.cfd).revents i = true
    rw [accept_revents]
    exact hrev
  · rw [if_neg hlisten] at hloop
    exact scanSlots_reset hi hloop hrev hreset

/-! ## Two runs -/

/-- After every iteration the server goes on in both runs, with the same table, and the
same bytes written to every descriptor. -/
def Isolated (rs : List Round) (s : Server) : Prop :=
  ∀ pre, pre <+: rs →
    ∃ s', run echoTurn pre s = some s' ∧ run echoTurn (pre.map Round.mild) s = some s'

/-- No slot is read that has been reset. -/
def NoResetRead (rs : List Round) (s : Server) : Prop :=
  ∀ pre r post s', rs = pre ++ r :: post → run echoTurn pre s = some s' →
    ∀ i, s'.Reads r i → r.result i ≠ ReadRet.reset

/-- The beginnings of a run that goes on go on. -/
theorem isSome_run_of_beginning {pre rs : List Round} {s : Server} (hpre : pre <+: rs)
    (h : (run echoTurn rs s).isSome = true) : (run echoTurn pre s).isSome = true := by
  obtain ⟨post, rfl⟩ := hpre
  rw [run_append] at h
  exact Option.isSome_of_isSome_bind h

/-- **Isolation of a reset client.**  A run with resets, beside one that goes on in which
those clients close, goes on and agrees with it exactly if no slot is read that has been
reset. -/
theorem isolated_iff (rs : List Round) (s : Server)
    (hmild : (run echoTurn (rs.map Round.mild) s).isSome = true) :
    Isolated rs s ↔ NoResetRead rs s := by
  constructor
  · intro h pre r post s' hsplit hrun i hreads hreset
    obtain ⟨s'', hnext, -⟩ := h (pre ++ [r]) ⟨post, by rw [hsplit]; simp⟩
    rw [run_concat hrun, echoTurn_reset hreads hreset] at hnext
    cases hnext
  · intro h pre hpre
    -- along the run, one iteration after the other
    induction pre using List.reverseRecOn with
    | nil => exact ⟨s, rfl, rfl⟩
    | append_singleton pre r ih =>
        obtain ⟨s', hrun, hrun'⟩ := ih ((List.prefix_append pre [r]).trans hpre)
        obtain ⟨post, hpost⟩ := hpre
        have hnext : echoTurn r.mild s' = echoTurn r s' := by
          apply echoTurn_mild
          apply h pre r post s' _ hrun
          rw [← hpost, List.append_assoc]
          rfl
        have hgo := isSome_run_of_beginning
          (List.IsPrefix.map Round.mild (show pre ++ [r] <+: rs from ⟨post, hpost⟩)) hmild
        rw [List.map_append, List.map_singleton, run_concat hrun', hnext] at hgo
        obtain ⟨s'', hs''⟩ := Option.isSome_iff_exists.mp hgo
        refine ⟨s'', ?_, ?_⟩
        · rw [run_concat hrun, hs'']
        · rw [List.map_append, List.map_singleton, run_concat hrun', hnext, hs'']

/-- The server with the listener 3, before its loop. -/
def newServer : Server := ⟨start 3 (fun _ => false), []⟩

/-- A client connects, and gets the descriptor 4. -/
def clientConnects : Round := ⟨1, fun i => i == 0, 4, fun _ => ReadRet.eof⟩

/-- The client in slot 1 sends a byte. -/
def clientSends : Round := ⟨1, fun i => i == 1, 0, fun _ => ReadRet.data [97] (by decide)⟩

/-- The client in slot 1 is reset. -/
def clientReset : Round := ⟨1, fun i => i == 1, 0, fun _ => ReadRet.reset⟩

/-- A run in which a client connects and sends a byte. -/
theorem isolated_iff_sends :
    (run echoTurn ([clientConnects, clientSends].map Round.mild) newServer).isSome = true ∧
      (Isolated [clientConnects, clientSends] newServer ↔
        NoResetRead [clientConnects, clientSends] newServer) :=
  ⟨by decide, isolated_iff [clientConnects, clientSends] newServer (by decide)⟩

/-- **A reset client ends the server**, which goes on where the client closes. -/
theorem clientReset_ends :
    (run echoTurn ([clientConnects, clientReset].map Round.mild) newServer).isSome = true ∧
      ¬ Isolated [clientConnects, clientReset] newServer := by
  refine ⟨by decide, ?_⟩
  intro h
  obtain ⟨s', hs', -⟩ := h [clientConnects, clientReset] (List.prefix_refl _)
  have hnone : run echoTurn [clientConnects, clientReset] newServer = none := by decide
  rw [hnone] at hs'
  cases hs'

end PollServer
