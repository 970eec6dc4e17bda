/-
# The echo of `server2.c` over any schedule

`server2.c` runs over a model of connections: each has a byte stream that arrives bit by
bit, at any time, also between `select` and a `read`; `read` gives between one byte and
`cap` bytes of what has arrived; descriptors are given to connections by `accept` and
become free again by `close`.

The invariant is about one connection at a time (`Link.Faithful`): what has been taken
off it, what waits and what is still to come are its stream, and what has been written
to it is what has been taken, in upper case.  A client that is served keeps it
(`faithful_serve`) whatever its slot and its descriptor are, so the bytes that are written
back do not depend on the schedule (`echo_confluent`).
-/
import NetStudy.SelectServer
import NetStudy.Transition

namespace SelectServers

open Transition

/-! ## Connections -/

/-- A connection: the bytes its client has still to send, those that have arrived, those
that the server has read and those that it has written, and whether the end of file has
arrived. -/
structure Link where
  future : List UInt8
  inbox : List UInt8
  taken : List UInt8
  out : List UInt8
  ended : Bool
  deriving DecidableEq

namespace Link

/-- The next `n` bytes arrive. -/
def arrive (l : Link) (n : ℕ) : Link :=
  { l with future := l.future.drop n, inbox := l.inbox ++ l.future.take n }

/-- The next `n` bytes are read. -/
def take (l : Link) (n : ℕ) : Link :=
  { l with inbox := l.inbox.drop n, taken := l.taken ++ l.inbox.take n }

/-- Bytes are written to the client. -/
def write (l : Link) (buf : List UInt8) : Link := { l with out := l.out ++ buf }

/-- A `read` would not block. -/
def readable (l : Link) : Bool := !l.inbox.isEmpty || l.ended

/-- Nothing of the stream is lost or moved, and what has been read has been written back
in upper case. -/
def Faithful (stream : List UInt8) (l : Link) : Prop :=
  l.taken ++ l.inbox ++ l.future = stream ∧ l.out = l.taken.map toUpper

end Link

/-- The connections, the table of open descriptors, and the connections that have been
accepted so far. -/
structure Net (C : Type*) where
  link : C → Link
  table : ℕ → Option C
  known : C → Bool

variable {C : Type*} [DecidableEq C]

/-- One connection is changed. -/
def Net.setLink (k : Net C) (c : C) (l : Link) : Net C := ⟨Function.update k.link c l, k.table, k.known⟩

/-- How the environment decides one iteration: what `select` reports, the descriptor and
the connection that `accept` gives, and for each descriptor how many bytes arrive just
before it is read, and how many are asked for by its `read`. -/
structure Choice (C : Type*) where
  rset : Finset ℕ
  accepted : ℕ
  conn : C
  late : ℕ → ℕ
  size : ℕ → ℕ

/-- The number of bytes that a `read` takes if they have arrived: any number from 1 to
the cap. -/
def Choice.count (e : Choice C) (cap fd : ℕ) : ℕ := max 1 (min (e.size fd) cap)

/-- The operating system in an iteration, when `Read` asks for at most `cap` bytes.  A
descriptor that is not open takes no part, and the standard output is left out. -/
def Choice.kernel (e : Choice C) (cap : ℕ) : Kernel (Net C) where
  accept := fun k =>
    (e.accepted, ⟨k.link, Function.update k.table e.accepted (some e.conn),
      Function.update k.known e.conn true⟩)
  read := fun fd k =>
    match k.table fd with
    | none => ([], k)
    | some c =>
        ((((k.link c).arrive (e.late fd)).inbox.take (e.count cap fd)),
          k.setLink c (((k.link c).arrive (e.late fd)).take (e.count cap fd)))
  write := fun fd buf k =>
    match k.table fd with
    | none => k
    | some c => k.setLink c ((k.link c).write buf)
  print := fun _ k => k
  close := fun fd k => ⟨k.link, Function.update k.table fd none, k.known⟩

/-! ## The system -/

/-- What can happen: the next bytes of a connection arrive, a client hangs up behind its
last byte, or the server runs an iteration. -/
inductive Move (C : Type*)
  | arrive (c : C) (n : ℕ)
  | hangUp (c : C)
  | iterate (e : Choice C)

/-- What the environment may decide: `select` reports descriptors of `allset`, at least
one, and of the clients exactly those that can be read; `accept` gives a number that is
not in use to a connection that has not been accepted before. -/
def Choice.Legal (e : Choice C) (fd : ℕ) (x : SlotServer.State × Net C) : Prop :=
  e.rset ⊆ x.1.allset ∧ e.rset ≠ ∅ ∧
    (∀ d ∈ x.1.allset, d ≠ fd →
      (d ∈ e.rset ↔ (x.2.table d).any (fun c => (x.2.link c).readable) = true)) ∧
    (fd ∈ e.rset → e.accepted ≠ fd ∧ x.2.table e.accepted = none ∧ x.2.known e.conn = false)

instance (e : Choice C) (fd : ℕ) (x : SlotServer.State × Net C) : Decidable (e.Legal fd x) := by
  unfold Choice.Legal
  infer_instance

/-- One step of the server or of a client.  There is no step where the server exits. -/
def echoStep (cap fd : ℕ) : Move C → SlotServer.State × Net C → Option (SlotServer.State × Net C)
  | Move.arrive c n, x => some (x.1, x.2.setLink c ((x.2.link c).arrive n))
  | Move.hangUp c, x =>
      if (x.2.link c).future = [] then
        some (x.1, x.2.setLink c { x.2.link c with ended := true })
      else none
  | Move.iterate e, x =>
      if e.Legal fd x then SlotServer.iterate (e.kernel cap) fd e.rset e.rset.card x else none

/-- The server has just been started, and nothing has arrived. -/
def echoStart (fd : ℕ) (stream : C → List UInt8) : SlotServer.State × Net C :=
  (SlotServer.start fd, ⟨fun c => ⟨stream c, [], [], [], false⟩, fun _ => none, fun _ => false⟩)

/-! ## The invariant -/

/-- Every connection is faithful to its stream. -/
def Net.Faithful (stream : C → List UInt8) (k : Net C) : Prop :=
  ∀ c, (k.link c).Faithful (stream c)

variable {stream : C → List UInt8}

theorem Link.Faithful.arrive {s : List UInt8} {l : Link} (h : l.Faithful s) (n : ℕ) :
    (l.arrive n).Faithful s := by
  refine ⟨?_, h.2⟩
  show l.taken ++ (l.inbox ++ l.future.take n) ++ l.future.drop n = s
  rw [List.append_assoc, List.append_assoc, List.take_append_drop, ← List.append_assoc]
  exact h.1

/-- **Read and written back.** -/
theorem Link.Faithful.echo {s : List UInt8} {l : Link} (h : l.Faithful s) (n : ℕ) :
    ((l.take n).write ((l.inbox.take n).map toUpper)).Faithful s := by
  constructor
  · show l.taken ++ l.inbox.take n ++ l.inbox.drop n ++ l.future = s
    rw [List.append_assoc l.taken, List.take_append_drop]
    exact h.1
  · show l.out ++ (l.inbox.take n).map toUpper = (l.taken ++ l.inbox.take n).map toUpper
    rw [List.map_append, h.2]

/-- A `read` that gives nothing takes nothing. -/
theorem Link.take_of_nil {l : Link} {n : ℕ} (hn : 1 ≤ n) (h : l.inbox.take n = []) :
    l.take n = l := by
  have hnil : l.inbox = [] := by
    rcases List.take_eq_nil_iff.mp h with hzero | hnil
    · omega
    · exact hnil
  obtain ⟨future, inbox, taken, out, ended⟩ := l
  obtain rfl : inbox = [] := hnil
  simp [Link.take]

/-- One connection is changed, and stays faithful. -/
theorem Net.Faithful.setLink {k : Net C} (h : k.Faithful stream) {c : C} {l : Link}
    (hl : l.Faithful (stream c)) : (k.setLink c l).Faithful stream := by
  intro d
  show (Function.update k.link c l d).Faithful (stream d)
  by_cases hd : d = c
  · subst hd
    rw [Function.update_self]
    exact hl
  · rw [Function.update_of_ne hd]
    exact h d

/-- **A client that is served** is read from and written to as the same connection. -/
theorem faithful_serve (e : Choice C) (cap i : ℕ) {x : SlotServer.State × Net C}
    (h : x.2.Faithful stream) :
    (SlotServer.serve (e.kernel cap) i x).2.Faithful stream := by
  obtain ⟨s, k⟩ := x
  have hcount : 1 ≤ e.count cap (s.fdAt i) := le_max_left _ _
  unfold SlotServer.serve
  rcases htable : k.table (s.fdAt i) with _ | c
  · -- not open: nothing is read, and the close changes no connection
    have hread : (e.kernel cap).read (s.fdAt i) k = ([], k) := by
      simp only [Choice.kernel, htable]
    rw [hread, if_pos rfl]
    exact h
  · have hread : (e.kernel cap).read (s.fdAt i) k
        = ((((k.link c).arrive (e.late (s.fdAt i))).inbox.take (e.count cap (s.fdAt i))),
          k.setLink c (((k.link c).arrive (e.late (s.fdAt i))).take (e.count cap (s.fdAt i)))) := by
      simp only [Choice.kernel, htable]
    have hlink := (h c).arrive (e.late (s.fdAt i))
    rw [hread]
    split_ifs with heof
    · -- the end of file: what arrived late is nothing either
      show Net.Faithful stream (k.setLink c _)
      rw [Link.take_of_nil hcount heof]
      exact h.setLink hlink
    · -- `write` finds the connection that `read` found
      have hecho := hlink.echo (e.count cap (s.fdAt i))
      show Net.Faithful stream ((e.kernel cap).write _ _ _)
      simp only [Choice.kernel, Net.setLink, htable, Function.update_self, Function.update_idem]
      exact h.setLink hecho

/-- The loop over the slots. -/
theorem faithful_scan (e : Choice C) (cap : ℕ) (rset : Finset ℕ) (is : List ℕ) (ret : ℤ)
    {x : SlotServer.State × Net C} (h : x.2.Faithful stream) :
    (SlotServer.scan (e.kernel cap) rset is ret x).2.Faithful stream := by
  induction is generalizing ret x with
  | nil => exact h
  | cons i is ih =>
      rw [SlotServer.scan]
      split_ifs
      · exact ih _ h
      · exact faithful_serve e cap i h
      · exact ih _ (faithful_serve e cap i h)
      · exact ih _ h

/-- An iteration of the server. -/
theorem faithful_iterate (e : Choice C) (cap fd : ℕ) (rset : Finset ℕ) (ret : ℤ)
    {x y : SlotServer.State × Net C} (h : x.2.Faithful stream)
    (hiterate : SlotServer.iterate (e.kernel cap) fd rset ret x = some y) :
    y.2.Faithful stream := by
  rw [SlotServer.iterate] at hiterate
  by_cases hfd : fd ∈ rset
  · rw [if_pos hfd] at hiterate
    obtain ⟨z, haccept, hy⟩ := Option.map_eq_some_iff.mp hiterate
    obtain ⟨index, -, hz⟩ := Option.map_eq_some_iff.mp haccept
    -- `accept` changes the table, and no connection
    have hz : z.2.Faithful stream := by
      rw [← hz]
      exact h
    by_cases hret : ret - 1 = 0
    · rw [if_pos hret] at hy
      exact hy ▸ hz
    · rw [if_neg hret] at hy
      rw [← hy]
      exact faithful_scan e cap rset _ _ hz
  · rw [if_neg hfd] at hiterate
    obtain rfl := Option.some.inj hiterate
    exact faithful_scan e cap rset _ _ h

/-- **Every step keeps every connection faithful.** -/
theorem faithful_step {cap fd : ℕ} {m : Move C} {x y : SlotServer.State × Net C}
    (h : x.2.Faithful stream) (hstep : echoStep cap fd m x = some y) : y.2.Faithful stream := by
  cases m with
  | arrive c n =>
      rw [← Option.some.inj hstep]
      exact h.setLink ((h c).arrive n)
  | hangUp c =>
      rw [echoStep] at hstep
      split_ifs at hstep
      rw [← Option.some.inj hstep]
      exact h.setLink (h c)
  | iterate e =>
      rw [echoStep] at hstep
      split_ifs at hstep
      exact faithful_iterate e cap fd _ _ h hstep

theorem faithful_of_reachable {cap fd : ℕ} {x : SlotServer.State × Net C}
    (h : Reachable (echoStep cap fd) (echoStart fd stream) x) : x.2.Faithful stream :=
  h.invariant (fun _ => ⟨rfl, rfl⟩) (fun _ _ _ hx _ hstep => faithful_step hx hstep)

/-! ## Confluence -/

/-- All bytes of the connection have been read. -/
def Link.AllRead (l : Link) : Prop := l.future = [] ∧ l.inbox = []

instance (l : Link) : Decidable l.AllRead := inferInstanceAs (Decidable (_ ∧ _))

/-- **The echo does not depend on the schedule.**  Take two runs over the same streams,
with any listeners and any caps.  Once all bytes of a connection have been read in both,
what has been written to it is the same, its stream in upper case; and at any time what
has been written to it comes from its own stream, in order. -/
theorem echo_confluent (stream : C → List UInt8) (fd₁ fd₂ cap₁ cap₂ : ℕ)
    (x₁ x₂ : SlotServer.State × Net C)
    (h₁ : Reachable (echoStep cap₁ fd₁) (echoStart fd₁ stream) x₁)
    (h₂ : Reachable (echoStep cap₂ fd₂) (echoStart fd₂ stream) x₂) (c : C) :
    ((x₁.2.link c).AllRead → (x₂.2.link c).AllRead →
      (x₁.2.link c).out = (x₂.2.link c).out ∧ (x₁.2.link c).out = (stream c).map toUpper) ∧
    (x₁.2.link c).out = (x₁.2.link c).taken.map toUpper ∧
    (x₁.2.link c).taken <+: stream c := by
  have hread : ∀ l : Link, l.Faithful (stream c) → l.AllRead → l.out = (stream c).map toUpper := by
    rintro l ⟨hall, hout⟩ ⟨hfuture, hinbox⟩
    rw [hfuture, hinbox, List.append_nil, List.append_nil] at hall
    rw [hout, hall]
  have hfaithful₁ := faithful_of_reachable h₁ c
  have hfaithful₂ := faithful_of_reachable h₂ c
  refine ⟨?_, hfaithful₁.2, ?_⟩
  · intro hall₁ hall₂
    rw [hread _ hfaithful₁ hall₁, hread _ hfaithful₂ hall₂]
    exact ⟨rfl, rfl⟩
  · rw [← hfaithful₁.1, List.append_assoc]
    exact List.prefix_append _ _

/-- Two clients that send `ab` and `c`. -/
def twoStreams (c : Bool) : List UInt8 := if c then [97, 98] else [99]

/-- The first client comes as descriptor 4, and is read at once. -/
def atOnce : List (Move Bool) :=
  [.iterate ⟨{3}, 4, true, fun _ => 0, fun _ => 8⟩, .arrive true 2,
    .iterate ⟨{4}, 0, true, fun _ => 0, fun _ => 8⟩]

/-- The other client comes as descriptor 4 and hangs up, and the first one comes in its
place and is read byte by byte. -/
def byteByByte : List (Move Bool) :=
  [.arrive true 1, .iterate ⟨{3}, 4, false, fun _ => 0, fun _ => 8⟩, .arrive false 1, .hangUp false,
    .iterate ⟨{4}, 0, true, fun _ => 0, fun _ => 8⟩, .iterate ⟨{4}, 0, true, fun _ => 0, fun _ => 8⟩,
    .iterate ⟨{3}, 4, true, fun _ => 0, fun _ => 8⟩,
    .iterate ⟨{4}, 0, true, fun _ => 1, fun _ => 8⟩, .iterate ⟨{4}, 0, true, fun _ => 0, fun _ => 8⟩]

/-- Both runs write `AB` to the first client. -/
theorem echo_confluent_twoStreams :
    ∃ x₁ x₂, Reachable (echoStep 8192 3) (echoStart 3 twoStreams) x₁ ∧
      Reachable (echoStep 1 3) (echoStart 3 twoStreams) x₂ ∧
      ((x₁.2.link true).AllRead ∧ (x₂.2.link true).AllRead) ∧
      (x₁.2.link true).out = (x₂.2.link true).out ∧
      (x₁.2.link true).out = (twoStreams true).map toUpper := by
  obtain ⟨x₁, h₁, hall₁⟩ : ∃ x, Reachable (echoStep 8192 3) (echoStart 3 twoStreams) x ∧
      (x.2.link true).AllRead :=
    exists_reach_of_run atOnce (by decide +kernel)
  obtain ⟨x₂, h₂, hall₂⟩ : ∃ x, Reachable (echoStep 1 3) (echoStart 3 twoStreams) x ∧
      (x.2.link true).AllRead :=
    exists_reach_of_run byteByByte (by decide +kernel)
  exact ⟨x₁, x₂, h₁, h₂, ⟨hall₁, hall₂⟩,
    (echo_confluent twoStreams 3 3 8192 1 x₁ x₂ h₁ h₂ true).1 hall₁ hall₂⟩

end SelectServers
