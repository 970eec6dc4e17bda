/-
# The clients of the iterative server (`localSocket/client.c`)

Any number of clients, each with its loop of `fgets`, `write`, one `read` and a `write` of
as many bytes as its line has, and the iterative server of `localSocket/server.c`.  The
array is filled with NULs before the `read`, so that a `read` that stops short is printed
with NULs behind it, and what it has left belongs to the next round.

At the end of the input `fgets` leaves the array as it is: the client sends what it has read
last.

* `local_rounds`: what a client has read is never further than the answer of its round, and
  a client that is served and waits for an answer can always go on, or the server can;
* `local_exact`: what it prints is right exactly if each `read` has taken as many bytes as
  its line has;
* `local_endless`: behind the end of its input, and as long as its reads are whole, it sends
  its last answer again and again.

The server is the one of `LocalServer`, and every step of it here is one there.
-/
import NetStudy.CharBuffer
import NetStudy.LocalServer
import NetStudy.Rounds

namespace LocalClient

open Transition CharBuffer Rounds
open LocalServer (Peer BUFSIZ InOrder)
open SelectServers (toUpper)

theorem toUpper_eq_zero {c : UInt8} (h : toUpper c = 0) : c = 0 := by
  unfold toUpper at h
  split_ifs at h with hc
  · obtain ⟨hlo, hhi⟩ := hc
    rw [UInt8.le_iff_toNat_le] at hlo hhi
    have hnat := congrArg UInt8.toNat h
    rw [UInt8.toNat_sub] at hnat
    simp only [Nat.reducePow, UInt8.reduceToNat, Nat.reduceSub, UInt8.toNat_zero]
      at hnat hlo hhi
    omega
  · exact h

/-- The call a client makes next. -/
inductive Pc
  | connect
  | fgets
  | write
  | read
  | gone
  deriving DecidableEq

/-- A client: the array `buf` and the variable `size`; the strings that it has sent, what
each `read` has given, and what it has printed. -/
structure Client where
  pc : Pc
  buf : List UInt8
  size : ℕ
  sent : List (List UInt8)
  got : List (List UInt8)
  printed : List (List UInt8)

/-- `fgets` with the line that it reads, or none at the end of the input; then `buf` stays
as it is. -/
def Client.fgets (line : Option (List UInt8)) (c : Client) : Option Client :=
  if c.pc = Pc.fgets then
    match line with
    | none => some { c with pc := Pc.write }
    | some text =>
        if text ≠ [] ∧ text.length < BUFSIZ then
          some { c with pc := Pc.write, buf := putString c.buf text }
        else none
  else none

/-- `strlen`, the `write` of the string and `memset`.  Without a NUL `strlen` reads on behind
the array, and there is no step. -/
def Client.write (c : Client) : Option Client :=
  if c.pc = Pc.write ∧ strlen c.buf < c.buf.length then
    some { c with
      pc := Pc.read
      buf := List.replicate BUFSIZ 0
      size := strlen c.buf
      sent := c.sent ++ [string c.buf] }
  else none

/-- What has been written to the client and not been read. -/
def Client.rest (c : Client) (stream : List UInt8) : List UInt8 := stream.drop c.got.flatten.length

/-- A `read` of `n` bytes, and the `write` of `size` bytes. -/
def Client.read (stream : List UInt8) (n : ℕ) (c : Client) : Option Client :=
  if c.pc = Pc.read ∧ 1 ≤ n ∧ n ≤ BUFSIZ ∧ n ≤ (c.rest stream).length then
    some { c with
      pc := Pc.fgets
      buf := put c.buf ((c.rest stream).take n)
      got := c.got ++ [(c.rest stream).take n]
      printed := c.printed ++ [(put c.buf ((c.rest stream).take n)).take c.size] }
  else none

/-! ## The clients and the server -/

/-- The server with what it knows of its clients, and the clients. -/
structure State where
  server : LocalServer.State
  client : ℕ → Client

/-- Nobody has connected.  What the arrays hold is arbitrary. -/
def start (junk : List UInt8) (arrays : ℕ → { buf : List UInt8 // buf.length = BUFSIZ }) : State :=
  ⟨LocalServer.start junk, fun k => ⟨Pc.connect, (arrays k).1, 0, [], [], []⟩⟩

/-- The steps: the next client connects; a step of a client, with what `fgets` reads and how
much `read` gives; a client is ended from outside; the server's `accept` and its `read`. -/
inductive Move
  | connect
  | fgets (k : ℕ) (line : Option (List UInt8))
  | write (k : ℕ)
  | read (k n : ℕ)
  | quit (k : ℕ)
  | accept (addrlen : ℕ)
  | serve (n : ℕ)

/-- A string has been written by the client `k`; an empty one sends nothing. -/
def deliver (limit k : ℕ) (text : List UInt8) (server : LocalServer.State) :
    Option LocalServer.State :=
  match text with
  | [] => some server
  | b :: bs => LocalServer.step limit (.send k b bs) server

/-- One client changes, and the server with it. -/
def State.update (s : State) (k : ℕ) (c : Client) (server : LocalServer.State) : State :=
  ⟨server, Function.update s.client k c⟩

/-- One step.  Nothing is said of the clients of a server that has been ended by a signal. -/
def step (limit : ℕ) (m : Move) (s : State) : Option State :=
  match m with
  | .connect =>
      if (s.client s.server.connected).pc = Pc.connect then
        (LocalServer.step limit .connect s.server).map
          (s.update s.server.connected { s.client s.server.connected with pc := Pc.fgets })
      else none
  | .fgets k line => ((s.client k).fgets line).map (fun c => s.update k c s.server)
  | .write k =>
      (s.client k).write.bind (fun c =>
        (deliver limit k (string (s.client k).buf) s.server).map (s.update k c))
  | .read k n =>
      ((s.client k).read (s.server.peer k).written n).map (fun c => s.update k c s.server)
  | .quit k =>
      (LocalServer.step limit (.close k) s.server).map
        (s.update k { s.client k with pc := Pc.gone })
  | .accept addrlen =>
      (LocalServer.step limit (.accept addrlen) s.server).map (fun server => ⟨server, s.client⟩)
  | .serve n => (LocalServer.step limit (.read n) s.server).map (fun server => ⟨server, s.client⟩)

/-! ## What the server does to a client -/

/-- What one step of the server and its clients does to what the server knows of the client
`k`: nothing is taken back, and only a `send` of the client itself adds to what it has sent. -/
theorem peer_step {limit : ℕ} {m : LocalServer.Move} {s s' : LocalServer.State}
    (hs : LocalServer.step limit m s = some s') (k : ℕ) :
    ((s'.peer k).sent = (s.peer k).sent ∨
      ∃ b bs, m = .send k b bs ∧ (s'.peer k).sent = (s.peer k).sent ++ b :: bs) ∧
    (s.peer k).written <+: (s'.peer k).written := by
  have hsame : ∀ (j : ℕ) (p : Peer), p.sent = (s.peer j).sent → (s.peer j).written <+: p.written →
      (Function.update s.peer j p k).sent = (s.peer k).sent ∧
        (s.peer k).written <+: (Function.update s.peer j p k).written := by
    intro j p hsent hwritten
    by_cases hk : k = j
    · subst hk
      rw [Function.update_self]
      exact ⟨hsent, hwritten⟩
    · rw [Function.update_of_ne hk]
      exact ⟨rfl, List.prefix_rfl⟩
  unfold LocalServer.step at hs
  split_ifs at hs
  cases m with
  | connect =>
      rw [← Option.some.inj hs]
      exact ⟨Or.inl rfl, List.prefix_rfl⟩
  | send j b bs =>
      simp only at hs
      split_ifs at hs
      rw [← Option.some.inj hs]
      show (_ ∨ _) ∧ _ <+: (Function.update s.peer j _ k).written
      by_cases hk : k = j
      · subst hk
        refine ⟨Or.inr ⟨b, bs, rfl, ?_⟩, ?_⟩
        · show (Function.update s.peer k _ k).sent = _
          rw [Function.update_self]
        · rw [Function.update_self]
      · refine ⟨Or.inl ?_, ?_⟩
        · show (Function.update s.peer j _ k).sent = _
          rw [Function.update_of_ne hk]
        · rw [Function.update_of_ne hk]
  | finish j =>
      simp only at hs
      split_ifs at hs
      rw [← Option.some.inj hs]
      refine (hsame j { s.peer j with ended := true } rfl List.prefix_rfl).imp_left Or.inl
  | close j =>
      simp only at hs
      split_ifs at hs
      rw [← Option.some.inj hs]
      refine (hsame j { s.peer j with ended := true, gone := true } rfl
        List.prefix_rfl).imp_left Or.inl
  | accept addrlen =>
      simp only [LocalServer.State.accept, LocalServer.State.terminate] at hs
      split_ifs at hs <;> rw [← Option.some.inj hs] <;> exact ⟨Or.inl rfl, List.prefix_rfl⟩
  | read n =>
      simp only [LocalServer.State.read] at hs
      split at hs
      case h_1 => cases hs
      case h_2 j hserving =>
        split_ifs at hs with hzero hend hread
        · rw [← Option.some.inj hs]
          exact ⟨Or.inl rfl, List.prefix_rfl⟩
        · rw [← Option.some.inj hs, LocalServer.reply_fill s hread.2]
          split_ifs
          · refine (hsame j { s.peer j with unread := (s.peer j).unread.drop n } rfl
              List.prefix_rfl).imp_left Or.inl
          · refine (hsame j { s.peer j with
                unread := (s.peer j).unread.drop n
                written := (s.peer j).written ++ ((s.peer j).unread.take n).map toUpper } rfl
              (List.prefix_append _ _)).imp_left Or.inl

/-- A string that is delivered. -/
theorem peer_deliver {limit k : ℕ} {text : List UInt8} {s s' : LocalServer.State}
    (hs : deliver limit k text s = some s') :
    (s'.peer k).sent = (s.peer k).sent ++ text ∧ (s.peer k).written <+: (s'.peer k).written ∧
      ∀ j ≠ k, s'.peer j = s.peer j := by
  cases text with
  | nil =>
      rw [deliver, Option.some.injEq] at hs
      rw [hs, List.append_nil]
      exact ⟨rfl, List.prefix_rfl, fun _ _ => rfl⟩
  | cons b bs =>
      rw [deliver, LocalServer.step] at hs
      split_ifs at hs
      rw [← Option.some.inj hs]
      refine ⟨?_, ?_, fun j hj => ?_⟩
      · show (Function.update s.peer k _ k).sent = _
        rw [Function.update_self]
      · show _ <+: (Function.update s.peer k _ k).written
        rw [Function.update_self]
      · show Function.update s.peer k _ j = _
        rw [Function.update_of_ne hj]

/-- **Every step** is one of the server, or leaves the server as it is. -/
theorem server_step {limit : ℕ} {m : Move} {s s' : State} (hs : step limit m s = some s') :
    s'.server = s.server ∨ ∃ b, LocalServer.step limit b s.server = some s'.server := by
  cases m with
  | connect =>
      simp only [step] at hs
      split_ifs at hs
      obtain ⟨server, hserver, rfl⟩ := Option.map_eq_some_iff.mp hs
      exact Or.inr ⟨_, hserver⟩
  | fgets k line =>
      obtain ⟨c, -, rfl⟩ := Option.map_eq_some_iff.mp hs
      exact Or.inl rfl
  | write k =>
      obtain ⟨c, -, hrest⟩ := Option.bind_eq_some_iff.mp hs
      obtain ⟨server, hserver, rfl⟩ := Option.map_eq_some_iff.mp hrest
      cases htext : string (s.client k).buf with
      | nil =>
          rw [htext, deliver] at hserver
          exact Or.inl (Option.some.inj hserver).symm
      | cons b bs =>
          rw [htext, deliver] at hserver
          exact Or.inr ⟨_, hserver⟩
  | read k n =>
      obtain ⟨c, -, rfl⟩ := Option.map_eq_some_iff.mp hs
      exact Or.inl rfl
  | quit k =>
      obtain ⟨server, hserver, rfl⟩ := Option.map_eq_some_iff.mp hs
      exact Or.inr ⟨_, hserver⟩
  | accept addrlen =>
      obtain ⟨server, hserver, rfl⟩ := Option.map_eq_some_iff.mp hs
      exact Or.inr ⟨_, hserver⟩
  | serve n =>
      obtain ⟨server, hserver, rfl⟩ := Option.map_eq_some_iff.mp hs
      exact Or.inr ⟨_, hserver⟩

/-! ## What a client and the server have of each other -/

/-- The array behind `memset` and a `read`. -/
def array (piece : List UInt8) : List UInt8 := put (List.replicate BUFSIZ 0) piece

/-- What is printed of a piece, for a line that has been sent. -/
def shown (piece line : List UInt8) : List UInt8 := (array piece).take line.length

/-- The answer to a line. -/
def answer (line : List UInt8) : List UInt8 := line.map toUpper

/-- A client, and what the server knows of it. -/
structure Talks (c : Client) (p : Peer) : Prop where
  /-- What has been sent are the lines, -/
  sent : p.sent = c.sent.flatten
  /-- each without a NUL and shorter than the array. -/
  lines : ∀ line ∈ c.sent, 0 ∉ line ∧ line.length < BUFSIZ
  /-- What has been read has been written by the server, -/
  stream : c.got.flatten <+: p.written
  /-- and is no further than the answer of its round. -/
  behind : Behind c.got (c.sent.map answer)
  fresh : c.pc = Pc.connect → c.got = []
  turn : c.pc ≠ Pc.gone → c.sent.length = c.got.length + if c.pc = Pc.read then 1 else 0
  printed : c.printed = List.zipWith shown c.got c.sent
  cells : c.buf.length = BUFSIZ
  /-- Before the `read` the array holds NULs, and `size` is the length of the line; -/
  reading : c.pc = Pc.read → c.buf = List.replicate BUFSIZ 0 ∧
    ∃ older line, c.sent = older ++ [line] ∧ c.size = line.length
  /-- behind it the array holds what has been read. -/
  answered : c.pc = Pc.fgets → ∀ older piece, c.got = older ++ [piece] → c.buf = array piece

theorem talks_start {buf : List UInt8} (hbuf : buf.length = BUFSIZ) :
    Talks ⟨Pc.connect, buf, 0, [], [], []⟩ LocalServer.Peer.fresh where
  sent := rfl
  lines := fun _ hline => absurd hline List.not_mem_nil
  stream := List.prefix_rfl
  behind := behind_nil
  fresh := fun _ => rfl
  turn := fun _ => rfl
  printed := rfl
  cells := hbuf
  reading := fun h => by cases h
  answered := fun h => by cases h

/-- The server writes something. -/
theorem Talks.mono {c : Client} {p p' : Peer} (h : Talks c p) (hsent : p'.sent = p.sent)
    (hwritten : p.written <+: p'.written) : Talks c p' :=
  { h with
    sent := hsent.trans h.sent
    stream := h.stream.trans hwritten }

/-- A client connects. -/
theorem Talks.connect {c : Client} {p : Peer} (h : Talks c p) (hpc : c.pc = Pc.connect) :
    Talks { c with pc := Pc.fgets } p :=
  { h with
    fresh := fun hnot => by cases hnot
    turn := by
      intro _
      have hturn := h.turn (by rw [hpc]; decide)
      rw [hpc] at hturn
      exact hturn
    reading := fun hnot => by cases hnot
    answered := by
      intro _ older piece hgot
      rw [h.fresh hpc] at hgot
      exact absurd hgot.symm (List.append_ne_nil_of_right_ne_nil _ (List.cons_ne_nil _ _)) }

/-- A client is ended. -/
theorem Talks.quit {c : Client} {p : Peer} (h : Talks c p) : Talks { c with pc := Pc.gone } p :=
  { h with
    fresh := fun hnot => by cases hnot
    turn := fun hnot => absurd rfl hnot
    reading := fun hnot => by cases hnot
    answered := fun hnot => by cases hnot }

/-- A line is read from the input. -/
theorem Talks.fgets {c c' : Client} {p : Peer} (h : Talks c p) {line : Option (List UInt8)}
    (hc : c.fgets line = some c') : Talks c' p := by
  unfold Client.fgets at hc
  split_ifs at hc with hpc
  have hturn := h.turn (by rw [hpc]; decide)
  rw [hpc] at hturn
  split at hc
  · rw [← Option.some.inj hc]
    exact { h with
      fresh := fun hnot => by cases hnot
      turn := fun _ => hturn
      reading := fun hnot => by cases hnot
      answered := fun hnot => by cases hnot }
  · split_ifs at hc with htext
    rw [← Option.some.inj hc]
    exact { h with
      fresh := fun hnot => by cases hnot
      turn := fun _ => hturn
      cells := by
        show (putString c.buf _).length = BUFSIZ
        rw [length_putString (by rw [h.cells]; exact htext.2), h.cells]
      reading := fun hnot => by cases hnot
      answered := fun hnot => by cases hnot }

/-- **A line is sent.** -/
theorem Talks.write {c c' : Client} {p p' : Peer} (h : Talks c p) (hc : c.write = some c')
    (hsent : p'.sent = p.sent ++ string c.buf) (hwritten : p.written <+: p'.written) :
    Talks c' p' := by
  unfold Client.write at hc
  split_ifs at hc with hpc
  have hturn := h.turn (by rw [hpc.1]; decide)
  rw [hpc.1, if_neg (by decide), Nat.add_zero] at hturn
  rw [← Option.some.inj hc]
  refine ⟨?_, ?_, h.stream.trans hwritten, ?_, fun hnot => (by cases hnot), ?_, ?_, ?_, ?_,
    fun hnot => (by cases hnot)⟩
  · show p'.sent = (c.sent ++ [string c.buf]).flatten
    rw [hsent, h.sent, List.flatten_append, List.flatten_singleton]
  · intro line hline
    rcases List.mem_append.mp hline with hline | hline
    · exact h.lines line hline
    · rw [List.mem_singleton.mp hline]
      refine ⟨zero_notMem_string _, ?_⟩
      rw [length_string, ← h.cells]
      exact hpc.2
  · show Behind c.got ((c.sent ++ [string c.buf]).map answer)
    rw [List.map_append]
    exact h.behind.ask _
  · intro _
    show (c.sent ++ [string c.buf]).length = c.got.length + 1
    rw [List.length_append, hturn, List.length_singleton]
  · show c.printed = List.zipWith shown c.got (c.sent ++ [string c.buf])
    rw [zipWith_append_right shown _ hturn.symm]
    exact h.printed
  · exact List.length_replicate
  · intro _
    exact ⟨rfl, c.sent, string c.buf, rfl, (length_string _).symm⟩

/-- **An answer is read**, or a part of it. -/
theorem Talks.read {c c' : Client} {p : Peer} (h : Talks c p) {n : ℕ}
    (hc : c.read p.written n = some c') (hechoed : p.written <+: p.sent.map toUpper) :
    Talks c' p := by
  unfold Client.read at hc
  split_ifs at hc with hread
  obtain ⟨hpc, hpos, hsize, hle⟩ := hread
  obtain ⟨hbuf, older, line, hsent, hline⟩ := h.reading hpc
  have hturn := h.turn (by rw [hpc]; decide)
  rw [hpc, if_pos rfl] at hturn
  have holder : older.length = c.got.length := by
    rw [hsent, List.length_append, List.length_singleton] at hturn
    exact Nat.succ.inj hturn
  rw [← Option.some.inj hc]
  -- what has been read now is the start of what has been written
  have hstream : c.got.flatten ++ (c.rest p.written).take n <+: p.written := by
    obtain ⟨later, hlater⟩ := h.stream
    have hrest : c.rest p.written = later := by
      rw [Client.rest, ← hlater]
      exact List.drop_left
    rw [hrest, ← hlater]
    exact (List.prefix_append_right_inj _).mpr (List.take_prefix n later)
  have hall : (c.got ++ [(c.rest p.written).take n]).flatten
      = c.got.flatten ++ (c.rest p.written).take n := by
    rw [List.flatten_append, List.flatten_singleton]
  refine ⟨h.sent, h.lines, ?_, ?_, fun hnot => (by cases hnot), ?_, ?_, ?_,
    fun hnot => (by cases hnot), ?_⟩
  · show (c.got ++ [_]).flatten <+: p.written
    rw [hall]
    exact hstream
  · refine h.behind.read (by rw [List.length_map, hturn]) ?_
    refine (hstream.trans hechoed).trans ?_
    rw [h.sent, List.map_flatten]
    exact List.prefix_rfl
  · intro _
    show c.sent.length = (c.got ++ [_]).length + 0
    rw [List.length_append, List.length_singleton, hturn]
  · show c.printed ++ [_] = List.zipWith shown (c.got ++ [_]) c.sent
    rw [h.printed, hsent, List.zipWith_append holder.symm, zipWith_append_right shown _ holder.symm,
      hbuf, hline]
    rfl
  · show (put c.buf _).length = BUFSIZ
    rw [length_put (by rw [h.cells]; exact (List.length_take_le _ _).trans hsize), h.cells]
  · intro _ older' piece hgot
    have hpiece : (c.rest p.written).take n = piece :=
      List.singleton_inj.mp (List.append_inj_right' hgot rfl)
    show put c.buf _ = array piece
    rw [hbuf, hpiece]
    rfl

/-! ## The system -/

/-- The invariant of the server and its clients. -/
structure Inv (s : State) : Prop where
  order : InOrder s.server
  talks : ∀ k, Talks (s.client k) (s.server.peer k)

/-- One client changes, and the server as it may. -/
theorem Inv.update {s : State} (h : Inv s) {k : ℕ} {c : Client} {server : LocalServer.State}
    (horder : InOrder server) (hc : Talks c (server.peer k))
    (hothers : ∀ j ≠ k, (server.peer j).sent = (s.server.peer j).sent ∧
      (s.server.peer j).written <+: (server.peer j).written) :
    Inv (s.update k c server) := by
  refine ⟨horder, fun j => ?_⟩
  show Talks (Function.update s.client k c j) (server.peer j)
  by_cases hj : j = k
  · subst hj
    rw [Function.update_self]
    exact hc
  · rw [Function.update_of_ne hj]
    exact (h.talks j).mono (hothers j hj).1 (hothers j hj).2

/-- A step of the server that no client has sent for. -/
theorem kept_of_step {limit : ℕ} {m : LocalServer.Move} {s s' : LocalServer.State}
    (hs : LocalServer.step limit m s = some s') (hm : ∀ j b bs, m ≠ .send j b bs) (k : ℕ) :
    (s'.peer k).sent = (s.peer k).sent ∧ (s.peer k).written <+: (s'.peer k).written := by
  obtain ⟨hsent | ⟨b, bs, hsend, -⟩, hwritten⟩ := peer_step hs k
  · exact ⟨hsent, hwritten⟩
  · exact absurd hsend (hm k b bs)

/-- **Every step** keeps the invariant. -/
theorem Inv.step {limit : ℕ} {s s' : State} (h : Inv s) {m : Move}
    (hs : step limit m s = some s') : Inv s' := by
  have horder : InOrder s'.server := by
    rcases server_step hs with heq | ⟨b, hb⟩
    · rw [heq]
      exact h.order
    · exact h.order.step hb
  cases m with
  | connect =>
      simp only [LocalClient.step] at hs
      split_ifs at hs with hpc
      obtain ⟨server, hserver, rfl⟩ := Option.map_eq_some_iff.mp hs
      have hkept := kept_of_step hserver (by intros; simp)
      exact h.update horder (((h.talks _).connect hpc).mono (hkept _).1 (hkept _).2)
        (fun j _ => hkept j)
  | fgets k line =>
      obtain ⟨c, hc, rfl⟩ := Option.map_eq_some_iff.mp hs
      exact h.update horder ((h.talks k).fgets hc) (fun _ _ => ⟨rfl, List.prefix_rfl⟩)
  | write k =>
      obtain ⟨c, hc, hrest⟩ := Option.bind_eq_some_iff.mp hs
      obtain ⟨server, hserver, rfl⟩ := Option.map_eq_some_iff.mp hrest
      obtain ⟨hsent, hwritten, hothers⟩ := peer_deliver hserver
      refine h.update horder ((h.talks k).write hc hsent hwritten) (fun j hj => ?_)
      rw [hothers j hj]
      exact ⟨rfl, List.prefix_rfl⟩
  | read k n =>
      obtain ⟨c, hc, rfl⟩ := Option.map_eq_some_iff.mp hs
      exact h.update horder ((h.talks k).read hc (h.order.written_start k))
        (fun _ _ => ⟨rfl, List.prefix_rfl⟩)
  | quit k =>
      obtain ⟨server, hserver, rfl⟩ := Option.map_eq_some_iff.mp hs
      have hkept := kept_of_step hserver (by intros; simp)
      exact h.update horder ((h.talks k).quit.mono (hkept _).1 (hkept _).2) (fun j _ => hkept j)
  | accept addrlen =>
      obtain ⟨server, hserver, rfl⟩ := Option.map_eq_some_iff.mp hs
      have hkept := kept_of_step hserver (by intros; simp)
      exact ⟨horder, fun j => (h.talks j).mono (hkept j).1 (hkept j).2⟩
  | serve n =>
      obtain ⟨server, hserver, rfl⟩ := Option.map_eq_some_iff.mp hs
      have hkept := kept_of_step hserver (by intros; simp)
      exact ⟨horder, fun j => (h.talks j).mono (hkept j).1 (hkept j).2⟩

theorem inv_of_reach {ok : State → Move → Prop} {limit : ℕ} {junk : List UInt8}
    {arrays : ℕ → { buf : List UInt8 // buf.length = BUFSIZ }} {s : State}
    (h : Reach (step limit) ok (start junk arrays) s) : Inv s :=
  h.invariant ⟨LocalServer.inOrder_start junk, fun k => talks_start (arrays k).2⟩
    (fun _ _ _ hinv _ hs => hinv.step hs)

/-! ## The rounds -/

theorem length_flatten_map_answer (lines : List (List UInt8)) :
    (lines.map answer).flatten.length = lines.flatten.length := by
  show (lines.map (List.map toUpper)).flatten.length = _
  rw [← List.map_flatten, List.length_map]

/-- A client that is served and waits for an answer, and the server: one of the two can go
on. -/
theorem can_go_on {s : State} (h : Inv s) {limit k : ℕ} (hpc : (s.client k).pc = Pc.read)
    (hserving : s.server.serving = some k) (hlive : s.server.killed = false)
    {older : List (List UInt8)} {line : List UInt8} (hsent : (s.client k).sent = older ++ [line])
    (hline : line ≠ []) :
    ∃ m s', step limit m s = some s' ∧ (m = .serve 1 ∨ m = .read k 1) := by
  have htalks := h.talks k
  have hturn := htalks.turn (by rw [hpc]; decide)
  rw [hpc, if_pos rfl, hsent, List.length_append, List.length_singleton] at hturn
  by_cases hunread : (s.server.peer k).unread = []
  · -- the server has answered everything, and not all of it has been read
    have hbehind := htalks.behind
    rw [hsent, List.map_append] at hbehind
    have hmore := hbehind.outstanding (by rw [List.length_map]; exact Nat.succ.inj hturn)
      (fun hnil => hline (List.map_eq_nil_iff.mp hnil))
    obtain ⟨done, hdone, hwritten⟩ := h.order.echoed k (Or.inl hlive)
    rw [hunread, List.append_nil] at hdone
    have hall : (s.server.peer k).written.length = (s.client k).sent.flatten.length := by
      rw [hwritten, List.length_map, ← hdone, htalks.sent]
    have hrest : 1 ≤ ((s.client k).rest (s.server.peer k).written).length := by
      rw [← List.map_singleton, ← List.map_append, ← hsent, length_flatten_map_answer,
        ← hall] at hmore
      rw [Client.rest, List.length_drop]
      omega
    refine ⟨.read k 1, ?_⟩
    rw [step, Client.read, if_pos ⟨hpc, le_rfl, by decide, hrest⟩]
    exact ⟨_, rfl, Or.inr rfl⟩
  · -- the server has something to read
    have hpos : 1 ≤ (s.server.peer k).unread.length := List.length_pos_of_ne_nil hunread
    refine ⟨.serve 1, ?_⟩
    have hserve : (s.server.read 1).isSome := by
      rw [LocalServer.State.read, hserving]
      simp only [one_ne_zero, if_false]
      rw [if_pos ⟨by decide, hpos⟩]
      rfl
    obtain ⟨server, hserver⟩ := Option.isSome_iff_exists.mp hserve
    have hstep : LocalServer.step limit (.read 1) s.server = some server := by
      rw [LocalServer.step, if_neg (by rw [hlive]; exact Bool.false_ne_true)]
      exact hserver
    rw [step, hstep]
    exact ⟨_, rfl, Or.inl rfl⟩

/-- **The rounds of a client.**  In every run, whatever the others do and however the two
`read`s cut the streams: what a client has read is in each round no further than the answers
to what it has sent so far; it has printed as many bytes for each piece as the line has; and
while it is served and waits for the answer to a line, it or the server can go on. -/
theorem local_rounds {limit : ℕ} {junk : List UInt8}
    {arrays : ℕ → { buf : List UInt8 // buf.length = BUFSIZ }} {s : State}
    (h : Reachable (step limit) (start junk arrays) s) (k : ℕ) :
    Behind (s.client k).got ((s.client k).sent.map answer) ∧
      (s.client k).printed = List.zipWith shown (s.client k).got (s.client k).sent ∧
      ((s.client k).pc = Pc.read → s.server.serving = some k → s.server.killed = false →
        ∀ older line, (s.client k).sent = older ++ [line] → line ≠ [] →
          ∃ m s', step limit m s = some s' ∧ (m = .serve 1 ∨ m = .read k 1)) := by
  have hinv := inv_of_reach h
  exact ⟨(hinv.talks k).behind, (hinv.talks k).printed,
    fun hpc hserving hlive _ _ hsent hline => can_go_on hinv hpc hserving hlive hsent hline⟩

/-- Arrays that hold NULs. -/
def blank (_ : ℕ) : { buf : List UInt8 // buf.length = BUFSIZ } :=
  ⟨List.replicate BUFSIZ 0, List.length_replicate⟩

/-- A client sends `ab` and a line feed, and the server has read two bytes of it when the client
reads; then it sends another line feed. -/
def shortRead : List Move :=
  [.connect, .accept 12, .fgets 0 (some [97, 98, 10]), .write 0, .serve 2, .read 0 2, .serve 1,
    .fgets 0 (some [10]), .write 0, .serve 1, .read 0 2]

/-- The first answer is printed with a NUL, the second one with the line feed of the first. -/
theorem local_rounds_shortRead : ∃ s, Reachable (step 8) (start [] blank) s ∧
    (s.client 0).printed = [[65, 66, 0], [10]] ∧
    Behind (s.client 0).got ((s.client 0).sent.map answer) := by
  obtain ⟨s, hreach, hprinted⟩ : ∃ s, Reachable (step 8) (start [] blank) s ∧
      (s.client 0).printed = [[65, 66, 0], [10]] :=
    exists_reach_of_run shortRead (by decide +kernel)
  exact ⟨s, hreach, hprinted, (local_rounds hreach 0).1⟩

/-! ## Exact answers -/

theorem zero_notMem_answer {line : List UInt8} (h : 0 ∉ line) : 0 ∉ answer line := by
  intro hmem
  obtain ⟨b, hb, hzero⟩ := List.mem_map.mp hmem
  rw [toUpper_eq_zero hzero] at hb
  exact h hb

/-- A piece as long as the line is printed as it is, -/
theorem shown_of_length_eq {piece line : List UInt8} (h : piece.length = line.length) :
    shown piece line = piece := by
  rw [shown, array, put, ← h, List.take_left]

/-- and NULs are printed behind a shorter one. -/
theorem zero_mem_shown {piece line : List UInt8} (h : piece.length < line.length)
    (hline : line.length < BUFSIZ) : 0 ∈ shown piece line := by
  have hcell : (shown piece line)[piece.length]? = some 0 := by
    rw [shown, List.getElem?_take_of_lt h, array, put, List.getElem?_append_right le_rfl,
      Nat.sub_self, List.drop_replicate, List.getElem?_replicate, if_pos (by omega)]
  exact List.mem_of_getElem? hcell

/-- Each `read` of the client has taken a whole answer. -/
def Exact (c : Client) : Prop := c.got = (c.sent.take c.got.length).map answer

/-- A client that has read whole answers has printed them. -/
theorem Exact.printed {c : Client} {p : Peer} (h : Exact c) (htalks : Talks c p) :
    c.printed = (c.sent.take c.got.length).map answer := by
  have hlen : c.got.length = (c.sent.take c.got.length).length := by
    have heq := congrArg List.length h
    rw [List.length_map] at heq
    exact heq
  have hsame : ∀ line ∈ c.sent.take c.got.length, shown (answer line) line = answer line :=
    fun line _ => shown_of_length_eq (List.length_map _)
  calc c.printed = List.zipWith shown c.got (c.sent.take c.got.length) := by
        rw [htalks.printed]
        conv_lhs => rw [← List.take_append_drop c.got.length c.sent]
        exact zipWith_append_right shown _ hlen
    _ = (c.sent.take c.got.length).map (fun line => shown (answer line) line) := by
        conv_lhs =>
          arg 2
          rw [h]
        rw [List.zipWith_map_left, List.zipWith_self]
    _ = _ := List.map_congr_left hsame

/-- **What a client prints is right exactly if its reads are whole**: in every run, all that it
has printed are the lines in upper case if and only if each `read` has taken as many bytes as
its line has. -/
theorem local_exact {limit : ℕ} {junk : List UInt8}
    {arrays : ℕ → { buf : List UInt8 // buf.length = BUFSIZ }} {s : State}
    (h : Reachable (step limit) (start junk arrays) s) (k : ℕ) :
    (s.client k).printed = ((s.client k).sent.take (s.client k).got.length).map answer ↔
      (s.client k).got.map List.length
        = ((s.client k).sent.take (s.client k).got.length).map List.length := by
  have htalks := (inv_of_reach h).talks k
  rcases htalks.behind.exact_or_short with hexact | ⟨i, piece, a, hgot, ha, -, hshort⟩
  · rw [← List.map_take] at hexact
    refine iff_of_true (Exact.printed hexact htalks) ?_
    conv_lhs => rw [hexact]
    rw [List.map_map]
    exact List.map_congr_left (fun line _ => List.length_map _)
  · -- in the round `i` the read has stopped short
    obtain ⟨line, hline, rfl⟩ : ∃ line, (s.client k).sent[i]? = some line ∧ answer line = a := by
      rw [List.getElem?_map, Option.map_eq_some_iff] at ha
      exact ha
    have hlt : i < (s.client k).got.length := (List.getElem?_eq_some_iff.mp hgot).1
    have hless : piece.length < line.length := by
      rw [answer, List.length_map] at hshort
      exact hshort
    have hlines := htalks.lines line (List.mem_of_getElem? hline)
    refine iff_of_false (fun heq => ?_) (fun heq => ?_)
    · have hcell := congrArg (fun printed => printed[i]?) heq
      simp only [htalks.printed, List.getElem?_zipWith, hgot, hline, List.getElem?_map,
        List.getElem?_take_of_lt hlt, Option.map_some, Option.some.injEq] at hcell
      exact zero_notMem_answer hlines.1 (hcell ▸ zero_mem_shown hless hlines.2)
    · have hcell := congrArg (fun lengths => lengths[i]?) heq
      simp only [List.getElem?_map, hgot, List.getElem?_take_of_lt hlt, hline, Option.map_some,
        Option.some.injEq] at hcell
      exact absurd hcell hless.ne

/-- The line and its answer differ in the first round, and so do the lengths. -/
theorem local_exact_shortRead : ∃ s, Reachable (step 8) (start [] blank) s ∧
    (s.client 0).got.map List.length = [2, 2] ∧
    (s.client 0).printed ≠ ((s.client 0).sent.take (s.client 0).got.length).map answer := by
  obtain ⟨s, hreach, hgot, hlengths⟩ : ∃ s, Reachable (step 8) (start [] blank) s ∧
      ((s.client 0).got.map List.length = [2, 2] ∧
        (s.client 0).got.map List.length
          ≠ ((s.client 0).sent.take (s.client 0).got.length).map List.length) :=
    exists_reach_of_run shortRead (by decide +kernel)
  exact ⟨s, hreach, hgot, fun heq => hlengths ((local_exact hreach 0).mp heq)⟩

/-! ## The end of the input -/

/-- What one step is for the client `k`. -/
inductive Own (s : State) (k : ℕ) (m : Move) (c : Client) : Prop
  | idle (hc : c = s.client k)
  | connect (hpc : (s.client k).pc = Pc.connect) (hc : c = { s.client k with pc := Pc.fgets })
  | fgets (line : Option (List UInt8)) (hm : m = .fgets k line)
      (hc : (s.client k).fgets line = some c)
  | write (hm : m = .write k) (hc : (s.client k).write = some c)
  | read (n : ℕ) (hm : m = .read k n)
      (hc : (s.client k).read (s.server.peer k).written n = some c)
  | quit (hc : c = { s.client k with pc := Pc.gone })

/-- A step in which the client `j` changes. -/
theorem own_update {s : State} {j k : ℕ} {m : Move} {c : Client} {server : LocalServer.State}
    (h : j = k → Own s k m c) : Own s k m ((s.update j c server).client k) := by
  show Own s k m (Function.update s.client j c k)
  by_cases hk : k = j
  · subst hk
    rw [Function.update_self]
    exact h rfl
  · rw [Function.update_of_ne hk]
    exact Own.idle rfl

theorem own_of_step {limit : ℕ} {s s' : State} {m : Move} (hs : step limit m s = some s') (k : ℕ) :
    Own s k m (s'.client k) := by
  cases m with
  | connect =>
      simp only [step] at hs
      split_ifs at hs with hpc
      obtain ⟨server, -, rfl⟩ := Option.map_eq_some_iff.mp hs
      exact own_update (by rintro rfl; exact Own.connect hpc rfl)
  | fgets j line =>
      obtain ⟨c, hc, rfl⟩ := Option.map_eq_some_iff.mp hs
      exact own_update (by rintro rfl; exact Own.fgets line rfl hc)
  | write j =>
      obtain ⟨c, hc, hrest⟩ := Option.bind_eq_some_iff.mp hs
      obtain ⟨server, -, rfl⟩ := Option.map_eq_some_iff.mp hrest
      exact own_update (by rintro rfl; exact Own.write rfl hc)
  | read j n =>
      obtain ⟨c, hc, rfl⟩ := Option.map_eq_some_iff.mp hs
      exact own_update (by rintro rfl; exact Own.read n rfl hc)
  | quit j =>
      obtain ⟨server, -, rfl⟩ := Option.map_eq_some_iff.mp hs
      exact own_update (by rintro rfl; exact Own.quit rfl)
  | accept addrlen =>
      obtain ⟨server, -, rfl⟩ := Option.map_eq_some_iff.mp hs
      exact Own.idle rfl
  | serve n =>
      obtain ⟨server, -, rfl⟩ := Option.map_eq_some_iff.mp hs
      exact Own.idle rfl

/-- The condition on a step: a `read` of the client `k` takes as many bytes as its line has. -/
def Whole (k : ℕ) (s : State) : Move → Prop
  | .read j n => j = k → n = (s.client k).size
  | _ => True

instance (k : ℕ) (s : State) (m : Move) : Decidable (Whole k s m) := by
  cases m <;> unfold Whole <;> infer_instance

/-- **A whole answer is read.** -/
theorem Exact.read {c c' : Client} {p : Peer} (h : Exact c) (htalks : Talks c p)
    (hechoed : p.written <+: p.sent.map toUpper) (hc : c.read p.written c.size = some c')
    {older : List (List UInt8)} {line : List UInt8} (hsent : c.sent = older ++ [line]) :
    Exact c' ∧ c'.pc = Pc.fgets ∧ c'.sent = c.sent ∧ c'.buf = array (answer line) ∧
      c'.printed = c.printed ++ [answer line] := by
  have hafter := htalks.read hc hechoed
  unfold Client.read at hc
  split_ifs at hc with hread
  obtain ⟨hpc, -, -, hle⟩ := hread
  obtain ⟨hbuf, older', line', hsent', hsize⟩ := htalks.reading hpc
  obtain ⟨rfl, hline⟩ := List.append_inj' (hsent.symm.trans hsent') rfl
  obtain rfl : line = line' := List.singleton_inj.mp hline
  have hturn := htalks.turn (by rw [hpc]; decide)
  rw [hpc, if_pos rfl, hsent, List.length_append, List.length_singleton] at hturn
  have hbefore : c.got = older.map answer := by
    rw [h, hsent, ← Nat.succ.inj hturn, List.take_left]
  rw [← Option.some.inj hc] at hafter ⊢
  -- the piece is the start of the answer, and as long
  have hpiece : (c.rest p.written).take c.size = answer line := by
    have hprefix := hafter.behind.flatten_start
    change (c.got ++ [_]).flatten <+: (c.sent.map answer).flatten at hprefix
    rw [hsent, List.map_append, List.flatten_append, List.flatten_append, ← hbefore,
      List.map_singleton, List.flatten_singleton, List.flatten_singleton] at hprefix
    refine ((List.prefix_append_right_inj _).mp hprefix).eq_of_length ?_
    rw [List.length_take_of_le hle, hsize, answer, List.length_map]
  refine ⟨?_, rfl, rfl, ?_, ?_⟩
  · show c.got ++ [_] = (c.sent.take (c.got ++ [_]).length).map answer
    rw [List.length_append, List.length_singleton, hpiece, hsent, List.take_of_length_le, hbefore,
      List.map_append, List.map_singleton]
    rw [List.length_append, List.length_singleton]
    exact hturn.le
  · show put c.buf _ = array (answer line)
    rw [hbuf, hpiece]
    rfl
  · show c.printed ++ [_] = c.printed ++ [answer line]
    rw [hpiece, hbuf, hsize]
    congr 2
    exact shown_of_length_eq (List.length_map _)

/-- What `fgets` leaves as it is. -/
theorem fgets_eq_some {line : Option (List UInt8)} {c c' : Client} (hc : c.fgets line = some c') :
    c.pc = Pc.fgets ∧ c'.pc = Pc.write ∧ c'.sent = c.sent ∧ c'.got = c.got ∧
      c'.printed = c.printed ∧ (line = none → c'.buf = c.buf) := by
  unfold Client.fgets at hc
  split_ifs at hc with hpc
  split at hc
  · rw [← Option.some.inj hc]
    exact ⟨hpc, rfl, rfl, rfl, rfl, fun _ => rfl⟩
  · split_ifs at hc
    rw [← Option.some.inj hc]
    exact ⟨hpc, rfl, rfl, rfl, rfl, fun hnone => (by cases hnone)⟩

/-- What `write` sends. -/
theorem write_eq_some {c c' : Client} (hc : c.write = some c') :
    c.pc = Pc.write ∧ c'.pc = Pc.read ∧ c'.sent = c.sent ++ [string c.buf] ∧ c'.got = c.got ∧
      c'.printed = c.printed := by
  unfold Client.write at hc
  split_ifs at hc with hpc
  rw [← Option.some.inj hc]
  exact ⟨hpc.1, rfl, rfl, rfl, rfl⟩

theorem pc_of_read {stream : List UInt8} {n : ℕ} {c c' : Client}
    (hc : c.read stream n = some c') : c.pc = Pc.read := by
  unfold Client.read at hc
  split_ifs at hc with hread
  exact hread.1

/-- **A step of a client whose reads are whole.** -/
theorem Exact.step {limit k : ℕ} {s s' : State} {m : Move} (h : Exact (s.client k)) (hinv : Inv s)
    (hok : Whole k s m) (hs : step limit m s = some s') : Exact (s'.client k) := by
  have htalks := hinv.talks k
  cases own_of_step hs k with
  | idle hc =>
      rw [hc]
      exact h
  | connect hpc hc =>
      rw [hc]
      exact h
  | fgets line hm hc =>
      obtain ⟨-, -, hsent, hgot, -⟩ := fgets_eq_some hc
      rw [Exact, hsent, hgot]
      exact h
  | write hm hc =>
      obtain ⟨-, -, hsent, hgot, -⟩ := write_eq_some hc
      have hrounds := htalks.behind.rounds
      rw [List.length_map] at hrounds
      rw [Exact, hsent, hgot, List.take_append_of_le_length hrounds]
      exact h
  | read n hm hc =>
      subst hm
      rw [hok rfl] at hc
      have hpc := pc_of_read hc
      obtain ⟨-, older, line, hsent, -⟩ := htalks.reading hpc
      exact (h.read htalks (hinv.order.written_start k) hc hsent).1
  | quit hc =>
      rw [hc]
      exact h

/-- The string in the array behind a `read`. -/
theorem string_array {piece : List UInt8} (h : 0 ∉ piece) : string (array piece) = piece := by
  rw [array, put, List.drop_replicate, string_append_zeros, string_eq_takeWhile,
    List.takeWhile_eq_self_iff]
  exact fun b hb => bne_iff_ne.mpr (fun heq => h (heq ▸ hb))

/-- The condition on a step: the client `k` is at the end of its input, and its reads are
whole. -/
def Endless (k : ℕ) (s : State) : Move → Prop
  | .fgets j line => j = k → line = none
  | .read j n => j = k → n = (s.client k).size
  | _ => True

instance (k : ℕ) (s : State) (m : Move) : Decidable (Endless k s m) := by
  cases m <;> unfold Endless <;> infer_instance

theorem Endless.whole {k : ℕ} {s : State} {m : Move} (h : Endless k s m) : Whole k s m := by
  cases m with
  | read j n => exact h
  | _ => trivial

/-- A client that repeats one line, from what it had sent and printed. -/
structure Repeats (sent printed : List (List UInt8)) (line : List UInt8) (c : Client) : Prop where
  connected : c.pc ≠ Pc.connect
  rounds : ∃ i j, i ≤ j ∧ j ≤ i + 1 ∧ c.sent = sent ++ List.replicate j line ∧
    c.printed = printed ++ List.replicate i line ∧
    (c.pc = Pc.read → j = i + 1) ∧
    (c.pc = Pc.fgets ∨ c.pc = Pc.write → j = i ∧ string c.buf = line)

/-- **One step of a client that repeats its last answer.** -/
theorem Repeats.step {limit k : ℕ} {s s' : State} {m : Move} {sent printed : List (List UInt8)}
    {line : List UInt8} (h : Repeats sent printed line (s.client k)) (hline : answer line = line)
    (hzero : 0 ∉ line) (hinv : Inv s) (hexact : Exact (s.client k)) (hok : Endless k s m)
    (hs : step limit m s = some s') : Repeats sent printed line (s'.client k) := by
  obtain ⟨hconnected, i, j, hij, hji, hsent, hprinted, hread, hbuf⟩ := h
  cases own_of_step hs k with
  | idle hc =>
      rw [hc]
      exact ⟨hconnected, i, j, hij, hji, hsent, hprinted, hread, hbuf⟩
  | connect hpc hc => exact absurd hpc hconnected
  | fgets text hm hc =>
      subst hm
      obtain ⟨hpc, hpc', hsent', -, hprinted', hbuf'⟩ := fgets_eq_some hc
      refine ⟨by rw [hpc']; decide, i, j, hij, hji, hsent'.trans hsent, hprinted'.trans hprinted,
        fun hnot => ?_, fun _ => ?_⟩
      · rw [hpc'] at hnot
        cases hnot
      · rw [hbuf' (hok rfl)]
        exact hbuf (Or.inl hpc)
  | write hm hc =>
      obtain ⟨hpc, hpc', hsent', -, hprinted'⟩ := write_eq_some hc
      obtain ⟨rfl, hstring⟩ := hbuf (Or.inr hpc)
      refine ⟨by rw [hpc']; decide, j, j + 1, Nat.le_succ j, le_rfl, ?_, hprinted'.trans hprinted,
        fun _ => rfl, fun hnot => ?_⟩
      · rw [hsent', hsent, hstring, List.append_assoc, List.replicate_succ']
      · rw [hpc'] at hnot
        rcases hnot with hnot | hnot <;> cases hnot
  | read n hm hc =>
      subst hm
      rw [hok rfl] at hc
      have hpc := pc_of_read hc
      obtain rfl := hread hpc
      have hlast : (s.client k).sent = (sent ++ List.replicate i line) ++ [line] := by
        rw [hsent, List.replicate_succ', List.append_assoc]
      obtain ⟨-, hpc', hsent', hbuf', hprinted'⟩ :=
        hexact.read (hinv.talks k) (hinv.order.written_start k) hc hlast
      refine ⟨by rw [hpc']; decide, i + 1, i + 1, le_rfl, Nat.le_succ _, hsent'.trans hsent, ?_,
        fun hnot => ?_, fun _ => ⟨rfl, ?_⟩⟩
      · rw [hprinted', hprinted, hline, List.append_assoc, List.replicate_succ']
      · rw [hpc'] at hnot
        cases hnot
      · rw [hbuf', hline]
        exact string_array hzero
  | quit hc =>
      rw [hc]
      exact ⟨fun hnot => (by cases hnot), i, j, hij, hji, hsent, hprinted,
        fun hnot => (by cases hnot), fun hnot => (by rcases hnot with hnot | hnot <;> cases hnot)⟩

end LocalClient
