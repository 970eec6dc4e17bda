/-
# The client and the server over libevent (`libevent/buffeventclient.c`, `buffeventserver.c`)

The client writes what it reads from the terminal, with a NUL behind it; the server prints
each piece that it takes out of its input buffer and answers it; the client prints the
answers in the same way.  `bufferevent_read` takes at most 1024 bytes, and `read_cb` is called
when something has come into the input buffer, at no other time.

libevent moves the bytes in any portions from one end to the other and calls `read_cb` after
each of them.  Behind `bufferevent_free` the event of the terminal is still there.  The label
that `printf` writes in front of each piece is left out.

* `exchange`: nothing is lost on the way; what stays in an input buffer is the largest excess
  of the last portions over 1024 bytes for each;
* `stays_inside`: the server's `printf` finds a NUL in its array if no read of the terminal
  fills that of the client; the client's finds one exactly if its piece does not fill it;
* `printed_text`: what the server prints is what was typed, but for the text behind the first
  NUL of a piece.
-/
import NetStudy.CharBuffer
import NetStudy.ServedQueue
import NetStudy.Transition

namespace BufferEvents

open Transition ServedQueue CharBuffer

/-- The size of the arrays `buf`. -/
abbrev bufSize : ℕ := 1024

/-- What the server answers: `I have got data` and a line feed. -/
def answer : List UInt8 :=
  [73, 32, 104, 97, 118, 101, 32, 103, 111, 116, 32, 100, 97, 116, 97, 10]

/-! ## The two programs -/

/-- What the client has read from the terminal and what it has written to its bufferevent, the
bytes on their way to the server, the input buffer there with what `read_cb` has taken out of
it; the same for the answers; whether the bufferevent of the client has been freed, and
whether it has been used behind that. -/
structure State where
  typed : List (List UInt8)
  sent : List (List UInt8)
  up : List UInt8
  server : Queue UInt8
  down : List UInt8
  client : Queue UInt8
  freed : Bool
  dangling : Bool

def start : State := ⟨[], [], [], Queue.empty, [], Queue.empty, false, false⟩

/-- The array behind `char buf[1024] = {0}` and a read. -/
def array (bytes : List UInt8) : List UInt8 := put (List.replicate bufSize 0) bytes

/-- What `read_terminal` writes: `len + 1` cells, the last one behind the array if the read has
filled it. -/
def message (bytes : List UInt8) (outside : UInt8) : List UInt8 :=
  (array bytes ++ [outside]).take (bytes.length + 1)

/-- What `printf` prints of a piece. -/
def text (piece : List UInt8) : List UInt8 := string (array piece)

/-- What can happen: `read_terminal`, with what `read` gives (nothing at the end of the input)
and the byte behind the array; a portion of `n` bytes comes in at either end, and `read_cb` is
called; the connection ends for the client, and `k` of its bytes have got out. -/
inductive Move
  | terminal (bytes : List UInt8) (outside : UInt8)
  | serverRead (n : ℕ)
  | clientRead (n : ℕ)
  | ends (k : ℕ)

/-- `read_terminal`. -/
def State.terminal (s : State) (bytes : List UInt8) (outside : UInt8) : Option State :=
  if bytes.length ≤ bufSize then
    if s.freed then some { s with dangling := true }
    else
      some { s with
        typed := s.typed ++ [bytes]
        sent := s.sent ++ [message bytes outside]
        up := s.up ++ message bytes outside }
  else none

/-- `read_cb` of the server. -/
def State.serverRead (s : State) (n : ℕ) : Option State :=
  if 1 ≤ n ∧ n ≤ s.up.length then
    some { s with
      up := s.up.drop n
      server := s.server.serve bufSize (s.up.take n)
      down := s.down ++ answer }
  else none

/-- `read_cb` of the client. -/
def State.clientRead (s : State) (n : ℕ) : Option State :=
  if s.freed = false ∧ 1 ≤ n ∧ n ≤ s.down.length then
    some { s with down := s.down.drop n, client := s.client.serve bufSize (s.down.take n) }
  else none

/-- `event_cb` of the client, with `BEV_EVENT_EOF` or `BEV_EVENT_ERROR`. -/
def State.ends (s : State) (k : ℕ) : Option State :=
  if s.freed then none else some { s with freed := true, up := s.up.take k }

/-- One step.  Nothing is said of a client that has used its freed bufferevent. -/
def step (m : Move) (s : State) : Option State :=
  if s.dangling then none
  else
    match m with
    | .terminal bytes outside => s.terminal bytes outside
    | .serverRead n => s.serverRead n
    | .clientRead n => s.clientRead n
    | .ends k => s.ends k

/-! ## What is on its way -/

/-- The answers to so many pieces. -/
def answers (k : ℕ) : List UInt8 := (List.replicate k answer).flatten

theorem answers_succ (k : ℕ) : answers (k + 1) = answers k ++ answer := by
  rw [answers, List.replicate_succ', List.flatten_append, List.flatten_singleton]
  rfl

theorem length_answers (k : ℕ) : (answers k).length = 16 * k := by
  rw [answers, List.length_flatten, List.map_replicate, List.sum_replicate, smul_eq_mul,
    Nat.mul_comm]
  rfl

/-- The law of the exchange. -/
structure Exchanged (s : State) : Prop where
  server : Kept bufSize s.server
  client : Kept bufSize s.client
  up : s.server.arrived.flatten ++ s.up <+: s.sent.flatten
  whole : s.freed = false → s.server.arrived.flatten ++ s.up = s.sent.flatten
  down : s.client.arrived.flatten ++ s.down = answers s.server.taken.length

theorem exchanged_start : Exchanged start where
  server := kept_empty bufSize
  client := kept_empty bufSize
  up := List.prefix_rfl
  whole := fun _ => rfl
  down := rfl

/-- A portion has come in. -/
theorem arrived_serve (q : Queue UInt8) (bytes : List UInt8) (n : ℕ) :
    (q.serve bufSize (bytes.take n)).arrived.flatten ++ bytes.drop n
      = q.arrived.flatten ++ bytes := by
  show (q.arrived ++ [bytes.take n]).flatten ++ bytes.drop n = _
  rw [List.flatten_append, List.flatten_singleton, List.append_assoc, List.take_append_drop]

/-- **Every step** keeps the law. -/
theorem Exchanged.step {s s' : State} (h : Exchanged s) {m : Move}
    (hs : step m s = some s') : Exchanged s' := by
  unfold BufferEvents.step at hs
  split_ifs at hs
  cases m with
  | terminal bytes outside =>
      simp only [State.terminal] at hs
      split_ifs at hs with hlen hfreed
      · rw [← Option.some.inj hs]
        exact ⟨h.server, h.client, h.up, h.whole, h.down⟩
      · have hwhole : s.server.arrived.flatten ++ (s.up ++ message bytes outside)
            = (s.sent ++ [message bytes outside]).flatten := by
          rw [← List.append_assoc, h.whole (by simpa using hfreed), List.flatten_append,
            List.flatten_singleton]
        rw [← Option.some.inj hs]
        exact ⟨h.server, h.client, hwhole ▸ List.prefix_rfl, fun _ => hwhole, h.down⟩
  | serverRead n =>
      simp only [State.serverRead] at hs
      split_ifs at hs with hn
      rw [← Option.some.inj hs]
      refine ⟨h.server.serve _, h.client, ?_, fun hfreed => ?_, ?_⟩
      · rw [arrived_serve]
        exact h.up
      · rw [arrived_serve]
        exact h.whole hfreed
      · show s.client.arrived.flatten ++ (s.down ++ answer)
          = answers (s.server.taken ++ [_]).length
        rw [List.length_append, List.length_singleton, answers_succ, ← h.down, List.append_assoc]
  | clientRead n =>
      simp only [State.clientRead] at hs
      split_ifs at hs with hn
      rw [← Option.some.inj hs]
      refine ⟨h.server, h.client.serve _, h.up, h.whole, ?_⟩
      rw [arrived_serve]
      exact h.down
  | ends k =>
      simp only [State.ends] at hs
      split_ifs at hs with hfreed
      rw [← Option.some.inj hs]
      refine ⟨h.server, h.client, ?_, fun hopen => (by cases hopen), h.down⟩
      exact ((List.prefix_append_right_inj _).mpr (List.take_prefix k s.up)).trans h.up

theorem exchanged_of_reach {ok : State → Move → Prop} {s : State} (h : Reach step ok start s) :
    Exchanged s :=
  h.invariant exchanged_start (fun _ _ _ hinv _ hs => hinv.step hs)

/-- **Nothing is lost on the way.**  In every run, whatever the portions: what the server has
taken, what waits there and what is on its way to it are the messages in order, all of them
while the client has not freed its bufferevent; what the client has taken, what waits there
and what is on its way are an answer for each piece that the server has taken; and what waits
at either end is the largest excess of the last portions over 1024 bytes for each. -/
theorem exchange {s : State} (h : Reachable step start s) :
    s.server.taken.flatten ++ s.server.waiting ++ s.up <+: s.sent.flatten ∧
      (s.freed = false →
        s.server.taken.flatten ++ s.server.waiting ++ s.up = s.sent.flatten) ∧
      s.client.taken.flatten ++ s.client.waiting ++ s.down = answers s.server.arrived.length ∧
      IsGreatest (excesses bufSize s.server.arrived) s.server.waiting.length ∧
      IsGreatest (excesses bufSize s.client.arrived) s.client.waiting.length := by
  have hexchanged := exchanged_of_reach h
  rw [hexchanged.server.order, hexchanged.client.order, ← hexchanged.server.turns]
  exact ⟨hexchanged.up, hexchanged.whole, hexchanged.down, hexchanged.server.backlog,
    hexchanged.client.backlog⟩

/-- Two lines of 1000 bytes that come in at once: 978 bytes stay behind. -/
theorem exchange_twoLines :
    ∃ s, Reachable step start s ∧
      (s.up = [] ∧ s.server.waiting.length = 978 ∧ s.server.taken.length = 1) ∧
      s.server.taken.flatten ++ s.server.waiting ++ s.up = s.sent.flatten := by
  obtain ⟨s, hreach, hs, hfreed⟩ : ∃ s, Reachable step start s ∧
      (s.up = [] ∧ s.server.waiting.length = 978 ∧ s.server.taken.length = 1) ∧
        s.freed = false :=
    exists_reach_of_run
      [.terminal (List.replicate 1000 97) 0, .terminal (List.replicate 1000 98) 0,
        .serverRead 2002] (by decide +kernel)
  exact ⟨s, hreach, hs, (exchange hreach).2.1 hfreed⟩

/-! ## The arrays -/

/-- The condition on a step: what is read from the terminal leaves a NUL in the array. -/
def Short (_ : State) : Move → Prop
  | .terminal bytes _ => bytes.length < bufSize
  | _ => True

instance (s : State) (m : Move) : Decidable (Short s m) := by
  cases m <;> unfold Short <;> infer_instance

theorem array_eq (bytes : List UInt8) :
    array bytes = bytes ++ List.replicate (bufSize - bytes.length) 0 := by
  rw [array, put, List.drop_replicate]

/-- A line that leaves a NUL in the array is sent with it. -/
theorem message_eq {bytes : List UInt8} (h : bytes.length < bufSize) (outside : UInt8) :
    message bytes outside = bytes ++ [0] := by
  obtain ⟨k, hk⟩ := Nat.exists_eq_add_of_lt h
  have hrest : bufSize - bytes.length = k + 1 := by omega
  rw [message, array_eq, hrest, List.replicate_succ, List.append_assoc, List.take_append,
    List.take_of_length_le (Nat.le_succ _), Nat.add_sub_cancel_left]
  rfl

/-- There is a NUL behind a piece that does not fill the array, -/
theorem nulAt_array {piece : List UInt8} (h : piece.length < bufSize) :
    NulAt (array piece) piece.length := by
  rw [NulAt, array_eq, List.getElem?_append_right le_rfl, Nat.sub_self, List.getElem?_replicate,
    if_pos (by omega)]

/-- and in one that holds one. -/
theorem nulAt_array_of_mem {piece : List UInt8} (h : 0 ∈ piece) : ∃ i, NulAt (array piece) i := by
  obtain ⟨i, hi⟩ := List.mem_iff_getElem?.mp h
  refine ⟨i, ?_⟩
  rw [NulAt, array_eq, List.getElem?_append_left (List.getElem?_eq_some_iff.mp hi).1]
  exact hi

/-- No other piece has one. -/
theorem not_nulAt_array {piece : List UInt8} (hfull : piece.length = bufSize) (h : 0 ∉ piece)
    (i : ℕ) : ¬ NulAt (array piece) i := by
  intro hi
  rw [NulAt, array_eq, hfull, Nat.sub_self, List.replicate_zero, List.append_nil] at hi
  exact h (List.mem_of_getElem? hi)

/-- The messages are the lines with a NUL behind each. -/
structure Lines (s : State) : Prop where
  sent : s.sent = s.typed.map (· ++ [0])
  short : ∀ bytes ∈ s.typed, bytes.length < bufSize

/-- What one step types. -/
theorem typed_step {s s' : State} {m : Move} (hs : step m s = some s') :
    (s'.typed = s.typed ∧ s'.sent = s.sent) ∨
      ∃ bytes outside, m = .terminal bytes outside ∧ s'.typed = s.typed ++ [bytes] ∧
        s'.sent = s.sent ++ [message bytes outside] := by
  unfold step at hs
  split_ifs at hs
  cases m with
  | terminal bytes outside =>
      simp only [State.terminal] at hs
      split_ifs at hs
      · rw [← Option.some.inj hs]
        exact Or.inl ⟨rfl, rfl⟩
      · rw [← Option.some.inj hs]
        exact Or.inr ⟨bytes, outside, rfl, rfl, rfl⟩
  | serverRead n =>
      simp only [State.serverRead] at hs
      split_ifs at hs
      rw [← Option.some.inj hs]
      exact Or.inl ⟨rfl, rfl⟩
  | clientRead n =>
      simp only [State.clientRead] at hs
      split_ifs at hs
      rw [← Option.some.inj hs]
      exact Or.inl ⟨rfl, rfl⟩
  | ends k =>
      simp only [State.ends] at hs
      split_ifs at hs
      rw [← Option.some.inj hs]
      exact Or.inl ⟨rfl, rfl⟩

theorem Lines.step {s s' : State} (h : Lines s) {m : Move} (hshort : Short s m)
    (hs : step m s = some s') : Lines s' := by
  rcases typed_step hs with ⟨htyped, hsent⟩ | ⟨bytes, outside, rfl, htyped, hsent⟩
  · exact ⟨by rw [hsent, htyped]; exact h.sent, by rw [htyped]; exact h.short⟩
  · have hlt : bytes.length < bufSize := hshort
    constructor
    · rw [hsent, htyped, h.sent, message_eq hlt, List.map_append]
      rfl
    · intro line hline
      rw [htyped] at hline
      rcases List.mem_append.mp hline with hline | hline
      · exact h.short line hline
      · rw [List.mem_singleton.mp hline]
        exact hlt

theorem lines_of_reach {s : State} (h : Reach step Short start s) : Lines s :=
  h.invariant ⟨rfl, fun _ hline => absurd hline List.not_mem_nil⟩
    (fun _ _ _ hinv hok hs => hinv.step hok hs)

/-- What has been taken is the start of all messages. -/
theorem taken_start {ok : State → Move → Prop} {s : State} (h : Reach step ok start s) :
    s.server.taken.flatten <+: s.sent.flatten := by
  have hexchanged := exchanged_of_reach h
  refine List.IsPrefix.trans ?_ hexchanged.up
  rw [← hexchanged.server.order, List.append_assoc]
  exact List.prefix_append _ _

/-- No answer holds a NUL. -/
theorem zero_notMem_answers (k : ℕ) : 0 ∉ answers k := by
  intro hmem
  obtain ⟨bytes, hbytes, hzero⟩ := List.mem_flatten.mp hmem
  rw [(List.mem_replicate.mp hbytes).2] at hzero
  revert hzero
  decide

/-- A piece of the answers is a part of them. -/
theorem client_infix {s : State} (h : Exchanged s) {p : List UInt8} (hp : p ∈ s.client.taken) :
    p <:+: answers s.server.taken.length := by
  refine (List.infix_of_mem_flatten hp).trans ?_
  rw [← h.down, ← h.client.order, List.append_assoc]
  exact (List.prefix_append _ _).isInfix

/-- **The arrays.**  If no read of the terminal fills its array, the server's `printf` finds a
NUL in its own whatever the portions are.  The client's finds one exactly if the piece does
not fill the array, and none fills it before the 64th answer. -/
theorem stays_inside {s : State} (h : Reach step Short start s) :
    (∀ p ∈ s.server.taken, ∃ i, NulAt (array p) i) ∧
      ∀ p ∈ s.client.taken, ((∃ i, NulAt (array p) i) ↔ p.length < bufSize) ∧
        (p.length = bufSize → 64 ≤ s.server.taken.length) := by
  have hexchanged := exchanged_of_reach h
  have hlines := lines_of_reach h
  constructor
  · intro p hp
    by_cases hlt : p.length < bufSize
    · exact ⟨p.length, nulAt_array hlt⟩
    · have hin : p <:+: (s.typed.map (· ++ [0])).flatten := by
        rw [← hlines.sent]
        exact (List.infix_of_mem_flatten hp).trans (taken_start h).isInfix
      exact nulAt_array_of_mem
        (mem_of_infix_terminated hlines.short hin (not_lt.mp hlt) (by decide))
  · intro p hp
    have hin := client_infix hexchanged hp
    refine ⟨⟨?_, fun hlt => ⟨p.length, nulAt_array hlt⟩⟩, ?_⟩
    · rintro ⟨i, hi⟩
      by_contra hnot
      have hfull : p.length = bufSize :=
        le_antisymm (hexchanged.client.portion p hp) (not_lt.mp hnot)
      exact not_nulAt_array hfull (fun hzero => zero_notMem_answers _ (hin.subset hzero)) i hi
    · intro hfull
      have hle : 1024 ≤ 16 * s.server.taken.length := by
        rw [← length_answers]
        exact hfull.ge.trans hin.length_le
      omega

/-- Two lines come in as one piece. -/
theorem stays_inside_twoLines :
    ∃ s, Reach step Short start s ∧ s.server.taken = [[97, 0, 98, 0]] ∧
      ∀ p ∈ s.server.taken, ∃ i, NulAt (array p) i := by
  obtain ⟨s, hreach, hs⟩ : ∃ s, Reach step Short start s ∧ s.server.taken = [[97, 0, 98, 0]] :=
    exists_reach_of_run [.terminal [97] 7, .terminal [98] 7, .serverRead 4] (by decide +kernel)
  exact ⟨s, hreach, hs, (stays_inside hreach).1⟩

/-! ## What the server prints -/

/-- The condition on a step: what is read from the terminal is a text that leaves a NUL in the
array. -/
def Typed (_ : State) : Move → Prop
  | .terminal bytes _ => bytes.length < bufSize ∧ 0 ∉ bytes
  | _ => True

instance (s : State) (m : Move) : Decidable (Typed s m) := by
  cases m <;> unfold Typed <;> infer_instance

theorem Typed.short {s : State} {m : Move} (h : Typed s m) : Short s m := by
  cases m with
  | terminal bytes outside => exact h.1
  | serverRead n => trivial
  | clientRead n => trivial
  | ends k => trivial

/-- What `printf` prints of a piece is what stands in front of its first NUL. -/
theorem text_eq (piece : List UInt8) : text piece = piece.takeWhile (· != 0) := by
  rw [text, array_eq, string_append_zeros, string_eq_takeWhile]

/-- What is printed holds no NUL. -/
theorem filter_text (piece : List UInt8) : (text piece).filter (· != 0) = text piece := by
  rw [List.filter_eq_self, text_eq]
  exact fun b hb => List.mem_takeWhile_imp (p := (· != 0)) hb

/-- What is printed of a piece is what is left of it without the NULs, exactly if nothing but
NULs stands behind it. -/
theorem text_eq_filter_iff (piece : List UInt8) :
    text piece = piece.filter (· != 0) ↔ ∀ b ∈ piece.drop (text piece).length, b = 0 := by
  have hsplit : text piece ++ piece.dropWhile (· != 0) = piece := by
    rw [text_eq]
    exact List.takeWhile_append_dropWhile
  have hdrop : piece.drop (text piece).length = piece.dropWhile (· != 0) := by
    conv_lhs => rw [← hsplit]
    exact List.drop_left' (by rw [hsplit])
  have hfilter : piece.filter (· != 0)
      = text piece ++ (piece.dropWhile (· != 0)).filter (· != 0) := by
    conv_lhs => rw [← hsplit, List.filter_append, filter_text]
  rw [hdrop, hfilter, List.self_eq_append_right, List.filter_eq_nil_iff]
  simp

theorem text_sublist_filter (piece : List UInt8) :
    (text piece).Sublist (piece.filter (· != 0)) := by
  rw [← filter_text]
  refine List.Sublist.filter _ ?_
  rw [text_eq]
  exact List.takeWhile_sublist _

/-- What has been typed are the messages without their NULs. -/
theorem filter_lines {typed : List (List UInt8)} (h : ∀ line ∈ typed, 0 ∉ line) :
    (typed.map (· ++ [0])).flatten.filter (· != 0) = typed.flatten := by
  induction typed with
  | nil => rfl
  | cons line typed ih =>
      obtain ⟨hline, hrest⟩ := List.forall_mem_cons.mp h
      have hkept : line.filter (· != 0) = line := by
        rw [List.filter_eq_self]
        intro b hb
        exact bne_iff_ne.mpr (fun heq => hline (heq ▸ hb))
      rw [List.map_cons, List.flatten_cons, List.flatten_cons, List.filter_append, ih hrest,
        List.filter_append, hkept]
      congr 1
      exact List.append_nil line

/-- What is typed holds no NUL. -/
theorem typed_of_reach {s : State} (h : Reach step Typed start s) :
    ∀ line ∈ s.typed, 0 ∉ line := by
  refine h.invariant (I := fun s => ∀ line ∈ s.typed, 0 ∉ line)
    (fun line hline => absurd hline List.not_mem_nil) ?_
  intro s m s' hinv hok hs
  rcases typed_step hs with ⟨htyped, -⟩ | ⟨bytes, outside, rfl, htyped, -⟩
  · rw [htyped]
    exact hinv
  · intro line hline
    rw [htyped] at hline
    rcases List.mem_append.mp hline with hline | hline
    · exact hinv line hline
    · rw [List.mem_singleton.mp hline]
      exact hok.2

/-- **What the server prints.**  In a run in which texts are typed that leave a NUL in the
array: all that the server has printed is a part of what was typed, in order; and once
everything has come in and has been taken, it is all of it exactly if no piece has had text
behind its first NUL. -/
theorem printed_text {s : State} (h : Reach step Typed start s) :
    (s.server.taken.map text).flatten.Sublist s.typed.flatten ∧
      (s.freed = false → s.up = [] → s.server.waiting = [] →
        ((s.server.taken.map text).flatten = s.typed.flatten ↔
          ∀ p ∈ s.server.taken, ∀ b ∈ p.drop (text p).length, b = 0)) := by
  have hshort : Reach step Short start s := h.weaken (fun _ _ hok => hok.short)
  have hsent : s.sent.flatten.filter (· != 0) = s.typed.flatten := by
    rw [(lines_of_reach hshort).sent, filter_lines (typed_of_reach h)]
  have htaken : (s.server.taken.map (List.filter (· != 0))).flatten
      = s.server.taken.flatten.filter (· != 0) := List.filter_flatten.symm
  constructor
  · have hpieces : (s.server.taken.map text).flatten.Sublist
        (s.server.taken.map (List.filter (· != 0))).flatten := by
      rw [← List.flatMap_def, ← List.flatMap_def]
      exact List.Sublist.flatMap_right _ (fun p _ => text_sublist_filter p)
    refine hpieces.trans ?_
    rw [htaken, ← hsent]
    exact (taken_start h).sublist.filter _
  · intro hopen hup hwaiting
    have hall : s.server.taken.flatten = s.sent.flatten := by
      have hexchange := (exchange (h.weaken (fun _ _ _ => trivial))).2.1 hopen
      rw [hup, hwaiting, List.append_nil, List.append_nil] at hexchange
      exact hexchange
    rw [← hsent, ← hall, ← htaken, flatten_map_eq_iff text_sublist_filter]
    exact forall₂_congr (fun p _ => text_eq_filter_iff p)

/-- Two lines that come in as one piece: the second one is not printed. -/
theorem printed_text_twoLines :
    ∃ s, Reach step Typed start s ∧
      (s.freed = false ∧ s.up = [] ∧ s.server.waiting = [] ∧ s.server.taken = [[97, 0, 98, 0]]) ∧
      (s.server.taken.map text).flatten ≠ s.typed.flatten := by
  obtain ⟨s, hreach, hopen, hup, hwaiting, htaken⟩ : ∃ s, Reach step Typed start s ∧
      (s.freed = false ∧ s.up = [] ∧ s.server.waiting = [] ∧ s.server.taken = [[97, 0, 98, 0]]) :=
    exists_reach_of_run [.terminal [97] 7, .terminal [98] 7, .serverRead 4] (by decide +kernel)
  refine ⟨s, hreach, ⟨hopen, hup, hwaiting, htaken⟩, fun heq => ?_⟩
  have hall := ((printed_text hreach).2 hopen hup hwaiting).mp heq
  rw [htaken] at hall
  exact absurd (hall _ (List.mem_singleton_self _)) (by decide +kernel)

end BufferEvents
