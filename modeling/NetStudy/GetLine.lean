/-
# `get_line` of the web server (`http/myhttpd.c`)

`get_line` reads a socket byte by byte with `recv`, looks one byte ahead with
`MSG_PEEK` after a carriage return, and stops at a line feed, at a `recv` that
gives nothing, or when the buffer is full.

* `Sock` is what `get_line` uses of a socket: the two kinds of `recv`, over an
  arbitrary state, so that the state may change between two calls;
* `getLineTurn` (with `peekLF` and `takeLF`), `getLineLoop` and `getLine` are the body
  of the loop, the loop and the function;
* over a byte stream (`Stream.sock`) a call takes exactly the piece `cut` off the
  stream (`getLine_stream`), and it returns `-1` exactly if it ran `dry` on a
  stream that has not ended.
-/
import Mathlib.Tactic

namespace MyHttpd

/-- `'\r'`. -/
abbrev CR : UInt8 := 13

/-- `'\n'`. -/
abbrev LF : UInt8 := 10

/-! ## Sockets -/

/-- What a `recv` of one byte gives: the byte (it returns 1), the end of the
stream (it returns 0), or `EAGAIN` (it returns -1, and `c` is left alone). -/
inductive RecvRet
  | byte (c : UInt8)
  | eof
  | again
  deriving DecidableEq

/-- The number that `recv` returns. -/
def RecvRet.n : RecvRet → ℤ
  | byte _ => 1
  | eof => 0
  | again => -1

/-- A socket with states in `σ`: `recv(fd, &c, 1, 0)` and
`recv(fd, &c, 1, MSG_PEEK)`.  Both give a new state, since bytes may arrive while
`get_line` runs. -/
structure Sock (σ : Type*) where
  recv : σ → RecvRet × σ
  peek : σ → RecvRet × σ

variable {σ : Type*}

/-! ## The function -/

/-- The locals of `get_line`: the cells of `buf` written so far (`i` is their
number), `c`, and `n`, which has no value before the first `recv`. -/
structure Line where
  buf : List UInt8
  c : UInt8
  n : Option ℤ

/-- The locals at the head of the loop (lines 67-69). -/
def Line.init : Line := ⟨[], 0, none⟩

/-- `buf[i] = c; i++` (lines 89-90). -/
def Line.store (l : Line) (c : UInt8) (n : ℤ) : Line := ⟨l.buf ++ [c], c, some n⟩

/-- Line 81 takes the LF that has been peeked at off the socket, without a look at
what `recv` returns. -/
def takeLF (K : Sock σ) (l : Line) (s : σ) : Line × σ :=
  match (K.recv s).1 with
  | RecvRet.byte c => (l.store c 1, (K.recv s).2)
  | _ => (l.store LF 1, (K.recv s).2)

/-- Lines 77-87, behind a CR: an LF that follows is read with it, and anything else
stays.  If there is nothing to peek at, `n` keeps the 0 or the -1 of the peek. -/
def peekLF (K : Sock σ) (l : Line) (s : σ) : Line × σ :=
  match (K.peek s).1 with
  | RecvRet.byte c =>
      if c = LF then takeLF K l (K.peek s).2 else (l.store LF 1, (K.peek s).2)
  | r => (l.store LF r.n, (K.peek s).2)

/-- The body of the loop (lines 72-95). -/
def getLineTurn (K : Sock σ) (l : Line) (s : σ) : Line × σ :=
  match (K.recv s).1 with
  | RecvRet.byte c =>
      if c = CR then peekLF K l (K.recv s).2 else (l.store c 1, (K.recv s).2)
  | r => (⟨l.buf, LF, some r.n⟩, (K.recv s).2)

/-- The loop of lines 70-96 with `room = size - 1 - i`.  A turn stores a byte or
sets `c` to LF, which ends the loop, so `room` bounds the number of turns. -/
def getLineLoop (K : Sock σ) : ℕ → Line → σ → Line × σ
  | 0, l, s => (l, s)
  | room + 1, l, s =>
      if l.c = LF then (l, s)
      else getLineLoop K room (getLineTurn K l s).1 (getLineTurn K l s).2

/-- What a call leaves behind: the number it returns and the cells of `buf` it has
written, the terminating NUL among them. -/
structure Reading where
  ret : ℤ
  cells : List UInt8
  deriving DecidableEq

/-- Lines 97-103: `buf[i] = 0`, and -1 is returned if the last `n` was -1. -/
def Line.finish (l : Line) : Reading where
  ret := if l.n = some (-1) then -1 else l.buf.length
  cells := l.buf ++ [0]

/-- `get_line(fd, buf, size)`. -/
def getLine (K : Sock σ) (size : ℕ) (s : σ) : Reading × σ :=
  ((getLineLoop K (size - 1) Line.init s).1.finish, (getLineLoop K (size - 1) Line.init s).2)

/-! ## Byte streams -/

/-- A stream: the bytes that have arrived and are unread, and whether the peer has
closed its end behind them. -/
structure Stream where
  bytes : List UInt8
  eof : Bool
  deriving DecidableEq

/-- What a `recv` finds. -/
def Stream.look (s : Stream) : RecvRet :=
  match s.bytes with
  | c :: _ => RecvRet.byte c
  | [] => if s.eof then RecvRet.eof else RecvRet.again

/-- A stream as a socket on which nothing arrives during the calls. -/
def Stream.sock : Sock Stream where
  recv := fun s => (s.look, { s with bytes := s.bytes.tail })
  peek := fun s => (s.look, s)

@[simp] theorem Stream.recv_cons (c : UInt8) (bs : List UInt8) (eof : Bool) :
    Stream.sock.recv ⟨c :: bs, eof⟩ = (RecvRet.byte c, ⟨bs, eof⟩) := rfl

@[simp] theorem Stream.recv_nil (eof : Bool) :
    Stream.sock.recv ⟨[], eof⟩ = (if eof then RecvRet.eof else RecvRet.again, ⟨[], eof⟩) := rfl

@[simp] theorem Stream.peek_cons (c : UInt8) (bs : List UInt8) (eof : Bool) :
    Stream.sock.peek ⟨c :: bs, eof⟩ = (RecvRet.byte c, ⟨c :: bs, eof⟩) := rfl

@[simp] theorem Stream.peek_nil (eof : Bool) :
    Stream.sock.peek ⟨[], eof⟩ = (if eof then RecvRet.eof else RecvRet.again, ⟨[], eof⟩) := rfl

/-! ## The piece that a call takes -/

/-- The bytes without an LF in front. -/
def skipLF (bs : List UInt8) : List UInt8 := if bs.head? = some LF then bs.tail else bs

/-- The line that a call with room for `room` bytes reads off a stream, and the
bytes it leaves: CR LF and a lone CR are read as LF. -/
def cut : ℕ → List UInt8 → List UInt8 × List UInt8
  | 0, bs => ([], bs)
  | _ + 1, [] => ([], [])
  | room + 1, c :: bs =>
      if c = CR then ([LF], skipLF bs)
      else if c = LF then ([LF], bs)
      else (c :: (cut room bs).1, (cut room bs).2)

/-- Whether the call looks for a byte, with or without `MSG_PEEK`, after the last
one. -/
def dry : ℕ → List UInt8 → Bool
  | 0, _ => false
  | _ + 1, [] => true
  | room + 1, c :: bs =>
      if c = CR then bs.isEmpty
      else if c = LF then false
      else dry room bs

@[simp] theorem cut_zero (bs : List UInt8) : cut 0 bs = ([], bs) := by
  cases bs <;> rfl

@[simp] theorem cut_nil (room : ℕ) : cut room [] = ([], []) := by
  cases room <;> rfl

theorem cut_cr (room : ℕ) (bs : List UInt8) : cut (room + 1) (CR :: bs) = ([LF], skipLF bs) := by
  rw [cut, if_pos rfl]

theorem cut_lf (room : ℕ) (bs : List UInt8) : cut (room + 1) (LF :: bs) = ([LF], bs) := by
  rw [cut, if_neg (by decide), if_pos rfl]

theorem cut_char (room : ℕ) {c : UInt8} (bs : List UInt8) (hcr : c ≠ CR) (hlf : c ≠ LF) :
    cut (room + 1) (c :: bs) = (c :: (cut room bs).1, (cut room bs).2) := by
  rw [cut, if_neg hcr, if_neg hlf]

/-- One turn over a stream that has run out stores nothing. -/
theorem getLineTurn_nil (l : Line) (eof : Bool) :
    getLineTurn Stream.sock l ⟨[], eof⟩
      = (⟨l.buf, LF, some (if eof then 0 else -1)⟩, ⟨[], eof⟩) := by
  cases eof <;> rfl

/-- A turn that meets an ordinary byte or an LF stores it. -/
theorem getLineTurn_char (l : Line) {c : UInt8} (bs : List UInt8) (eof : Bool) (hcr : c ≠ CR) :
    getLineTurn Stream.sock l ⟨c :: bs, eof⟩ = (l.store c 1, ⟨bs, eof⟩) := by
  simp only [getLineTurn, Stream.recv_cons, if_neg hcr]

/-- A turn that meets a CR stores an LF, and takes an LF behind the CR with it. -/
theorem getLineTurn_cr (l : Line) (bs : List UInt8) (eof : Bool) :
    getLineTurn Stream.sock l ⟨CR :: bs, eof⟩
      = (l.store LF (if bs.isEmpty then (if eof then 0 else -1) else 1), ⟨skipLF bs, eof⟩) := by
  cases bs with
  | nil => cases eof <;> rfl
  | cons d bs =>
      by_cases hd : d = LF
      · simp [getLineTurn, peekLF, takeLF, skipLF, hd]
      · simp [getLineTurn, peekLF, skipLF, hd]

/-- A loop whose `c` is LF has ended. -/
theorem getLineLoop_of_lf (K : Sock σ) (room : ℕ) (l : Line) (s : σ) (h : l.c = LF) :
    getLineLoop K room l s = (l, s) := by
  cases room with
  | zero => rfl
  | succ room => rw [getLineLoop, if_pos h]

/-- **The loop over a stream.**  It appends the piece `cut`, leaves the rest, and
ends with `n = -1` exactly if it ran dry before the end of the stream. -/
theorem getLineLoop_stream (room : ℕ) (l : Line) (bs : List UInt8) (eof : Bool)
    (hc : l.c ≠ LF) (hn : l.n ≠ some (-1)) :
    ∃ c n, getLineLoop Stream.sock room l ⟨bs, eof⟩
        = (⟨l.buf ++ (cut room bs).1, c, n⟩, ⟨(cut room bs).2, eof⟩) ∧
      (n = some (-1) ↔ dry room bs = true ∧ eof = false) := by
  -- on the room; only a turn that stores an ordinary byte goes on
  induction room generalizing l bs with
  | zero => exact ⟨l.c, l.n, by simp [getLineLoop], by simp [hn, dry]⟩
  | succ room ih =>
      rw [getLineLoop, if_neg hc]
      cases bs with
      | nil =>
          rw [getLineTurn_nil, getLineLoop_of_lf _ _ _ _ rfl]
          refine ⟨LF, some (if eof then 0 else -1), by simp, ?_⟩
          cases eof <;> simp [dry]
      | cons d bs =>
          by_cases hcr : d = CR
          · subst hcr
            rw [getLineTurn_cr, getLineLoop_of_lf _ _ _ _ rfl, cut_cr]
            refine ⟨LF, some (if bs.isEmpty then (if eof then 0 else -1) else 1), rfl, ?_⟩
            cases eof <;> cases bs <;> simp [dry]
          · by_cases hlf : d = LF
            · subst hlf
              rw [getLineTurn_char _ _ _ hcr, getLineLoop_of_lf _ _ _ _ rfl, cut_lf]
              refine ⟨LF, some 1, rfl, ?_⟩
              rw [dry, if_neg hcr, if_pos rfl]
              simp
            · rw [getLineTurn_char _ _ _ hcr, cut_char _ _ hcr hlf]
              obtain ⟨c, n, hloop, hiff⟩ := ih (l.store d 1) bs hlf (by simp [Line.store])
              refine ⟨c, n, ?_, ?_⟩
              · rw [hloop]
                simp [Line.store]
              · rw [hiff, dry, if_neg hcr, if_neg hlf]

/-- **`get_line` over a stream.** -/
theorem getLine_stream (size : ℕ) (bs : List UInt8) (eof : Bool) :
    getLine Stream.sock size ⟨bs, eof⟩
      = (⟨if dry (size - 1) bs = true ∧ eof = false then -1 else (cut (size - 1) bs).1.length,
          (cut (size - 1) bs).1 ++ [0]⟩, ⟨(cut (size - 1) bs).2, eof⟩) := by
  obtain ⟨c, n, hloop, hiff⟩ :=
    getLineLoop_stream (size - 1) Line.init bs eof (by decide) (by simp [Line.init])
  rw [getLine, hloop]
  simp only [Line.finish, hiff, Line.init, List.nil_append]

/-! ## Facts about the piece -/

/-- A call that runs dry leaves nothing. -/
theorem cut_of_dry {room : ℕ} {bs : List UInt8} (h : dry room bs = true) :
    (cut room bs).2 = [] := by
  induction room generalizing bs with
  | zero => simp [dry] at h
  | succ room ih =>
      cases bs with
      | nil => rfl
      | cons c bs =>
          rw [dry] at h
          split_ifs at h with hcr hlf
          · rw [hcr, cut_cr, List.isEmpty_iff.mp h]
            rfl
          · rw [cut_char _ _ hcr hlf]
            exact ih h

theorem skipLF_length_le (bs : List UInt8) : (skipLF bs).length ≤ bs.length := by
  rw [skipLF]
  split_ifs with h
  · rw [List.length_tail]
    omega
  · exact le_rfl

/-- A call leaves no more than it finds. -/
theorem cut_length_le (room : ℕ) (bs : List UInt8) : (cut room bs).2.length ≤ bs.length := by
  induction room generalizing bs with
  | zero => simp
  | succ room ih =>
      cases bs with
      | nil => simp
      | cons c bs =>
          rw [cut, List.length_cons]
          split_ifs with hcr hlf
          · have hskip := skipLF_length_le bs
            show (skipLF bs).length ≤ _
            omega
          · exact Nat.le_succ _
          · have hrest := ih bs
            show (cut room bs).2.length ≤ _
            omega

/-- A call takes at least one byte off a stream that has one. -/
theorem cut_length_lt {room : ℕ} (hroom : 1 ≤ room) {bs : List UInt8} (hbs : bs ≠ []) :
    (cut room bs).2.length < bs.length := by
  obtain ⟨room, rfl⟩ := Nat.exists_eq_add_of_le' hroom
  cases bs with
  | nil => exact absurd rfl hbs
  | cons c bs =>
      rw [cut, List.length_cons]
      split_ifs with hcr hlf
      · exact Nat.lt_succ_of_le (skipLF_length_le bs)
      · exact Nat.lt_succ_self _
      · exact Nat.lt_succ_of_le (cut_length_le room bs)

/-- The piece is empty only if the stream is. -/
theorem cut_ne_nil {room : ℕ} (hroom : 1 ≤ room) {bs : List UInt8} (hbs : bs ≠ []) :
    (cut room bs).1 ≠ [] := by
  obtain ⟨room, rfl⟩ := Nat.exists_eq_add_of_le' hroom
  cases bs with
  | nil => exact absurd rfl hbs
  | cons c bs =>
      rw [cut]
      split_ifs <;> exact List.cons_ne_nil _ _

end MyHttpd
