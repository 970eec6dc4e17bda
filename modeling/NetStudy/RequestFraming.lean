/-
# How far `do_read` reads into a stream of requests

A request is a request line, header lines and an empty line (`Request`).  The loop
of `do_read` takes a line for the empty one when `get_line` returns a piece that
starts with LF.  A line whose length is a positive multiple of 1023, the room that
`get_line` has in a buffer of 1024 bytes, ends in such a piece, since the pieces
before it use up everything but its line ending.

* `drains_multiple` and `drains_not_multiple` are the loop over one line;
* `exists_doReadReturns` is `do_read` on any request: where it ends, and when that is
  behind the request; `doRead_framing_iff` says that it consumes exactly the request
  if and only if no line has such a length.
-/
import NetStudy.DoRead

namespace MyHttpd

/-! ## Lines and requests -/

/-- How a line ends. -/
inductive Ending
  | crlf
  | lf
  | cr
  deriving DecidableEq

/-- The bytes of a line ending. -/
def Ending.bytes : Ending → List UInt8
  | crlf => [CR, LF]
  | lf => [LF]
  | cr => [CR]

/-- A line: its content, free of CR and LF, and its ending. -/
structure TextLine where
  content : List UInt8
  ending : Ending
  noBreak : CR ∉ content ∧ LF ∉ content

/-- The bytes of a line. -/
def TextLine.bytes (l : TextLine) : List UInt8 := l.content ++ l.ending.bytes

/-- The bytes of several lines. -/
def bytesOf (ls : List TextLine) : List UInt8 := ls.flatMap TextLine.bytes

@[simp] theorem bytesOf_nil : bytesOf [] = [] := rfl

@[simp] theorem bytesOf_cons (l : TextLine) (ls : List TextLine) :
    bytesOf (l :: ls) = l.bytes ++ bytesOf ls := rfl

@[simp] theorem bytesOf_append (ls ls' : List TextLine) :
    bytesOf (ls ++ ls') = bytesOf ls ++ bytesOf ls' := List.flatMap_append

/-- The empty line with this ending. -/
def blankLine (e : Ending) : TextLine := ⟨[], e, by simp, by simp⟩

/-- A request: a request line, header lines, none of them empty, and the ending of
the empty line. -/
structure Request where
  requestLine : TextLine
  headers : List TextLine
  blank : Ending
  requestLine_ne : requestLine.content ≠ []
  headers_ne : ∀ h ∈ headers, h.content ≠ []

namespace Request

/-- The lines before the empty one. -/
def textLines (req : Request) : List TextLine := req.requestLine :: req.headers

/-- All lines. -/
def lines (req : Request) : List TextLine := req.textLines ++ [blankLine req.blank]

/-- The bytes of a request. -/
def bytes (req : Request) : List UInt8 := bytesOf req.lines

theorem textLines_ne {req : Request} {l : TextLine} (h : l ∈ req.textLines) : l.content ≠ [] := by
  rcases List.mem_cons.mp h with rfl | hheader
  · exact req.requestLine_ne
  · exact req.headers_ne l hheader

end Request

/-- A line that ends in a lone CR is not followed by LF. -/
def LoneCR (l : TextLine) (tail : List UInt8) : Prop :=
  l.ending = Ending.cr → tail.head? ≠ some LF

/-- The endings of the lines are what they seem when `rest` follows. -/
def Delimited : List TextLine → List UInt8 → Prop
  | [], _ => True
  | l :: ls, rest => LoneCR l (bytesOf ls ++ rest) ∧ Delimited ls rest

theorem Ending.bytes_ne_nil (e : Ending) : e.bytes ≠ [] := by
  cases e <;> exact List.cons_ne_nil _ _

theorem TextLine.bytes_ne_nil (l : TextLine) : l.bytes ≠ [] := by
  intro h
  exact l.ending.bytes_ne_nil (List.append_eq_nil_iff.mp h).2

/-! ## The pieces of one line -/

/-- A call that starts at `ys` reads one LF, whatever its room, and leaves `tail`. -/
def EndsAt (ys tail : List UInt8) : Prop := ∀ room, cut (room + 1) ys = ([LF], tail)

/-- `get_line` reads a line ending as one LF. -/
theorem endsAt_ending {l : TextLine} {tail : List UInt8} (h : LoneCR l tail) :
    EndsAt (l.ending.bytes ++ tail) tail := by
  intro room
  rcases hend : l.ending
  · show cut (room + 1) (CR :: LF :: tail) = _
    rw [cut_cr, skipLF, List.head?_cons, if_pos rfl, List.tail_cons]
  · exact cut_lf room tail
  · show cut (room + 1) (CR :: tail) = _
    rw [cut_cr, skipLF, if_neg (h hend)]

/-- A line that fits is read whole. -/
theorem cut_short {room : ℕ} {xs ys tail : List UInt8} (hxs : CR ∉ xs ∧ LF ∉ xs)
    (hys : EndsAt ys tail) (hlen : xs.length < room) :
    cut room (xs ++ ys) = (xs ++ [LF], tail) := by
  induction xs generalizing room with
  | nil =>
      obtain ⟨room, rfl⟩ := Nat.exists_eq_add_of_le' (show 1 ≤ room by omega)
      exact hys room
  | cons c xs ih =>
      rw [List.mem_cons, List.mem_cons, not_or, not_or] at hxs
      rw [List.length_cons] at hlen
      obtain ⟨room, rfl⟩ := Nat.exists_eq_add_of_le' (show 1 ≤ room by omega)
      have hrest : cut room (xs ++ ys) = (xs ++ [LF], tail) :=
        ih ⟨hxs.1.2, hxs.2.2⟩ (by omega)
      rw [List.cons_append, cut_char _ _ (Ne.symm hxs.1.1) (Ne.symm hxs.2.1), hrest]
      rfl

/-- A line that does not fit is cut where the room ends. -/
theorem cut_long {room : ℕ} {xs : List UInt8} (ys : List UInt8) (hxs : CR ∉ xs ∧ LF ∉ xs)
    (hlen : room ≤ xs.length) : cut room (xs ++ ys) = (xs.take room, xs.drop room ++ ys) := by
  induction room generalizing xs with
  | zero => simp
  | succ room ih =>
      cases xs with
      | nil => exact absurd hlen (by simp)
      | cons c xs =>
          rw [List.mem_cons, List.mem_cons, not_or, not_or] at hxs
          rw [List.length_cons] at hlen
          have hrest : cut room (xs ++ ys) = (xs.take room, xs.drop room ++ ys) :=
            ih ⟨hxs.1.2, hxs.2.2⟩ (by omega)
          rw [List.cons_append, cut_char _ _ (Ne.symm hxs.1.1) (Ne.symm hxs.2.1), hrest]
          rfl

/-- A call that leaves something has not run dry. -/
theorem dry_eq_false {room : ℕ} {bs : List UInt8} (h : (cut room bs).2 ≠ []) :
    dry room bs = false := by
  rcases hdry : dry room bs
  · rfl
  · exact absurd (cut_of_dry hdry) h

/-! ## The loop over one line -/

variable {xs ys tail : List UInt8} {eof : Bool}

/-- The loop stops at a line ending. -/
theorem drains_ending (hys : EndsAt ys tail) :
    Drains Stream.sock ⟨ys, eof⟩ ⟨tail, eof⟩ := by
  have hcut : cut lineRoom ys = ([LF], tail) := hys 1022
  have hstop : (getLine Stream.sock 1024 ⟨ys, eof⟩).1.stops = true := by
    rw [stops_iff, hcut]
    exact Or.inl rfl
  have hdrains := Drains.stop hstop
  rwa [getLine_rest, hcut] at hdrains

/-- The loop goes on behind a piece that starts with no LF, if something is left. -/
theorem drains_piece {bs p rest : List UInt8} {s' : Stream} (hcut : cut lineRoom bs = (p, rest))
    (hp : p.head? ≠ some LF) (hne : rest ≠ [])
    (hrest : Drains Stream.sock ⟨rest, eof⟩ s') : Drains Stream.sock ⟨bs, eof⟩ s' := by
  apply Drains.more
  · rw [← Bool.not_eq_true, stops_iff, hcut]
    rintro (hhead | ⟨hdry, -⟩)
    · exact hp hhead
    · rw [dry_eq_false (by rw [hcut]; exact hne)] at hdry
      cases hdry
  · rw [getLine_rest, hcut]
    exact hrest

/-- The loop over a full piece of a line. -/
theorem drains_long {s' : Stream} (hxs : CR ∉ xs ∧ LF ∉ xs) (hys : ys ≠ [])
    (hlen : lineRoom ≤ xs.length)
    (hrest : Drains Stream.sock ⟨xs.drop lineRoom ++ ys, eof⟩ s') :
    Drains Stream.sock ⟨xs ++ ys, eof⟩ s' := by
  apply drains_piece (cut_long ys hxs hlen) _ (List.append_ne_nil_of_right_ne_nil _ hys) hrest
  intro hhead
  exact hxs.2 (List.mem_of_mem_take (List.mem_of_mem_head? hhead))

/-- A line whose length is a multiple of the room stops the loop. -/
theorem drains_multiple (hxs : CR ∉ xs ∧ LF ∉ xs) (hys : EndsAt ys tail) (hne : ys ≠ [])
    (h : lineRoom ∣ xs.length) : Drains Stream.sock ⟨xs ++ ys, eof⟩ ⟨tail, eof⟩ := by
  obtain ⟨k, hk⟩ := h
  -- `k` full pieces, and then the line ending alone
  induction k generalizing xs with
  | zero =>
      rw [List.length_eq_zero_iff.mp hk]
      exact drains_ending hys
  | succ k ih =>
      rw [Nat.mul_succ] at hk
      have hdrop : (xs.drop lineRoom).length = lineRoom * k := by
        rw [List.length_drop]
        omega
      have hxs' : CR ∉ xs.drop lineRoom ∧ LF ∉ xs.drop lineRoom :=
        ⟨fun h => hxs.1 (List.mem_of_mem_drop h), fun h => hxs.2 (List.mem_of_mem_drop h)⟩
      exact drains_long hxs hne (by omega) (ih hxs' hdrop)

/-- A line of any other length is read over, if something follows it. -/
theorem drains_not_multiple {s' : Stream} (hxs : CR ∉ xs ∧ LF ∉ xs) (hys : EndsAt ys tail)
    (hne : ys ≠ []) (h : ¬ lineRoom ∣ xs.length) (htail : tail ≠ [])
    (hrest : Drains Stream.sock ⟨tail, eof⟩ s') : Drains Stream.sock ⟨xs ++ ys, eof⟩ s' := by
  induction hn : xs.length using Nat.strong_induction_on generalizing xs with
  | _ n ih =>
      rcases Nat.lt_or_ge xs.length lineRoom with hshort | hlong
      · -- the last piece is not empty, and it starts with a byte of the line
        apply drains_piece (cut_short hxs hys hshort) _ htail hrest
        rcases xs with _ | ⟨c, xs⟩
        · exact absurd (dvd_zero lineRoom) h
        · intro hhead
          exact hxs.2 (List.mem_cons.mpr (Or.inl (Option.some.inj hhead).symm))
      · have hxs' : CR ∉ xs.drop lineRoom ∧ LF ∉ xs.drop lineRoom :=
          ⟨fun h => hxs.1 (List.mem_of_mem_drop h), fun h => hxs.2 (List.mem_of_mem_drop h)⟩
        have hdrop : (xs.drop lineRoom).length = xs.length - lineRoom := List.length_drop
        have hdvd : ¬ lineRoom ∣ (xs.drop lineRoom).length := by
          rw [hdrop]
          exact fun hd => h ((Nat.dvd_sub_iff_left hlong (dvd_refl lineRoom)).mp hd)
        have hlt : (xs.drop lineRoom).length < n := by
          rw [hdrop, ← hn]
          exact Nat.sub_lt (lt_of_lt_of_le (by decide) hlong) (by decide)
        exact drains_long hxs hne hlong (ih _ hlt hxs' hdvd rfl)

/-! ## The loop over the lines of a request -/

/-- The loop over lines that are not empty and the empty line: it ends, and it ends
behind the empty line exactly if it stops at no line before. -/
theorem exists_drains_lines {ls : List TextLine} (e : Ending) (rest : List UInt8) (eof : Bool)
    (hls : Delimited (ls ++ [blankLine e]) rest) :
    ∃ left, Drains Stream.sock ⟨bytesOf (ls ++ [blankLine e]) ++ rest, eof⟩ ⟨left, eof⟩ ∧
      (left = rest ↔ ∀ l ∈ ls, ¬ lineRoom ∣ l.content.length) := by
  induction ls with
  | nil =>
      obtain ⟨hcr, -⟩ := hls
      refine ⟨rest, ?_, by simp⟩
      show Drains Stream.sock ⟨(blankLine e).ending.bytes ++ [] ++ rest, eof⟩ _
      rw [List.append_nil]
      exact drains_ending (endsAt_ending hcr)
  | cons l ls ih =>
      obtain ⟨hcr, hls⟩ := hls
      have hbytes : bytesOf (l :: ls ++ [blankLine e]) ++ rest
          = l.content ++ (l.ending.bytes ++ (bytesOf (ls ++ [blankLine e]) ++ rest)) := by
        simp [TextLine.bytes]
      have hys : l.ending.bytes ++ (bytesOf (ls ++ [blankLine e]) ++ rest) ≠ [] :=
        List.append_ne_nil_of_left_ne_nil l.ending.bytes_ne_nil _
      have hblank : bytesOf (ls ++ [blankLine e]) ≠ [] := by
        rw [bytesOf_append]
        exact List.append_ne_nil_of_right_ne_nil _ (by simp [(blankLine e).bytes_ne_nil])
      rw [hbytes]
      by_cases hdvd : lineRoom ∣ l.content.length
      · -- the loop stops behind this line, and the empty line is still to come
        refine ⟨_, drains_multiple l.noBreak (endsAt_ending hcr) hys hdvd, ?_⟩
        constructor
        · intro h
          exact absurd (List.append_left_eq_self.mp h) hblank
        · intro h
          exact absurd hdvd (h l List.mem_cons_self)
      · obtain ⟨left, hdrains, hiff⟩ := ih hls
        refine ⟨left, drains_not_multiple l.noBreak (endsAt_ending hcr) hys hdvd
          (List.append_ne_nil_of_left_ne_nil hblank _) hdrains, ?_⟩
        rw [hiff, List.forall_mem_cons]
        exact ⟨fun h => ⟨hdvd, h⟩, fun h => h.2⟩

namespace TextLine

/-- The piece of a line that the first `get_line` reads. -/
def first (l : TextLine) : List UInt8 :=
  if l.content.length < lineRoom then l.content ++ [LF] else l.content.take lineRoom

/-- What it leaves of the line: nothing, or a line of its own. -/
def behind (l : TextLine) : List TextLine :=
  if l.content.length < lineRoom then []
  else [⟨l.content.drop lineRoom, l.ending, fun h => l.noBreak.1 (List.mem_of_mem_drop h),
    fun h => l.noBreak.2 (List.mem_of_mem_drop h)⟩]

theorem cut_bytes {l : TextLine} {tail : List UInt8} (h : LoneCR l tail) :
    cut lineRoom (l.bytes ++ tail) = (l.first, bytesOf l.behind ++ tail) := by
  rw [TextLine.bytes, List.append_assoc, first, behind]
  split_ifs with hlen
  · exact cut_short l.noBreak (endsAt_ending h) hlen
  · rw [cut_long _ l.noBreak (by omega)]
    simp [TextLine.bytes]

theorem delimited_behind {l : TextLine} {ls : List TextLine} {rest : List UInt8}
    (h : Delimited (l :: ls) rest) : Delimited (l.behind ++ ls) rest := by
  rw [behind]
  split_ifs
  · exact h.2
  · exact h

/-- What is left of a line is as much a multiple of the room as the line. -/
theorem behind_not_multiple {l : TextLine} (hne : l.content ≠ []) :
    (∀ l' ∈ l.behind, ¬ lineRoom ∣ l'.content.length) ↔ ¬ lineRoom ∣ l.content.length := by
  rw [behind]
  split_ifs with hlen
  · have hpos := List.length_pos_iff.mpr hne
    have hdvd : ¬ lineRoom ∣ l.content.length := Nat.not_dvd_of_pos_of_lt hpos hlen
    simp [hdvd]
  · rw [List.forall_mem_singleton, List.length_drop,
      Nat.dvd_sub_iff_left (Nat.le_of_not_lt hlen) (dvd_refl lineRoom)]

end TextLine

/-- **`do_read` on a request**: it acts on the first piece of the request line, and
it ends behind the empty line exactly if no line before has a length that is a
multiple of the room. -/
theorem exists_doReadReturns (req : Request) (rest : List UInt8) (eof : Bool) (junk : Locals)
    (hreq : Delimited req.lines rest) :
    ∃ left, DoReadReturns Stream.sock junk ⟨req.bytes ++ rest, eof⟩
        (act (sscanfLine (req.requestLine.first ++ [0]) junk), ⟨left, eof⟩) ∧
      (left = rest ↔ ∀ l ∈ req.textLines, ¬ lineRoom ∣ l.content.length) := by
  have hbytes : req.bytes ++ rest = req.requestLine.bytes
      ++ (bytesOf (req.headers ++ [blankLine req.blank]) ++ rest) := by
    simp [Request.bytes, Request.lines, Request.textLines]
  have hcut : cut lineRoom (req.bytes ++ rest) = (req.requestLine.first,
      bytesOf (req.requestLine.behind ++ req.headers ++ [blankLine req.blank]) ++ rest) := by
    have hline : LoneCR req.requestLine (bytesOf (req.headers ++ [blankLine req.blank]) ++ rest) :=
      hreq.1
    rw [hbytes, TextLine.cut_bytes hline]
    simp
  have hls : Delimited (req.requestLine.behind ++ req.headers ++ [blankLine req.blank]) rest := by
    rw [List.append_assoc]
    exact TextLine.delimited_behind hreq
  obtain ⟨left, hdrains, hiff⟩ := exists_drains_lines req.blank rest eof hls
  refine ⟨left, ?_, ?_⟩
  · have hret : (getLine Stream.sock 1024 ⟨req.bytes ++ rest, eof⟩).1.ret ≠ 0 := by
      rw [Ne, getLine_ret_zero_iff, hbytes]
      intro h
      exact List.append_ne_nil_of_left_ne_nil req.requestLine.bytes_ne_nil _ h.1
    have hrest : (getLine Stream.sock 1024 ⟨req.bytes ++ rest, eof⟩).2
        = ⟨bytesOf (req.requestLine.behind ++ req.headers ++ [blankLine req.blank]) ++ rest, eof⟩ := by
      rw [getLine_rest, hcut]
    rw [← hrest] at hdrains
    have hreturns := DoReadReturns.of_drains junk hret hdrains
    rwa [getLine_cells, hcut] at hreturns
  · rw [hiff, Request.textLines, List.forall_mem_cons, List.forall_mem_append,
      TextLine.behind_not_multiple req.requestLine_ne]

/-! ## Framing -/

/-- **What `do_read` consumes.**  On a request followed by anything the call
returns, and it has consumed exactly the request if and only if neither the request
line nor a header line has a length that is a positive multiple of 1023. -/
theorem doRead_framing_iff (req : Request) (rest : List UInt8) (eof : Bool) (junk : Locals)
    (hreq : Delimited req.lines rest) :
    ∃ out, DoReadReturns Stream.sock junk ⟨req.bytes ++ rest, eof⟩ out ∧
      (out.2 = ⟨rest, eof⟩ ↔
        ∀ l ∈ req.requestLine :: req.headers, ¬ (0 < l.content.length ∧ 1023 ∣ l.content.length)) := by
  obtain ⟨left, hreturns, hiff⟩ := exists_doReadReturns req rest eof junk hreq
  refine ⟨_, hreturns, ?_⟩
  rw [Stream.mk.injEq, and_iff_left rfl, hiff]
  constructor
  · intro h l hl hbad
    exact h l hl hbad.2
  · intro h l hl hdvd
    exact h l hl ⟨List.length_pos_iff.mpr (Request.textLines_ne hl), hdvd⟩

/-- `GET / HTTP/1.0` with no header lines. -/
def plainRequest : Request where
  requestLine := ⟨[71, 69, 84, 32, 47, 32, 72, 84, 84, 80, 47, 49, 46, 48], Ending.crlf,
    by decide⟩
  headers := []
  blank := Ending.crlf
  requestLine_ne := by decide
  headers_ne := by simp

theorem plainRequest_delimited (rest : List UInt8) : Delimited plainRequest.lines rest := by
  refine ⟨?_, ?_, trivial⟩
  · intro h
    cases h
  · intro h
    cases h

/-- The plain request is framed, whatever follows it. -/
theorem doRead_framing_iff_plain : Delimited plainRequest.lines [71, 69, 84] ∧
    ∃ out, DoReadReturns Stream.sock ⟨[], [], []⟩ ⟨plainRequest.bytes ++ [71, 69, 84], false⟩ out ∧
      (out.2 = ⟨[71, 69, 84], false⟩ ↔
        ∀ l ∈ plainRequest.requestLine :: plainRequest.headers,
          ¬ (0 < l.content.length ∧ 1023 ∣ l.content.length)) :=
  ⟨plainRequest_delimited _,
    doRead_framing_iff plainRequest [71, 69, 84] false ⟨[], [], []⟩ (plainRequest_delimited _)⟩

/-- A header line of 1023 bytes. -/
def longHeader : TextLine where
  content := List.replicate 1023 97
  ending := Ending.crlf
  noBreak := ⟨fun h => absurd (List.eq_of_mem_replicate h) (by decide),
    fun h => absurd (List.eq_of_mem_replicate h) (by decide)⟩

theorem longHeader_length : longHeader.content.length = 1023 := List.length_replicate

/-- The plain request with this header line. -/
def longHeaderRequest : Request where
  requestLine := plainRequest.requestLine
  headers := [longHeader]
  blank := Ending.crlf
  requestLine_ne := plainRequest.requestLine_ne
  headers_ne := by
    rw [List.forall_mem_singleton, ← List.length_pos_iff, longHeader_length]
    decide

/-- **A header line of 1023 bytes hides the empty line**: `do_read` returns, and
does not leave what follows the request. -/
theorem longHeader_not_framed : Delimited longHeaderRequest.lines [] ∧
    ∃ out, DoReadReturns Stream.sock ⟨[], [], []⟩ ⟨longHeaderRequest.bytes ++ [], false⟩ out ∧
      out.2 ≠ ⟨[], false⟩ := by
  have hreq : Delimited longHeaderRequest.lines [] := by
    refine ⟨?_, ?_, ?_, trivial⟩ <;> intro h <;> cases h
  refine ⟨hreq, ?_⟩
  obtain ⟨left, hreturns, hiff⟩ := exists_doReadReturns longHeaderRequest [] false ⟨[], [], []⟩ hreq
  refine ⟨_, hreturns, ?_⟩
  rw [Ne, Stream.mk.injEq, and_iff_left rfl, hiff]
  intro h
  exact h longHeader (List.mem_cons_of_mem _ List.mem_cons_self) (dvd_of_eq longHeader_length.symm)

end MyHttpd
