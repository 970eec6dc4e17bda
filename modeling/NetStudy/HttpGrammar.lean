/-
# The grammar of an HTTP/1.1 response

A response is a status line, header lines, an empty line and a body; every line but
the body ends in CR LF.  A header line is a name, a colon and a value, and blanks
around a value or a reason phrase do not count.

`decode` reads a response.  `decode_lines` says what it reads from a text that is
written line by line, and `decode_eq_none` that it reads nothing from a text whose
first line is no status line.
-/
import Mathlib.Data.List.TakeWhile
import Mathlib.Data.List.DropRight

namespace HttpGrammar

/-! ## Lines -/

/-- CR LF. -/
abbrev lineEnd : List UInt8 := [13, 10]

/-- The first line of a text, without its CR LF, and what is behind it. -/
def line : List UInt8 → Option (List UInt8 × List UInt8)
  | [] => none
  | c :: bs =>
      if c = 13 ∧ bs.head? = some 10 then some ([], bs.tail)
      else (line bs).map (fun l => (c :: l.1, l.2))

/-- The lines up to the first empty one, and what is behind it.  A text has no more
lines than bytes. -/
def headerLines : ℕ → List UInt8 → Option (List (List UInt8) × List UInt8)
  | 0, _ => none
  | fuel + 1, bs =>
      match line bs with
      | none => none
      | some ([], rest) => some ([], rest)
      | some (c :: l, rest) => (headerLines fuel rest).map (fun ls => ((c :: l) :: ls.1, ls.2))

/-! ## The parts of a line -/

/-- A space or a tab. -/
def isBlank (c : UInt8) : Bool := c == 32 || c == 9

/-- A text without the blanks around it. -/
def trim (s : List UInt8) : List UInt8 := (s.dropWhile isBlank).rdropWhile isBlank

/-- `"HTTP/1.1 "`. -/
abbrev version : List UInt8 := [72, 84, 84, 80, 47, 49, 46, 49, 32]

/-- The status and the reason phrase of a status line. -/
def statusOf (l : List UInt8) : Option (List UInt8 × List UInt8) :=
  if l.take 9 = version then
    some ((l.drop 9).takeWhile (· ≠ 32), trim ((l.drop 9).dropWhile (· ≠ 32)))
  else none

/-- The name and the value of a header line. -/
def fieldOf (l : List UInt8) : Option (List UInt8 × List UInt8) :=
  if (58 : UInt8) ∈ l then some (l.takeWhile (· ≠ 58), trim (l.dropWhile (· ≠ 58)).tail)
  else none

/-- A blank in front is trimmed. -/
theorem trim_cons_blank {c : UInt8} (s : List UInt8) (hc : isBlank c = true) :
    trim (c :: s) = trim s := by
  rw [trim, trim, List.dropWhile_cons_of_pos hc]

/-- A blank behind is trimmed. -/
theorem trim_append_blank {c : UInt8} (s : List UInt8) (hc : isBlank c = true) :
    trim (s ++ [c]) = trim s := by
  induction s with
  | nil => rw [List.nil_append, trim_cons_blank [] hc]
  | cons d s ih =>
      by_cases hd : isBlank d = true
      · rw [List.cons_append, trim_cons_blank _ hd, trim_cons_blank _ hd, ih]
      · rw [List.cons_append, trim, trim, List.dropWhile_cons_of_neg hd,
          List.dropWhile_cons_of_neg hd, ← List.cons_append, List.rdropWhile_concat_pos _ _ _ hc]

/-! ## Responses -/

/-- A response that has been read. -/
structure Response where
  status : List UInt8
  reason : List UInt8
  fields : List (List UInt8 × List UInt8)
  body : List UInt8
  deriving DecidableEq

/-- The value of the first field with a name. -/
def Response.field (r : Response) (name : List UInt8) : Option (List UInt8) :=
  (r.fields.find? (fun f => f.1 == name)).map Prod.snd

/-- Reads the lines behind the status line. -/
def decodeFields (status : List UInt8 × List UInt8) (bs : List UInt8) : Option Response :=
  match headerLines (bs.length + 1) bs with
  | none => none
  | some (ls, body) =>
      (ls.mapM fieldOf).map (fun fs => ⟨status.1, status.2, fs, body⟩)

/-- Reads a response. -/
def decode (bs : List UInt8) : Option Response :=
  match line bs with
  | none => none
  | some (l, rest) => (statusOf l).bind (fun status => decodeFields status rest)

/-! ## Reading what is written line by line -/

/-- The status and the reason behind the version. -/
theorem statusOf_append {code : List UInt8} (reason : List UInt8) (h : 32 ∉ code) :
    statusOf (version ++ (code ++ 32 :: reason)) = some (code, trim reason) := by
  have hcode : ∀ c ∈ code, decide (c ≠ 32) = true := by
    intro c hc
    exact decide_eq_true (fun h0 => h (h0 ▸ hc))
  have htake : (version ++ (code ++ 32 :: reason)).take 9 = version := rfl
  have hdrop : (version ++ (code ++ 32 :: reason)).drop 9 = code ++ 32 :: reason := rfl
  rw [statusOf, if_pos htake, hdrop, List.takeWhile_append_of_pos hcode,
    List.dropWhile_append_of_pos hcode, List.takeWhile_cons_of_neg (by decide),
    List.dropWhile_cons_of_neg (by decide), List.append_nil, trim_cons_blank reason rfl]

/-- The name and the value around a colon. -/
theorem fieldOf_append {name : List UInt8} (value : List UInt8) (h : 58 ∉ name) :
    fieldOf (name ++ 58 :: value) = some (name, trim value) := by
  have hname : ∀ c ∈ name, decide (c ≠ 58) = true := by
    intro c hc
    exact decide_eq_true (fun h0 => h (h0 ▸ hc))
  have hmem : (58 : UInt8) ∈ name ++ 58 :: value :=
    List.mem_append_right _ List.mem_cons_self
  rw [fieldOf, if_pos hmem, List.takeWhile_append_of_pos hname,
    List.dropWhile_append_of_pos hname, List.takeWhile_cons_of_neg (by decide),
    List.dropWhile_cons_of_neg (by decide), List.append_nil, List.tail_cons]

/-- A line without CR is read up to its line ending. -/
theorem line_append {l : List UInt8} (rest : List UInt8) (h : 13 ∉ l) :
    line (l ++ (lineEnd ++ rest)) = some (l, rest) := by
  induction l with
  | nil => rfl
  | cons c l ih =>
      rw [List.mem_cons, not_or] at h
      have hc : ¬ (c = 13 ∧ (l ++ (lineEnd ++ rest)).head? = some 10) :=
        fun hcr => h.1 hcr.1.symm
      rw [List.cons_append, line, if_neg hc, ih h.2]
      rfl

/-- The header lines of a text, each with its line ending. -/
def writeLines (ls : List (List UInt8)) : List UInt8 := ls.flatMap (· ++ lineEnd)

theorem length_le_writeLines (ls : List (List UInt8)) : ls.length ≤ (writeLines ls).length := by
  induction ls with
  | nil => simp
  | cons l ls ih =>
      rw [writeLines, List.flatMap_cons, List.length_append, List.length_append, List.length_cons]
      rw [writeLines] at ih
      have hend : lineEnd.length = 2 := rfl
      omega

/-- Lines that are not empty are read up to the empty one. -/
theorem headerLines_writeLines {ls : List (List UInt8)} (body : List UInt8)
    (h : ∀ l ∈ ls, l ≠ [] ∧ 13 ∉ l) {fuel : ℕ} (hfuel : ls.length < fuel) :
    headerLines fuel (writeLines ls ++ (lineEnd ++ body)) = some (ls, body) := by
  induction ls generalizing fuel with
  | nil =>
      obtain ⟨fuel, rfl⟩ := Nat.exists_eq_succ_of_ne_zero (show fuel ≠ 0 by omega)
      rfl
  | cons l ls ih =>
      obtain ⟨hne, hcr⟩ := h l List.mem_cons_self
      obtain ⟨c, cs, rfl⟩ := List.exists_cons_of_ne_nil hne
      rw [List.length_cons] at hfuel
      obtain ⟨fuel, rfl⟩ := Nat.exists_eq_succ_of_ne_zero (show fuel ≠ 0 by omega)
      have htext : writeLines ((c :: cs) :: ls) ++ (lineEnd ++ body)
          = (c :: cs) ++ (lineEnd ++ (writeLines ls ++ (lineEnd ++ body))) := by
        simp [writeLines]
      have hrest : headerLines fuel (writeLines ls ++ (lineEnd ++ body)) = some (ls, body) :=
        ih (fun l' hl' => h l' (List.mem_cons_of_mem _ hl')) (by omega)
      simp only [headerLines, htext, line_append _ hcr, hrest, Option.map_some]

/-- **A text that is written line by line** is read line by line. -/
theorem decode_lines {first : List UInt8} {ls : List (List UInt8)}
    {status : List UInt8 × List UInt8} {fs : List (List UInt8 × List UInt8)}
    (body : List UInt8) (hfirst : 13 ∉ first) (hstatus : statusOf first = some status)
    (hls : ∀ l ∈ ls, l ≠ [] ∧ 13 ∉ l) (hfs : ls.mapM fieldOf = some fs) :
    decode (first ++ (lineEnd ++ (writeLines ls ++ (lineEnd ++ body))))
      = some ⟨status.1, status.2, fs, body⟩ := by
  have hfuel : ls.length < (writeLines ls ++ (lineEnd ++ body)).length + 1 := by
    have := length_le_writeLines ls
    rw [List.length_append]
    omega
  have hlines := headerLines_writeLines body hls hfuel
  simp only [decode, line_append _ hfirst, hstatus, Option.bind_some, decodeFields, hlines, hfs,
    Option.map_some]

/-- The first line begins with the first byte of the text, unless it is empty. -/
theorem line_head {bs l rest : List UInt8} {c : UInt8} (hl : line bs = some (l, rest))
    (hc : l.head? = some c) : bs.head? = some c := by
  cases bs with
  | nil => cases hl
  | cons d bs =>
      rw [line] at hl
      split_ifs at hl with hend
      · rw [Option.some.injEq, Prod.mk.injEq] at hl
        rw [← hl.1] at hc
        cases hc
      · obtain ⟨l', -, hl'⟩ := Option.map_eq_some_iff.mp hl
        rw [Prod.mk.injEq] at hl'
        rw [← hl'.1] at hc
        exact hc

/-- A text that does not begin with the version is no response. -/
theorem decode_eq_none {bs : List UInt8} (h : bs.head? ≠ version.head?) : decode bs = none := by
  rcases hline : line bs with _ | ⟨l, rest⟩
  · rw [decode, hline]
  · have hstatus : statusOf l = none := by
      rw [statusOf, if_neg]
      intro hversion
      have hhead : l.head? = version.head? := by
        cases l with
        | nil => cases hversion
        | cons c l => rw [← hversion]; rfl
      exact h (line_head hline hhead)
    simp only [decode, hline, hstatus, Option.bind_none]

end HttpGrammar
