/-
# `do_read` of the web server (`http/myhttpd.c`)

`do_read` reads one line as the request line, takes method and path out of it with
`sscanf`, reads on until `get_line` returns a line that starts with LF or -1, and
hands the file to `http_request` if the method starts with `GET`.  It runs over an
arbitrary `Sock`; the reading loop has no bound of its own, so it gets `fuel`, and
`DoReadReturns` says that it returns whatever the fuel is from some number on.

The three arrays that `sscanf` fills are not initialised: their cells on entry are
a parameter.  They are lists of any length, so a field longer than its array (which
`sscanf` does not check) is stored whole.  What is sent to the client, the prints
and the error exits of the system calls are left out.
-/
import Mathlib.Data.List.TakeWhile
import NetStudy.LineStream

namespace MyHttpd

variable {σ : Type*}

/-! ## C strings -/

/-- The C string that starts at the first of these cells. -/
def cstr (cells : List UInt8) : List UInt8 := cells.takeWhile (· ≠ 0)

/-- `' '`. -/
abbrev SP : UInt8 := 32

/-- `isspace` in the C locale. -/
def isSpace (c : UInt8) : Bool := c == SP || (9 ≤ c && c ≤ 13)

/-- `tolower` in the C locale. -/
def toLower (c : UInt8) : UInt8 := if 65 ≤ c ∧ c ≤ 90 then c + 32 else c

/-- `strncasecmp(method, "GET", 3) == 0`. -/
def isGet (method : List UInt8) : Bool := ((cstr method).take 3).map toLower == [103, 101, 116]

/-- The conversion `%[^ ]`: the bytes up to the next space, at least one, and the
input behind them. -/
def scanField (s : List UInt8) : Option (List UInt8 × List UInt8) :=
  if s.head? = none ∨ s.head? = some SP then none
  else some (s.takeWhile (· ≠ SP), s.dropWhile (· ≠ SP))

/-- A space in the format skips any amount of white space. -/
def skipSpace (s : List UInt8) : List UInt8 := s.dropWhile isSpace

/-- The cells of an array after a C string has been stored in it. -/
def storeString (cells s : List UInt8) : List UInt8 := s ++ 0 :: cells.drop (s.length + 1)

/-- The arrays `method`, `path` and `protocol`. -/
structure Locals where
  method : List UInt8
  path : List UInt8
  protocol : List UInt8
  deriving DecidableEq

/-- `sscanf(line, "%[^ ] %[^ ] %[^ ]", method, path, protocol)` (line 248).  It
stops at the first conversion that fails, and leaves the arrays behind it alone. -/
def sscanfLine (line : List UInt8) (l : Locals) : Locals :=
  match scanField (cstr line) with
  | none => l
  | some (m, s) =>
      match scanField (skipSpace s) with
      | none => { l with method := storeString l.method m }
      | some (p, s) =>
          match scanField (skipSpace s) with
          | none => { l with method := storeString l.method m, path := storeString l.path p }
          | some (q, _) =>
              { method := storeString l.method m, path := storeString l.path p,
                protocol := storeString l.protocol q }

/-! ## The function -/

/-- What a call does about the descriptor: it closes it, it passes a request on to
`http_request`, here with its method, or it does neither. -/
inductive Outcome
  | closed
  | ignored
  | request (method file : List UInt8)
  deriving DecidableEq

/-- Lines 264-268: `file` is `path + 1`. -/
def act (l : Locals) : Outcome :=
  if isGet l.method then Outcome.request (cstr l.method) (cstr (l.path.drop 1))
  else Outcome.ignored

/-- The test of line 256: `buf[0] == '\n' || -1 == len`. -/
def Reading.stops (r : Reading) : Bool := r.cells.head? == some LF || r.ret == -1

/-- The loop of lines 252-261. -/
def drain (K : Sock σ) : ℕ → σ → Option σ
  | 0, _ => none
  | fuel + 1, s =>
      if (getLine K 1024 s).1.stops then some (getLine K 1024 s).2
      else drain K fuel (getLine K 1024 s).2

/-- `do_read(cfd, efd)`, with the cells `junk` in its arrays on entry.  A first
`get_line` that returns -1 is not told apart from a line. -/
def doRead (K : Sock σ) (fuel : ℕ) (junk : Locals) (s : σ) : Option (Outcome × σ) :=
  if (getLine K 1024 s).1.ret = 0 then some (Outcome.closed, (getLine K 1024 s).2)
  else (drain K fuel (getLine K 1024 s).2).map
    (fun s' => (act (sscanfLine (getLine K 1024 s).1.cells junk), s'))

/-- The call returns, with the outcome and the socket of `out`. -/
def DoReadReturns (K : Sock σ) (junk : Locals) (s : σ) (out : Outcome × σ) : Prop :=
  ∃ fuel, ∀ fuel', fuel ≤ fuel' → doRead K fuel' junk s = some out

/-- The loop ends, with the socket in state `s'`. -/
def Drains (K : Sock σ) (s s' : σ) : Prop := ∃ fuel, drain K fuel s = some s'

/-- More fuel does not change what the loop gives. -/
theorem drain_mono {K : Sock σ} {fuel fuel' : ℕ} {s s' : σ} (h : drain K fuel s = some s')
    (hle : fuel ≤ fuel') : drain K fuel' s = some s' := by
  induction fuel generalizing fuel' s with
  | zero => cases h
  | succ fuel ih =>
      obtain ⟨fuel', rfl⟩ := Nat.exists_eq_add_of_le' (show 1 ≤ fuel' by omega)
      rw [drain] at h ⊢
      split_ifs at h ⊢ with hstop
      · exact h
      · exact ih h (by omega)

/-- The loop ends at a line that passes its test. -/
theorem Drains.stop {K : Sock σ} {s : σ} (h : (getLine K 1024 s).1.stops = true) :
    Drains K s (getLine K 1024 s).2 :=
  ⟨1, by rw [drain, if_pos h]⟩

/-- The loop goes on behind a line that does not. -/
theorem Drains.more {K : Sock σ} {s s' : σ} (h : (getLine K 1024 s).1.stops = false)
    (hrest : Drains K (getLine K 1024 s).2 s') : Drains K s s' := by
  obtain ⟨fuel, hfuel⟩ := hrest
  refine ⟨fuel + 1, ?_⟩
  rw [drain, if_neg (by rw [h]; exact Bool.false_ne_true), hfuel]

/-- A call whose first line is not empty returns when its loop does. -/
theorem DoReadReturns.of_drains {K : Sock σ} {s s' : σ} (junk : Locals)
    (hret : (getLine K 1024 s).1.ret ≠ 0) (h : Drains K (getLine K 1024 s).2 s') :
    DoReadReturns K junk s (act (sscanfLine (getLine K 1024 s).1.cells junk), s') := by
  obtain ⟨fuel, hfuel⟩ := h
  refine ⟨fuel, fun fuel' hle => ?_⟩
  rw [doRead, if_neg hret, drain_mono hfuel hle]
  rfl

/-- A call returns one result. -/
theorem DoReadReturns.unique {K : Sock σ} {junk : Locals} {s : σ} {out out' : Outcome × σ}
    (h : DoReadReturns K junk s out) (h' : DoReadReturns K junk s out') : out = out' := by
  obtain ⟨fuel, hfuel⟩ := h
  obtain ⟨fuel', hfuel'⟩ := h'
  have heq := hfuel (max fuel fuel') (le_max_left _ _)
  rw [hfuel' (max fuel fuel') (le_max_right _ _), Option.some.injEq] at heq
  exact heq.symm

/-! ## The test of the loop over a stream -/

/-- The number of bytes `get_line` stores at most for `char buf[1024]`. -/
abbrev lineRoom : ℕ := 1023

/-- A call over a stream. -/
theorem getLine_1024 (bs : List UInt8) (eof : Bool) :
    getLine Stream.sock 1024 ⟨bs, eof⟩
      = (⟨if dry lineRoom bs = true ∧ eof = false then -1 else (cut lineRoom bs).1.length,
          (cut lineRoom bs).1 ++ [0]⟩, ⟨(cut lineRoom bs).2, eof⟩) :=
  getLine_stream 1024 bs eof

/-- What a call leaves of the stream. -/
@[simp] theorem getLine_rest (bs : List UInt8) (eof : Bool) :
    (getLine Stream.sock 1024 ⟨bs, eof⟩).2 = ⟨(cut lineRoom bs).2, eof⟩ := by
  rw [getLine_1024]

@[simp] theorem getLine_cells (bs : List UInt8) (eof : Bool) :
    (getLine Stream.sock 1024 ⟨bs, eof⟩).1.cells = (cut lineRoom bs).1 ++ [0] := by
  rw [getLine_1024]

/-- A call returns -1 exactly if it runs dry before the end of the stream. -/
theorem getLine_ret_neg_iff (bs : List UInt8) (eof : Bool) :
    (getLine Stream.sock 1024 ⟨bs, eof⟩).1.ret = -1 ↔ dry lineRoom bs = true ∧ eof = false := by
  rw [getLine_1024]
  constructor
  · intro h
    by_contra hdry
    simp only [if_neg hdry] at h
    omega
  · intro h
    simp only [if_pos h]

/-- A call returns 0 exactly at the end of the stream. -/
theorem getLine_ret_zero_iff (bs : List UInt8) (eof : Bool) :
    (getLine Stream.sock 1024 ⟨bs, eof⟩).1.ret = 0 ↔ bs = [] ∧ eof = true := by
  rw [getLine_1024]
  by_cases hbs : bs = []
  · subst hbs
    cases eof <;> simp [dry]
  · -- a line of at least one byte, or -1
    have hpos := List.length_pos_iff.mpr (cut_ne_nil (show 1 ≤ lineRoom by decide) hbs)
    have hno : ¬ (bs = [] ∧ eof = true) := fun h => hbs h.1
    rw [iff_false_intro hno, iff_false]
    by_cases hdry : dry lineRoom bs = true ∧ eof = false
    · simp only [if_pos hdry]
      decide
    · simp only [if_neg hdry]
      omega

/-- The loop stops at a piece that starts with LF, and where the stream is dry. -/
theorem stops_iff (bs : List UInt8) (eof : Bool) :
    (getLine Stream.sock 1024 ⟨bs, eof⟩).1.stops = true ↔
      (cut lineRoom bs).1.head? = some LF ∨ (dry lineRoom bs = true ∧ eof = false) := by
  rw [Reading.stops, Bool.or_eq_true, beq_iff_eq, beq_iff_eq, getLine_ret_neg_iff, getLine_cells]
  have hhead : ((cut lineRoom bs).1 ++ [0]).head? = some LF ↔
      (cut lineRoom bs).1.head? = some LF := by
    rcases (cut lineRoom bs).1 with _ | ⟨c, cs⟩
    · decide
    · rfl
  rw [hhead]

/-- **The loop ends on every stream that has not ended**: at the latest where it has
read everything. -/
theorem exists_drains_open (bs : List UInt8) :
    ∃ rest, Drains Stream.sock ⟨bs, false⟩ ⟨rest, false⟩ := by
  -- along the pieces; with nothing left the next call returns -1
  induction bs using pieces_induction (show 1 ≤ lineRoom by decide) with
  | hnil =>
      have hstop : (getLine Stream.sock 1024 ⟨[], false⟩).1.stops = true := by decide
      exact ⟨[], Drains.stop hstop⟩
  | hcut bs hbs ih =>
      rcases hstop : (getLine Stream.sock 1024 ⟨bs, false⟩).1.stops with _ | _
      · obtain ⟨rest, hrest⟩ := ih
        refine ⟨rest, Drains.more hstop ?_⟩
        rw [getLine_rest]
        exact hrest
      · refine ⟨(cut lineRoom bs).2, ?_⟩
        have := Drains.stop hstop
        rwa [getLine_rest] at this

/-! ## The fields of the request line -/

/-- The first two words of a line, if `sscanf` finds both. -/
def twoFields (line : List UInt8) : Option (List UInt8 × List UInt8) :=
  match scanField (cstr line) with
  | none => none
  | some (m, s) => (scanField (skipSpace s)).map (fun f => (m, f.1))

/-- Nothing of a C string is NUL. -/
theorem zero_notMem_cstr (cells : List UInt8) : 0 ∉ cstr cells := by
  intro h
  have := List.mem_takeWhile_imp h
  simp at this

/-- A string is read back up to its NUL. -/
theorem cstr_append_zero {s : List UInt8} (cells : List UInt8) (h : 0 ∉ s) :
    cstr (s ++ 0 :: cells) = s := by
  rw [cstr, List.takeWhile_append_of_pos]
  · simp
  · intro c hc
    exact decide_eq_true (fun h0 => h (h0 ▸ hc))

theorem cstr_of_zero_notMem {s : List UInt8} (h : 0 ∉ s) : cstr s = s :=
  List.takeWhile_eq_self_iff.mpr (fun _ hc => decide_eq_true (fun h0 => h (h0 ▸ hc)))

/-- A field is not empty, and its bytes and those behind it come from the input. -/
theorem scanField_some {s m rest : List UInt8} (h : scanField s = some (m, rest)) :
    m ≠ [] ∧ m ⊆ s ∧ rest ⊆ s := by
  rw [scanField] at h
  split_ifs at h with hhead
  rw [Option.some.injEq, Prod.mk.injEq] at h
  obtain ⟨rfl, rfl⟩ := h
  refine ⟨?_, (List.takeWhile_sublist _).subset, (List.dropWhile_sublist _).subset⟩
  cases s with
  | nil => exact absurd (Or.inl rfl) hhead
  | cons c cs =>
      have hc : c ≠ SP := fun h => hhead (Or.inr (by rw [h]; rfl))
      simp [hc]

/-- `sscanf` stores the two words, whether or not there is a third one. -/
theorem sscanfLine_twoFields {line m p : List UInt8} (junk : Locals)
    (h : twoFields line = some (m, p)) :
    (sscanfLine line junk).method = storeString junk.method m ∧
      (sscanfLine line junk).path = storeString junk.path p := by
  unfold twoFields at h
  unfold sscanfLine
  rcases hm : scanField (cstr line) with _ | ⟨m', s⟩
  · simp [hm] at h
  · rcases hp : scanField (skipSpace s) with _ | ⟨p', s'⟩
    · simp [hm, hp] at h
    · simp only [hm, hp, Option.map_some, Option.some.injEq, Prod.mk.injEq] at h ⊢
      obtain ⟨rfl, rfl⟩ := h
      rcases scanField (skipSpace s') with _ | ⟨q, s''⟩ <;> exact ⟨rfl, rfl⟩

/-- The two words are not empty and hold no NUL. -/
theorem twoFields_words {line m p : List UInt8} (h : twoFields line = some (m, p)) :
    0 ∉ m ∧ 0 ∉ p ∧ p ≠ [] := by
  unfold twoFields at h
  rcases hm : scanField (cstr line) with _ | ⟨m', s⟩
  · simp [hm] at h
  · rcases hp : scanField (skipSpace s) with _ | ⟨p', s'⟩
    · simp [hm, hp] at h
    · simp only [hm, hp, Option.map_some, Option.some.injEq, Prod.mk.injEq] at h
      obtain ⟨rfl, rfl⟩ := h
      obtain ⟨-, hmsub, hssub⟩ := scanField_some hm
      obtain ⟨hpne, hpsub, -⟩ := scanField_some hp
      have hskip : skipSpace s ⊆ s := (List.dropWhile_sublist _).subset
      exact ⟨fun h0 => zero_notMem_cstr line (hmsub h0),
        fun h0 => zero_notMem_cstr line (hssub (hskip (hpsub h0))), hpne⟩

/-- **The cells on entry do not matter** for a line with a method and a path. -/
theorem act_sscanfLine {line m p : List UInt8} (junk : Locals)
    (h : twoFields line = some (m, p)) :
    act (sscanfLine line junk)
      = if isGet m then Outcome.request m (p.drop 1) else Outcome.ignored := by
  obtain ⟨hmethod, hpath⟩ := sscanfLine_twoFields junk h
  obtain ⟨hm, hp, hpne⟩ := twoFields_words h
  have hget : isGet (storeString junk.method m) = isGet m := by
    rw [isGet, storeString, cstr_append_zero _ hm, isGet, cstr_of_zero_notMem hm]
  have hfile : cstr ((storeString junk.path p).drop 1) = p.drop 1 := by
    obtain ⟨c, cs, rfl⟩ := List.exists_cons_of_ne_nil hpne
    exact cstr_append_zero _ (fun h0 => hp (List.mem_cons_of_mem _ h0))
  rw [act, hmethod, hpath, hget, hfile, storeString, cstr_append_zero _ hm]

end MyHttpd
