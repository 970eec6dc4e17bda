/-
# Repeated calls of `get_line` as a transducer of streams

On a stream that ends, the calls of `get_line` up to the first one that returns 0
deliver the `pieces` of the stream: it is cut again and again, each time with room
for `size - 1` bytes.  Joined together the pieces are the stream with every line
ending written as one LF (`normalise`), and each piece is a line of the promised
shape (`getLine_transduces`).
-/
import NetStudy.GetLine

namespace MyHttpd

variable {σ : Type*}

/-! ## Normalised line endings -/

/-- The stream with every CR LF replaced by LF, and every other CR as well. -/
def normalise : List UInt8 → List UInt8
  | [] => []
  | c :: bs =>
      if c = CR then
        -- the LF of a pair stays and stands for the pair
        if bs.head? = some LF then normalise bs else LF :: normalise bs
      else c :: normalise bs

/-- Behind the LF that a CR becomes comes what follows the line ending. -/
theorem normalise_cr (bs : List UInt8) : normalise (CR :: bs) = LF :: normalise (skipLF bs) := by
  rw [normalise, if_pos rfl, skipLF]
  split_ifs with h
  · obtain ⟨rest, rfl⟩ := List.head?_eq_some_iff.mp h
    rw [normalise, if_neg (by decide), List.tail_cons]
  · rfl

theorem normalise_char {c : UInt8} (bs : List UInt8) (hcr : c ≠ CR) :
    normalise (c :: bs) = c :: normalise bs := by
  rw [normalise, if_neg hcr]

/-- **Nothing is lost at a cut**, and no line ending is cut in two. -/
theorem normalise_cut (room : ℕ) (bs : List UInt8) :
    normalise bs = (cut room bs).1 ++ normalise (cut room bs).2 := by
  induction room generalizing bs with
  | zero => simp
  | succ room ih =>
      cases bs with
      | nil => rfl
      | cons c bs =>
          by_cases hcr : c = CR
          · rw [hcr, cut_cr, normalise_cr]
            rfl
          · rw [normalise_char _ hcr]
            by_cases hlf : c = LF
            · rw [hlf, cut_lf]
              rfl
            · rw [cut_char _ _ hcr hlf, List.cons_append, ← ih bs]

/-! ## The shape of a piece -/

theorem cut_length_le_room (room : ℕ) (bs : List UInt8) : (cut room bs).1.length ≤ room := by
  induction room generalizing bs with
  | zero => simp
  | succ room ih =>
      cases bs with
      | nil => simp
      | cons c bs =>
          have hrest := ih bs
          rw [cut]
          split_ifs
          · show 1 ≤ room + 1
            omega
          · show 1 ≤ room + 1
            omega
          · show (cut room bs).1.length + 1 ≤ room + 1
            omega

/-- No CR gets into the buffer. -/
theorem cr_notMem_cut (room : ℕ) (bs : List UInt8) : CR ∉ (cut room bs).1 := by
  induction room generalizing bs with
  | zero => simp
  | succ room ih =>
      cases bs with
      | nil => simp
      | cons c bs =>
          rw [cut]
          split_ifs with hcr hlf
          · show CR ∉ [LF]
            decide
          · show CR ∉ [LF]
            decide
          · rintro hmem
            rcases List.mem_cons.mp hmem with heq | hmem
            · exact hcr heq.symm
            · exact ih bs hmem

/-- An LF ends the piece. -/
theorem lf_notMem_dropLast_cut (room : ℕ) (bs : List UInt8) :
    LF ∉ (cut room bs).1.dropLast := by
  induction room generalizing bs with
  | zero => simp
  | succ room ih =>
      cases bs with
      | nil => simp
      | cons c bs =>
          rw [cut]
          split_ifs with hcr hlf
          · simp
          · simp
          · show LF ∉ (c :: (cut room bs).1).dropLast
            intro hmem
            -- the byte in front is no LF, and it is not dropped if anything follows it
            rcases hpiece : (cut room bs).1 with _ | ⟨d, ds⟩
            · simp [hpiece] at hmem
            · rw [hpiece, List.dropLast_cons_cons, List.mem_cons] at hmem
              rcases hmem with heq | hmem
              · exact hlf heq.symm
              · exact ih bs (hpiece ▸ hmem)

/-- A piece ends in LF, fills the room, or is all that was left. -/
theorem cut_end (room : ℕ) (bs : List UInt8) :
    (cut room bs).1.getLast? = some LF ∨ (cut room bs).1.length = room ∨
      (cut room bs).2 = [] := by
  induction room generalizing bs with
  | zero => exact Or.inr (Or.inl (by simp))
  | succ room ih =>
      cases bs with
      | nil => exact Or.inr (Or.inr rfl)
      | cons c bs =>
          rw [cut]
          split_ifs with hcr hlf
          · exact Or.inl rfl
          · exact Or.inl rfl
          · rcases ih bs with hlast | hfull | hall
            · exact Or.inl (by simp [List.getLast?_cons, hlast])
            · exact Or.inr (Or.inl (by simp [hfull]))
            · exact Or.inr (Or.inr hall)

/-! ## The pieces of a stream -/

/-- The first `fuel` pieces of a stream. -/
def piecesUpTo (room : ℕ) : ℕ → List UInt8 → List (List UInt8)
  | 0, _ => []
  | fuel + 1, bs =>
      if bs = [] then [] else (cut room bs).1 :: piecesUpTo room fuel (cut room bs).2

/-- The pieces into which a stream is cut by calls with the same room. -/
def pieces (room : ℕ) (bs : List UInt8) : List (List UInt8) := piecesUpTo room bs.length bs

variable {room : ℕ}

/-- A stream has no more pieces than bytes. -/
theorem piecesUpTo_of_le (hroom : 1 ≤ room) {fuel fuel' : ℕ} {bs : List UInt8}
    (h : bs.length ≤ fuel) (h' : bs.length ≤ fuel') :
    piecesUpTo room fuel bs = piecesUpTo room fuel' bs := by
  induction fuel generalizing fuel' bs with
  | zero =>
      have hnil : bs = [] := List.length_eq_zero_iff.mp (by omega)
      cases fuel' <;> simp [piecesUpTo, hnil]
  | succ fuel ih =>
      by_cases hbs : bs = []
      · cases fuel' <;> simp [piecesUpTo, hbs]
      · have hlt := cut_length_lt hroom hbs
        obtain ⟨fuel', rfl⟩ := Nat.exists_eq_add_of_le' (show 1 ≤ fuel' by omega)
        have hrest : piecesUpTo room fuel (cut room bs).2 = piecesUpTo room fuel' (cut room bs).2 :=
          ih (by omega) (by omega)
        rw [piecesUpTo, piecesUpTo, if_neg hbs, if_neg hbs, hrest]

@[simp] theorem pieces_nil (room : ℕ) : pieces room [] = [] := rfl

/-- The first piece and the pieces of what it leaves. -/
theorem pieces_of_ne_nil (hroom : 1 ≤ room) {bs : List UInt8} (hbs : bs ≠ []) :
    pieces room bs = (cut room bs).1 :: pieces room (cut room bs).2 := by
  have hlt := cut_length_lt hroom hbs
  obtain ⟨n, hn⟩ := Nat.exists_eq_add_of_le' (show 1 ≤ bs.length by omega)
  rw [pieces, hn, piecesUpTo, if_neg hbs, pieces, piecesUpTo_of_le hroom (by omega) le_rfl]

/-- Induction along the pieces. -/
theorem pieces_induction (hroom : 1 ≤ room) {motive : List UInt8 → Prop} (hnil : motive [])
    (hcut : ∀ bs, bs ≠ [] → motive (cut room bs).2 → motive bs) (bs : List UInt8) :
    motive bs := by
  induction hn : bs.length using Nat.strong_induction_on generalizing bs with
  | _ n ih =>
      by_cases hbs : bs = []
      · rw [hbs]
        exact hnil
      · exact hcut bs hbs (ih _ (hn ▸ cut_length_lt hroom hbs) _ rfl)

/-- The pieces, one after the other, are the normalised stream. -/
theorem flatten_pieces (hroom : 1 ≤ room) (bs : List UInt8) :
    (pieces room bs).flatten = normalise bs := by
  induction bs using pieces_induction hroom with
  | hnil => rfl
  | hcut bs hbs ih =>
      rw [pieces_of_ne_nil hroom hbs, List.flatten_cons, ih, ← normalise_cut]

/-- Every piece is a piece cut off some non-empty stream. -/
theorem exists_cut_of_mem_pieces (hroom : 1 ≤ room) {bs p : List UInt8}
    (hp : p ∈ pieces room bs) : ∃ bs', bs' ≠ [] ∧ p = (cut room bs').1 := by
  induction bs using pieces_induction hroom with
  | hnil => cases hp
  | hcut bs hbs ih =>
      rw [pieces_of_ne_nil hroom hbs] at hp
      rcases List.mem_cons.mp hp with hhead | htail
      · exact ⟨bs, hbs, hhead⟩
      · exact ih htail

/-- A piece that neither ends in LF nor fills the room is the last one. -/
theorem pieces_end (hroom : 1 ≤ room) {bs p : List UInt8} {pre post : List (List UInt8)}
    (h : pieces room bs = pre ++ p :: post) :
    p.getLast? = some LF ∨ p.length = room ∨ post = [] := by
  -- along the pieces, until `pre` is used up
  induction bs using pieces_induction hroom generalizing pre with
  | hnil => cases pre <;> cases h
  | hcut bs hbs ih =>
      rw [pieces_of_ne_nil hroom hbs] at h
      cases pre with
      | nil =>
          rw [List.nil_append, List.cons.injEq] at h
          obtain ⟨rfl, rfl⟩ := h
          rcases cut_end room bs with hlast | hfull | hall
          · exact Or.inl hlast
          · exact Or.inr (Or.inl hfull)
          · rw [hall]
            exact Or.inr (Or.inr rfl)
      | cons q pre =>
          rw [List.cons_append, List.cons.injEq] at h
          exact ih h.2

/-! ## The calls up to the end of the stream -/

/-- Calls `get_line` until it returns 0, at most `fuel` times: what the calls leave
behind, the last one among them. -/
def readUntilZero (K : Sock σ) (size : ℕ) : ℕ → σ → Option (List Reading)
  | 0, _ => none
  | fuel + 1, s =>
      if (getLine K size s).1.ret = 0 then some [(getLine K size s).1]
      else (readUntilZero K size fuel (getLine K size s).2).map ((getLine K size s).1 :: ·)

/-- The line in the buffer: the cells before the index that is returned. -/
def Reading.text (r : Reading) : List UInt8 := r.cells.take r.ret.toNat

/-- What a call leaves behind that has read the piece `p`. -/
def readingOf (p : List UInt8) : Reading := ⟨p.length, p ++ [0]⟩

@[simp] theorem readingOf_text (p : List UInt8) : (readingOf p).text = p := by
  simp [Reading.text, readingOf]

/-- The number that is returned is the length of the piece, between 1 and the room. -/
theorem readingOf_length {p : List UInt8} (hp : p ≠ []) (hle : p.length ≤ room) :
    ((readingOf p).text.length : ℤ) = (readingOf p).ret ∧ 1 ≤ (readingOf p).ret ∧
      (readingOf p).ret ≤ room := by
  have hpos := List.length_pos_iff.mpr hp
  rw [readingOf_text]
  show _ ∧ (1 : ℤ) ≤ (p.length : ℤ) ∧ (p.length : ℤ) ≤ room
  exact ⟨rfl, by omega, by omega⟩

/-- The NUL stands at the index that is returned. -/
theorem readingOf_nul {p : List UInt8} {size : ℕ} (hlt : p.length < size) :
    0 ≤ (readingOf p).ret ∧ (readingOf p).ret < size ∧
      (readingOf p).cells[(readingOf p).ret.toNat]? = some 0 := by
  show 0 ≤ (p.length : ℤ) ∧ (p.length : ℤ) < size ∧ (p ++ [0])[(p.length : ℤ).toNat]? = some 0
  refine ⟨by omega, by omega, ?_⟩
  simp

/-- On a stream that ends a call never returns -1. -/
theorem getLine_ended (size : ℕ) (bs : List UInt8) :
    getLine Stream.sock size ⟨bs, true⟩
      = (readingOf (cut (size - 1) bs).1, ⟨(cut (size - 1) bs).2, true⟩) := by
  rw [getLine_stream, if_neg (by simp), readingOf]

/-- The calls deliver the pieces, and then an empty line. -/
theorem readUntilZero_ended {size fuel : ℕ} (hsize : 2 ≤ size) (bs : List UInt8)
    (hfuel : bs.length < fuel) :
    readUntilZero Stream.sock size fuel ⟨bs, true⟩
      = some ((pieces (size - 1) bs).map readingOf ++ [readingOf []]) := by
  have hroom : 1 ≤ size - 1 := by omega
  -- every call but the last takes a byte at least, so the fuel lasts
  induction fuel generalizing bs with
  | zero => omega
  | succ fuel ih =>
      rw [readUntilZero, getLine_ended]
      by_cases hbs : bs = []
      · rw [hbs, cut_nil, if_pos (by simp [readingOf])]
        rfl
      · have hlt := cut_length_lt hroom hbs
        have hne : (readingOf (cut (size - 1) bs).1).ret ≠ 0 := by
          have := cut_ne_nil hroom hbs
          simpa [readingOf] using this
        rw [if_neg hne, ih _ (by omega), pieces_of_ne_nil hroom hbs]
        rfl

/-- What is promised of the lines read off the stream `bytes` with a buffer of
`size` bytes, and of the reading `last` that ended the loop. -/
structure Transduced (size : ℕ) (bytes : List UInt8) (lines : List Reading)
    (last : Reading) : Prop where
  /-- no byte is lost, duplicated or moved -/
  text : (lines.map Reading.text).flatten = normalise bytes
  /-- a line is as long as the number that is returned says -/
  length : ∀ r ∈ lines, (r.text.length : ℤ) = r.ret ∧ 1 ≤ r.ret ∧ r.ret ≤ (size : ℤ) - 1
  /-- no line contains a CR -/
  noCR : ∀ r ∈ lines, CR ∉ r.text
  /-- an LF is the last byte of its line -/
  lfLast : ∀ r ∈ lines, LF ∉ r.text.dropLast
  /-- a line that does not end in LF is full, or it is the last line -/
  fullOrLast : ∀ pre r post, lines = pre ++ r :: post → r.text.getLast? ≠ some LF →
    r.ret = (size : ℤ) - 1 ∨ post = []
  /-- the loop ends with an empty reading -/
  lastRet : last.ret = 0
  /-- every call writes the NUL at the index that it returns, below `size` -/
  nul : ∀ r ∈ lines ++ [last], 0 ≤ r.ret ∧ r.ret < size ∧ r.cells[r.ret.toNat]? = some 0

/-- The readings of the pieces are as promised. -/
theorem transduced_pieces {size : ℕ} (hsize : 2 ≤ size) (bytes : List UInt8) :
    Transduced size bytes ((pieces (size - 1) bytes).map readingOf) (readingOf []) := by
  have hroom : 1 ≤ size - 1 := by omega
  have hcast : ((size - 1 : ℕ) : ℤ) = (size : ℤ) - 1 := by omega
  -- every line is the reading of a piece cut off some stream
  have hmem : ∀ r ∈ (pieces (size - 1) bytes).map readingOf,
      ∃ bs, bs ≠ [] ∧ r = readingOf (cut (size - 1) bs).1 := by
    intro r hr
    obtain ⟨p, hp, rfl⟩ := List.mem_map.mp hr
    obtain ⟨bs, hbs, rfl⟩ := exists_cut_of_mem_pieces hroom hp
    exact ⟨bs, hbs, rfl⟩
  constructor
  · rw [List.map_map, ← flatten_pieces hroom]
    congr 1
    simp [Function.comp_def]
  · intro r hr
    obtain ⟨bs, hbs, rfl⟩ := hmem r hr
    rw [← hcast]
    exact readingOf_length (cut_ne_nil hroom hbs) (cut_length_le_room _ _)
  · intro r hr
    obtain ⟨bs, -, rfl⟩ := hmem r hr
    rw [readingOf_text]
    exact cr_notMem_cut _ _
  · intro r hr
    obtain ⟨bs, -, rfl⟩ := hmem r hr
    rw [readingOf_text]
    exact lf_notMem_dropLast_cut _ _
  · intro pre r post h hlast
    obtain ⟨pre, post', hpieces, -, hpost⟩ := List.map_eq_append_iff.mp h
    obtain ⟨p, post', rfl, rfl, rfl⟩ := List.map_eq_cons_iff.mp hpost
    rw [readingOf_text] at hlast
    rcases pieces_end hroom hpieces with hlf | hfull | hnil
    · exact absurd hlf hlast
    · left
      rw [← hcast, ← hfull]
      rfl
    · right
      rw [hnil]
      rfl
  · rfl
  · intro r hr
    rcases List.mem_append.mp hr with hline | hlast
    · obtain ⟨bs, -, rfl⟩ := hmem r hline
      have hle := cut_length_le_room (size - 1) bs
      exact readingOf_nul (by omega)
    · rw [List.mem_singleton.mp hlast]
      exact readingOf_nul (by rw [List.length_nil]; omega)

/-- **`get_line` as a transducer.**  For every size from 2 on and every stream that
ends, the calls come to the one that returns 0, and the lines they deliver are as
promised. -/
theorem getLine_transduces (size : ℕ) (hsize : 2 ≤ size) (bytes : List UInt8) :
    ∃ lines last,
      (∀ fuel, bytes.length < fuel →
        readUntilZero Stream.sock size fuel ⟨bytes, true⟩ = some (lines ++ [last])) ∧
      Transduced size bytes lines last := by
  refine ⟨(pieces (size - 1) bytes).map readingOf, readingOf [], ?_, transduced_pieces hsize bytes⟩
  intro fuel hfuel
  exact readUntilZero_ended hsize bytes hfuel

/-- With a buffer of three bytes the stream `a b CR LF CR c` is read in four lines. -/
theorem getLine_transduces_three : (2 ≤ 3) ∧ ∃ lines last,
    (∀ fuel, [97, 98, CR, LF, CR, 99].length < fuel →
      readUntilZero Stream.sock 3 fuel ⟨[97, 98, CR, LF, CR, 99], true⟩
        = some (lines ++ [last])) ∧
    Transduced 3 [97, 98, CR, LF, CR, 99] lines last :=
  ⟨by decide, getLine_transduces 3 (by decide) [97, 98, CR, LF, CR, 99]⟩

example : pieces 2 [97, 98, CR, LF, CR, 99] = [[97, 98], [LF], [LF], [99]] := by decide

end MyHttpd
