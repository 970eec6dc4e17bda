/-
# What `get_line` and `do_read` take off a socket

`Took s p t` stands for "between the states `s` and `t` of the socket the bytes `p` have been
taken off it", whatever else has happened to it, and `left s` for the bytes that are unread.
A relation of this kind that both kinds of `recv` keep (`Accounted`) is kept by `get_line` and
by `do_read`, and says what they read: `get_line` has taken the line that is cut off all that
has arrived when it returns, whenever it has arrived (`getLine_took`), and `do_read` acts on
that line (`doRead_took`).

Nothing is assumed about arrivals: the socket may change with each call.
-/
import NetStudy.DoRead

namespace MyHttpd

variable {σ : Type*}

/-! ## Accounts -/

/-- The byte that a `recv` has given, if any. -/
def RecvRet.bytes : RecvRet → List UInt8
  | byte c => [c]
  | _ => []

/-- A relation that says which bytes have been taken off the socket, and a function that says
which are unread. -/
structure Accounted (K : Sock σ) (left : σ → List UInt8) (Took : σ → List UInt8 → σ → Prop) :
    Prop where
  refl : ∀ s, Took s [] s
  trans : ∀ {s t u p q}, Took s p t → Took t q u → Took s (p ++ q) u
  recv : ∀ s, Took s (K.recv s).1.bytes (K.recv s).2
  peek : ∀ s, Took s [] (K.peek s).2
  /-- What has been peeked at is read next, -/
  seen : ∀ s c, (K.peek s).1 = RecvRet.byte c → (K.recv (K.peek s).2).1 = RecvRet.byte c
  /-- and is the first byte that is unread, if there is one. -/
  ahead : ∀ s, (left (K.peek s).2).head? = (K.peek s).1.bytes.head?
  /-- Where `recv` gives nothing, nothing is unread. -/
  dry : ∀ s, (K.recv s).1.bytes = [] → left (K.recv s).2 = []

/-- The bytes `p` are the line that a buffer with this room takes off them and off the bytes
behind them. -/
def CutOff (room : ℕ) (p behind : List UInt8) : Prop := cut room (p ++ behind) = (normalise p, behind)

instance (room : ℕ) (p behind : List UInt8) : Decidable (CutOff room p behind) :=
  inferInstanceAs (Decidable (_ = _))

theorem cutOff_zero (behind : List UInt8) : CutOff 0 [] behind := cut_zero _

theorem cutOff_nil (room : ℕ) : CutOff room [] [] := cut_nil room

theorem cutOff_lf (room : ℕ) (behind : List UInt8) : CutOff (room + 1) [LF] behind :=
  cut_lf room behind

theorem cutOff_crlf (room : ℕ) (behind : List UInt8) : CutOff (room + 1) [CR, LF] behind :=
  cut_cr room (LF :: behind)

/-- A CR alone ends a line if no LF is behind it. -/
theorem cutOff_cr (room : ℕ) {behind : List UInt8} (h : behind.head? ≠ some LF) :
    CutOff (room + 1) [CR] behind := by
  have hskip : skipLF behind = behind := if_neg h
  show cut (room + 1) (CR :: behind) = (normalise [CR], behind)
  rw [cut_cr, hskip]
  rfl

/-- A byte in front of a line. -/
theorem CutOff.cons {room : ℕ} {p behind : List UInt8} (h : CutOff room p behind) {c : UInt8}
    (hcr : c ≠ CR) (hlf : c ≠ LF) : CutOff (room + 1) (c :: p) behind := by
  unfold CutOff at h ⊢
  rw [List.cons_append, cut_char room _ hcr hlf, h, normalise_char _ hcr]

namespace Accounted

variable {K : Sock σ} {left : σ → List UInt8} {Took : σ → List UInt8 → σ → Prop}

/-! ## One line -/

/-- Behind a CR an LF is taken, or nothing, and LF is stored; what has been taken with the CR
ends a line. -/
theorem peekLF_took (h : Accounted K left Took) (l : Line) (s : σ) :
    ∃ p, Took s p (peekLF K l s).2 ∧
      (p = [LF] ∨ (p = [] ∧ (left (peekLF K l s).2).head? ≠ some LF)) ∧
      (peekLF K l s).1.buf = l.buf ++ [LF] ∧ (peekLF K l s).1.c = LF := by
  have hahead := h.ahead s
  unfold peekLF
  split
  case h_1 c hpeek =>
    rw [hpeek] at hahead
    split_ifs with hlf
    · -- the LF that has been seen is taken
      have hrecv := h.recv (K.peek s).2
      rw [takeLF, h.seen s c hpeek]
      rw [h.seen s c hpeek, RecvRet.bytes, hlf] at hrecv
      exact ⟨[LF], h.trans (h.peek s) hrecv, Or.inl rfl, by rw [hlf]; rfl, hlf⟩
    · refine ⟨[], h.peek s, Or.inr ⟨rfl, ?_⟩, rfl, rfl⟩
      rw [hahead]
      exact fun heq => hlf (Option.some.inj heq)
  case h_2 hnone =>
    refine ⟨[], h.peek s, Or.inr ⟨rfl, ?_⟩, rfl, rfl⟩
    rw [hahead]
    rcases hret : (K.peek s).1 with c | _ | _
    · exact absurd hret (hnone c)
    · simp [RecvRet.bytes]
    · simp [RecvRet.bytes]

/-- **A turn of the loop** stores what it has taken, which ends a line, or is a byte that does
not. -/
theorem turn_took (h : Accounted K left Took) (l : Line) (s : σ) :
    ∃ p, Took s p (getLineTurn K l s).2 ∧
      (getLineTurn K l s).1.buf = l.buf ++ normalise p ∧
      (((getLineTurn K l s).1.c = LF ∧
          ∀ room, CutOff (room + 1) p (left (getLineTurn K l s).2)) ∨
        ∃ c, c ≠ CR ∧ c ≠ LF ∧ p = [c] ∧ (getLineTurn K l s).1.c = c) := by
  have hrecv := h.recv s
  unfold getLineTurn
  split
  case h_1 c hbyte =>
    rw [hbyte, RecvRet.bytes] at hrecv
    split_ifs with hcr
    · subst hcr
      obtain ⟨p, htook, hp, hbuf, hc⟩ := h.peekLF_took l (K.recv s).2
      refine ⟨CR :: p, h.trans hrecv htook, ?_, Or.inl ⟨hc, fun room => ?_⟩⟩
      · rw [hbuf]
        rcases hp with rfl | ⟨rfl, -⟩ <;> rfl
      · rcases hp with rfl | ⟨rfl, hhead⟩
        · exact cutOff_crlf room _
        · exact cutOff_cr room hhead
    · refine ⟨[c], hrecv, by rw [normalise_char _ hcr]; rfl, ?_⟩
      by_cases hlf : c = LF
      · subst hlf
        exact Or.inl ⟨rfl, fun room => cutOff_lf room _⟩
      · exact Or.inr ⟨c, hcr, hlf, rfl, rfl⟩
  case h_2 r hnone =>
    have hnil : (K.recv s).1.bytes = [] := by
      rcases hret : (K.recv s).1 with c | _ | _
      · exact absurd hret (hnone c)
      · rfl
      · rfl
    rw [hnil] at hrecv
    refine ⟨[], hrecv, (List.append_nil _).symm, Or.inl ⟨rfl, fun room => ?_⟩⟩
    show CutOff (room + 1) [] (left (K.recv s).2)
    rw [h.dry s hnil]
    exact cutOff_nil _

/-- **The loop** takes a line off what has arrived when it ends. -/
theorem loop_took (h : Accounted K left Took) (room : ℕ) (l : Line) (s : σ) (hl : l.c ≠ LF) :
    ∃ p, Took s p (getLineLoop K room l s).2 ∧
      (getLineLoop K room l s).1.buf = l.buf ++ normalise p ∧
      CutOff room p (left (getLineLoop K room l s).2) := by
  induction room generalizing l s with
  | zero => exact ⟨[], h.refl s, (List.append_nil _).symm, cutOff_zero _⟩
  | succ room ih =>
      rw [getLineLoop, if_neg hl]
      obtain ⟨p, htook, hbuf, ⟨hc, hcut⟩ | ⟨c, hcr, hlf, rfl, hc⟩⟩ := h.turn_took l s
      · rw [getLineLoop_of_lf K room _ _ hc]
        exact ⟨p, htook, hbuf, hcut room⟩
      · obtain ⟨q, hrest, hline, hcut⟩ :=
          ih (getLineTurn K l s).1 (getLineTurn K l s).2 (by rw [hc]; exact hlf)
        refine ⟨c :: q, h.trans htook hrest, ?_, hcut.cons hcr hlf⟩
        rw [hline, hbuf, normalise_char _ hcr, normalise_char _ hcr, List.append_assoc]
        rfl

/-- **`get_line` takes the line** that is cut off all that has arrived when it returns, and
stores it with its ending written as LF. -/
theorem getLine_took (h : Accounted K left Took) (size : ℕ) (s : σ) :
    ∃ p, Took s p (getLine K size s).2 ∧ (getLine K size s).1.cells = normalise p ++ [0] ∧
      CutOff (size - 1) p (left (getLine K size s).2) := by
  obtain ⟨p, htook, hbuf, hcut⟩ := h.loop_took (size - 1) Line.init s (by decide)
  refine ⟨p, htook, ?_, hcut⟩
  show (getLineLoop K (size - 1) Line.init s).1.buf ++ [0] = _
  rw [hbuf]
  rfl

/-! ## One call of `do_read` -/

theorem drain_took (h : Accounted K left Took) {fuel : ℕ} {s s' : σ}
    (hs : drain K fuel s = some s') : ∃ p, Took s p s' := by
  induction fuel generalizing s with
  | zero => cases hs
  | succ fuel ih =>
      obtain ⟨p, htook, -⟩ := h.getLine_took 1024 s
      rw [drain] at hs
      split_ifs at hs
      · rw [← Option.some.inj hs]
        exact ⟨p, htook⟩
      · obtain ⟨q, hrest⟩ := ih hs
        exact ⟨p ++ q, h.trans htook hrest⟩

/-- **`do_read` acts on the line that its first `get_line` takes**, unless it closes the
descriptor. -/
theorem doRead_took (h : Accounted K left Took) {fuel : ℕ} {junk : Locals} {s s' : σ}
    {out : Outcome} (hs : doRead K fuel junk s = some (out, s')) (hout : out ≠ Outcome.closed) :
    (∃ q, Took (getLine K 1024 s).2 q s') ∧
      out = act (sscanfLine (getLine K 1024 s).1.cells junk) := by
  rw [doRead] at hs
  split_ifs at hs
  · exact absurd (congrArg Prod.fst (Option.some.inj hs)).symm hout
  · obtain ⟨t, hdrain, heq⟩ := Option.map_eq_some_iff.mp hs
    obtain ⟨rfl, rfl⟩ := Prod.mk.inj heq
    exact ⟨h.drain_took hdrain, rfl⟩

/-- A turn that takes a byte stores one. -/
theorem turn_buf_ne_nil {l : Line} {s : σ} {c : UInt8} (h : (K.recv s).1 = RecvRet.byte c) :
    (getLineTurn K l s).1.buf ≠ [] := by
  have hstore : ∀ (d : UInt8) (n : ℤ), (l.store d n).buf ≠ [] := fun d n =>
    List.append_ne_nil_of_right_ne_nil l.buf (List.cons_ne_nil d [])
  rw [getLineTurn, h]
  show (if c = CR then _ else _ : Line × σ).1.buf ≠ []
  split_ifs
  · unfold peekLF takeLF
    split
    · split_ifs
      · split <;> exact hstore _ _
      · exact hstore _ _
    · exact hstore _ _
  · exact hstore _ _

/-- **`get_line` returns 0** only where its first `recv` does, and then takes nothing else. -/
theorem getLine_ret_zero (h : Accounted K left Took) {s : σ}
    (hret : (getLine K 1024 s).1.ret = 0) :
    (K.recv s).1 = RecvRet.eof ∧ (getLine K 1024 s).2 = (K.recv s).2 := by
  have hloop : getLineLoop K 1023 Line.init s
      = getLineLoop K 1022 (getLineTurn K Line.init s).1 (getLineTurn K Line.init s).2 := by
    rw [getLineLoop, if_neg (by decide)]
  change (getLineLoop K 1023 Line.init s).1.finish.ret = 0 at hret
  show _ ∧ (getLineLoop K 1023 Line.init s).2 = _
  rw [hloop] at hret ⊢
  rcases hrecv : (K.recv s).1 with c | _ | _
  · -- a byte has been stored
    have hne := turn_buf_ne_nil (l := Line.init) hrecv
    have hbuf : (getLineLoop K 1022 (getLineTurn K Line.init s).1
        (getLineTurn K Line.init s).2).1.buf ≠ [] := by
      by_cases hc : (getLineTurn K Line.init s).1.c = LF
      · rw [getLineLoop_of_lf K 1022 _ _ hc]
        exact hne
      · obtain ⟨p, -, hline, -⟩ := h.loop_took 1022 _ (getLineTurn K Line.init s).2 hc
        rw [hline]
        exact List.append_ne_nil_of_left_ne_nil hne _
    rw [Line.finish] at hret
    split_ifs at hret
    · cases hret
    · exact absurd (List.length_eq_zero_iff.mp (Int.natCast_eq_zero.mp hret)) hbuf
  · have hturn : getLineTurn K Line.init s = (⟨[], LF, some 0⟩, (K.recv s).2) := by
      rw [getLineTurn, hrecv]
      rfl
    rw [hturn, getLineLoop_of_lf K 1022 _ _ rfl]
    exact ⟨rfl, rfl⟩
  · have hturn : getLineTurn K Line.init s = (⟨[], LF, some (-1)⟩, (K.recv s).2) := by
      rw [getLineTurn, hrecv]
      rfl
    rw [hturn, getLineLoop_of_lf K 1022 _ _ rfl] at hret
    cases hret

/-- **`do_read` closes the descriptor** only where its first `recv` returns 0. -/
theorem doRead_closed (h : Accounted K left Took) {fuel : ℕ} {junk : Locals} {s s' : σ}
    (hs : doRead K fuel junk s = some (Outcome.closed, s')) :
    (K.recv s).1 = RecvRet.eof ∧ s' = (K.recv s).2 := by
  rw [doRead] at hs
  split_ifs at hs with hret
  · obtain ⟨heof, hrest⟩ := h.getLine_ret_zero hret
    exact ⟨heof, (congrArg Prod.snd (Option.some.inj hs)).symm.trans hrest⟩
  · obtain ⟨t, -, heq⟩ := Option.map_eq_some_iff.mp hs
    have hact := congrArg Prod.fst heq
    simp only [act] at hact
    split_ifs at hact

end Accounted

end MyHttpd
