/-
# When `do_read` returns (`http/myhttpd.c`)

The loop that reads over the header lines leaves only at a line that starts with LF
or at a `get_line` that returns -1.  On a stream that stays open the latter comes at
last (`exists_drains_open`); at the end of a stream `get_line` returns 0 and leaves an
empty line, which passes neither test, so the loop reads on for ever.

* `drains_ended_iff`: on a stream that ends, the loop ends exactly if one of the
  pieces of the stream starts with LF;
* `doRead_returns_iff`: the streams on which the call returns.
-/
import NetStudy.DoRead

namespace MyHttpd

variable {σ : Type*}

/-! ## One turn of the loop -/

/-- Behind a line that does not stop it the loop does what it does on the rest. -/
theorem drains_more_iff {K : Sock σ} {s : σ} (h : (getLine K 1024 s).1.stops = false) (s' : σ) :
    Drains K s s' ↔ Drains K (getLine K 1024 s).2 s' := by
  constructor
  · rintro ⟨fuel, hfuel⟩
    cases fuel with
    | zero => cases hfuel
    | succ fuel =>
        rw [drain, if_neg (by rw [h]; exact Bool.false_ne_true)] at hfuel
        exact ⟨fuel, hfuel⟩
  · exact Drains.more h

/-- A call returns exactly if its first line is empty or its loop ends. -/
theorem exists_doReadReturns_iff (K : Sock σ) (junk : Locals) (s : σ) :
    (∃ out, DoReadReturns K junk s out) ↔
      (getLine K 1024 s).1.ret = 0 ∨ ∃ s', Drains K (getLine K 1024 s).2 s' := by
  constructor
  · rintro ⟨out, fuel, hfuel⟩
    have h := hfuel fuel le_rfl
    rw [doRead] at h
    split_ifs at h with hret
    · exact Or.inl hret
    · obtain ⟨s', hs', -⟩ := Option.map_eq_some_iff.mp h
      exact Or.inr ⟨s', fuel, hs'⟩
  · by_cases hret : (getLine K 1024 s).1.ret = 0
    · intro _
      refine ⟨(Outcome.closed, (getLine K 1024 s).2), 0, fun fuel _ => ?_⟩
      rw [doRead, if_pos hret]
    · rintro (hzero | ⟨s', hs'⟩)
      · exact absurd hzero hret
      · exact ⟨_, DoReadReturns.of_drains junk hret hs'⟩

/-! ## The end of a stream -/

/-- At the end of a stream the loop turns for ever: `get_line` returns 0 there, and
`buf[0]` is NUL. -/
theorem not_drains_end (s' : Stream) : ¬ Drains Stream.sock ⟨[], true⟩ s' := by
  rintro ⟨fuel, hfuel⟩
  induction fuel with
  | zero => cases hfuel
  | succ fuel ih =>
      have hturn : (getLine Stream.sock 1024 ⟨[], true⟩).1.stops = false := by decide
      rw [drain, if_neg (by rw [hturn]; exact Bool.false_ne_true), getLine_rest, cut_nil] at hfuel
      exact ih hfuel

/-- **The loop on a stream that ends.** -/
theorem drains_ended_iff (bs : List UInt8) :
    (∃ s', Drains Stream.sock ⟨bs, true⟩ s') ↔ ∃ p ∈ pieces lineRoom bs, p.head? = some LF := by
  -- along the pieces: the first one stops the loop, or the loop goes on behind it
  induction bs using pieces_induction (show 1 ≤ lineRoom by decide) with
  | hnil =>
      constructor
      · rintro ⟨s', hs'⟩
        exact absurd hs' (not_drains_end s')
      · rintro ⟨p, hp, -⟩
        cases hp
  | hcut bs hbs ih =>
      rw [pieces_of_ne_nil (by decide) hbs, List.exists_mem_cons_iff]
      have hstops : (getLine Stream.sock 1024 ⟨bs, true⟩).1.stops = true ↔
          (cut lineRoom bs).1.head? = some LF := by
        rw [stops_iff]
        simp
      rcases hstop : (getLine Stream.sock 1024 ⟨bs, true⟩).1.stops with _ | _
      · rw [hstop] at hstops
        have hhead : ¬ (cut lineRoom bs).1.head? = some LF :=
          fun h => Bool.false_ne_true (hstops.mpr h)
        rw [or_iff_right hhead, ← ih]
        apply exists_congr
        intro s'
        rw [drains_more_iff hstop, getLine_rest]
      · exact iff_of_true ⟨_, Drains.stop hstop⟩ (Or.inl (hstops.mp hstop))

/-- The loop of a call, behind the first piece of the stream. -/
theorem drains_behind_first_iff (bs : List UInt8) (eof : Bool) :
    (∃ s', Drains Stream.sock ⟨(cut lineRoom bs).2, eof⟩ s') ↔
      eof = false ∨ ∃ p ∈ (pieces lineRoom bs).tail, p.head? = some LF := by
  cases eof with
  | false =>
      obtain ⟨rest, hrest⟩ := exists_drains_open (cut lineRoom bs).2
      exact iff_of_true ⟨_, hrest⟩ (Or.inl rfl)
  | true =>
      rw [drains_ended_iff, or_iff_right (show ¬ true = false by decide)]
      by_cases hbs : bs = []
      · rw [hbs, cut_nil]
        exact Iff.rfl
      · rw [pieces_of_ne_nil (by decide) hbs, List.tail_cons]

/-- **When `do_read` returns.**  It does on every stream that stays open, on the empty
one, and on a stream that ends exactly if one of its pieces behind the first starts
with LF. -/
theorem doRead_returns_iff (junk : Locals) (s : Stream) :
    (∃ out, DoReadReturns Stream.sock junk s out) ↔
      s.eof = false ∨ s.bytes = [] ∨
        ∃ p ∈ (pieces lineRoom s.bytes).tail, p.head? = some LF := by
  obtain ⟨bs, eof⟩ := s
  rw [exists_doReadReturns_iff, getLine_ret_zero_iff, getLine_rest, drains_behind_first_iff]
  cases eof with
  | false => exact iff_of_true (Or.inr (Or.inl rfl)) (Or.inl rfl)
  | true =>
      have hend : ¬ true = false := by decide
      rw [and_iff_left rfl, or_iff_right hend, or_iff_right hend]

/-- `GET /a HTTP/1.1` with its line ending, and nothing behind it. -/
def requestLineOnly : List UInt8 :=
  [71, 69, 84, 32, 47, 97, 32, 72, 84, 84, 80, 47, 49, 46, 49, CR, LF]

/-- A client that sends a request line and closes its end before the empty line
keeps `do_read` in its loop. -/
theorem requestLineOnly_hangs :
    ¬ ∃ out, DoReadReturns Stream.sock ⟨[], [], []⟩ ⟨requestLineOnly, true⟩ out := by
  rw [exists_doReadReturns_iff, getLine_ret_zero_iff, getLine_rest, drains_ended_iff]
  have hrest : (cut lineRoom requestLineOnly).2 = [] := by decide
  rw [hrest]
  rintro (⟨hnil, -⟩ | ⟨p, hp, -⟩)
  · cases hnil
  · cases hp

end MyHttpd
