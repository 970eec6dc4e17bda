/-
# `do_read` over two sockets side by side

A socket on which bytes arrive during the calls is compared with one on which
nothing arrives.  `Coupled` says that each kind of `recv` gives the same on both and
keeps the states related by `R`, or else brings the first one into a state with the
property `P`, which no `recv` takes away again.  Then `get_line` and `do_read` do so
too (`Coupled.getLine_follows`, `Coupled.doRead_follows`).
-/
import NetStudy.DoRead

namespace MyHttpd

variable {σ τ α : Type*}

/-- The two sockets gave the same and are still related, unless the first one has
come to have the property `P`. -/
def Follows (P : σ → Prop) (R : σ → τ → Prop) (x : α × σ) (y : α × τ) : Prop :=
  P x.2 ∨ (x.1 = y.1 ∧ R x.2 y.2)

/-- Two sockets whose calls follow each other until `P` holds, and then for good. -/
structure Coupled (K : Sock σ) (K' : Sock τ) (P : σ → Prop) (R : σ → τ → Prop) : Prop where
  recv_keeps : ∀ s, P s → P (K.recv s).2
  peek_keeps : ∀ s, P s → P (K.peek s).2
  recv_follows : ∀ s t, R s t → Follows P R (K.recv s) (K'.recv t)
  peek_follows : ∀ s t, R s t → Follows P R (K.peek s) (K'.peek t)

namespace Coupled

variable {K : Sock σ} {K' : Sock τ} {P : σ → Prop} {R : σ → τ → Prop}

/-! ## `P` is kept -/

theorem takeLF_keeps (h : Coupled K K' P R) (l : Line) {s : σ} (hs : P s) :
    P (takeLF K l s).2 := by
  unfold takeLF
  split <;> exact h.recv_keeps s hs

/-- A peek that brings `P` brings it for the rest of the turn. -/
theorem peekLF_of_peek (h : Coupled K K' P R) (l : Line) {s : σ} (hs : P (K.peek s).2) :
    P (peekLF K l s).2 := by
  unfold peekLF
  split
  · split_ifs
    · exact h.takeLF_keeps l hs
    · exact hs
  · exact hs

/-- A `recv` that brings `P` brings it for the rest of the turn. -/
theorem turn_of_recv (h : Coupled K K' P R) (l : Line) {s : σ} (hs : P (K.recv s).2) :
    P (getLineTurn K l s).2 := by
  unfold getLineTurn
  split
  · split_ifs
    · exact h.peekLF_of_peek l (h.peek_keeps _ hs)
    · exact hs
  · exact hs

theorem loop_keeps (h : Coupled K K' P R) (room : ℕ) (l : Line) {s : σ} (hs : P s) :
    P (getLineLoop K room l s).2 := by
  induction room generalizing l s with
  | zero => exact hs
  | succ room ih =>
      rw [getLineLoop]
      split_ifs
      · exact hs
      · exact ih _ (h.turn_of_recv l (h.recv_keeps s hs))

theorem getLine_keeps (h : Coupled K K' P R) (size : ℕ) {s : σ} (hs : P s) :
    P (getLine K size s).2 :=
  h.loop_keeps (size - 1) Line.init hs

theorem drain_keeps (h : Coupled K K' P R) {fuel : ℕ} {s s' : σ} (hs : P s)
    (hdrain : drain K fuel s = some s') : P s' := by
  induction fuel generalizing s with
  | zero => cases hdrain
  | succ fuel ih =>
      have hnext := h.getLine_keeps 1024 hs
      rw [drain] at hdrain
      split_ifs at hdrain
      · rw [← Option.some.inj hdrain]
        exact hnext
      · exact ih hnext hdrain

/-- A `get_line` that brings `P` brings it for the rest of `do_read`. -/
theorem doRead_of_getLine (h : Coupled K K' P R) {fuel : ℕ} {junk : Locals} {s : σ}
    {out : Outcome × σ} (hs : P (getLine K 1024 s).2)
    (hread : doRead K fuel junk s = some out) : P out.2 := by
  rw [doRead] at hread
  split_ifs at hread
  · rw [← Option.some.inj hread]
    exact hs
  · obtain ⟨s', hdrain, rfl⟩ := Option.map_eq_some_iff.mp hread
    exact h.drain_keeps hs hdrain

/-! ## The calls follow each other -/

theorem takeLF_follows (h : Coupled K K' P R) (l : Line) {s : σ} {t : τ} (hst : R s t) :
    Follows P R (takeLF K l s) (takeLF K' l t) := by
  rcases h.recv_follows s t hst with hlost | ⟨hret, hst'⟩
  · left
    unfold takeLF
    split <;> exact hlost
  · right
    unfold takeLF
    rw [← hret]
    split <;> exact ⟨rfl, hst'⟩

theorem peekLF_follows (h : Coupled K K' P R) (l : Line) {s : σ} {t : τ} (hst : R s t) :
    Follows P R (peekLF K l s) (peekLF K' l t) := by
  rcases h.peek_follows s t hst with hlost | ⟨hret, hst'⟩
  · exact Or.inl (h.peekLF_of_peek l hlost)
  · unfold peekLF
    rw [← hret]
    split
    · split_ifs
      · exact h.takeLF_follows l hst'
      · exact Or.inr ⟨rfl, hst'⟩
    · exact Or.inr ⟨rfl, hst'⟩

theorem turn_follows (h : Coupled K K' P R) (l : Line) {s : σ} {t : τ} (hst : R s t) :
    Follows P R (getLineTurn K l s) (getLineTurn K' l t) := by
  rcases h.recv_follows s t hst with hlost | ⟨hret, hst'⟩
  · exact Or.inl (h.turn_of_recv l hlost)
  · unfold getLineTurn
    rw [← hret]
    split
    · split_ifs
      · exact h.peekLF_follows l hst'
      · exact Or.inr ⟨rfl, hst'⟩
    · exact Or.inr ⟨rfl, hst'⟩

theorem loop_follows (h : Coupled K K' P R) (room : ℕ) (l : Line) {s : σ} {t : τ}
    (hst : R s t) : Follows P R (getLineLoop K room l s) (getLineLoop K' room l t) := by
  induction room generalizing l s t with
  | zero => exact Or.inr ⟨rfl, hst⟩
  | succ room ih =>
      rw [getLineLoop, getLineLoop]
      split_ifs
      · exact Or.inr ⟨rfl, hst⟩
      · rcases h.turn_follows l hst with hlost | ⟨hline, hst'⟩
        · exact Or.inl (h.loop_keeps room _ hlost)
        · rw [← hline]
          exact ih _ hst'

/-- **`get_line` on the two sockets.** -/
theorem getLine_follows (h : Coupled K K' P R) (size : ℕ) {s : σ} {t : τ} (hst : R s t) :
    Follows P R (getLine K size s) (getLine K' size t) := by
  rcases h.loop_follows (size - 1) Line.init hst with hlost | ⟨hline, hst'⟩
  · exact Or.inl hlost
  · exact Or.inr ⟨by rw [getLine, getLine, hline], hst'⟩

theorem drain_follows (h : Coupled K K' P R) {fuel : ℕ} {s s' : σ} {t : τ} (hst : R s t)
    (hdrain : drain K fuel s = some s') :
    P s' ∨ ∃ t', drain K' fuel t = some t' ∧ R s' t' := by
  induction fuel generalizing s t with
  | zero => cases hdrain
  | succ fuel ih =>
      rw [drain] at hdrain ⊢
      rcases h.getLine_follows 1024 hst with hlost | ⟨hret, hst'⟩
      · left
        split_ifs at hdrain
        · rw [← Option.some.inj hdrain]
          exact hlost
        · exact h.drain_keeps hlost hdrain
      · rw [← hret]
        split_ifs at hdrain ⊢
        · rw [← Option.some.inj hdrain]
          exact Or.inr ⟨_, rfl, hst'⟩
        · exact ih hst' hdrain

/-- **`do_read` on the two sockets.** -/
theorem doRead_follows (h : Coupled K K' P R) {fuel : ℕ} {junk : Locals} {s : σ} {t : τ}
    {out : Outcome × σ} (hst : R s t) (hread : doRead K fuel junk s = some out) :
    P out.2 ∨ ∃ t', doRead K' fuel junk t = some (out.1, t') ∧ R out.2 t' := by
  rcases h.getLine_follows 1024 hst with hlost | ⟨hret, hst'⟩
  · exact Or.inl (h.doRead_of_getLine hlost hread)
  · rw [doRead] at hread ⊢
    rw [← hret]
    split_ifs at hread ⊢
    · rw [← Option.some.inj hread]
      exact Or.inr ⟨_, rfl, hst'⟩
    · obtain ⟨s', hdrain, rfl⟩ := Option.map_eq_some_iff.mp hread
      rcases h.drain_follows hst' hdrain with hlost | ⟨t', hdrain', hrel⟩
      · exact Or.inl hlost
      · right
        refine ⟨t', ?_, hrel⟩
        rw [hdrain']
        rfl

end Coupled

end MyHttpd
