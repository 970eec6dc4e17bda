/-
# Descriptor numbers and the connections behind them

A process gets connections one after the other, each under a number that is not in use,
and gives numbers back, which are then used again.  A `Table` says which connection is
behind a number, the connections being counted from 0 in the order in which they came, so
that two uses of one number are two connections.

`Table.Ok` says that no connection has two numbers and that the next one is new; the
lemmas say how it survives `accept` and `close`, and what these change.
-/
import Mathlib.Tactic

namespace Descriptors

variable {D : Type*}

/-- The connection behind each number, if any, and the number of connections so far. -/
structure Table (D : Type*) where
  conn : D → Option ℕ
  count : ℕ

/-- No connection yet. -/
def Table.empty : Table D := ⟨fun _ => none, 0⟩

/-- Every connection came before now, and has one number at most. -/
structure Table.Ok (t : Table D) : Prop where
  lt : ∀ {d k}, t.conn d = some k → k < t.count
  inj : ∀ {d d' k}, t.conn d = some k → t.conn d' = some k → d = d'

theorem Table.ok_empty : (Table.empty : Table D).Ok where
  lt := fun h => by cases h
  inj := fun h => by cases h

variable [DecidableEq D]

/-- The next connection gets the number `d`. -/
def Table.accept (t : Table D) (d : D) : Table D :=
  ⟨Function.update t.conn d (some t.count), t.count + 1⟩

/-- The number `d` is given back. -/
def Table.close (t : Table D) (d : D) : Table D := ⟨Function.update t.conn d none, t.count⟩

@[simp] theorem Table.count_accept (t : Table D) (d : D) : (t.accept d).count = t.count + 1 := rfl

@[simp] theorem Table.count_close (t : Table D) (d : D) : (t.close d).count = t.count := rfl

@[simp] theorem Table.conn_accept_self (t : Table D) (d : D) :
    (t.accept d).conn d = some t.count :=
  Function.update_self _ _ _

theorem Table.conn_accept_of_ne (t : Table D) {d e : D} (h : e ≠ d) :
    (t.accept d).conn e = t.conn e :=
  Function.update_of_ne h _ _

@[simp] theorem Table.conn_close_self (t : Table D) (d : D) : (t.close d).conn d = none :=
  Function.update_self _ _ _

theorem Table.conn_close_of_ne (t : Table D) {d e : D} (h : e ≠ d) :
    (t.close d).conn e = t.conn e :=
  Function.update_of_ne h _ _

/-- What is behind a number stays there while a free number is taken. -/
theorem Table.conn_accept_of_some {t : Table D} {d e : D} {k : ℕ} (hfree : t.conn d = none)
    (h : t.conn e = some k) : (t.accept d).conn e = some k := by
  have hne : e ≠ d := by
    rintro rfl
    rw [hfree] at h
    cases h
  rw [t.conn_accept_of_ne hne, h]

/-- A connection behind a number has come just now, or was there before. -/
theorem Table.conn_accept_eq_some {t : Table D} {d e : D} {k : ℕ}
    (h : (t.accept d).conn e = some k) : (e = d ∧ k = t.count) ∨ (e ≠ d ∧ t.conn e = some k) := by
  by_cases hed : e = d
  · rw [hed, t.conn_accept_self] at h
    exact Or.inl ⟨hed, (Option.some.inj h).symm⟩
  · rw [t.conn_accept_of_ne hed] at h
    exact Or.inr ⟨hed, h⟩

theorem Table.conn_close_eq_some {t : Table D} {d e : D} {k : ℕ}
    (h : (t.close d).conn e = some k) : e ≠ d ∧ t.conn e = some k := by
  by_cases hed : e = d
  · rw [hed, t.conn_close_self] at h
    cases h
  · rw [t.conn_close_of_ne hed] at h
    exact ⟨hed, h⟩

/-- **A free number may be taken.** -/
theorem Table.Ok.accept {t : Table D} (h : t.Ok) (d : D) : (t.accept d).Ok := by
  constructor
  · intro e k he
    rcases Table.conn_accept_eq_some he with ⟨-, rfl⟩ | ⟨-, he⟩
    · exact Nat.lt_succ_self _
    · exact Nat.lt_succ_of_lt (h.lt he)
  · intro e e' k he he'
    rcases Table.conn_accept_eq_some he with ⟨hed, hk⟩ | ⟨-, he⟩
    · rcases Table.conn_accept_eq_some he' with ⟨hed', -⟩ | ⟨-, he'⟩
      · rw [hed, hed']
      · have := h.lt he'
        omega
    · rcases Table.conn_accept_eq_some he' with ⟨-, hk⟩ | ⟨-, he'⟩
      · have := h.lt he
        omega
      · exact h.inj he he'

/-- **A number may be given back.** -/
theorem Table.Ok.close {t : Table D} (h : t.Ok) (d : D) : (t.close d).Ok where
  lt := fun he => h.lt (Table.conn_close_eq_some he).2
  inj := fun he he' => h.inj (Table.conn_close_eq_some he).2 (Table.conn_close_eq_some he').2

end Descriptors
