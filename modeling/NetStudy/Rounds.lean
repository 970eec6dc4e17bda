/-
# Rounds of a request and one read

In each round something is asked for and then read once, from a stream that holds the answers
one behind the other.  A read may stop anywhere, so that what is read in one round can belong
to the answer of an earlier one; it cannot belong to a later one, which has not been asked
for (`Behind`).

As long as each read has taken a whole answer the rounds agree.  Where they first do not, the
read has stopped short within the answer of its own round (`Behind.exact_or_short`).
-/
import Mathlib.Tactic

namespace Rounds

variable {α : Type*}

/-- Rounds that have only begun make no pair. -/
theorem zipWith_append_right {β γ : Type*} (f : α → β → γ) {as : List α} {bs : List β}
    (cs : List β) (h : as.length = bs.length) :
    List.zipWith f as (bs ++ cs) = List.zipWith f as bs := by
  have happend : List.zipWith f (as ++ []) (bs ++ cs)
      = List.zipWith f as bs ++ List.zipWith f [] cs := List.zipWith_append h
  rw [List.append_nil, List.zipWith_nil_left, List.append_nil] at happend
  exact happend

/-- What has been read in each round is no further than the answers up to this round. -/
structure Behind (got answers : List (List α)) : Prop where
  rounds : got.length ≤ answers.length
  behind : ∀ j ≤ got.length, (got.take j).flatten <+: (answers.take j).flatten

theorem behind_nil : Behind ([] : List (List α)) [] where
  rounds := le_rfl
  behind := by
    intro j _
    rw [List.take_nil]

/-- A round begins. -/
theorem Behind.ask {got answers : List (List α)} (h : Behind got answers) (a : List α) :
    Behind got (answers ++ [a]) where
  rounds := by
    rw [List.length_append]
    exact h.rounds.trans (Nat.le_add_right _ _)
  behind := by
    intro j hj
    rw [List.take_append_of_le_length (hj.trans h.rounds)]
    exact h.behind j hj

/-- What has been read of the stream in all. -/
theorem Behind.flatten_start {got answers : List (List α)} (h : Behind got answers) :
    got.flatten <+: answers.flatten := by
  have hall := h.behind got.length le_rfl
  rw [List.take_length] at hall
  refine hall.trans ?_
  conv_rhs => rw [← List.take_append_drop got.length answers, List.flatten_append]
  exact List.prefix_append _ _

/-- **A round ends** with a read of what comes next in the stream. -/
theorem Behind.read {got answers : List (List α)} (h : Behind got answers) {p : List α}
    (hround : answers.length = got.length + 1) (hp : got.flatten ++ p <+: answers.flatten) :
    Behind (got ++ [p]) answers where
  rounds := by
    rw [List.length_append, List.length_singleton, hround]
  behind := by
    intro j hj
    rw [List.length_append, List.length_singleton] at hj
    by_cases hle : j ≤ got.length
    · rw [List.take_append_of_le_length hle]
      exact h.behind j hle
    · have hall : j = got.length + 1 := by omega
      rw [hall, ← hround, List.take_length, hround, List.take_of_length_le
        (by rw [List.length_append, List.length_singleton]), List.flatten_append,
        List.flatten_singleton]
      exact hp

/-- While an answer is waited for that is not empty, something is outstanding. -/
theorem Behind.outstanding {got older : List (List α)} {last : List α}
    (h : Behind got (older ++ [last])) (hround : older.length = got.length) (hlast : last ≠ []) :
    got.flatten.length < (older ++ [last]).flatten.length := by
  have hle := (h.behind got.length le_rfl).length_le
  rw [List.take_length, List.take_append_of_le_length hround.ge, ← hround, List.take_length] at hle
  have hpos := List.length_pos_of_ne_nil hlast
  rw [List.flatten_append, List.flatten_singleton, List.length_append]
  omega

/-- **The first round that is not exact** stops short within its own answer. -/
theorem Behind.exact_or_short {got answers : List (List α)} (h : Behind got answers) :
    got = answers.take got.length ∨
      ∃ (i : ℕ) (p a : List α), got[i]? = some p ∧ answers[i]? = some a ∧ p <+: a ∧ p.length < a.length := by
  induction got using List.reverseRecOn with
  | nil => exact Or.inl (List.take_zero).symm
  | append_singleton got p ih =>
      have hrounds := h.rounds
      rw [List.length_append, List.length_singleton] at hrounds
      have hbefore : Behind got answers := by
        refine ⟨(Nat.le_succ _).trans hrounds, fun j hj => ?_⟩
        have hlater := h.behind j (by rw [List.length_append]; omega)
        rw [List.take_append_of_le_length hj] at hlater
        exact hlater
      rcases ih hbefore with hexact | ⟨i, q, a, hgot, hanswer, hshort⟩
      · -- the rounds before are exact, so that this one begins with its own answer
        obtain ⟨a, ha⟩ : ∃ a, answers[got.length]? = some a :=
          ⟨_, List.getElem?_eq_getElem hrounds⟩
        have htake : answers.take (got.length + 1) = got ++ [a] := by
          rw [List.take_add_one, ← hexact, ha]
          rfl
        have hprefix := h.behind (got.length + 1) (by
          rw [List.length_append, List.length_singleton])
        rw [htake, List.take_of_length_le (by rw [List.length_append, List.length_singleton]),
          List.flatten_append, List.flatten_append, List.flatten_singleton,
          List.flatten_singleton] at hprefix
        have hpa : p <+: a := (List.prefix_append_right_inj _).mp hprefix
        rcases hpa.length_le.lt_or_eq with hlt | heq
        · refine Or.inr ⟨got.length, p, a, ?_, ha, hpa, hlt⟩
          rw [List.getElem?_append_right le_rfl, Nat.sub_self]
          rfl
        · left
          rw [List.length_append, List.length_singleton, htake, hpa.eq_of_length heq]
      · refine Or.inr ⟨i, q, a, ?_, hanswer, hshort⟩
        rw [List.getElem?_append_left (List.getElem?_eq_some_iff.mp hgot).1]
        exact hgot

end Rounds
