/-
# A queue that is served in portions

Each time that something arrives at the queue, up to `c` of what waits is taken, and only
then.  Nothing is lost or moved.  What is left behind is exactly the largest excess that
the last arrivals have brought over their portions (`Kept.backlog`): it does not depend on
how the arrivals before them were cut, and nothing but more arrivals gets it out.

What is taken may be cut anywhere.  In a stream of parts that end with a mark, a portion
longer than each part holds a mark (`mem_of_infix_terminated`).  If only a part of each
portion is used, the whole is used only if each portion is (`flatten_map_eq_iff`).
-/
import Mathlib.Tactic

namespace ServedQueue

variable {α : Type*}

/-! ## The queue -/

/-- What waits, the portions that have been taken, and what has arrived each time. -/
structure Queue (α : Type*) where
  waiting : List α
  taken : List (List α)
  arrived : List (List α)

/-- The empty queue. -/
def Queue.empty : Queue α := ⟨[], [], []⟩

/-- Something arrives, and up to `c` of what waits is taken. -/
def Queue.serve (c : ℕ) (q : Queue α) (xs : List α) : Queue α :=
  ⟨(q.waiting ++ xs).drop c, q.taken ++ [(q.waiting ++ xs).take c], q.arrived ++ [xs]⟩

/-- What the last arrivals, any number of them, can bring over a portion of `c` for each. -/
def excesses (c : ℕ) (arrived : List (List α)) : Set ℕ :=
  {n | ∃ last, last <:+ arrived ∧ last.flatten.length = n + c * last.length}

/-- The law of the queue. -/
structure Kept (c : ℕ) (q : Queue α) : Prop where
  /-- Nothing is lost or moved. -/
  order : q.taken.flatten ++ q.waiting = q.arrived.flatten
  /-- There is a portion for each arrival, -/
  turns : q.taken.length = q.arrived.length
  /-- of at most `c`. -/
  portion : ∀ p ∈ q.taken, p.length ≤ c
  /-- What waits is the largest excess. -/
  backlog : IsGreatest (excesses c q.arrived) q.waiting.length

/-! ## The backlog -/

/-- No arrivals at all bring no excess. -/
theorem zero_mem_excesses (c : ℕ) (arrived : List (List α)) : 0 ∈ excesses c arrived :=
  ⟨[], List.nil_suffix, by rw [List.flatten_nil, List.length_nil, List.length_nil, Nat.mul_zero]⟩

/-- One arrival more, with what it brings. -/
theorem mem_excesses_concat {c n : ℕ} {arrived : List (List α)} {xs : List α}
    (h : n ∈ excesses c arrived) (hle : c ≤ n + xs.length) :
    n + xs.length - c ∈ excesses c (arrived ++ [xs]) := by
  obtain ⟨last, hsuffix, hlast⟩ := h
  refine ⟨last ++ [xs], List.suffix_concat_iff.mpr (Or.inr ⟨last, rfl, hsuffix⟩), ?_⟩
  rw [List.flatten_append, List.flatten_singleton, List.length_append, List.length_append, hlast,
    List.length_singleton, Nat.mul_add, Nat.mul_one]
  omega

/-- **The backlog behind an arrival.** -/
theorem isGreatest_excesses_concat {c n : ℕ} {arrived : List (List α)} (xs : List α)
    (h : IsGreatest (excesses c arrived) n) :
    IsGreatest (excesses c (arrived ++ [xs])) (n + xs.length - c) := by
  constructor
  · by_cases hle : c ≤ n + xs.length
    · exact mem_excesses_concat h.1 hle
    · rw [Nat.sub_eq_zero_of_le (not_le.mp hle).le]
      exact zero_mem_excesses c _
  · rintro m ⟨last, hsuffix, hlast⟩
    rcases List.suffix_concat_iff.mp hsuffix with rfl | ⟨older, rfl, holder⟩
    · -- no arrival
      rw [List.flatten_nil, List.length_nil] at hlast
      omega
    · rw [List.flatten_append, List.flatten_singleton, List.length_append, List.length_append,
        List.length_singleton, Nat.mul_add, Nat.mul_one] at hlast
      by_cases hmore : c * older.length ≤ older.flatten.length
      · -- those before it have an excess of their own
        have hle : older.flatten.length - c * older.length ≤ n :=
          h.2 ⟨older, holder, by omega⟩
        omega
      · omega

/-! ## The law is kept -/

theorem kept_empty (c : ℕ) : Kept c (Queue.empty : Queue α) where
  order := rfl
  turns := rfl
  portion := fun _ hp => absurd hp List.not_mem_nil
  backlog := by
    refine ⟨zero_mem_excesses c _, ?_⟩
    rintro n ⟨last, hsuffix, hlast⟩
    rw [List.suffix_nil.mp hsuffix, List.flatten_nil, List.length_nil] at hlast
    omega

/-- **Every arrival** keeps the law. -/
theorem Kept.serve {c : ℕ} {q : Queue α} (h : Kept c q) (xs : List α) : Kept c (q.serve c xs) where
  order := by
    show (q.taken ++ [_]).flatten ++ (q.waiting ++ xs).drop c = (q.arrived ++ [xs]).flatten
    rw [List.flatten_append, List.flatten_singleton, List.append_assoc, List.take_append_drop,
      ← List.append_assoc, h.order, List.flatten_append, List.flatten_singleton]
  turns := by
    show (q.taken ++ [_]).length = (q.arrived ++ [xs]).length
    rw [List.length_append, List.length_append, h.turns, List.length_singleton,
      List.length_singleton]
  portion := by
    intro p hp
    rcases List.mem_append.mp hp with hp | hp
    · exact h.portion p hp
    · rw [List.mem_singleton.mp hp]
      exact List.length_take_le _ _
  backlog := by
    show IsGreatest _ ((q.waiting ++ xs).drop c).length
    rw [List.length_drop, List.length_append]
    exact isGreatest_excesses_concat xs h.backlog

/-! ## Portions of a stream -/

/-- **A long portion holds a mark**, if each part of the stream is shorter. -/
theorem mem_of_infix_terminated {c : ℕ} {z : α} {parts : List (List α)}
    (hshort : ∀ p ∈ parts, p.length < c) {w : List α}
    (h : w <:+: (parts.map (· ++ [z])).flatten) (hlen : c ≤ w.length) (hpos : 0 < c) : z ∈ w := by
  induction parts generalizing w with
  | nil =>
      rw [List.map_nil, List.flatten_nil] at h
      rw [List.infix_nil.mp h, List.length_nil] at hlen
      omega
  | cons p parts ih =>
      have hp : p.length < c := hshort p List.mem_cons_self
      have hrest : ∀ p' ∈ parts, p'.length < c := fun p' hp' =>
        hshort p' (List.mem_cons_of_mem _ hp')
      rw [List.map_cons, List.flatten_cons] at h
      rcases List.infix_append_iff.mp h with hin | hin | ⟨l₁, l₂, rfl, hsuffix, hprefix⟩
      · -- the portion is within the first part, and so all of it
        have hall : w = p ++ [z] := by
          refine hin.eq_of_length ?_
          have := hin.length_le
          rw [List.length_append, List.length_singleton] at this ⊢
          omega
        rw [hall]
        exact List.mem_append_right _ (List.mem_singleton_self z)
      · exact ih hrest hin hlen
      · rcases List.suffix_concat_iff.mp hsuffix with rfl | ⟨t, rfl, -⟩
        · -- it begins with the second part
          rw [List.nil_append] at hlen ⊢
          exact ih hrest hprefix.isInfix hlen
        · exact List.mem_append_left _ (List.mem_append_right _ (List.mem_singleton_self z))

/-- **Shorter parts have a shorter whole**: if each part is within another one, the wholes are
equal only if the parts are. -/
theorem flatten_map_eq_iff {β : Type*} {f g : α → List β} (hfg : ∀ a, (f a).Sublist (g a))
    (as : List α) : (as.map f).flatten = (as.map g).flatten ↔ ∀ a ∈ as, f a = g a := by
  induction as with
  | nil => simp
  | cons a as ih =>
      rw [List.map_cons, List.map_cons, List.flatten_cons, List.flatten_cons,
        List.forall_mem_cons, ← ih]
      constructor
      · intro heq
        have hrest : (as.map f).flatten.length ≤ (as.map g).flatten.length := by
          rw [← List.flatMap_def, ← List.flatMap_def]
          exact (List.Sublist.flatMap_right as (fun a _ => hfg a)).length_le
        have hfirst := (hfg a).length_le
        have hlen := congrArg List.length heq
        rw [List.length_append, List.length_append] at hlen
        exact List.append_inj heq (by omega)
      · rintro ⟨hfirst, hrest⟩
        rw [hfirst, hrest]

end ServedQueue
