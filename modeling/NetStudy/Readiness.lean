/-
# Level- and edge-triggered sources

A source is what a program waits for: the items that have arrived and have not been
taken off, and whether an end stands behind them.  With the level trigger a source that can
be read is reported at any time; with the edge trigger it is reported once for what has
arrived since the last report.

* `Source.drained_of_level`: a source that is not to be reported has nothing to read;
* `Source.Stuck`: with the edge trigger it may have, and no report comes until something
  more arrives;
* `Account` counts the arrivals at a source against the reports handled (`Account.Ok`).
-/
import Mathlib.Tactic

namespace Readiness

variable {α : Type*}

/-- When a source that can be read is reported. -/
inductive Trigger
  | level
  | edge
  deriving DecidableEq

/-- The items that have arrived and not been taken, whether an end has arrived behind
them, and whether something has arrived since the last report. -/
structure Source (α : Type*) where
  unread : List α
  ended : Bool
  due : Bool
  deriving DecidableEq

namespace Source

/-- Nothing has arrived. -/
def empty : Source α := ⟨[], false, false⟩

/-- Items arrive. -/
def arrive (s : Source α) (xs : List α) : Source α := ⟨s.unread ++ xs, s.ended, true⟩

/-- The end arrives. -/
def finish (s : Source α) : Source α := ⟨s.unread, true, true⟩

/-- The first `n` items are taken. -/
def take (s : Source α) (n : ℕ) : Source α := ⟨s.unread.drop n, s.ended, s.due⟩

/-- A report is delivered. -/
def report (s : Source α) : Source α := ⟨s.unread, s.ended, false⟩

/-- A read would not block. -/
def readable (s : Source α) : Bool := !s.unread.isEmpty || s.ended

/-- The source is registered: if it can be read, a report is due. -/
def register (s : Source α) : Source α := ⟨s.unread, s.ended, s.readable⟩

/-- Whether the source may be reported. -/
def reportable (s : Source α) : Trigger → Bool
  | Trigger.level => s.readable
  | Trigger.edge => s.readable && s.due

/-- What a blocking read of at most `size` items may return: 0 at the end, or a number of
items that are there. -/
def Gives (s : Source α) (size n : ℕ) : Prop :=
  (n = 0 ∧ s.unread = [] ∧ s.ended = true) ∨ (1 ≤ n ∧ n ≤ size ∧ n ≤ s.unread.length)

instance (s : Source α) (size n : ℕ) : Decidable (s.Gives size n) :=
  decidable_of_iff ((n = 0 ∧ s.unread.isEmpty = true ∧ s.ended = true) ∨
    (1 ≤ n ∧ n ≤ size ∧ n ≤ s.unread.length)) (by rw [List.isEmpty_iff]; rfl)

/-- Nothing is left, and no end has to be seen. -/
def Drained (s : Source α) : Prop := s.unread = [] ∧ s.ended = false

/-- Something is left, and no report is due. -/
def Stuck (s : Source α) : Prop := s.readable = true ∧ s.due = false

@[simp] theorem unread_take (s : Source α) (n : ℕ) : (s.take n).unread = s.unread.drop n := rfl

@[simp] theorem ended_take (s : Source α) (n : ℕ) : (s.take n).ended = s.ended := rfl

@[simp] theorem due_take (s : Source α) (n : ℕ) : (s.take n).due = s.due := rfl

@[simp] theorem readable_finish (s : Source α) : s.finish.readable = true := by
  simp [readable, finish]

theorem readable_eq_false_iff {s : Source α} : s.readable = false ↔ s.Drained := by
  rw [readable, Bool.or_eq_false_iff, Bool.not_eq_false', List.isEmpty_iff]
  rfl

/-- What can be read stays so while more arrives. -/
theorem readable_arrive {s : Source α} (h : s.readable = true) (xs : List α) :
    (s.arrive xs).readable = true := by
  rw [readable, Bool.or_eq_true] at h ⊢
  rcases h with h | h
  · left
    rw [Bool.not_eq_true', List.isEmpty_eq_false_iff] at h ⊢
    exact List.append_ne_nil_of_left_ne_nil h xs
  · exact Or.inr h

theorem readable_of_reportable {s : Source α} {t : Trigger} (h : s.reportable t = true) :
    s.readable = true := by
  cases t with
  | level => exact h
  | edge => exact (Bool.and_eq_true_iff.mp h).1

theorem due_of_reportable {s : Source α} (h : s.reportable Trigger.edge = true) : s.due = true :=
  (Bool.and_eq_true_iff.mp h).2

/-- **A read of a source that can be read returns.** -/
theorem exists_gives {s : Source α} {size : ℕ} (hsize : 1 ≤ size) (h : s.readable = true) :
    ∃ n, s.Gives size n := by
  by_cases hnil : s.unread = []
  · refine ⟨0, Or.inl ⟨rfl, hnil, ?_⟩⟩
    rw [readable, hnil] at h
    exact h
  · exact ⟨1, Or.inr ⟨le_rfl, hsize, List.length_pos_iff.mpr hnil⟩⟩

/-- **The level trigger**: a source that is not to be reported has nothing to read. -/
theorem drained_of_level {s : Source α} (h : s.reportable Trigger.level = false) : s.Drained :=
  readable_eq_false_iff.mp h

/-- **The edge trigger**: it has nothing to read, or it is stuck. -/
theorem drained_or_stuck {s : Source α} (h : s.reportable Trigger.edge = false) :
    s.Drained ∨ s.Stuck := by
  rw [reportable, Bool.and_eq_false_iff] at h
  rcases hreadable : s.readable with _ | _
  · exact Or.inl (readable_eq_false_iff.mp hreadable)
  · rw [hreadable] at h
    exact Or.inr ⟨hreadable, h.resolve_left (by decide)⟩

/-- A source that is stuck is not reported. -/
theorem Stuck.not_reportable {s : Source α} (h : s.Stuck) : s.reportable Trigger.edge = false := by
  rw [reportable, h.2, Bool.and_false]

/-- **What a read leaves**: nothing, if it has taken everything and no end stands behind
it. -/
theorem drained_take_iff (s : Source α) (n : ℕ) :
    (s.take n).Drained ↔ s.unread.length ≤ n ∧ s.ended = false := by
  rw [Drained, unread_take, ended_take, List.drop_eq_nil_iff]

end Source

/-! ## Reports against arrivals -/

/-- The arrivals at a source, the reports of it that have been handled, those that have
not, and whether one is due. -/
structure Account where
  arrivals : ℕ
  handled : ℕ
  pending : ℕ
  due : Bool

namespace Account

/-- What can happen with the edge trigger. -/
inductive Step : Account → Account → Prop
  | arrive (a : Account) : Step a { a with arrivals := a.arrivals + 1, due := true }
  | report {a : Account} (h : a.due = true) :
      Step a { a with pending := a.pending + 1, due := false }
  | handle {a : Account} {p : ℕ} (h : a.pending = p + 1) :
      Step a { a with handled := a.handled + 1, pending := p }
  | forget (a : Account) : Step a { a with due := false }

/-- Every report has an arrival of its own. -/
def Ok (a : Account) : Prop := a.handled + a.pending + a.due.toNat ≤ a.arrivals

theorem Ok.step {a b : Account} (h : a.Ok) (hab : Step a b) : b.Ok := by
  unfold Ok at h ⊢
  cases hab with
  | arrive =>
      have hdue := Bool.toNat_le a.due
      show a.handled + a.pending + 1 ≤ a.arrivals + 1
      omega
  | report hdue =>
      rw [hdue] at h
      change a.handled + a.pending + 1 ≤ a.arrivals at h
      show a.handled + (a.pending + 1) + 0 ≤ a.arrivals
      omega
  | @handle p hp =>
      show a.handled + 1 + p + a.due.toNat ≤ a.arrivals
      omega
  | forget =>
      show a.handled + a.pending + 0 ≤ a.arrivals
      omega

/-- **The account stays in order** over any number of steps. -/
theorem Ok.steps {a b : Account} (h : a.Ok) (hab : Relation.ReflTransGen Step a b) : b.Ok := by
  induction hab with
  | refl => exact h
  | tail _ hstep ih => exact ih.step hstep

/-- Several arrivals, behind which a report may be due if it was due before or something
has arrived. -/
theorem steps_arrive (a : Account) (n : ℕ) {d : Bool} (hd : d = true → a.due = true ∨ 0 < n) :
    Relation.ReflTransGen Step a { a with arrivals := a.arrivals + n, due := d } := by
  have hall : Relation.ReflTransGen Step a
      { a with arrivals := a.arrivals + n, due := a.due || decide (0 < n) } := by
    induction n with
    | zero =>
        rw [decide_eq_false (lt_irrefl 0), Bool.or_false, Nat.add_zero]
    | succ n ih =>
        have hone := Step.arrive { a with arrivals := a.arrivals + n, due := a.due || decide (0 < n) }
        rw [decide_eq_true (Nat.succ_pos n), Bool.or_true]
        by_cases hn : 0 < n
        · exact (ih (fun _ => Or.inr hn)).tail hone
        · obtain rfl : n = 0 := by omega
          exact Relation.ReflTransGen.single (Step.arrive a)
  cases d with
  | false => exact hall.tail (Step.forget _)
  | true =>
      have hdue : (a.due || decide (0 < n)) = true := by
        rcases hd rfl with hdue | hn
        · rw [hdue, Bool.true_or]
        · rw [decide_eq_true hn, Bool.or_true]
      rw [hdue] at hall
      exact hall

/-- Not more reports are handled than there are arrivals. -/
theorem Ok.handled_le {a : Account} (h : a.Ok) : a.handled ≤ a.arrivals :=
  le_trans (by omega) (show a.handled + a.pending + a.due.toNat ≤ a.arrivals from h)

end Account

end Readiness
