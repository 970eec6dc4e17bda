/-
# Labelled transition systems with an executable step

A system is a partial step function `step : ℓ → σ → Option σ`.  A label carries
every choice that is not the system's own (which thread moves, what the
environment answers), and `none` says that the label is not enabled.

* `run` performs a list of labels;
* `Reach step ok s₀ s` says that `s` is reached from `s₀` by steps that all meet
  the condition `ok` on the state before the step and on its label;
* `Reach.invariant` is the induction every safety proof below goes through, and
  `exists_reach_of_run` turns an evaluated run into a reachable state.
-/
import Mathlib.Tactic

namespace Transition

variable {σ ℓ : Type*} {step : ℓ → σ → Option σ} {ok ok' : σ → ℓ → Prop}

/-- The state after the labels, performed in order, if each of them is enabled. -/
def run (step : ℓ → σ → Option σ) : List ℓ → σ → Option σ
  | [], s => some s
  | a :: as, s => (step a s).bind (run step as)

/-- A run over a list in two parts. -/
theorem run_append (step : ℓ → σ → Option σ) (as bs : List ℓ) (s : σ) :
    run step (as ++ bs) s = (run step as s).bind (run step bs) := by
  induction as generalizing s with
  | nil => rfl
  | cons a as ih =>
      rw [List.cons_append, run, run, Option.bind_assoc]
      congr 1
      funext s'
      exact ih s'

/-- One label more. -/
theorem run_concat {step : ℓ → σ → Option σ} {as : List ℓ} {s s' : σ}
    (h : run step as s = some s') (a : ℓ) : run step (as ++ [a]) s = step a s' := by
  rw [run_append, h, Option.bind_some]
  exact Option.bind_fun_some (step a s')

/-- `Reach step ok s₀ s`: a run from `s₀` ends in `s`, and each of its steps is
taken in a state and with a label that meet `ok`. -/
inductive Reach (step : ℓ → σ → Option σ) (ok : σ → ℓ → Prop) (s₀ : σ) : σ → Prop
  | start : Reach step ok s₀ s₀
  | next {s s' : σ} {a : ℓ} :
      Reach step ok s₀ s → ok s a → step a s = some s' → Reach step ok s₀ s'

/-- Reachability by arbitrary steps. -/
abbrev Reachable (step : ℓ → σ → Option σ) (s₀ : σ) : σ → Prop :=
  Reach step (fun _ _ => True) s₀

/-- **The invariant rule.**  What holds in `s₀` and is preserved by every step
that meets `ok` holds in every state reached by such steps. -/
theorem Reach.invariant {I : σ → Prop} {s₀ s : σ} (h : Reach step ok s₀ s)
    (hstart : I s₀)
    (hnext : ∀ s a s', I s → ok s a → step a s = some s' → I s') : I s := by
  induction h with
  | start => exact hstart
  | next _ hok hstep ih => exact hnext _ _ _ ih hok hstep

/-- A run under a condition is one under any weaker condition. -/
theorem Reach.weaken {s₀ s : σ} (h : Reach step ok s₀ s) (himp : ∀ s a, ok s a → ok' s a) :
    Reach step ok' s₀ s := by
  induction h with
  | start => exact Reach.start
  | next _ hok hstep ih => exact Reach.next ih (himp _ _ hok) hstep

/-- Runs compose. -/
theorem Reach.trans {s₀ s₁ s₂ : σ} (h₁ : Reach step ok s₀ s₁)
    (h₂ : Reach step ok s₁ s₂) : Reach step ok s₀ s₂ := by
  induction h₂ with
  | start => exact h₁
  | next _ hok hstep ih => exact Reach.next ih hok hstep

/-- A single step. -/
theorem Reach.single {s s' : σ} {a : ℓ} (hok : ok s a) (h : step a s = some s') :
    Reach step ok s s' :=
  Reach.next Reach.start hok h

/-- A step that is disabled where `ok` fails. -/
def restrict (step : ℓ → σ → Option σ) (ok : σ → ℓ → Prop)
    [∀ s a, Decidable (ok s a)] (a : ℓ) (s : σ) : Option σ :=
  if ok s a then step a s else none

/-- A run of the restricted step is a run whose steps all meet `ok`. -/
theorem Reach.of_run [∀ s a, Decidable (ok s a)] {as : List ℓ} {s₀ s : σ}
    (h : run (restrict step ok) as s₀ = some s) : Reach step ok s₀ s := by
  induction as generalizing s₀ with
  | nil =>
      rw [run, Option.some.injEq] at h
      rw [h]
      exact Reach.start
  | cons a as ih =>
      rw [run, Option.bind_eq_some_iff] at h
      obtain ⟨s₁, hstep, hrest⟩ := h
      rw [restrict] at hstep
      split_ifs at hstep with hok
      exact (Reach.single hok hstep).trans (ih hrest)

/-- An evaluated run reaches a state with an evaluated property. -/
theorem exists_reach_of_run [∀ s a, Decidable (ok s a)] {P : σ → Prop} [DecidablePred P]
    (as : List ℓ) {s₀ : σ}
    (h : ((run (restrict step ok) as s₀).any (fun s => decide (P s))) = true) :
    ∃ s, Reach step ok s₀ s ∧ P s := by
  rw [Option.any_eq_true] at h
  obtain ⟨s, hrun, hP⟩ := h
  exact ⟨s, Reach.of_run hrun, of_decide_eq_true hP⟩

/-! ## A log that grows -/

/-- An entry of a log that has grown by one is the new one, or stands where it stood. -/
theorem concat_eq_append_cons {α : Type*} {log pre post : List α} {x y : α}
    (h : log ++ [x] = pre ++ y :: post) :
    (pre = log ∧ y = x) ∨ ∃ post', log = pre ++ y :: post' := by
  rcases List.eq_nil_or_concat post with rfl | ⟨post', z, rfl⟩
  · obtain ⟨hlog, hx⟩ := List.append_inj' h rfl
    rw [List.cons.injEq] at hx
    exact Or.inl ⟨hlog.symm, hx.1.symm⟩
  · rw [List.concat_eq_append, ← List.cons_append, ← List.append_assoc] at h
    exact Or.inr ⟨post', (List.append_inj' h rfl).1⟩

end Transition
