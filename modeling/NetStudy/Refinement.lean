/-
# Functional simulation, and runs that are bounded

A system refines another one along a map of states if each of its steps is, behind the
map, a step of the other one or none at all.  What is reached is then reached there, and
the other system's invariants hold of it.  The steps of both may be under conditions, as
those of `Reach` are.

A system each of whose steps takes something off a measure has runs of bounded length
(`run_length_le`).
-/
import NetStudy.Transition

namespace Transition

variable {σ τ ℓ ℓ' : Type*} {step : ℓ → σ → Option σ} {step' : ℓ' → τ → Option τ}
  {ok : σ → ℓ → Prop} {ok' : τ → ℓ' → Prop}

/-- A run leads to a state that is reachable. -/
theorem reachable_of_run {as : List ℓ} {s₀ s : σ} (h : run step as s₀ = some s) :
    Reachable step s₀ s := by
  induction as generalizing s₀ with
  | nil =>
      rw [run, Option.some.injEq] at h
      rw [h]
      exact Reach.start
  | cons a as ih =>
      obtain ⟨s₁, hstep, hrest⟩ := Option.bind_eq_some_iff.mp h
      exact (Reach.single trivial hstep).trans (ih hrest)

/-- Every step under `ok` is behind `f` a step of the other system under `ok'`, or leaves
what `f` sees. -/
def Simulates (step : ℓ → σ → Option σ) (ok : σ → ℓ → Prop) (step' : ℓ' → τ → Option τ)
    (ok' : τ → ℓ' → Prop) (f : σ → τ) : Prop :=
  ∀ s a s', ok s a → step a s = some s' →
    f s' = f s ∨ ∃ b, ok' (f s) b ∧ step' b (f s) = some (f s')

/-- **The simulation rule**: the map takes what is reached to what is reached. -/
theorem Reach.simulate {f : σ → τ} (hsim : Simulates step ok step' ok' f) {s₀ s : σ}
    (h : Reach step ok s₀ s) : Reach step' ok' (f s₀) (f s) := by
  induction h with
  | start => exact Reach.start
  | next _ hok hstep ih =>
      rcases hsim _ _ _ hok hstep with heq | ⟨b, hb, hstep'⟩
      · rw [heq]
        exact ih
      · exact Reach.next ih hb hstep'

/-- **The measure rule**: while an invariant holds, a run is no longer than what its steps
take off a measure. -/
theorem run_length_le {I : σ → Prop} {μ : σ → ℕ}
    (hkept : ∀ s a s', I s → step a s = some s' → I s')
    (hless : ∀ s a s', I s → step a s = some s' → μ s' + 1 ≤ μ s) {as : List ℓ} {s s' : σ}
    (hs : I s) (h : run step as s = some s') : as.length + μ s' ≤ μ s := by
  induction as generalizing s with
  | nil =>
      rw [run, Option.some.injEq] at h
      rw [h, List.length_nil, Nat.zero_add]
  | cons a as ih =>
      obtain ⟨s₁, hfirst, hrest⟩ := Option.bind_eq_some_iff.mp h
      have hone := hless s a s₁ hs hfirst
      have hmore := ih (hkept s a s₁ hs hfirst) hrest
      rw [List.length_cons]
      omega

end Transition
