/-
# An object guarded by one lock

Threads `t : T` with local states `loc t : L` share an object of type `O`.  A
critical section changes the object in several statements, so between two of
them the object is in a state that no complete section produces.  A `Section`
says of each local state

* whether it lies `inside` a section,
* what the statements that remain would still do to the object (`settle`),
* what its thread knows about the object (`fact`).

`Guarded S R c` is the invariant: only the owner of the lock is inside, it knows
what it should, and the object as it will be once the section is over satisfies
`R`.  The four step lemmas say how it survives a statement outside any section,
the acquisition and the release of the lock, and a statement of the owner; only
the last has to say anything about the object.
-/
import Mathlib.Tactic

namespace CriticalSection

variable {T L O : Type*}

/-- The lock's owner, the local states and the shared object. -/
structure Config (T L O : Type*) where
  lock : Option T
  loc : T → L
  object : O

/-- The local states of a section, the rest of the section as an operation on
the object, and the knowledge it relies on. -/
structure Section (L O : Type*) where
  inside : L → Prop
  settle : L → O → O
  fact : L → O → Prop
  /-- Outside a section nothing remains to be done. -/
  settle_outside : ∀ l o, ¬ inside l → settle l o = o

/-- The object once the owner of the lock has finished its section. -/
def Config.settled (S : Section L O) (c : Config T L O) : O :=
  match c.lock with
  | none => c.object
  | some t => S.settle (c.loc t) c.object

theorem Config.settled_free {S : Section L O} {c : Config T L O} (h : c.lock = none) :
    c.settled S = c.object := by
  rw [settled, h]

theorem Config.settled_owned {S : Section L O} {c : Config T L O} {t : T}
    (h : c.lock = some t) : c.settled S = S.settle (c.loc t) c.object := by
  rw [settled, h]

/-- The invariant of a guarded object. -/
structure Guarded (S : Section L O) (R : O → Prop) (c : Config T L O) : Prop where
  owns : ∀ t, S.inside (c.loc t) → c.lock = some t
  knows : ∀ t, S.inside (c.loc t) → S.fact (c.loc t) c.object
  settled : R (c.settled S)

/-- Local states a section does not tell apart. -/
def Section.Similar (S : Section L O) (l l' : L) : Prop :=
  (S.inside l' ↔ S.inside l) ∧ S.settle l' = S.settle l ∧ S.fact l' = S.fact l

variable {S : Section L O} {R : O → Prop} {c : Config T L O}

theorem Section.Similar.refl (l : L) : S.Similar l l := ⟨Iff.rfl, rfl, rfl⟩

/-- The invariant does not see a change to similar local states, of any number
of threads at once. -/
theorem Guarded.similar (h : Guarded S R c) (loc' : T → L)
    (hsim : ∀ t, S.Similar (c.loc t) (loc' t)) :
    Guarded S R { c with loc := loc' } := by
  refine ⟨fun t ht => h.owns t ((hsim t).1.mp ht), fun t ht => ?_, ?_⟩
  · show S.fact (loc' t) c.object
    rw [(hsim t).2.2]
    exact h.knows t ((hsim t).1.mp ht)
  · have heq : Config.settled S { c with loc := loc' } = c.settled S := by
      cases hlock : c.lock with
      | none => rw [Config.settled_free hlock, Config.settled_free rfl]
      | some u =>
          rw [Config.settled_owned hlock, Config.settled_owned rfl]
          show S.settle (loc' u) c.object = _
          rw [(hsim u).2.1]
    rw [heq]
    exact h.settled

/-- While the lock is free, `R` holds of the object as it is. -/
theorem Guarded.object_free (h : Guarded S R c) (hlock : c.lock = none) : R c.object := by
  rw [← Config.settled_free (S := S) hlock]
  exact h.settled

/-- While `t` owns the lock, `R` holds of the object as `t` will leave it. -/
theorem Guarded.object_owned (h : Guarded S R c) {t : T} (hlock : c.lock = some t) :
    R (S.settle (c.loc t) c.object) := by
  rw [← Config.settled_owned (S := S) hlock]
  exact h.settled

/-- A thread that does not own the lock is not inside. -/
theorem Guarded.not_inside (h : Guarded S R c) {t : T} (hlock : c.lock ≠ some t) :
    ¬ S.inside (c.loc t) :=
  fun ht => hlock (h.owns t ht)

/-- A configuration in which `t` owns the lock and no other thread is inside. -/
theorem Guarded.of_owner {t : T} (hlock : c.lock = some t)
    (hother : ∀ u, u ≠ t → ¬ S.inside (c.loc u))
    (hfact : S.inside (c.loc t) → S.fact (c.loc t) c.object)
    (hR : R (S.settle (c.loc t) c.object)) : Guarded S R c := by
  have honly : ∀ u, S.inside (c.loc u) → u = t := by
    intro u hu
    by_contra hut
    exact hother u hut hu
  refine ⟨fun u hu => ?_, fun u hu => ?_, ?_⟩
  · rw [honly u hu]
    exact hlock
  · obtain rfl := honly u hu
    exact hfact hu
  · rw [Config.settled_owned hlock]
    exact hR

/-! ## The steps of one thread -/

variable [DecidableEq T]

/-- A statement outside any section that stays outside. -/
theorem Guarded.outside (h : Guarded S R c) {t : T} {l : L} (hl : ¬ S.inside (c.loc t))
    (hl' : ¬ S.inside l) : Guarded S R { c with loc := Function.update c.loc t l } := by
  have hloc : ∀ u, S.inside (Function.update c.loc t l u) →
      u ≠ t ∧ S.inside (c.loc u) := by
    intro u hu
    by_cases hut : u = t
    · rw [hut, Function.update_self] at hu
      exact absurd hu hl'
    · rw [Function.update_of_ne hut] at hu
      exact ⟨hut, hu⟩
  refine ⟨fun u hu => h.owns u (hloc u hu).2, fun u hu => ?_, ?_⟩
  · show S.fact (Function.update c.loc t l u) c.object
    rw [Function.update_of_ne (hloc u hu).1]
    exact h.knows u (hloc u hu).2
  · cases hlock : c.lock with
    | none =>
        rw [Config.settled_free rfl]
        exact h.object_free hlock
    | some u =>
        rw [Config.settled_owned rfl]
        have hR := h.object_owned hlock
        by_cases hut : u = t
        · rw [hut, S.settle_outside _ _ hl] at hR
          show R (S.settle (Function.update c.loc t l u) c.object)
          rwa [hut, Function.update_self, S.settle_outside _ _ hl']
        · show R (S.settle (Function.update c.loc t l u) c.object)
          rwa [Function.update_of_ne hut]

/-- A thread that was not inside and has not moved is not inside. -/
theorem Guarded.not_inside_update (h : Guarded S R c) {t u : T} (l : L) (hut : u ≠ t)
    (hlock : c.lock ≠ some u) : ¬ S.inside (Function.update c.loc t l u) := by
  rw [Function.update_of_ne hut]
  exact h.not_inside hlock

/-- The lock is free and `t` takes it, having done nothing to the object yet. -/
theorem Guarded.acquire (h : Guarded S R c) {t : T} {l : L} (hlock : c.lock = none)
    (hsettle : S.settle l c.object = c.object)
    (hfact : S.inside l → S.fact l c.object) :
    Guarded S R { c with lock := some t, loc := Function.update c.loc t l } := by
  apply Guarded.of_owner rfl
  · intro u hut
    apply h.not_inside_update l hut
    rw [hlock]
    exact (Option.some_ne_none u).symm
  · simp only [Function.update_self]
    exact hfact
  · simp only [Function.update_self, hsettle]
    exact h.object_free hlock

/-- The lock is `t`'s or free, nothing of `t`'s section remains, and `t` leaves
it with the lock free. -/
theorem Guarded.release (h : Guarded S R c) {t : T} {l : L}
    (hlock : c.lock = none ∨ c.lock = some t)
    (hsettle : S.settle (c.loc t) c.object = c.object) (hl : ¬ S.inside l) :
    Guarded S R { c with lock := none, loc := Function.update c.loc t l } := by
  have hnone : ∀ u, ¬ S.inside (Function.update c.loc t l u) := by
    intro u
    by_cases hut : u = t
    · rw [hut, Function.update_self]
      exact hl
    · rw [Function.update_of_ne hut]
      apply h.not_inside
      rcases hlock with hfree | howned
      · rw [hfree]
        exact (Option.some_ne_none u).symm
      · rw [howned]
        exact fun heq => hut (Option.some.inj heq).symm
  refine ⟨fun u hu => absurd hu (hnone u), fun u hu => absurd hu (hnone u), ?_⟩
  rw [Config.settled_free rfl]
  rcases hlock with hfree | howned
  · exact h.object_free hfree
  · have hR := h.object_owned howned
    rwa [hsettle] at hR

/-- **A statement of the owner.**  It may change the object, as long as the
owner knows what it needs afterwards and the object it will leave behind still
satisfies `R`. -/
theorem Guarded.owner (h : Guarded S R c) {t : T} {l : L} {o : O}
    (hlock : c.lock = some t) (hfact : S.inside l → S.fact l o)
    (hR : R (S.settle l o)) :
    Guarded S R { c with loc := Function.update c.loc t l, object := o } := by
  apply Guarded.of_owner (c := { c with loc := Function.update c.loc t l, object := o }) hlock
  · intro u hut
    apply h.not_inside_update l hut
    rw [hlock]
    exact fun heq => hut (Option.some.inj heq).symm
  · simp only [Function.update_self]
    exact hfact
  · simp only [Function.update_self]
    exact hR

/-! ## Several locks -/

section Locks

variable {M : Type*}

/-- What a statement of the thread `t` does to a lock with owner `o`: nothing, or it takes the
lock while it is free, or it gives it back.  `b` and `b'` tell whether `t` is inside a section
of this lock, before and after. -/
def LockMove (t : T) (o o' : Option T) (b b' : Bool) : Prop :=
  (o' = o ∧ b' = b) ∨ (o = none ∧ o' = some t ∧ b' = true) ∨ (b = true ∧ o' = none ∧ b' = false)

/-- Each lock is owned by the thread inside a section of it, if there is one. -/
def OwnedInside (owner : M → Option T) (inside : M → T → Bool) : Prop :=
  ∀ m t, owner m = some t ↔ inside m t = true

omit [DecidableEq T] in
/-- **One thread moves.** -/
theorem OwnedInside.step {owner owner' : M → Option T} {inside inside' : M → T → Bool}
    (h : OwnedInside owner inside) (t : T) (hother : ∀ m u, u ≠ t → inside' m u = inside m u)
    (hself : ∀ m, LockMove t (owner m) (owner' m) (inside m t) (inside' m t)) :
    OwnedInside owner' inside' := by
  intro m u
  have hold := h m u
  by_cases hut : u = t
  · subst hut
    rcases hself m with ⟨hown, hin⟩ | ⟨-, hown, hin⟩ | ⟨-, hown, hin⟩
    · rw [hown, hin]
      exact hold
    · simp only [hown, hin]
    · simp only [hown, hin, reduceCtorEq, Bool.false_eq_true]
  · rw [hother m u hut, ← hold]
    rcases hself m with ⟨hown, -⟩ | ⟨hfree, hown, -⟩ | ⟨hin, hown, -⟩
    · rw [hown]
    · simp only [hown, hfree, Option.some.injEq, Ne.symm hut, reduceCtorEq]
    · have howner := (h m t).mpr hin
      simp only [hown, howner, Option.some.injEq, Ne.symm hut, reduceCtorEq]

end Locks

end CriticalSection
