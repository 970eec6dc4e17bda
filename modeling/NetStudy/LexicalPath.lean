/-
# Lexical resolution of paths

A path is a list of components: `.` stays where it is, `..` goes up, and a name goes down.
`resolve` reads a path from a directory, which is the list of the names that lead to
it from the root; from the root, `..` goes nowhere.

A path that in none of its beginnings has more `..` than names stays below the
directory it is read from (`resolve_of_descends`), and it is the only kind of path that
stays below whatever the directory is (`forall_prefix_resolve_iff`).
-/
import Mathlib.Data.Finset.Basic
import Mathlib.Data.Fintype.EquivFin
import Mathlib.Tactic.Ring

namespace LexicalPath

variable {N : Type*}

/-- A component of a path. -/
inductive Component (N : Type*)
  | stay
  | up
  | name (n : N)
  deriving DecidableEq

/-- Whether a component goes up. -/
def Component.isUp : Component N → Bool
  | up => true
  | _ => false

/-- Whether a component is a name. -/
def Component.isName : Component N → Bool
  | name _ => true
  | _ => false

/-- The directory, or file, that a path leads to. -/
def resolve : List N → List (Component N) → List N
  | dir, [] => dir
  | dir, Component.stay :: ps => resolve dir ps
  | dir, Component.up :: ps => resolve dir.dropLast ps
  | dir, Component.name n :: ps => resolve (dir ++ [n]) ps

/-- A path that is read `d` levels below some directory comes to no place above it. -/
def descends : ℕ → List (Component N) → Bool
  | _, [] => true
  | d, Component.stay :: ps => descends d ps
  | 0, Component.up :: _ => false
  | d + 1, Component.up :: ps => descends d ps
  | d, Component.name _ :: ps => descends (d + 1) ps

/-- The beginnings of a list with a first element, beside the empty one. -/
theorem forall_take_cons_iff {α : Type*} {P : List α → Prop} (hnil : P []) (a : α) (l : List α) :
    (∀ k, P ((a :: l).take k)) ↔ ∀ k, P (a :: l.take k) := by
  constructor
  · intro h k
    exact h (k + 1)
  · intro h k
    cases k with
    | zero => exact hnil
    | succ k => exact h k

/-- No beginning of the path has more `..` than names, and `d`. -/
theorem descends_iff (d : ℕ) (ps : List (Component N)) :
    descends d ps = true ↔
      ∀ k, (ps.take k).countP Component.isUp ≤ d + (ps.take k).countP Component.isName := by
  induction ps generalizing d with
  | nil => simp [descends]
  | cons p ps ih =>
      rw [forall_take_cons_iff
        (P := fun qs => qs.countP Component.isUp ≤ d + qs.countP Component.isName) (Nat.zero_le _)]
      cases p with
      | stay =>
          rw [descends, ih]
          apply forall_congr'
          intro k
          simp [Component.isUp, Component.isName]
      | up =>
          cases d with
          | zero =>
              rw [descends]
              constructor
              · intro h
                cases h
              · intro h
                have := h 0
                simp [Component.isUp, Component.isName] at this
          | succ d =>
              rw [descends, ih]
              apply forall_congr'
              intro k
              simp only [List.countP_cons, Component.isUp, Component.isName, if_true,
                Bool.false_eq_true, if_false]
              omega
      | name n =>
          rw [descends, ih]
          apply forall_congr'
          intro k
          simp only [List.countP_cons, Component.isUp, Component.isName, if_true,
            Bool.false_eq_true, if_false]
          omega

/-! ## Paths that stay below -/

/-- A path that descends keeps the directory it is read below. -/
theorem resolve_of_descends (dir : List N) {ps : List (Component N)} {sub : List N}
    (h : descends sub.length ps = true) : ∃ sub', resolve (dir ++ sub) ps = dir ++ sub' := by
  induction ps generalizing sub with
  | nil => exact ⟨sub, rfl⟩
  | cons p ps ih =>
      cases p with
      | stay =>
          rw [resolve]
          exact ih h
      | up =>
          rcases List.eq_nil_or_concat' sub with rfl | ⟨sub, n, rfl⟩
          · cases h
          · rw [List.length_append, List.length_singleton] at h
            rw [resolve, ← List.append_assoc, List.dropLast_concat]
            exact ih h
      | name n =>
          rw [resolve, List.append_assoc]
          apply ih
          rw [List.length_append, List.length_singleton]
          exact h

/-! ## Paths that do not -/

/-- What a path leads to is made of the names of the directory and of the path. -/
theorem mem_resolve {dir : List N} {ps : List (Component N)} {n : N} (h : n ∈ resolve dir ps) :
    n ∈ dir ∨ Component.name n ∈ ps := by
  induction ps generalizing dir with
  | nil => exact Or.inl h
  | cons p ps ih =>
      cases p with
      | stay =>
          rcases ih h with hdir | hps
          · exact Or.inl hdir
          · exact Or.inr (List.mem_cons_of_mem _ hps)
      | up =>
          rcases ih h with hdir | hps
          · exact Or.inl (List.mem_of_mem_dropLast hdir)
          · exact Or.inr (List.mem_cons_of_mem _ hps)
      | name k =>
          rcases ih h with hdir | hps
          · rcases List.mem_append.mp hdir with hdir | hk
            · exact Or.inl hdir
            · rw [List.mem_singleton.mp hk]
              exact Or.inr List.mem_cons_self
          · exact Or.inr (List.mem_cons_of_mem _ hps)

/-- A path that does not descend loses a directory whose name it does not have. -/
theorem notMem_resolve {ps : List (Component N)} {sub : List N} {n : N}
    (h : descends sub.length ps = false) (hps : Component.name n ∉ ps) (hsub : n ∉ sub) :
    n ∉ resolve (n :: sub) ps := by
  induction ps generalizing sub with
  | nil => cases h
  | cons p ps ih =>
      rw [List.mem_cons, not_or] at hps
      cases p with
      | stay => exact ih h hps.2 hsub
      | up =>
          rcases List.eq_nil_or_concat' sub with rfl | ⟨sub, k, rfl⟩
          · -- here the path leaves the directory, and the name does not come back
            intro hmem
            rcases mem_resolve (show n ∈ resolve [] ps from hmem) with hnil | hname
            · cases hnil
            · exact hps.2 hname
          · rw [List.length_append, List.length_singleton] at h
            rw [resolve, ← List.cons_append, List.dropLast_concat]
            exact ih h hps.2 (fun hn => hsub (List.mem_append_left _ hn))
      | name k =>
          rw [resolve, List.cons_append]
          apply ih _ hps.2
          · rw [List.mem_append, List.mem_singleton, not_or]
            exact ⟨hsub, fun hk => hps.1 (by rw [hk])⟩
          · rw [List.length_append, List.length_singleton]
            exact h

/-- There is a name that a path does not have. -/
theorem exists_fresh [Infinite N] (ps : List (Component N)) : ∃ n, Component.name n ∉ ps := by
  classical
  obtain ⟨n, hn⟩ := Infinite.exists_notMem_finset
    (ps.filterMap (fun p => match p with | Component.name n => some n | _ => none)).toFinset
  refine ⟨n, fun hmem => hn ?_⟩
  rw [List.mem_toFinset, List.mem_filterMap]
  exact ⟨Component.name n, hmem, rfl⟩

/-- **The paths that stay below every directory they are read from.** -/
theorem forall_prefix_resolve_iff [Infinite N] (ps : List (Component N)) :
    (∀ dir : List N, dir <+: resolve dir ps) ↔ descends 0 ps = true := by
  constructor
  · intro h
    by_contra hno
    rw [Bool.not_eq_true] at hno
    obtain ⟨n, hn⟩ := exists_fresh ps
    have hmem : n ∈ resolve [n] ps := (h [n]).subset List.mem_cons_self
    have hzero : descends ([] : List N).length ps = false := hno
    exact notMem_resolve hzero hn (by simp) hmem
  · intro h dir
    have hzero : descends ([] : List N).length ps = true := h
    obtain ⟨sub, hsub⟩ := resolve_of_descends dir hzero
    rw [List.append_nil] at hsub
    rw [hsub]
    exact List.prefix_append dir sub

/-- A path that is read from the root stays below no directory of another name. -/
theorem exists_not_prefix_root [Infinite N] (ps : List (Component N)) :
    ∃ dir : List N, ¬ dir <+: resolve [] ps := by
  obtain ⟨n, hn⟩ := exists_fresh ps
  refine ⟨[n], fun h => ?_⟩
  rcases mem_resolve (h.subset List.mem_cons_self) with hnil | hname
  · cases hnil
  · exact hn hname

end LexicalPath
