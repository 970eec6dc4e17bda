/-
# Cyclic windows of an array

`window a n front len` reads `len` cells of the array `a` cyclically modulo `n`,
starting at the index `front`.  The lemmas say how a window grows at its rear
end, shrinks at its front end, and is left alone by a write outside it: they are
what a circular buffer needs to refine a list.
-/
import Mathlib.Tactic

namespace CyclicWindow

variable {α : Type*}

/-- The cells at `front, front + 1, …, front + len - 1`, indices taken modulo `n`. -/
def window (a : ℕ → α) (n front len : ℕ) : List α :=
  (List.range len).map (fun k => a ((front + k) % n))

@[simp] theorem length_window (a : ℕ → α) (n front len : ℕ) :
    (window a n front len).length = len := by
  rw [window, List.length_map, List.length_range]

/-- A window extended by one cell at its rear end. -/
theorem window_succ (a : ℕ → α) (n front len : ℕ) :
    window a n front (len + 1) = window a n front len ++ [a ((front + len) % n)] := by
  rw [window, List.range_succ, List.map_append, List.map_singleton, ← window]

/-- A nonempty window is its first cell and the window that starts one later. -/
theorem window_succ_front (a : ℕ → α) (n front len : ℕ) :
    window a n front (len + 1)
      = a (front % n) :: window a n ((front + 1) % n) len := by
  rw [window, List.range_succ_eq_map, List.map_cons, List.map_map, window]
  congr 1
  apply List.map_congr_left
  intro k _
  simp only [Function.comp, Nat.mod_add_mod]
  rw [show front + k.succ = front + 1 + k by omega]

/-- Offsets below the capacity address different cells. -/
theorem add_mod_ne {n front j k : ℕ} (hjk : j < k) (hk : k < n) :
    (front + j) % n ≠ (front + k) % n := by
  intro h
  have hmod : j ≡ k [MOD n] := Nat.ModEq.add_left_cancel' front h
  have : j = k := by
    rw [Nat.ModEq, Nat.mod_eq_of_lt (by omega), Nat.mod_eq_of_lt hk] at hmod
    exact hmod
  omega

/-- A write just behind the rear end leaves a window that is not full alone. -/
theorem window_update_rear {a : ℕ → α} {n front len : ℕ} (hlen : len < n) (x : α) :
    window (Function.update a ((front + len) % n) x) n front len
      = window a n front len := by
  rw [window, window]
  apply List.map_congr_left
  intro k hk
  rw [List.mem_range] at hk
  exact Function.update_of_ne (add_mod_ne hk hlen) _ _

end CyclicWindow
