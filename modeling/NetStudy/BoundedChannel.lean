/-
# Bounded FIFO channels

A channel of capacity `cap` is a queue that carries the proof that it is no longer than
that.  `send` puts items at its end if there is room for them, and `recv` takes items
from its front if they are there; neither does so in part, so a transfer that is to be
made in pieces is made by several of them.
-/
import Mathlib.Tactic

/-- A queue of at most `cap` items. -/
structure Channel (α : Type*) (cap : ℕ) where
  queue : List α
  bounded : queue.length ≤ cap

namespace Channel

variable {α : Type*} {cap : ℕ}

/-- The empty channel. -/
def empty : Channel α cap := ⟨[], Nat.zero_le cap⟩

/-- Puts the items at the end, if there is room. -/
def send (c : Channel α cap) (xs : List α) : Option (Channel α cap) :=
  if h : c.queue.length + xs.length ≤ cap then
    some ⟨c.queue ++ xs, by rw [List.length_append]; exact h⟩
  else none

/-- Takes the first `n` items, if they are there. -/
def recv (c : Channel α cap) (n : ℕ) : Option (List α × Channel α cap) :=
  if n ≤ c.queue.length then
    some (c.queue.take n, ⟨c.queue.drop n, by
      have := c.bounded
      rw [List.length_drop]
      omega⟩)
  else none

theorem send_eq_some {c c' : Channel α cap} {xs : List α} (h : c.send xs = some c') :
    c'.queue = c.queue ++ xs := by
  rw [send] at h
  split_ifs at h
  rw [← Option.some.inj h]

/-- A channel takes what there is room for. -/
theorem exists_send (c : Channel α cap) (xs : List α) (h : c.queue.length + xs.length ≤ cap) :
    ∃ c', c.send xs = some c' ∧ c'.queue = c.queue ++ xs :=
  ⟨_, dif_pos h, rfl⟩

theorem send_eq_none {c : Channel α cap} {xs : List α} (h : cap < c.queue.length + xs.length) :
    c.send xs = none :=
  dif_neg (by omega)

theorem recv_eq_some {c c' : Channel α cap} {n : ℕ} {xs : List α}
    (h : c.recv n = some (xs, c')) :
    c.queue = xs ++ c'.queue ∧ xs.length = n := by
  rw [recv] at h
  split_ifs at h with hn
  obtain ⟨rfl, rfl⟩ := Prod.mk.inj (Option.some.inj h)
  exact ⟨(List.take_append_drop n _).symm, List.length_take_of_le hn⟩

/-- A channel gives what is in it. -/
theorem exists_recv (c : Channel α cap) (n : ℕ) (h : n ≤ c.queue.length) :
    ∃ c', c.recv n = some (c.queue.take n, c') ∧ c'.queue = c.queue.drop n :=
  ⟨_, if_pos h, rfl⟩

end Channel
