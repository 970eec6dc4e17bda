/-
# Fields of a block of bytes

A block of `n` bytes is a function on `Fin n`, and a field is a range of its positions.
Two structures that share their storage, as in a union, are two lists of fields of one
block, and fields of the two may overlap.

* `get_set` and `get_set_of_apart`: what a write to a field does to it, and to a field
  that it does not touch;
* `set_of_misses`: what it does to a single byte;
* `get_copy`: a field that has been copied together with its surroundings is read as in the
  source.
-/
import Mathlib.Data.Fin.Basic
import Mathlib.Tactic.Common

namespace ByteFields

variable {n k : ℕ} {β : Type*}

/-- A range of positions of a block. -/
structure Field (n : ℕ) where
  offset : ℕ
  size : ℕ
  inside : offset + size ≤ n

/-- The position of a byte of the field in the block. -/
def Field.pos (f : Field n) (i : Fin f.size) : Fin n :=
  ⟨f.offset + i, lt_of_lt_of_le (Nat.add_lt_add_left i.isLt f.offset) f.inside⟩

/-- The bytes of a field. -/
def Field.get (f : Field n) (m : Fin n → β) : Fin f.size → β := fun i => m (f.pos i)

/-- Where a position of the block is in the field. -/
theorem Field.sub_lt {f : Field n} {j : Fin n} (h : f.offset ≤ j ∧ j < f.offset + f.size) :
    j - f.offset < f.size := by
  omega

/-- The block with other bytes in a field. -/
def Field.set (f : Field n) (m : Fin n → β) (v : Fin f.size → β) : Fin n → β := fun j =>
  if h : f.offset ≤ j ∧ j < f.offset + f.size then v ⟨j - f.offset, Field.sub_lt h⟩ else m j

/-- The block after the first bytes of another block have been copied into a field. -/
def Field.copy (f : Field n) (m : Fin n → β) (src : Fin k → β) (h : f.size ≤ k) : Fin n → β :=
  f.set m (fun i => src (Fin.castLE h i))

/-- The position is not in the field. -/
def Field.Misses (f : Field n) (j : Fin n) : Prop := j < f.offset ∨ f.offset + f.size ≤ j

/-- The two fields have no position in common. -/
def Field.Apart (f g : Field n) : Prop :=
  f.offset + f.size ≤ g.offset ∨ g.offset + g.size ≤ f.offset

instance (f g : Field n) : Decidable (f.Apart g) := inferInstanceAs (Decidable (_ ∨ _))

instance (f : Field n) (j : Fin n) : Decidable (f.Misses j) := inferInstanceAs (Decidable (_ ∨ _))

/-! ## Writing and reading -/

/-- A byte of the field after a write. -/
theorem set_pos (f : Field n) (m : Fin n → β) (v : Fin f.size → β) (i : Fin f.size) :
    f.set m v (f.pos i) = v i := by
  have hin : f.offset ≤ f.pos i ∧ f.pos i < f.offset + f.size := by
    have := i.isLt
    constructor
    · exact Nat.le_add_right _ _
    · show f.offset + i < f.offset + f.size
      omega
  rw [Field.set, dif_pos hin]
  congr 1
  apply Fin.ext
  show f.offset + i - f.offset = i
  omega

/-- A byte outside the field after a write. -/
theorem set_of_misses {f : Field n} {j : Fin n} (h : f.Misses j) (m : Fin n → β)
    (v : Fin f.size → β) : f.set m v j = m j := by
  rw [Field.set, dif_neg]
  rintro ⟨hle, hlt⟩
  rcases h with h | h
  · omega
  · omega

/-- **Reading what has been written.** -/
theorem get_set (f : Field n) (m : Fin n → β) (v : Fin f.size → β) : f.get (f.set m v) = v := by
  funext i
  exact set_pos f m v i

/-- A position of a field is missed by the fields apart from it. -/
theorem Field.Apart.misses {f g : Field n} (h : f.Apart g) (i : Fin g.size) :
    f.Misses (g.pos i) := by
  have hpos : (g.pos i : ℕ) = g.offset + i := rfl
  have := i.isLt
  rcases h with h | h
  · right
    omega
  · left
    omega

/-- **Reading a field that has not been touched.** -/
theorem get_set_of_apart {f g : Field n} (h : f.Apart g) (m : Fin n → β) (v : Fin f.size → β) :
    g.get (f.set m v) = g.get m := by
  funext i
  exact set_of_misses (h.misses i) m v

/-- A byte inside the field comes from the source of a copy. -/
theorem copy_of_mem {f : Field n} {j : Fin n} (hj : f.offset ≤ j ∧ j < f.offset + f.size)
    (m : Fin n → β) (src : Fin k → β) (h : f.size ≤ k) :
    f.copy m src h j = src ⟨j - f.offset, (Field.sub_lt hj).trans_le h⟩ := by
  rw [Field.copy, Field.set, dif_pos hj]
  rfl

/-- **Reading a field that has been copied with others**: it is a field of the source. -/
theorem get_copy {f g : Field n} {p : Field k} (hsize : g.size = p.size)
    (hoffset : g.offset = f.offset + p.offset) (hin : p.offset + p.size ≤ f.size)
    (m : Fin n → β) (src : Fin k → β) (h : f.size ≤ k) :
    g.get (f.copy m src h) = fun i => p.get src (Fin.cast hsize i) := by
  funext i
  have hpos : (g.pos i : ℕ) = g.offset + i := rfl
  have := i.isLt
  show f.copy m src h (g.pos i) = src (p.pos (Fin.cast hsize i))
  rw [copy_of_mem (by omega)]
  congr 1
  apply Fin.ext
  show (g.pos i : ℕ) - f.offset = p.offset + i
  omega

end ByteFields
