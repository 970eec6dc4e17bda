/-
# Character arrays and the strings in them

An array of characters is the list of its cells.  `put` stores bytes at its start, as
`recvfrom` and `read` do, and `putString` stores a string with its NUL, as `fgets` does; the
cells behind stay as they were.  `strlen` is the index of the first NUL.

Bytes stored in front of a NUL leave it where it is (`NulAt.put`), so an array that holds
one keeps holding one as long as nothing longer is stored.
-/
import Mathlib.Data.List.TakeWhile
import Mathlib.Tactic

namespace CharBuffer

/-- The index of the first NUL, and the number of cells if there is none. -/
def strlen (buf : List UInt8) : ℕ := buf.idxOf 0

/-- The string at the start of an array. -/
def string (buf : List UInt8) : List UInt8 := buf.take (strlen buf)

/-- The array after the bytes have been stored at its start. -/
def put (buf bytes : List UInt8) : List UInt8 := bytes ++ buf.drop bytes.length

/-- The array after a string and its NUL have been stored at its start. -/
def putString (buf text : List UInt8) : List UInt8 := put buf (text ++ [0])

/-- The cell `i` holds a NUL. -/
def NulAt (buf : List UInt8) (i : ℕ) : Prop := buf[i]? = some 0

theorem length_put {buf bytes : List UInt8} (h : bytes.length ≤ buf.length) :
    (put buf bytes).length = buf.length := by
  rw [put, List.length_append, List.length_drop]
  omega

theorem length_putString {buf text : List UInt8} (h : text.length < buf.length) :
    (putString buf text).length = buf.length := by
  apply length_put
  rw [List.length_append]
  exact h

theorem NulAt.lt {buf : List UInt8} {i : ℕ} (h : NulAt buf i) : i < buf.length :=
  (List.getElem?_eq_some_iff.mp h).1

/-- The string is what stands in front of the first NUL. -/
theorem string_eq_takeWhile (buf : List UInt8) : string buf = buf.takeWhile (· != 0) := by
  induction buf with
  | nil => rfl
  | cons b buf ih =>
      rw [string, strlen, List.idxOf_cons, List.takeWhile_cons]
      by_cases hb : b = 0
      · rw [hb]
        rfl
      · have hbeq : (b == 0) = false := beq_eq_false_iff_ne.mpr hb
        have hbne : (b != 0) = true := bne_iff_ne.mpr hb
        rw [hbeq, hbne, cond_false, if_pos rfl, List.take_succ_cons, ← ih]
        rfl

theorem zero_notMem_string (buf : List UInt8) : 0 ∉ string buf := by
  intro hmem
  rw [string_eq_takeWhile] at hmem
  exact absurd (List.mem_takeWhile_imp (p := (· != 0)) hmem) (by decide)

theorem length_string (buf : List UInt8) : (string buf).length = strlen buf :=
  List.length_take_of_le List.idxOf_le_length

/-- NULs behind an array without one end its string there. -/
theorem string_append_zeros (text : List UInt8) (k : ℕ) :
    string (text ++ List.replicate k 0) = string text := by
  rw [string_eq_takeWhile, string_eq_takeWhile, List.takeWhile_append]
  split_ifs with hall
  · rw [List.takeWhile_replicate, if_neg (by decide), List.append_nil]
    exact ((List.takeWhile_prefix _).eq_of_length hall).symm
  · rfl

/-- **A NUL bounds the string.** -/
theorem NulAt.strlen_le {buf : List UInt8} {i : ℕ} (h : NulAt buf i) : strlen buf ≤ i := by
  induction buf generalizing i with
  | nil => cases h
  | cons b buf ih =>
      rw [strlen, List.idxOf_cons]
      rcases i with _ | i
      · -- the first cell
        rw [NulAt, List.getElem?_cons_zero, Option.some.injEq] at h
        rw [h]
        exact Nat.zero_le _
      · rw [NulAt, List.getElem?_cons_succ] at h
        rcases (b == 0) with _ | _
        · exact Nat.succ_le_succ (ih h)
        · exact Nat.zero_le _

/-- `strlen` stops inside the array at a NUL only. -/
theorem nulAt_strlen {buf : List UInt8} (h : strlen buf < buf.length) : NulAt buf (strlen buf) := by
  rw [NulAt, List.getElem?_eq_getElem h]
  exact congrArg some (List.getElem_idxOf h)

theorem NulAt.length_string_le {buf : List UInt8} {i : ℕ} (h : NulAt buf i) :
    (string buf).length ≤ i :=
  le_trans (List.length_take_le _ _) h.strlen_le

/-- **Bytes in front of a NUL** leave it. -/
theorem NulAt.put {buf bytes : List UInt8} {i : ℕ} (h : NulAt buf i) (hle : bytes.length ≤ i) :
    NulAt (put buf bytes) i := by
  rw [NulAt, CharBuffer.put, List.getElem?_append_right hle, List.getElem?_drop,
    Nat.add_sub_cancel' hle]
  exact h

/-- A string in front of a NUL, with its own. -/
theorem NulAt.putString {buf text : List UInt8} {i : ℕ} (h : NulAt buf i)
    (hlt : text.length < i) : NulAt (putString buf text) i := by
  apply h.put
  rw [List.length_append]
  exact hlt

/-- The NUL of a string that has been stored. -/
theorem nulAt_putString (buf text : List UInt8) : NulAt (putString buf text) text.length := by
  rw [NulAt, CharBuffer.putString, CharBuffer.put, List.append_assoc,
    List.getElem?_append_right le_rfl, Nat.sub_self]
  rfl

end CharBuffer
