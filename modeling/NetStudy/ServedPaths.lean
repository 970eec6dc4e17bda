/-
# The files that the web server serves (`http/myhttpd.c`)

`do_read` drops the first byte of the path of a `GET`, whatever it is, and hands the
rest to `stat` and `open`, from the working directory that `main` has set with `chdir`.
Nothing looks at the name: `GET /../x` leaves the directory, and `GET //x` is read from
the root.  `served_iff` says which names stay below the directory, whatever the
directory is.
-/
import NetStudy.DoRead
import NetStudy.LexicalPath

namespace MyHttpd

open LexicalPath

/-- `'/'`. -/
abbrev SLASH : UInt8 := 47

/-- The component between two slashes. -/
def componentOf (c : List UInt8) : Component (List UInt8) :=
  if c = [] ∨ c = [46] then Component.stay else if c = [46, 46] then Component.up else Component.name c

/-- The components of a file name. -/
def componentsOf (file : List UInt8) : List (Component (List UInt8)) := (file.splitOn SLASH).map componentOf

/-- Whether a file name is read from the root. -/
def isAbsolute (file : List UInt8) : Bool := file.head? == some SLASH

/-- What a file name means in the working directory `cwd`. -/
def resolveFile (cwd : List (List UInt8)) (file : List UInt8) : List (List UInt8) :=
  resolve (if isAbsolute file then [] else cwd) (componentsOf file)

/-- The directory holds what the name means. -/
def Inside (cwd : List (List UInt8)) (file : List UInt8) : Prop := cwd <+: resolveFile cwd file

/-- A name that is relative and that in none of its beginnings has more `..` than
names. -/
def Descends (file : List UInt8) : Prop :=
  isAbsolute file = false ∧
    ∀ k, ((componentsOf file).take k).countP Component.isUp ≤ ((componentsOf file).take k).countP Component.isName

/-- The names that stay below the working directory whatever it is. -/
theorem forall_inside_iff (file : List UInt8) : (∀ cwd, Inside cwd file) ↔ Descends file := by
  rcases habs : isAbsolute file with _ | _
  · have hdir : ∀ cwd, Inside cwd file ↔ cwd <+: resolve cwd (componentsOf file) := by
      intro cwd
      rw [Inside, resolveFile, habs]
      exact Iff.rfl
    rw [Descends, and_iff_right habs, forall_congr' hdir, forall_prefix_resolve_iff, descends_iff]
    simp only [Nat.zero_add]
  · obtain ⟨cwd, hcwd⟩ := exists_not_prefix_root (componentsOf file)
    constructor
    · intro h
      have hin := h cwd
      rw [Inside, resolveFile, habs] at hin
      exact absurd hin hcwd
    · intro h
      rw [Descends, habs] at h
      cases h.1

/-- **The file of a `GET`** is its path without the first byte, and it is below the
working directory, whatever that is, exactly if it descends. -/
theorem served_iff (line m p : List UInt8) (junk : Locals) (htwo : twoFields line = some (m, p))
    (hget : isGet m = true) :
    act (sscanfLine line junk) = Outcome.request m (p.drop 1) ∧
      ((∀ cwd, Inside cwd (p.drop 1)) ↔ Descends (p.drop 1)) := by
  constructor
  · rw [act_sscanfLine junk htwo, if_pos hget]
  · exact forall_inside_iff (p.drop 1)

/-- `GET /a.jpg HTTP/1.1`, with its line ending and NUL. -/
def imageLine : List UInt8 :=
  [71, 69, 84, 32, 47, 97, 46, 106, 112, 103, 32, 72, 84, 84, 80, 47, 49, 46, 49, LF, 0]

/-- The image is served from the directory. -/
theorem served_iff_image :
    act (sscanfLine imageLine ⟨[], [], []⟩) = Outcome.request [71, 69, 84] [97, 46, 106, 112, 103] ∧
      ((∀ cwd, Inside cwd ([47, 97, 46, 106, 112, 103].drop 1)) ↔
        Descends ([47, 97, 46, 106, 112, 103].drop 1)) :=
  served_iff imageLine [71, 69, 84] [47, 97, 46, 106, 112, 103] ⟨[], [], []⟩ (by decide) (by decide)

/-- `GET /../s HTTP/1.1`. -/
def climbingLine : List UInt8 :=
  [71, 69, 84, 32, 47, 46, 46, 47, 115, 32, 72, 84, 84, 80, 47, 49, 46, 49, LF, 0]

/-- `GET //s HTTP/1.1`. -/
def absoluteLine : List UInt8 :=
  [71, 69, 84, 32, 47, 47, 115, 32, 72, 84, 84, 80, 47, 49, 46, 49, LF, 0]

/-- **Two names that leave the directory `/w`**: the first is `/s` by way of `..`, the
second because it begins at the root. -/
theorem names_outside :
    act (sscanfLine climbingLine ⟨[], [], []⟩) = Outcome.request [71, 69, 84] [46, 46, 47, 115] ∧
      ¬ Inside [[119]] [46, 46, 47, 115] ∧
      act (sscanfLine absoluteLine ⟨[], [], []⟩) = Outcome.request [71, 69, 84] [47, 115] ∧
      ¬ Inside [[119]] [47, 115] := by
  refine ⟨by decide, ?_, by decide, ?_⟩
  · have hpath : resolveFile [[119]] [46, 46, 47, 115] = [[115]] := by decide
    rw [Inside, hpath]
    decide
  · have hpath : resolveFile [[119]] [47, 115] = [[115]] := by decide
    rw [Inside, hpath]
    decide

end MyHttpd
