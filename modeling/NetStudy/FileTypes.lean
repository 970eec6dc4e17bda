/-
# Content types by extension (`http/myhttpd.c`)

`getfileType` is to tell an image from a text by the extension of the file name.  The
extension is the text behind the last dot of the last component (`lastComponent`,
`afterLast`); `nameType` is the type that goes with it.

The code takes the name apart with `%[^.].%s`, which stops at the first dot of the whole
path and needs something before it and behind it, compares three bytes of what is behind,
and decides by an old string on the stack if there is nothing.  `typed_iff` says on which
names the two agree.
-/
import NetStudy.ServedPaths
import NetStudy.StackLocals

namespace MyHttpd

/-! ## Extensions -/

/-- The text behind the last `b`, if there is a `b`. -/
def afterLast (b : UInt8) : List UInt8 → Option (List UInt8)
  | [] => none
  | c :: s => (afterLast b s).or (if c = b then some s else none)

/-- The last component of a path. -/
def lastComponent (file : List UInt8) : List UInt8 := (afterLast SLASH file).getD file

/-- The last component has a dot, and the text behind its last dot is `jpg` in letters of
any case. -/
def NamesJpg (file : List UInt8) : Prop :=
  (afterLast DOT (lastComponent file)).map (List.map toLower) = some (ascii "jpg")

instance (file : List UInt8) : Decidable (NamesJpg file) :=
  inferInstanceAs (Decidable (_ = _))

/-- The content type that goes with a file name. -/
def nameType (file : List UInt8) : List UInt8 :=
  if NamesJpg file then ascii "image/jpeg" else ascii "text/plain; charset=iso-8859-1"

variable {b : UInt8}

theorem afterLast_eq_none_iff {s : List UInt8} : afterLast b s = none ↔ b ∉ s := by
  induction s with
  | nil => exact iff_of_true rfl List.not_mem_nil
  | cons c s ih =>
      rw [afterLast, Option.or_eq_none_iff, ih, List.mem_cons, not_or, and_comm]
      split_ifs with hc
      · exact iff_of_false (fun h => h.1) (fun h => h.1 hc.symm)
      · exact and_congr_left' (iff_of_true rfl (Ne.symm hc))

/-- The text behind the last `b` is cut off at a `b` and has no other. -/
theorem afterLast_some {s e : List UInt8} (h : afterLast b s = some e) :
    b ∉ e ∧ ∃ p, s = p ++ b :: e := by
  induction s with
  | nil => cases h
  | cons c s ih =>
      rw [afterLast] at h
      rcases hs : afterLast b s with _ | e'
      · rw [hs, Option.none_or] at h
        split_ifs at h with hc
        rw [Option.some.injEq] at h
        subst h hc
        exact ⟨afterLast_eq_none_iff.mp hs, [], rfl⟩
      · rw [hs, Option.some_or, Option.some.injEq] at h
        subst h
        obtain ⟨hmem, p, hp⟩ := ih hs
        exact ⟨hmem, c :: p, by rw [hp, List.cons_append]⟩

/-- A `b` with no other behind it is the last one. -/
theorem afterLast_append_cons (p : List UInt8) {e : List UInt8} (h : b ∉ e) :
    afterLast b (p ++ b :: e) = some e := by
  induction p with
  | nil => rw [List.nil_append, afterLast, afterLast_eq_none_iff.mpr h, Option.none_or, if_pos rfl]
  | cons c p ih => rw [List.cons_append, afterLast, ih, Option.some_or]

/-- The last component is an end of the path. -/
theorem lastComponent_suffix (file : List UInt8) : lastComponent file <:+ file := by
  rw [lastComponent]
  rcases h : afterLast SLASH file with _ | e
  · exact List.suffix_rfl
  · obtain ⟨-, p, hp⟩ := afterLast_some h
    rw [Option.getD_some, hp]
    exact (List.suffix_cons _ _).trans (List.suffix_append _ _)

/-- An end of the path without a slash belongs to the last component. -/
theorem suffix_lastComponent (p : List UInt8) {t : List UInt8} (h : SLASH ∉ t) :
    t <:+ lastComponent (p ++ t) := by
  induction p with
  | nil =>
      rw [List.nil_append, lastComponent, afterLast_eq_none_iff.mpr h]
      exact List.suffix_rfl
  | cons c p ih =>
      rw [lastComponent, List.cons_append, afterLast]
      rcases hp : afterLast SLASH (p ++ t) with _ | e
      · rw [Option.none_or]
        split_ifs
        · exact List.suffix_append p t
        · exact (List.suffix_append p t).trans (List.suffix_cons c _)
      · rw [lastComponent, hp] at ih
        exact ih

/-! ### Names that end in `.jpg` -/

/-- Only the letters change. -/
theorem toLower_eq_dot {c : UInt8} (h : toLower c = DOT) : c = DOT := by
  revert h
  rw [toLower]
  split_ifs with hc
  · intro h
    exfalso
    -- a letter becomes a letter
    have hnat := congrArg UInt8.toNat h
    have hlow : 65 ≤ c.toNat := UInt8.le_iff_toNat_le.mp hc.1
    have hhigh : c.toNat ≤ 90 := UInt8.le_iff_toNat_le.mp hc.2
    rw [UInt8.toNat_add] at hnat
    have hdot : (DOT : UInt8).toNat = 46 := rfl
    have hcase : (32 : UInt8).toNat = 32 := rfl
    omega
  · exact id

/-- A byte that no letter becomes is not in a text of letters. -/
theorem notMem_of_map_toLower {c : UInt8} {e : List UInt8} (hc : c ∉ ascii "jpg")
    (hfix : toLower c = c) (h : e.map toLower = ascii "jpg") : c ∉ e := by
  intro hmem
  apply hc
  rw [← h, ← hfix]
  exact List.mem_map_of_mem hmem

/-- **The names of images** are the names that end in `.jpg`. -/
theorem namesJpg_iff (file : List UInt8) : NamesJpg file ↔ ascii ".jpg" <:+ file.map toLower := by
  rw [NamesJpg, Option.map_eq_some_iff]
  constructor
  · rintro ⟨e, he, hjpg⟩
    obtain ⟨-, p, hp⟩ := afterLast_some he
    have hend : DOT :: e <:+ file := by
      have hpart : DOT :: e <:+ lastComponent file := ⟨p, hp.symm⟩
      exact hpart.trans (lastComponent_suffix file)
    have hmap := hend.map toLower
    rw [List.map_cons, hjpg] at hmap
    exact hmap
  · rintro ⟨q, hq⟩
    obtain ⟨p, t, rfl, -, ht⟩ := List.append_eq_map_iff.mp hq
    obtain ⟨c, e, rfl, hc, he⟩ := List.map_eq_cons_iff.mp ht
    obtain rfl := toLower_eq_dot hc
    -- neither a dot nor a slash is in `jpg`
    have hdot : DOT ∉ e := notMem_of_map_toLower (by decide) (by decide) he
    have hslash : SLASH ∉ DOT :: e := by
      rw [List.mem_cons, not_or]
      exact ⟨by decide, notMem_of_map_toLower (by decide) (by decide) he⟩
    obtain ⟨p', hp'⟩ := suffix_lastComponent p hslash
    exact ⟨e, by rw [← hp', afterLast_append_cons p' hdot], he⟩

/-- A name with a first dot names an image if what is behind the dot is `jpg` or ends in
`.jpg` itself. -/
theorem namesJpg_append_cons {n : List UInt8} (e : List UInt8) (hn : DOT ∉ n) :
    NamesJpg (n ++ DOT :: e) ↔ e.map toLower = ascii "jpg" ∨ ascii ".jpg" <:+ e.map toLower := by
  have hmap : DOT ∉ n.map toLower := by
    intro hmem
    obtain ⟨c, hc, hdot⟩ := List.mem_map.mp hmem
    rw [toLower_eq_dot hdot] at hc
    exact hn hc
  rw [namesJpg_iff, List.map_append, List.map_cons]
  constructor
  · intro h
    rcases List.suffix_or_suffix_of_suffix h (List.suffix_append (n.map toLower) _) with hle | hle
    · rcases List.suffix_cons_iff.mp hle with heq | hsuffix
      · exact Or.inl (List.cons.inj heq).2.symm
      · exact Or.inr hsuffix
    · -- the dot of `.jpg` would be in front of the first dot
      obtain ⟨q, hq⟩ := hle
      rcases q with _ | ⟨c, q⟩
      · exact Or.inl (List.cons.inj hq).2
      · have hin : (toLower DOT :: e.map toLower) <:+ ascii "jpg" := ⟨q, (List.cons.inj hq).2⟩
        exact absurd (hin.subset (List.mem_cons_self)) (by decide)
  · rintro (h | h)
    · rw [h]
      exact List.suffix_append _ _
    · exact h.trans ((List.suffix_cons _ _).trans (List.suffix_append _ _))

/-! ## The scan -/

/-- A file name without white space whose parts fit the arrays `name` and `extend`. -/
structure FileName where
  text : List UInt8
  zero_notMem : 0 ∉ text
  noSpace : ∀ c ∈ text, isSpace c = false
  name_fits : text.length < 256
  extend_fits : ∀ e, extension text = some e → e.length < 10

/-- `getfileType` chooses the type that goes with the name, whatever is on the stack. -/
def Typed (file : FileName) : Prop :=
  ∀ st : Stack, getfileType file.text st.typeLocals = nameType file.text

/-- The rest `e` of a name tells in its first three bytes what it tells at its end: it is
`jpg`, or begins with `jpg` and ends in `.jpg`, or does neither. -/
def RestAgrees (e : List UInt8) : Prop :=
  e.map toLower = ascii "jpg" ∨
    (ascii "jpg" <+: e.map toLower ∧ ascii ".jpg" <:+ e.map toLower) ∨
    (¬ ascii "jpg" <+: e.map toLower ∧ ¬ ascii ".jpg" <:+ e.map toLower)

/-- The name has a dot with something before it and behind it, and the rest behind the
first dot agrees. -/
def FirstDotAgrees (file : List UInt8) : Prop :=
  ∃ n e, file = n ++ DOT :: e ∧ DOT ∉ n ∧ n ≠ [] ∧ e ≠ [] ∧ RestAgrees e

/-- Words have no white space. -/
theorem scanWord_of_noSpace {s : List UInt8} (h : ∀ c ∈ s, isSpace c = false) :
    scanWord s = if s = [] then none else some s := by
  have hskip : skipSpace s = s := by
    cases s with
    | nil => rfl
    | cons c s => rw [skipSpace, List.dropWhile_cons_of_neg (by rw [h c List.mem_cons_self]; decide)]
  have htake : s.takeWhile (fun c => !isSpace c) = s := by
    rw [List.takeWhile_eq_self_iff]
    intro c hc
    rw [h c hc]
    rfl
  rw [scanWord, hskip, htake]

/-- What is left behind the bytes before the first dot begins with the dot. -/
theorem dropWhile_dot {s r : List UInt8} {c : UInt8} (h : s.dropWhile (· ≠ DOT) = c :: r) :
    c = DOT := by
  induction s with
  | nil => cases h
  | cons a s ih =>
      rw [List.dropWhile_cons] at h
      split_ifs at h with ha
      · exact ih h
      · rw [decide_eq_true_eq, not_not] at ha
        rw [← (List.cons.inj h).1, ha]

/-- The pattern finds an extension exactly in the names whose first dot has something
before it and behind it. -/
theorem extension_eq_some_iff (file : FileName) (e : List UInt8) :
    extension file.text = some e ↔
      ∃ n, file.text = n ++ DOT :: e ∧ DOT ∉ n ∧ n ≠ [] ∧ e ≠ [] := by
  have hspace := file.noSpace
  rw [extension, scanName]
  generalize file.text = s at hspace
  constructor
  · intro h
    split_ifs at h with hhead
    rw [not_or] at hhead
    obtain ⟨n, hn⟩ : ∃ n, n = s.takeWhile (· ≠ DOT) := ⟨_, rfl⟩
    rcases hrest : s.dropWhile (· ≠ DOT) with _ | ⟨c, r⟩
    · simp only [hrest, List.tail_nil] at h
      cases h
    · have hs : n ++ c :: r = s := by rw [hn, ← hrest, List.takeWhile_append_dropWhile]
      have hr : ∀ a ∈ r, isSpace a = false := by
        intro a ha
        apply hspace
        rw [← hs]
        exact List.mem_append_right n (List.mem_cons_of_mem c ha)
      have hdot : c = DOT := dropWhile_dot hrest
      simp only [hrest, List.tail_cons, scanWord_of_noSpace hr] at h
      split_ifs at h with hnil
      rw [Option.some.injEq] at h
      subst h hdot
      refine ⟨n, hs.symm, ?_, ?_, hnil⟩
      · intro hmem
        rw [hn] at hmem
        have hne : decide (DOT ≠ DOT) = true := List.mem_takeWhile_imp (p := (· ≠ DOT)) hmem
        exact absurd hne (by decide)
      · rintro rfl
        rw [← hs, List.nil_append] at hhead
        exact hhead.2 rfl
  · rintro ⟨n, rfl, hn, hne, hene⟩
    have hall : ∀ c ∈ n, decide (c ≠ DOT) = true := by
      intro c hc
      exact decide_eq_true (ne_of_mem_of_not_mem hc hn)
    obtain ⟨c, n', rfl⟩ := List.exists_cons_of_ne_nil hne
    have hhead : ¬ ((c :: n' ++ DOT :: e).head? = none ∨ (c :: n' ++ DOT :: e).head? = some DOT) := by
      rw [List.cons_append, List.head?_cons, Option.some.injEq, not_or]
      exact ⟨Option.some_ne_none c, ne_of_mem_of_not_mem List.mem_cons_self hn⟩
    have he : ∀ a ∈ e, isSpace a = false := by
      intro a ha
      exact hspace a (List.mem_append_right _ (List.mem_cons_of_mem DOT ha))
    -- the scan stops at the first dot and goes on behind it
    have hstop : (DOT :: e).dropWhile (fun c => decide (c ≠ DOT)) = DOT :: e := rfl
    rw [if_neg hhead, List.dropWhile_append_of_pos hall]
    simp only [hstop, List.tail_cons, scanWord_of_noSpace he, if_neg hene]

/-- What stands in the first three bytes. -/
theorem isJpg_iff {e : List UInt8} (h : 0 ∉ e) : isJpg e = true ↔ ascii "jpg" <+: e.map toLower := by
  rw [isJpg, cstr_of_zero_notMem h, beq_iff_eq, List.map_take, List.prefix_iff_eq_take]
  exact eq_comm

/-- The two types are different texts. -/
theorem typeText_eq_nameType_iff (e file : List UInt8) :
    typeText e = nameType file ↔ (isJpg e = true ↔ NamesJpg file) := by
  rw [typeText, nameType]
  split_ifs with hjpg hname hname
  · exact iff_of_true rfl (iff_of_true hjpg hname)
  · exact iff_of_false (by decide) (fun h => hname (h.mp hjpg))
  · exact iff_of_false (by decide) (fun h => hjpg (h.mpr hname))
  · exact iff_of_true rfl (iff_of_false hjpg hname)

/-- The first three bytes agree with the end of the name exactly if the rest behind the
first dot agrees. -/
theorem isJpg_iff_namesJpg_iff {n e : List UInt8} (hn : DOT ∉ n) (he : 0 ∉ e) :
    (isJpg e = true ↔ NamesJpg (n ++ DOT :: e)) ↔ RestAgrees e := by
  have hself : e.map toLower = ascii "jpg" → ascii "jpg" <+: e.map toLower := by
    intro h
    rw [h]
  rw [isJpg_iff he, namesJpg_append_cons e hn, RestAgrees]
  tauto

/-- Without an extension the string on the stack decides, and it may be either. -/
theorem not_typed_of_none {file : FileName} (h : extension file.text = none) : ¬ Typed file := by
  intro htyped
  have hjpg := htyped (leftoverStack [] [] (ascii "jpg"))
  have hempty := htyped (leftoverStack [] [] [])
  rw [getfileType_of_none _ h] at hjpg hempty
  exact absurd (hjpg.trans hempty.symm) (by decide)

/-- **The type agrees with the extension** exactly if the name has a dot with something
before it and behind it, and the rest behind the first dot is `jpg`, begins with `jpg` and
ends in `.jpg`, or does neither. -/
theorem typed_iff (file : FileName) : Typed file ↔ FirstDotAgrees file.text := by
  rcases hext : extension file.text with _ | e
  · refine iff_of_false (not_typed_of_none hext) ?_
    rintro ⟨n, e, htext, hn, hne, hene, -⟩
    rw [(extension_eq_some_iff file e).mpr ⟨n, htext, hn, hne, hene⟩] at hext
    cases hext
  · obtain ⟨n, htext, hn, hne, hene⟩ := (extension_eq_some_iff file e).mp hext
    have he : 0 ∉ e := fun h0 => file.zero_notMem (extension_subset hext h0)
    have hagrees : Typed file ↔ RestAgrees e := by
      rw [← isJpg_iff_namesJpg_iff hn he, ← htext, ← typeText_eq_nameType_iff]
      constructor
      · intro h
        rw [← h (leftoverStack [] [] []), getfileType_of_extension _ file.zero_notMem hext]
      · intro h st
        rw [getfileType_of_extension _ file.zero_notMem hext, h]
    rw [hagrees]
    constructor
    · intro h
      exact ⟨n, e, htext, hn, hne, hene, h⟩
    · rintro ⟨n', e', htext', hn', hne', hene', h⟩
      have heq := (extension_eq_some_iff file e').mpr ⟨n', htext', hn', hne', hene'⟩
      rw [hext, Option.some.injEq] at heq
      rw [heq]
      exact h

/-- `a.b.jpg`. -/
def twoDots : FileName where
  text := ascii "a.b.jpg"
  zero_notMem := by decide
  noSpace := by decide +kernel
  name_fits := by decide
  extend_fits := by
    have h : extension (ascii "a.b.jpg") = some (ascii "b.jpg") := by decide +kernel
    rw [h]
    rintro e ⟨⟩
    decide

/-- `makefile`. -/
def noDot : FileName where
  text := ascii "makefile"
  zero_notMem := by decide
  noSpace := by decide +kernel
  name_fits := by decide
  extend_fits := by
    have h : extension (ascii "makefile") = none := by decide +kernel
    rw [h]
    rintro e ⟨⟩

/-- **An image with two dots is a text, and a name without a dot is what the last name
was**: an image behind an image, and a text behind a text. -/
theorem twoDots_text :
    (NamesJpg twoDots.text ∧ ∀ st : Stack,
      getfileType twoDots.text st.typeLocals = ascii "text/plain; charset=iso-8859-1") ∧
    (¬ NamesJpg noDot.text ∧
      getfileType noDot.text (leftoverStack [] [] (ascii "jpg")).typeLocals = ascii "image/jpeg") ∧
    ¬ Typed twoDots ∧ ¬ Typed noDot := by
  have hext : extension twoDots.text = some (ascii "b.jpg") := by decide +kernel
  have hname : NamesJpg twoDots.text := by decide +kernel
  have htext : ∀ st : Stack,
      getfileType twoDots.text st.typeLocals = ascii "text/plain; charset=iso-8859-1" := by
    intro st
    rw [getfileType_of_extension _ twoDots.zero_notMem hext]
    decide
  have hnone : extension noDot.text = none := by decide +kernel
  refine ⟨⟨hname, htext⟩, ⟨by decide +kernel, ?_⟩, ?_, not_typed_of_none hnone⟩
  · rw [getfileType_of_none _ hnone]
    decide
  · intro h
    have htype := h (leftoverStack [] [] [])
    rw [htext, nameType, if_pos hname] at htype
    exact absurd htype (by decide)

end MyHttpd
