/-
# The arrays on the stack of `do_read` and `http_request` (`http/myhttpd.c`)

`do_read` and `http_request` take the fields of a request apart into arrays that are
not initialised, with `sscanf` patterns that have no widths and whose results are not
looked at.

* A field that is missing leaves its array as it is, so what the call does may depend
  on what was on the stack: `same_action_iff` says for which streams it does not.
* A field that is there is stored whole, so it may leave its array.  `Stack` has the
  arrays at their sizes, `Cells.store` writes a string only if it fits, and
  `fields_fit_iff` says for which lines everything fits.
-/
import NetStudy.DoReadEnds
import NetStudy.HttpRequest

namespace MyHttpd

/-! ## The stack -/

/-- An array of `n` cells. -/
abbrev Cells (n : ℕ) : Type := {cells : List UInt8 // cells.length = n}

/-- The arrays of `do_read` (line 247) and of `http_request` (lines 221-223). -/
structure Stack where
  method : Cells 16
  path : Cells 256
  protocol : Cells 16
  name : Cells 256
  extend : Cells 10
  type : Cells 30

/-- The arrays that `do_read` hands to `sscanf`. -/
def Stack.locals (st : Stack) : Locals := ⟨st.method.1, st.path.1, st.protocol.1⟩

/-- The arrays that `getfileType` hands to `sscanf`. -/
def Stack.typeLocals (st : Stack) : TypeLocals := ⟨st.name.1, st.extend.1⟩

/-- An array that begins with a string, as an earlier call may have left it. -/
def leftover (n : ℕ) (s : List UInt8) : Cells n :=
  ⟨(s ++ List.replicate n 0).take n, by simp⟩

/-- A stack on which an earlier call has left a method, a path and an extension. -/
def leftoverStack (method path extend : List UInt8) : Stack where
  method := leftover 16 method
  path := leftover 256 path
  protocol := leftover 16 []
  name := leftover 256 []
  extend := leftover 10 extend
  type := leftover 30 []

/-! ## The fields of a file name -/

/-- The second field of the pattern `%[^.].%s`. -/
def extension (file : List UInt8) : Option (List UInt8) :=
  match scanName file with
  | none => none
  | some (_, s) => scanWord s.tail

/-- Only bytes of the text are scanned. -/
theorem scanWord_subset {s e : List UInt8} (h : scanWord s = some e) : e ⊆ s := by
  rw [scanWord] at h
  split_ifs at h
  rw [Option.some.injEq] at h
  rw [← h]
  exact List.Subset.trans (List.takeWhile_sublist _).subset (List.dropWhile_sublist _).subset

theorem scanName_some {s n rest : List UInt8} (h : scanName s = some (n, rest)) :
    n.length ≤ s.length ∧ rest ⊆ s := by
  rw [scanName] at h
  split_ifs at h
  rw [Option.some.injEq, Prod.mk.injEq] at h
  obtain ⟨rfl, rfl⟩ := h
  exact ⟨(List.takeWhile_sublist _).length_le, (List.dropWhile_sublist _).subset⟩

theorem extension_subset {file e : List UInt8} (h : extension file = some e) : e ⊆ file := by
  rw [extension] at h
  rcases hname : scanName file with _ | ⟨n, s⟩
  · simp only [hname, reduceCtorEq] at h
  · simp only [hname] at h
    exact fun c hc => (scanName_some hname).2 (List.mem_of_mem_tail (scanWord_subset h hc))

/-- An extension that is found decides the content type. -/
theorem getfileType_of_extension {file e : List UInt8} (l : TypeLocals)
    (hfile : 0 ∉ file) (h : extension file = some e) : getfileType file l = typeText e := by
  have he : 0 ∉ e := fun h0 => hfile (extension_subset h h0)
  rw [extension] at h
  rcases hname : scanName file with _ | ⟨n, s⟩
  · simp only [hname, reduceCtorEq] at h
  · simp only [hname] at h
    simp only [getfileType, sscanfType, hname, h]
    rw [typeText, typeText, isJpg, isJpg, storeString, cstr_append_zero _ he,
      cstr_of_zero_notMem he]

/-- Without one, what is on the stack decides it. -/
theorem getfileType_of_none {file : List UInt8} (l : TypeLocals) (h : extension file = none) :
    getfileType file l = typeText l.extend := by
  rw [extension] at h
  rcases hname : scanName file with _ | ⟨n, s⟩
  · simp only [getfileType, sscanfType, hname]
  · simp only [hname] at h
    simp only [getfileType, sscanfType, hname, h]

/-! ## What the call does -/

/-- The system calls of `do_read` for a request, with the stack on entry. -/
def doReadEvents (env : Env) (st : Stack) (fuel : ℕ) (s : Stream) : Option (List Event) :=
  (doRead Stream.sock fuel st.locals s).map (fun out => out.1.events env st.typeLocals)

/-- The call does the same whatever is on the stack. -/
def SameAction (env : Env) (s : Stream) : Prop :=
  ∀ st st' fuel, doReadEvents env st fuel s = doReadEvents env st' fuel s

/-- The line that the call takes apart. -/
def requestLine (s : Stream) : List UInt8 := (cut lineRoom s.bytes).1 ++ [0]

/-- The call does not come to an action: it reads on for ever. -/
def Stalls (s : Stream) : Prop :=
  ¬ (s.eof = false ∨ ∃ p ∈ (pieces lineRoom s.bytes).tail, p.head? = some LF)

/-- Every field that is used has been set: there is a method, a `GET` has a path, and
the name of a regular file has an extension. -/
def SetBeforeUse (env : Env) (line : List UInt8) : Prop :=
  ∃ m s, scanField (cstr line) = some (m, s) ∧
    (isGet m = true → ∃ p, twoFields line = some (m, p) ∧
      ((∃ size, env.stat (p.drop 1) = Stat.regular size) → (extension (p.drop 1)).isSome))

/-- The system calls for a line. -/
def lineEvents (env : Env) (st : Stack) (line : List UInt8) : List Event :=
  (act (sscanfLine line st.locals)).events env st.typeLocals

/-- The first call for a request is `stat`. -/
theorem httpRequest_head (env : Env) (l : TypeLocals) (file : List UInt8) :
    (httpRequest env l file).1.head? = some (Event.stat file) := by
  rw [httpRequest]
  rcases env.stat file with _ | size | _ <;> rfl

/-- A first field becomes the method. -/
theorem sscanfLine_method {line m s : List UInt8} (l : Locals)
    (h : scanField (cstr line) = some (m, s)) :
    (sscanfLine line l).method = storeString l.method m := by
  unfold sscanfLine
  rcases hp : scanField (skipSpace s) with _ | ⟨p, s'⟩
  · simp only [h, hp]
  · rcases hq : scanField (skipSpace s') with _ | ⟨q, s''⟩
    · simp only [h, hp, hq]
    · simp only [h, hp, hq]

/-- A missing second field leaves the path as it is. -/
theorem sscanfLine_path {line m s : List UInt8} (l : Locals)
    (h : scanField (cstr line) = some (m, s)) (htwo : twoFields line = none) :
    (sscanfLine line l).path = l.path := by
  unfold twoFields at htwo
  unfold sscanfLine
  rcases hp : scanField (skipSpace s) with _ | ⟨p, s'⟩
  · simp only [h, hp]
  · simp [h, hp] at htwo

/-- The first of two fields is the method. -/
theorem twoFields_method {line m m' s p : List UInt8} (h : scanField (cstr line) = some (m, s))
    (htwo : twoFields line = some (m', p)) : m' = m := by
  unfold twoFields at htwo
  rw [h] at htwo
  obtain ⟨f, -, hf⟩ := Option.map_eq_some_iff.mp htwo
  exact (Prod.mk.inj hf).1.symm

/-- The method that is stored is read back. -/
theorem isGet_sscanfLine {line m s : List UInt8} (l : Locals)
    (h : scanField (cstr line) = some (m, s)) : isGet (sscanfLine line l).method = isGet m := by
  have hm : 0 ∉ m := fun h0 => zero_notMem_cstr line ((scanField_some h).2.1 h0)
  rw [sscanfLine_method l h, isGet, storeString, cstr_append_zero _ hm, isGet,
    cstr_of_zero_notMem hm]

/-- A line with another method than `GET` is ignored. -/
theorem lineEvents_ignored {env : Env} {line m s : List UInt8} (st : Stack)
    (h : scanField (cstr line) = some (m, s)) (hget : isGet m = false) :
    lineEvents env st line = [] := by
  rw [lineEvents, act, isGet_sscanfLine _ h, hget]
  rfl

/-- A `GET` asks for the file that its path, set or not, names. -/
theorem lineEvents_get {env : Env} {line m s : List UInt8} (st : Stack)
    (h : scanField (cstr line) = some (m, s)) (hget : isGet m = true) :
    lineEvents env st line
      = (httpRequest env st.typeLocals (cstr ((sscanfLine line st.locals).path.drop 1))).1 := by
  rw [lineEvents, act, isGet_sscanfLine _ h, hget]
  rfl

/-- The file name of a line with a path. -/
theorem file_of_twoFields {line m p : List UInt8} (l : Locals) (h : twoFields line = some (m, p)) :
    cstr ((sscanfLine line l).path.drop 1) = p.drop 1 := by
  obtain ⟨-, hp, hpne⟩ := twoFields_words h
  rw [(sscanfLine_twoFields l h).2]
  obtain ⟨c, cs, rfl⟩ := List.exists_cons_of_ne_nil hpne
  exact cstr_append_zero _ (fun h0 => hp (List.mem_cons_of_mem _ h0))

/-- The arrays of `http_request` do not matter if the name of a regular file has an
extension. -/
theorem httpRequest_congr {env : Env} {file : List UInt8} (l l' : TypeLocals) (hfile : 0 ∉ file)
    (h : (∃ size, env.stat file = Stat.regular size) → (extension file).isSome) :
    httpRequest env l file = httpRequest env l' file := by
  rw [httpRequest, httpRequest]
  rcases hstat : env.stat file with _ | size | _
  · rfl
  · obtain ⟨e, he⟩ := Option.isSome_iff_exists.mp (h ⟨size, hstat⟩)
    simp only [getfileType_of_extension l hfile he, getfileType_of_extension l' hfile he]
  · rfl

/-- Two stacks that give a regular file two content types. -/
theorem httpRequest_type {env : Env} {file : List UInt8} {l l' : TypeLocals} {size : ℤ}
    (hstat : env.stat file = Stat.regular size)
    (h : (httpRequest env l file).1 = (httpRequest env l' file).1) :
    getfileType file l = getfileType file l' := by
  simp only [httpRequest, hstat, Env.sent] at h
  have hhead := (List.cons.inj (List.cons.inj h).2).1
  rw [Event.send.injEq, Message.head.injEq] at hhead
  exact hhead.1.2.2.1

/-- **The action on a line** is the same for every stack exactly if every field that
is used has been set. -/
theorem lineEvents_same_iff (env : Env) (line : List UInt8) :
    (∀ st st', lineEvents env st line = lineEvents env st' line) ↔ SetBeforeUse env line := by
  constructor
  · intro h
    rcases hm : scanField (cstr line) with _ | ⟨m, s⟩
    · -- the method is what is on the stack: a `GET`, or nothing
      have hstale : ∀ l, sscanfLine line l = l := fun l => by simp only [sscanfLine, hm]
      have heq := h (leftoverStack [71, 69, 84] [47, 97] []) (leftoverStack [] [] [])
      rw [lineEvents, lineEvents, hstale, hstale] at heq
      have hnone : (act (leftoverStack [] [] []).locals) = Outcome.ignored := by decide
      have hget : (act (leftoverStack [71, 69, 84] [47, 97] []).locals)
          = Outcome.request [71, 69, 84] [97] := by rfl
      rw [hnone, hget] at heq
      have hhead := httpRequest_head env (leftoverStack [71, 69, 84] [47, 97] []).typeLocals [97]
      have heq' : (httpRequest env (leftoverStack [71, 69, 84] [47, 97] []).typeLocals [97]).1 = [] :=
        heq
      rw [heq'] at hhead
      cases hhead
    · refine ⟨m, s, hm, fun hget => ?_⟩
      rcases htwo : twoFields line with _ | ⟨m', p⟩
      · -- the path is what is on the stack
        have heq := h (leftoverStack [] [47, 97] []) (leftoverStack [] [47, 98] [])
        rw [lineEvents_get _ hm hget, lineEvents_get _ hm hget, sscanfLine_path _ hm htwo,
          sscanfLine_path _ hm htwo] at heq
        have hhead := congrArg List.head? heq
        rw [httpRequest_head, httpRequest_head] at hhead
        exact absurd hhead (by decide)
      · obtain rfl := twoFields_method hm htwo
        refine ⟨p, rfl, ?_⟩
        rintro ⟨size, hstat⟩
        by_contra hext
        rw [Option.not_isSome_iff_eq_none] at hext
        -- the extension is what is on the stack
        have heq := h (leftoverStack [] [] [106, 112, 103]) (leftoverStack [] [] [])
        rw [lineEvents_get _ hm hget, lineEvents_get _ hm hget, file_of_twoFields _ htwo,
          file_of_twoFields _ htwo] at heq
        have htype := httpRequest_type hstat heq
        rw [getfileType_of_none _ hext, getfileType_of_none _ hext] at htype
        exact absurd htype (by decide)
  · rintro ⟨m, s, hm, hset⟩ st st'
    rcases hget : isGet m with _ | _
    · rw [lineEvents_ignored st hm hget, lineEvents_ignored st' hm hget]
    · obtain ⟨p, htwo, hext⟩ := hset hget
      have hp : 0 ∉ p.drop 1 := fun h0 => (twoFields_words htwo).2.1 (List.mem_of_mem_drop h0)
      rw [lineEvents_get st hm hget, lineEvents_get st' hm hget, file_of_twoFields _ htwo,
        file_of_twoFields _ htwo, httpRequest_congr st.typeLocals st'.typeLocals hp hext]

/-! ### The call on a stream -/

/-- A call that finds the end of the stream closes the connection. -/
theorem doReadEvents_closed (env : Env) (st : Stack) (fuel : ℕ) :
    doReadEvents env st fuel ⟨[], true⟩ = some [Event.closefd] := by
  have hret : (getLine Stream.sock 1024 ⟨[], true⟩).1.ret = 0 :=
    (getLine_ret_zero_iff [] true).mpr ⟨rfl, rfl⟩
  rw [doReadEvents, doRead, if_pos hret]
  rfl

/-- Any other call acts on the first line once its loop has ended. -/
theorem doReadEvents_line {s : Stream} (hs : s ≠ ⟨[], true⟩) (env : Env) (st : Stack) (fuel : ℕ) :
    doReadEvents env st fuel s
      = (drain Stream.sock fuel ⟨(cut lineRoom s.bytes).2, s.eof⟩).map
          (fun _ => lineEvents env st (requestLine s)) := by
  obtain ⟨bs, eof⟩ := s
  have hret : (getLine Stream.sock 1024 ⟨bs, eof⟩).1.ret ≠ 0 := by
    rw [Ne, getLine_ret_zero_iff, ← Stream.mk.injEq]
    exact hs
  rw [doReadEvents, doRead, if_neg hret, getLine_rest, getLine_cells, Option.map_map]
  rfl

/-- A call that comes to its action shows it. -/
theorem lineEvents_of_sameAction {env : Env} {s : Stream} (h : SameAction env s)
    (hs : s ≠ ⟨[], true⟩) (hstalls : ¬ Stalls s) (st st' : Stack) :
    lineEvents env st (requestLine s) = lineEvents env st' (requestLine s) := by
  rw [Stalls, not_not, ← drains_behind_first_iff] at hstalls
  obtain ⟨s', fuel, hfuel⟩ := hstalls
  have heq := h st st' fuel
  rw [doReadEvents_line hs, doReadEvents_line hs, hfuel, Option.map_some, Option.map_some,
    Option.some.injEq] at heq
  exact heq

/-- **No leak between requests**, exactly if the call finds the end of the stream, never
comes to its action, or acts on a line that sets every field that is used. -/
theorem same_action_iff (env : Env) (s : Stream) :
    SameAction env s ↔ s = ⟨[], true⟩ ∨ Stalls s ∨ SetBeforeUse env (requestLine s) := by
  constructor
  · intro h
    by_cases hs : s = ⟨[], true⟩
    · exact Or.inl hs
    · by_cases hstalls : Stalls s
      · exact Or.inr (Or.inl hstalls)
      · exact Or.inr (Or.inr ((lineEvents_same_iff env _).mp (lineEvents_of_sameAction h hs hstalls)))
  · intro h st st' fuel
    by_cases hs : s = ⟨[], true⟩
    · rw [hs, doReadEvents_closed, doReadEvents_closed]
    · rw [doReadEvents_line hs, doReadEvents_line hs]
      rcases h with hclosed | hstalls | hset
      · exact absurd hclosed hs
      · rw [Stalls, ← drains_behind_first_iff] at hstalls
        rcases hdrain : drain Stream.sock fuel ⟨(cut lineRoom s.bytes).2, s.eof⟩ with _ | s'
        · rfl
        · exact absurd ⟨s', fuel, hdrain⟩ hstalls
      · rw [(lineEvents_same_iff env _).mpr hset st st']

/-- `GET` alone on its line, and an empty line. -/
def getOnly : Stream := ⟨[71, 69, 84, CR, LF, CR, LF], false⟩

/-- A system on which there are no files. -/
def noFiles : Env where
  stat := fun _ => Stat.missing
  opened := fun _ => none
  send := fun _ buf => SendRet.taken buf.length

/-- **A `GET` without a path asks for the file of an earlier request.** -/
theorem getOnly_leaks : ¬ SameAction noFiles getOnly := by
  intro h
  have hstalls : ¬ Stalls getOnly := fun hno => hno (Or.inl rfl)
  obtain ⟨m, s, hm, hset⟩ := (lineEvents_same_iff noFiles _).mp
    (lineEvents_of_sameAction h (by decide) hstalls)
  have hline : requestLine getOnly = [71, 69, 84, LF, 0] := by decide
  rw [hline] at hm hset
  have hfield : scanField (cstr [71, 69, 84, LF, 0]) = some ([71, 69, 84, LF], []) := by decide
  have htwo : twoFields [71, 69, 84, LF, 0] = none := by decide
  rw [hfield, Option.some.injEq, Prod.mk.injEq] at hm
  obtain ⟨p, hp, -⟩ := hset (by rw [← hm.1]; decide)
  rw [htwo] at hp
  cases hp

/-! ## What the arrays hold -/

/-- A string that fits leaves the array as long as it was. -/
theorem length_storeString {n : ℕ} (a : Cells n) {s : List UInt8} (h : s.length < n) :
    (storeString a.1 s).length = n := by
  have ha := a.2
  rw [storeString, List.length_append, List.length_cons, List.length_drop]
  omega

/-- A string is stored with its NUL, which has to be in the array. -/
def Cells.store {n : ℕ} (a : Cells n) (s : List UInt8) : Option (Cells n) :=
  if h : s.length < n then some ⟨storeString a.1 s, length_storeString a h⟩ else none

/-- The `sscanf` of line 248 on arrays with a size. -/
def Stack.sscanfLine (line : List UInt8) (st : Stack) : Option Stack :=
  match scanField (cstr line) with
  | none => some st
  | some (m, s) =>
      (st.method.store m).bind (fun method =>
        match scanField (skipSpace s) with
        | none => some { st with method := method }
        | some (p, s) =>
            (st.path.store p).bind (fun path =>
              match scanField (skipSpace s) with
              | none => some { st with method := method, path := path }
              | some (q, _) =>
                  (st.protocol.store q).map (fun protocol =>
                    { st with method := method, path := path, protocol := protocol })))

/-- The `strcpy` of line 188 or of line 192. -/
def Stack.copyType (st : Stack) : Option Stack :=
  (st.type.store (typeText st.extend.1)).map (fun type => { st with type := type })

/-- `getfileType` on arrays with a size. -/
def Stack.getfileType (file : List UInt8) (st : Stack) : Option Stack :=
  match scanName file with
  | none => st.copyType
  | some (n, s) =>
      (st.name.store n).bind (fun name =>
        match scanWord s.tail with
        | none => Stack.copyType { st with name := name }
        | some e =>
            (st.extend.store e).bind (fun extend =>
              Stack.copyType { st with name := name, extend := extend }))

/-- What `do_read` and `http_request` write to their arrays for a line. -/
def Stack.takeApart (stat : List UInt8 → Stat) (line : List UInt8) (st : Stack) : Option Stack :=
  (st.sscanfLine line).bind (fun st =>
    if isGet st.method.1 then
      match stat (cstr (st.path.1.drop 1)) with
      | Stat.regular _ => st.getfileType (cstr (st.path.1.drop 1))
      | _ => some st
    else some st)

/-- Nothing is written outside an array, whatever is on the stack and whatever `stat`
says. -/
def FieldsFit (line : List UInt8) : Prop :=
  ∀ stat st, (Stack.takeApart stat line st).isSome

/-- The lines whose fields are short enough, where a `GET` names an image: the type of
anything else does not fit. -/
def FieldsShort (line : List UInt8) : Prop :=
  ∃ m s, scanField (cstr line) = some (m, s) ∧ m.length < 16 ∧
    (∀ p s', scanField (skipSpace s) = some (p, s') → p.length < 256 ∧
      ∀ q s'', scanField (skipSpace s') = some (q, s'') → q.length < 16) ∧
    (isGet m = true → ∃ p e, twoFields line = some (m, p) ∧
      extension (p.drop 1) = some e ∧ e.length < 10 ∧ isJpg e = true)

/-! ### Storing a string -/

variable {n : ℕ}

theorem store_isSome_iff (a : Cells n) (s : List UInt8) :
    (a.store s).isSome = true ↔ s.length < n := by
  rw [Cells.store]
  split_ifs with h
  · exact iff_of_true rfl h
  · exact iff_of_false (by simp) h

theorem store_some {a b : Cells n} {s : List UInt8} (h : a.store s = some b) :
    b.1 = storeString a.1 s := by
  rw [Cells.store] at h
  split_ifs at h
  rw [Option.some.injEq] at h
  rw [← h]

/-- Storing a string and going on with the array. -/
theorem store_bind_isSome_iff {β : Type*} {a : Cells n} {s : List UInt8} {f : Cells n → Option β}
    {P : Prop} (hf : ∀ b : Cells n, b.1 = storeString a.1 s → ((f b).isSome = true ↔ P)) :
    ((a.store s).bind f).isSome = true ↔ s.length < n ∧ P := by
  rcases hstore : a.store s with _ | b
  · have hlen := store_isSome_iff a s
    rw [hstore] at hlen
    constructor
    · intro h
      cases h
    · intro h
      exact hlen.mpr h.1
  · have hlen : s.length < n := (store_isSome_iff a s).mp (by rw [hstore]; rfl)
    rw [Option.bind_some, hf b (store_some hstore), and_iff_right hlen]

/-- The type of an image fits, and no other does: it has 30 bytes and a NUL. -/
theorem copyType_isSome_iff (st : Stack) : st.copyType.isSome = true ↔ isJpg st.extend.1 = true := by
  rw [Stack.copyType, Option.isSome_map, store_isSome_iff, typeText]
  rcases isJpg st.extend.1 with _ | _ <;> decide

/-! ### The fields of the line -/

/-- The fields that the line has are short enough. -/
def LineFits (line : List UInt8) : Prop :=
  ∀ m s, scanField (cstr line) = some (m, s) → m.length < 16 ∧
    ∀ p s', scanField (skipSpace s) = some (p, s') → p.length < 256 ∧
      ∀ q s'', scanField (skipSpace s') = some (q, s'') → q.length < 16

/-- A statement about what a scan gives. -/
theorem forall_scanned_iff {α β : Type*} {x : α} {y : β} {Q : α → β → Prop} :
    (∀ a b, some (x, y) = some (a, b) → Q a b) ↔ Q x y := by
  constructor
  · intro h
    exact h x y rfl
  · intro h a b hab
    rw [Option.some.injEq, Prod.mk.injEq] at hab
    rw [← hab.1, ← hab.2]
    exact h

theorem sscanfLine_isSome_iff (line : List UInt8) (st : Stack) :
    (st.sscanfLine line).isSome = true ↔ LineFits line := by
  rw [Stack.sscanfLine, LineFits]
  rcases scanField (cstr line) with _ | ⟨m, s⟩
  · simp
  · rw [forall_scanned_iff]
    apply store_bind_isSome_iff
    intro method _
    rcases scanField (skipSpace s) with _ | ⟨p, s'⟩
    · simp
    · rw [forall_scanned_iff]
      apply store_bind_isSome_iff
      intro path _
      rcases scanField (skipSpace s') with _ | ⟨q, s''⟩
      · simp
      · rw [forall_scanned_iff, Option.isSome_map, store_isSome_iff]

/-- **The bounded `sscanf` is the `sscanf` of `do_read`** where it writes nothing
outside, and it leaves the arrays of `http_request` alone. -/
theorem sscanfLine_locals {line : List UInt8} {st st' : Stack} (h : st.sscanfLine line = some st') :
    st'.locals = sscanfLine line st.locals ∧ st'.extend = st.extend := by
  unfold Stack.sscanfLine at h
  unfold sscanfLine
  rcases hm : scanField (cstr line) with _ | ⟨m, s⟩
  · simp only [hm, Option.some.injEq] at h ⊢
    rw [h]
    exact ⟨rfl, rfl⟩
  · simp only [hm] at h ⊢
    obtain ⟨method, hmethod, h⟩ := Option.bind_eq_some_iff.mp h
    have hmethod := store_some hmethod
    rcases hp : scanField (skipSpace s) with _ | ⟨p, s'⟩
    · simp only [hp, Option.some.injEq] at h ⊢
      rw [← h, Stack.locals, hmethod]
      exact ⟨rfl, rfl⟩
    · simp only [hp] at h ⊢
      obtain ⟨path, hpath, h⟩ := Option.bind_eq_some_iff.mp h
      have hpath := store_some hpath
      rcases hq : scanField (skipSpace s') with _ | ⟨q, s''⟩
      · simp only [hq, Option.some.injEq] at h ⊢
        rw [← h, Stack.locals, hmethod, hpath]
        exact ⟨rfl, rfl⟩
      · simp only [hq] at h ⊢
        obtain ⟨protocol, hprotocol, h⟩ := Option.map_eq_some_iff.mp h
        rw [← h, Stack.locals, hmethod, hpath, store_some hprotocol]
        exact ⟨rfl, rfl⟩

/-! ### The fields of the file name -/

/-- The extension is short enough, and it is, or stays, that of an image. -/
def TypeFits (file extend : List UInt8) : Prop :=
  match extension file with
  | none => isJpg extend = true
  | some e => e.length < 10 ∧ isJpg e = true

theorem getfileType_isSome_iff {file : List UInt8} (hfile : 0 ∉ file) (hlen : file.length < 256)
    (st : Stack) : (st.getfileType file).isSome = true ↔ TypeFits file st.extend.1 := by
  rw [Stack.getfileType]
  rcases hname : scanName file with _ | ⟨n, s⟩
  · have hext : extension file = none := by simp only [extension, hname]
    rw [TypeFits, hext]
    exact copyType_isSome_iff st
  · have hn : n.length < 256 := lt_of_le_of_lt (scanName_some hname).1 hlen
    rcases hword : scanWord s.tail with _ | e
    · have hext : extension file = none := by simp only [extension, hname, hword]
      rw [TypeFits, hext]
      refine Iff.trans (store_bind_isSome_iff ?_) (and_iff_right hn)
      intro name _
      rw [hword]
      exact copyType_isSome_iff { st with name := name }
    · have hext : extension file = some e := by simp only [extension, hname, hword]
      have he : 0 ∉ e := fun h0 => hfile (extension_subset hext h0)
      rw [TypeFits, hext]
      refine Iff.trans (store_bind_isSome_iff ?_) (and_iff_right hn)
      intro name _
      rw [hword]
      apply store_bind_isSome_iff
      intro extend hextend
      rw [copyType_isSome_iff, hextend, isJpg, isJpg, storeString, cstr_append_zero _ he,
        cstr_of_zero_notMem he]

/-- The file that a `GET` asks for. -/
def Locals.file (l : Locals) : List UInt8 := cstr (l.path.drop 1)

/-- **What is written for a line** fits exactly if its fields do, and for a `GET` of a
regular file those of the file name. -/
theorem takeApart_isSome_iff (stat : List UInt8 → Stat) (line : List UInt8) (st : Stack) :
    (st.takeApart stat line).isSome = true ↔ LineFits line ∧
      (isGet (sscanfLine line st.locals).method = true →
        (∃ size, stat (sscanfLine line st.locals).file = Stat.regular size) →
        TypeFits (sscanfLine line st.locals).file st.extend.1) := by
  rw [← sscanfLine_isSome_iff line st, Stack.takeApart]
  rcases hst : st.sscanfLine line with _ | st'
  · simp
  · obtain ⟨hlocals, hextend⟩ := sscanfLine_locals hst
    rw [← hlocals, ← hextend, Option.bind_some, Option.isSome_some, and_iff_right rfl]
    have hmethod : st'.locals.method = st'.method.1 := rfl
    have hfile : st'.locals.file = cstr (st'.path.1.drop 1) := rfl
    have hlen : (cstr (st'.path.1.drop 1)).length < 256 := by
      have htake : (cstr (st'.path.1.drop 1)).length ≤ (st'.path.1.drop 1).length :=
        (List.takeWhile_sublist _).length_le
      rw [List.length_drop, st'.path.2] at htake
      omega
    rw [hmethod, hfile]
    rcases hget : isGet st'.method.1 with _ | _
    · simp
    · rcases hstat : stat (cstr (st'.path.1.drop 1)) with _ | size | _
      · simp
      · show (st'.getfileType (cstr (st'.path.1.drop 1))).isSome = true ↔ _
        rw [getfileType_isSome_iff (zero_notMem_cstr _) hlen]
        constructor
        · intro h _ _
          exact h
        · intro h
          exact h rfl ⟨size, rfl⟩
      · simp

/-! ### The lines that fit -/

/-- Whatever is on the stack, a name without an extension may get a type that does not
fit. -/
theorem not_typeFits {file : List UInt8} (h : extension file = none) :
    ¬ TypeFits file (leftover 10 []).1 := by
  rw [TypeFits, h]
  decide

/-- **Request fields fit their buffers** exactly on the lines with a method of at most
15 bytes, where the path has at most 255 and the protocol at most 15, and where a `GET`
has a path whose extension has at most 9 bytes and begins with `jpg`. -/
theorem fields_fit_iff (line : List UInt8) : FieldsFit line ↔ FieldsShort line := by
  constructor
  · intro h
    have hfits : LineFits line :=
      ((takeApart_isSome_iff _ line _).mp (h (fun _ => Stat.missing) (leftoverStack [] [] []))).1
    rcases hm : scanField (cstr line) with _ | ⟨m, s⟩
    · -- the stack may hold a `GET` and the path `/a`
      have hstale : ∀ l, sscanfLine line l = l := fun l => by simp only [sscanfLine, hm]
      have hall := ((takeApart_isSome_iff _ line _).mp
        (h (fun _ => Stat.regular 0) (leftoverStack [71, 69, 84] [47, 97] []))).2
      rw [hstale] at hall
      exact absurd (hall (by decide) ⟨0, rfl⟩) (not_typeFits (by rfl))
    · obtain ⟨hmlen, hrest⟩ := hfits m s hm
      refine ⟨m, s, hm, hmlen, hrest, fun hget => ?_⟩
      -- the stack may hold the path `/a`, and no extension
      have hall := ((takeApart_isSome_iff _ line _).mp
        (h (fun _ => Stat.regular 0) (leftoverStack [] [47, 97] []))).2
      rw [isGet_sscanfLine _ hm] at hall
      have htype := hall hget ⟨0, rfl⟩
      rcases htwo : twoFields line with _ | ⟨m', p⟩
      · rw [Locals.file, sscanfLine_path _ hm htwo] at htype
        exact absurd htype (not_typeFits (by rfl))
      · rw [Locals.file, file_of_twoFields _ htwo] at htype
        obtain rfl := twoFields_method hm htwo
        rcases hext : extension (p.drop 1) with _ | e
        · exact absurd htype (not_typeFits hext)
        · rw [TypeFits, hext] at htype
          exact ⟨p, e, rfl, hext, htype.1, htype.2⟩
  · rintro ⟨m, s, hm, hmlen, hrest, hget⟩ stat st
    rw [takeApart_isSome_iff]
    constructor
    · intro m' s' hm'
      rw [hm, Option.some.injEq, Prod.mk.injEq] at hm'
      obtain ⟨rfl, rfl⟩ := hm'
      exact ⟨hmlen, hrest⟩
    · intro hisGet _
      rw [isGet_sscanfLine _ hm] at hisGet
      obtain ⟨p, e, htwo, hext, helen, hjpg⟩ := hget hisGet
      rw [Locals.file, file_of_twoFields _ htwo, TypeFits, hext]
      exact ⟨helen, hjpg⟩

/-- The request of the comment on the `sscanf`, with an empty line. -/
def helloRequest : Stream := ⟨ascii "GET /hello.c HTTP/1.1\r\n\r\n", false⟩

/-- **The type of a text has 30 bytes and a NUL**, and `type` has 30 cells. -/
theorem helloRequest_does_not_fit : ¬ FieldsFit (requestLine helloRequest) := by
  intro h
  have hline : requestLine helloRequest = ascii "GET /hello.c HTTP/1.1\n" ++ [0] := by
    decide +kernel
  rw [hline] at h
  have hall := ((takeApart_isSome_iff _ _ _).mp
    (h (fun _ => Stat.regular 0) (leftoverStack [] [] []))).2
  have hm : scanField (cstr (ascii "GET /hello.c HTTP/1.1\n" ++ [0]))
      = some (ascii "GET", ascii " /hello.c HTTP/1.1\n") := by decide +kernel
  have htwo : twoFields (ascii "GET /hello.c HTTP/1.1\n" ++ [0])
      = some (ascii "GET", ascii "/hello.c") := by decide +kernel
  have hext : extension ((ascii "/hello.c").drop 1) = some (ascii "c") := by decide +kernel
  rw [isGet_sscanfLine _ hm] at hall
  have htype := hall (by decide +kernel) ⟨0, rfl⟩
  rw [Locals.file, file_of_twoFields _ htwo, TypeFits, hext] at htype
  exact absurd htype.2 (by decide +kernel)

end MyHttpd
