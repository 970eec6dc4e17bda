/-
# A stream of requests that arrives in segments

Every arrival raises one edge-triggered event, and each event is handled by one call
of `do_read`, which starts afresh: nothing but the unread bytes is kept from one call
to the next.  So a call handles one request, and it takes what has arrived for a
whole one.

* `serve` is the sequence of calls, `Serves` its result (`exists_serves`: the calls
  return, whatever arrives);
* `serves_cutting` is a stream of whole requests, cut anywhere, also inside lines, as
  long as the `j`-th event finds the first `j` requests arrived: event `j` acts on
  request `j`;
* `acted_independent_of_cutting` compares two such ways of cutting, and
  `acted_depends_on_cutting` is a cut inside a request line.
-/
import NetStudy.RequestFraming

namespace MyHttpd

/-! ## One call for each segment -/

/-- What a call passes on to `http_request`. -/
def Outcome.acted : Outcome → List (List UInt8 × List UInt8)
  | request method file => [(method, file)]
  | _ => []

/-- The calls of `do_read` on a connection, one for each segment that arrives, and
the requests they act upon.  `unread` is what the calls so far have left, `i` is the
number of the call, and `junk i` is in its arrays on entry. -/
def serve (fuel : ℕ) (junk : ℕ → Locals) :
    ℕ → List UInt8 → List (List UInt8) → Option (List (List UInt8 × List UInt8))
  | _, _, [] => some []
  | i, unread, seg :: segs =>
      match doRead Stream.sock fuel (junk i) ⟨unread ++ seg, false⟩ with
      | none => none
      -- no call reads a descriptor that is closed
      | some (Outcome.closed, _) => some []
      | some (out, s) => (serve fuel junk (i + 1) s.bytes segs).map (out.acted ++ ·)

/-- The calls all return, and together they act upon `acts`. -/
def Serves (junk : ℕ → Locals) (segs : List (List UInt8))
    (acts : List (List UInt8 × List UInt8)) : Prop :=
  ∃ fuel, ∀ fuel', fuel ≤ fuel' → serve fuel' junk 0 [] segs = some acts

/-- More fuel does not change what a call of `do_read` gives. -/
theorem doRead_mono {σ : Type*} {K : Sock σ} {fuel fuel' : ℕ} {junk : Locals} {s : σ}
    {out : Outcome × σ} (h : doRead K fuel junk s = some out) (hle : fuel ≤ fuel') :
    doRead K fuel' junk s = some out := by
  rw [doRead] at h ⊢
  split_ifs at h ⊢ with hret
  · exact h
  · obtain ⟨s', hdrain, hout⟩ := Option.map_eq_some_iff.mp h
    rw [drain_mono hdrain hle, Option.map_some, hout]

/-- More fuel does not change what the calls give. -/
theorem serve_mono {fuel fuel' : ℕ} {junk : ℕ → Locals} {i : ℕ} {unread : List UInt8}
    {segs : List (List UInt8)} {acts : List (List UInt8 × List UInt8)}
    (h : serve fuel junk i unread segs = some acts) (hle : fuel ≤ fuel') :
    serve fuel' junk i unread segs = some acts := by
  induction segs generalizing i unread acts with
  | nil => exact h
  | cons seg segs ih =>
      rcases hcall : doRead Stream.sock fuel (junk i) ⟨unread ++ seg, false⟩ with _ | ⟨out, s⟩
      · simp only [serve, hcall] at h
        cases h
      · cases out with
        | closed => simpa only [serve, hcall, doRead_mono hcall hle] using h
        | ignored =>
            simp only [serve, hcall, doRead_mono hcall hle] at h ⊢
            obtain ⟨acts', hserve, rfl⟩ := Option.map_eq_some_iff.mp h
            rw [ih hserve, Option.map_some]
        | request method file =>
            simp only [serve, hcall, doRead_mono hcall hle] at h ⊢
            obtain ⟨acts', hserve, rfl⟩ := Option.map_eq_some_iff.mp h
            rw [ih hserve, Option.map_some]

/-- An evaluated run of the calls. -/
theorem Serves.of_serve {fuel : ℕ} {junk : ℕ → Locals} {segs : List (List UInt8)}
    {acts : List (List UInt8 × List UInt8)} (h : serve fuel junk 0 [] segs = some acts) :
    Serves junk segs acts :=
  ⟨fuel, fun _ hle => serve_mono h hle⟩

/-- A call that does not close the descriptor, and the calls behind it. -/
theorem serve_cons {fuel : ℕ} {junk : ℕ → Locals} {i : ℕ} {unread seg left : List UInt8}
    {l : Locals} (segs : List (List UInt8)) (eof : Bool)
    (h : doRead Stream.sock fuel (junk i) ⟨unread ++ seg, false⟩ = some (act l, ⟨left, eof⟩)) :
    serve fuel junk i unread (seg :: segs)
      = (serve fuel junk (i + 1) left segs).map ((act l).acted ++ ·) := by
  rw [serve, h, act]
  split_ifs <;> rfl

/-- **Every sequence of segments is served**: on a connection that the client keeps open
every call returns. -/
theorem exists_serves (junk : ℕ → Locals) (segs : List (List UInt8)) :
    ∃ acts, Serves junk segs acts := by
  suffices h : ∀ i unread, ∃ fuel acts, serve fuel junk i unread segs = some acts by
    obtain ⟨fuel, acts, hserve⟩ := h 0 []
    exact ⟨acts, Serves.of_serve hserve⟩
  induction segs with
  | nil => exact fun _ _ => ⟨0, [], rfl⟩
  | cons seg segs ih =>
      intro i unread
      obtain ⟨rest, hdrains⟩ := exists_drains_open (cut lineRoom (unread ++ seg)).2
      have hret : (getLine Stream.sock 1024 ⟨unread ++ seg, false⟩).1.ret ≠ 0 := by
        rw [Ne, getLine_ret_zero_iff]
        exact fun h => Bool.false_ne_true h.2
      rw [← getLine_rest] at hdrains
      obtain ⟨fuel₁, hcall⟩ := DoReadReturns.of_drains (junk i) hret hdrains
      obtain ⟨fuel₂, acts, hserve⟩ := ih (i + 1) rest
      have hcons := serve_cons segs false (hcall (max fuel₁ fuel₂) (le_max_left _ _))
      rw [serve_mono hserve (le_max_right _ _), Option.map_some] at hcons
      exact ⟨max fuel₁ fuel₂, _, hcons⟩

/-! ## Streams of whole requests -/

/-- The bytes of several requests. -/
def bytesOfAll (reqs : List Request) : List UInt8 := reqs.flatMap Request.bytes

/-- What the server should act upon for a request: its method and its file, if the
method is GET. -/
def Request.acted (req : Request) : List (List UInt8 × List UInt8) :=
  match twoFields (req.requestLine.first ++ [0]) with
  | none => []
  | some (m, p) => if isGet m then [(m, p.drop 1)] else []

/-- Whole requests, one behind the other. -/
structure WholeRequests (reqs : List Request) : Prop where
  /-- the line endings are what they seem -/
  delimited : Delimited (reqs.flatMap Request.lines) []
  /-- each request line has a method and a path -/
  fields : ∀ req ∈ reqs, twoFields (req.requestLine.first ++ [0]) ≠ none
  /-- no line has a length that is a positive multiple of 1023 -/
  short : ∀ req ∈ reqs, ∀ l ∈ req.textLines, ¬ 1023 ∣ l.content.length

/-- A way of cutting the requests into segments, such that the `j`-th event finds the
first `j` requests arrived. -/
structure Cutting (reqs : List Request) (segs : List (List UInt8)) : Prop where
  flatten : segs.flatten = bytesOfAll reqs
  nonempty : ∀ seg ∈ segs, seg ≠ []
  pace : ∀ j, j ≤ segs.length → bytesOfAll (reqs.take j) <+: (segs.take j).flatten

theorem LoneCR.truncate {l : TextLine} {tail tail' : List UInt8} (h : LoneCR l tail')
    (hpre : tail <+: tail') : LoneCR l tail := by
  intro hcr hhead
  obtain ⟨bs, rfl⟩ := List.head?_eq_some_iff.mp hhead
  obtain ⟨more, rfl⟩ := hpre
  exact h hcr rfl

/-- The line endings are what they seem also before the rest has arrived. -/
theorem Delimited.truncate {ls : List TextLine} {rest rest' : List UInt8}
    (h : Delimited ls rest') (hpre : rest <+: rest') : Delimited ls rest := by
  induction ls with
  | nil => trivial
  | cons l ls ih =>
      exact ⟨h.1.truncate ((List.prefix_append_right_inj _).mpr hpre), ih h.2⟩

theorem Delimited.append {ls ls' : List TextLine} {rest : List UInt8}
    (h : Delimited (ls ++ ls') rest) :
    Delimited ls (bytesOf ls' ++ rest) ∧ Delimited ls' rest := by
  induction ls with
  | nil => exact ⟨trivial, h⟩
  | cons l ls ih =>
      have hcr : LoneCR l (bytesOf (ls ++ ls') ++ rest) := h.1
      rw [bytesOf_append, List.append_assoc] at hcr
      obtain ⟨hls, hls'⟩ := ih h.2
      exact ⟨⟨hcr, hls⟩, hls'⟩

theorem bytesOf_flatMap_lines (reqs : List Request) :
    bytesOf (reqs.flatMap Request.lines) = bytesOfAll reqs := by
  rw [bytesOf, List.flatMap_assoc]
  rfl

/-- The requests behind the first one. -/
theorem WholeRequests.tail {req : Request} {reqs : List Request}
    (h : WholeRequests (req :: reqs)) : WholeRequests reqs := by
  constructor
  · exact (Delimited.append h.delimited).2
  · intro r hr
    exact h.fields r (List.mem_cons_of_mem _ hr)
  · intro r hr
    exact h.short r (List.mem_cons_of_mem _ hr)

/-- **One event on a stream of whole requests**: when the first request has arrived,
with any number of the bytes behind it, the call acts on it and leaves those bytes. -/
theorem WholeRequests.doRead_first {req : Request} {reqs : List Request}
    (h : WholeRequests (req :: reqs)) {rest : List UInt8} (hrest : rest <+: bytesOfAll reqs)
    (junk : Locals) :
    ∃ l, DoReadReturns Stream.sock junk ⟨req.bytes ++ rest, false⟩ (act l, ⟨rest, false⟩) ∧
      (act l).acted = req.acted := by
  have hreq : Delimited req.lines rest := by
    have hlines : Delimited req.lines (bytesOf (reqs.flatMap Request.lines) ++ []) :=
      (Delimited.append h.delimited).1
    rw [bytesOf_flatMap_lines, List.append_nil] at hlines
    exact hlines.truncate hrest
  obtain ⟨left, hreturns, hiff⟩ := exists_doReadReturns req rest false junk hreq
  have hleft : left = rest := hiff.mpr (h.short req List.mem_cons_self)
  rw [hleft] at hreturns
  refine ⟨_, hreturns, ?_⟩
  obtain ⟨⟨m, p⟩, hfields⟩ := Option.ne_none_iff_exists'.mp (h.fields req List.mem_cons_self)
  rw [act_sscanfLine junk hfields, Request.acted, hfields]
  simp only
  split_ifs <;> rfl

/-- **Event `j` acts on request `j`.**  The induction is on the segments; `unread` is
what the events before have left of the requests before `reqs`. -/
theorem exists_serve {segs : List (List UInt8)} {reqs : List Request} {unread : List UInt8}
    (junk : ℕ → Locals) (i : ℕ) (hreqs : WholeRequests reqs)
    (hne : ∀ seg ∈ segs, seg ≠ []) (hall : unread ++ segs.flatten = bytesOfAll reqs)
    (hpace : ∀ j, j ≤ segs.length → bytesOfAll (reqs.take j) <+: unread ++ (segs.take j).flatten) :
    ∃ fuel, serve fuel junk i unread segs
      = some ((reqs.take segs.length).flatMap Request.acted) := by
  induction segs generalizing reqs unread i with
  | nil => exact ⟨0, rfl⟩
  | cons seg segs ih =>
      rcases reqs with _ | ⟨req, reqs⟩
      · -- a segment is not empty, so there is a request it belongs to
        have hnil := List.append_eq_nil_iff.mp hall
        rw [List.flatten_cons] at hnil
        exact absurd (List.append_eq_nil_iff.mp hnil.2).1 (hne seg List.mem_cons_self)
      · -- the first request has arrived, with `rest` behind it
        obtain ⟨rest, hrest⟩ : req.bytes <+: unread ++ seg := by
          have hfirst := hpace 1 (by simp)
          simpa [bytesOfAll] using hfirst
        have hall' : rest ++ segs.flatten = bytesOfAll reqs := by
          rw [List.flatten_cons, ← List.append_assoc, ← hrest, List.append_assoc] at hall
          exact List.append_cancel_left hall
        have hpace' : ∀ j, j ≤ segs.length →
            bytesOfAll (reqs.take j) <+: rest ++ (segs.take j).flatten := by
          intro j hj
          have hnext := hpace (j + 1) (by simpa using hj)
          rw [List.take_succ_cons, List.take_succ_cons, List.flatten_cons, ← List.append_assoc,
            ← hrest, List.append_assoc] at hnext
          exact (List.prefix_append_right_inj _).mp hnext
        obtain ⟨l, ⟨fuel₁, hcall⟩, hacted⟩ :=
          hreqs.doRead_first ⟨segs.flatten, hall'⟩ (junk i)
        obtain ⟨fuel₂, hserve⟩ := ih (i + 1) hreqs.tail
          (fun s hs => hne s (List.mem_cons_of_mem _ hs)) hall' hpace'
        refine ⟨max fuel₁ fuel₂, ?_⟩
        have hcall' := hcall (max fuel₁ fuel₂) (le_max_left _ _)
        rw [hrest] at hcall'
        rw [serve_cons segs false hcall', serve_mono hserve (le_max_right _ _), Option.map_some,
          hacted]
        rfl

/-- A stream of whole requests, cut so that the events keep pace. -/
theorem serves_cutting {reqs : List Request} {segs : List (List UInt8)} (junk : ℕ → Locals)
    (hreqs : WholeRequests reqs) (hsegs : Cutting reqs segs) :
    Serves junk segs ((reqs.take segs.length).flatMap Request.acted) := by
  obtain ⟨fuel, hserve⟩ := exists_serve junk 0 hreqs hsegs.nonempty
    (by rw [List.nil_append]; exact hsegs.flatten)
    (fun j hj => by rw [List.nil_append]; exact hsegs.pace j hj)
  exact Serves.of_serve hserve

/-! ## Two ways of cutting -/

/-- **Independence of the cutting.**  Whole requests are cut in two ways, each such
that the `j`-th event finds the first `j` requests arrived.  The server acts upon the
first requests, as many as there are events: upon the same ones where the numbers of
segments agree, else upon some more of them in the run with more segments. -/
theorem acted_independent_of_cutting (reqs : List Request) (hreqs : WholeRequests reqs)
    (segs₁ segs₂ : List (List UInt8)) (h₁ : Cutting reqs segs₁) (h₂ : Cutting reqs segs₂)
    (junk₁ junk₂ : ℕ → Locals) :
    ∃ acts₁ acts₂, Serves junk₁ segs₁ acts₁ ∧ Serves junk₂ segs₂ acts₂ ∧
      acts₁ = (reqs.take segs₁.length).flatMap Request.acted ∧
      acts₂ = (reqs.take segs₂.length).flatMap Request.acted ∧
      (segs₁.length = segs₂.length → acts₁ = acts₂) ∧
      (segs₁.length ≤ segs₂.length → acts₁ <+: acts₂) := by
  refine ⟨_, _, serves_cutting junk₁ hreqs h₁, serves_cutting junk₂ hreqs h₂, rfl, rfl, ?_, ?_⟩
  · intro hlen
    rw [hlen]
  · intro hlen
    have htake : reqs.take segs₁.length <+: reqs.take segs₂.length :=
      List.take_prefix_take_left hlen
    obtain ⟨more, hmore⟩ := htake
    rw [← hmore, List.flatMap_append]
    exact List.prefix_append _ _

/-- The plain request, twice. -/
def plainPair : List Request := [plainRequest, plainRequest]

theorem plainPair_whole : WholeRequests plainPair where
  delimited := by
    refine ⟨?_, ?_, ?_, ?_, trivial⟩ <;> intro h <;> cases h
  fields := by
    intro req hreq
    rcases List.mem_pair.mp hreq with rfl | rfl <;> decide
  short := by
    intro req hreq l hl
    have hplain : req = plainRequest := by
      rcases List.mem_pair.mp hreq with rfl | rfl <;> rfl
    rw [hplain] at hl
    rw [List.mem_singleton.mp hl]
    decide

/-- One segment for each request. -/
def pairApart : List (List UInt8) := [plainRequest.bytes, plainRequest.bytes]

/-- The first three bytes of the second request come with the first one. -/
def pairShifted : List (List UInt8) :=
  [plainRequest.bytes ++ [71, 69, 84], plainRequest.bytes.drop 3]

theorem pairApart_cutting : Cutting plainPair pairApart where
  flatten := by decide
  nonempty := by decide
  pace := by
    intro j hj
    have hj : j ≤ 2 := hj
    interval_cases j <;> decide

theorem pairShifted_cutting : Cutting plainPair pairShifted where
  flatten := by decide
  nonempty := by decide
  pace := by
    intro j hj
    have hj : j ≤ 2 := hj
    interval_cases j <;> decide

/-- The two requests are acted upon alike in both cuttings. -/
theorem acted_independent_of_cutting_pair :
    WholeRequests plainPair ∧ Cutting plainPair pairApart ∧ Cutting plainPair pairShifted ∧
      ∃ acts₁ acts₂, Serves (fun _ => ⟨[], [], []⟩) pairApart acts₁ ∧
        Serves (fun _ => ⟨[], [], []⟩) pairShifted acts₂ ∧
        acts₁ = (plainPair.take pairApart.length).flatMap Request.acted ∧
        acts₂ = (plainPair.take pairShifted.length).flatMap Request.acted ∧
        (pairApart.length = pairShifted.length → acts₁ = acts₂) ∧
        (pairApart.length ≤ pairShifted.length → acts₁ <+: acts₂) :=
  ⟨plainPair_whole, pairApart_cutting, pairShifted_cutting,
    acted_independent_of_cutting plainPair plainPair_whole pairApart pairShifted
      pairApart_cutting pairShifted_cutting _ _⟩

/-- `GET /ab HTTP/1.1` and an empty line. -/
def abRequest : List UInt8 :=
  [71, 69, 84, 32, 47, 97, 98, 32, 72, 84, 84, 80, 47, 49, 46, 49, 10, 10]

/-- **A cut inside the request line changes what is acted upon.**  In one segment the
server is asked for `ab`; cut behind `GET /a` it is asked for `a`, since the call
takes what has arrived for the request line and does not remember it. -/
theorem acted_depends_on_cutting :
    [abRequest].flatten = [abRequest.take 6, abRequest.drop 6].flatten ∧
      ∃ acts₁ acts₂, acts₁ = [([71, 69, 84], [97, 98])] ∧ acts₂ = [([71, 69, 84], [97])] ∧
        Serves (fun _ => ⟨[], [], []⟩) [abRequest] acts₁ ∧
        Serves (fun _ => ⟨[], [], []⟩) [abRequest.take 6, abRequest.drop 6] acts₂ ∧
        acts₁ ≠ acts₂ := by
  have hwhole : serve 2 (fun _ => ⟨[], [], []⟩) 0 [] [abRequest]
      = some [([71, 69, 84], [97, 98])] := by
    decide +kernel
  have hcut : serve 2 (fun _ => ⟨[], [], []⟩) 0 [] [abRequest.take 6, abRequest.drop 6]
      = some [([71, 69, 84], [97])] := by
    decide +kernel
  exact ⟨by decide, _, _, rfl, rfl, Serves.of_serve hwhole, Serves.of_serve hcut, by decide⟩

end MyHttpd
