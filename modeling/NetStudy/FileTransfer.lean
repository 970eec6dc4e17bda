/-
# What the web server sends for a request (`http/myhttpd.c`)

* `sendfile` offers each buffer to `send` once.  What a short `send` leaves of a buffer
  is dropped, and a buffer that meets `EAGAIN` or `EINTR` is dropped whole, so the file
  arrives exactly if every `send` takes all that it is offered (`sendfile_delivers_iff`);
* `http_request` sends nothing for a file that is neither missing nor regular, and two
  heads for a regular file that does not open.  A sequence of requests gets one
  response each, in messages as in bytes, exactly if neither occurs
  (`one_response_each_iff`).
-/
import NetStudy.HttpRequest

namespace MyHttpd

/-! ## The loop of `sendfile` -/

/-- What a `send` on a non-blocking socket can give for a buffer, unless the connection
fails. -/
def SendRet.Allowed (buf : List UInt8) : SendRet → Prop
  | taken n => 1 ≤ n ∧ n ≤ buf.length
  | again => True
  | intr => True
  | failed => False

section Loop

variable {env : Env}

/-- No more is taken than is offered. -/
theorem taken_chunk_length_le (env : Env) (i : ℕ) (buf : List UInt8) :
    (env.sent i (Message.chunk buf)).taken.length ≤ buf.length := by
  rw [Env.sent, Message.bytes]
  rcases env.send i buf with n | _ | _ | _
  · exact List.length_take_le' n buf
  · exact Nat.zero_le _
  · exact Nat.zero_le _
  · exact Nat.zero_le _

/-- A buffer is taken whole exactly if `send` says so. -/
theorem taken_chunk_eq_iff {i : ℕ} {buf : List UInt8} (hbuf : 1 ≤ buf.length)
    (hsend : (env.send i buf).Allowed buf) :
    (env.sent i (Message.chunk buf)).taken.length = buf.length ↔
      env.send i buf = SendRet.taken buf.length := by
  rw [Env.sent, Message.bytes]
  rcases hret : env.send i buf with n | _ | _ | _
  · rw [hret] at hsend
    have hle : n ≤ buf.length := hsend.2
    show (buf.take n).length = buf.length ↔ _
    rw [List.length_take, Nat.min_eq_left hle, SendRet.taken.injEq]
  · constructor
    · intro h
      exact absurd h.symm (Nat.ne_of_gt hbuf)
    · intro h
      cases h
  · constructor
    · intro h
      exact absurd h.symm (Nat.ne_of_gt hbuf)
    · intro h
      cases h
  · rw [hret] at hsend
    exact hsend.elim

/-- The bytes of a buffer of which all is taken. -/
theorem taken_chunk {i : ℕ} {buf : List UInt8} (h : env.send i buf = SendRet.taken buf.length) :
    (env.sent i (Message.chunk buf)).taken = buf := by
  rw [Env.sent, Message.bytes, h]
  exact List.take_length

/-- One turn of the loop, unless the connection fails. -/
theorem sendfileLoop_cons {i : ℕ} {buf : List UInt8} (reads : List (List UInt8))
    (hsend : (env.send i buf).Allowed buf) :
    sendfileLoop env i (buf :: reads)
      = (env.sent i (Message.chunk buf) :: (sendfileLoop env (i + 1) reads).1,
          (sendfileLoop env (i + 1) reads).2) := by
  rw [sendfileLoop, if_neg]
  intro hfailed
  rw [hfailed] at hsend
  exact hsend.elim

/-- The loop comes to the end of the file. -/
theorem sendfileLoop_returns {i : ℕ} {reads : List (List UInt8)}
    (hsend : ∀ j, ∀ buf ∈ reads, (env.send j buf).Allowed buf) :
    (sendfileLoop env i reads).2 = true := by
  induction reads generalizing i with
  | nil => rfl
  | cons buf reads ih =>
      rw [sendfileLoop_cons reads (hsend i buf List.mem_cons_self)]
      exact ih (fun j b hb => hsend j b (List.mem_cons_of_mem _ hb))

/-- No more is taken than is read. -/
theorem takenBytes_sendfileLoop_length_le (env : Env) (i : ℕ) (reads : List (List UInt8)) :
    (takenBytes (sendfileLoop env i reads).1).length ≤ reads.flatten.length := by
  induction reads generalizing i with
  | nil => exact Nat.zero_le _
  | cons buf reads ih =>
      have hbuf := taken_chunk_length_le env i buf
      have hrest := ih (i + 1)
      rw [List.flatten_cons, List.length_append, sendfileLoop]
      split_ifs with hfailed
      · rw [takenBytes_cons, takenBytes_nil, List.append_nil]
        omega
      · rw [takenBytes_cons, List.length_append]
        omega

/-- **What the loop delivers** is all that it has read, exactly if every `send` takes
its buffer whole. -/
theorem takenBytes_sendfileLoop_iff {i : ℕ} {reads : List (List UInt8)}
    (hsizes : ∀ buf ∈ reads, 1 ≤ buf.length)
    (hsend : ∀ j, ∀ buf ∈ reads, (env.send j buf).Allowed buf) :
    takenBytes (sendfileLoop env i reads).1 = reads.flatten ↔
      ∀ j buf, reads[j]? = some buf → env.send (i + j) buf = SendRet.taken buf.length := by
  induction reads generalizing i with
  | nil => simp [sendfileLoop]
  | cons buf reads ih =>
      have hbuf := hsend i buf List.mem_cons_self
      have hrest := @ih (i + 1) (fun b hb => hsizes b (List.mem_cons_of_mem _ hb))
        (fun j b hb => hsend j b (List.mem_cons_of_mem _ hb))
      rw [sendfileLoop_cons reads hbuf, takenBytes_cons, List.flatten_cons]
      constructor
      · intro h
        -- both parts are as long as they can be
        have hlen := congrArg List.length h
        rw [List.length_append, List.length_append] at hlen
        have hle := taken_chunk_length_le env i buf
        have hle' := takenBytes_sendfileLoop_length_le env (i + 1) reads
        have hall := (taken_chunk_eq_iff (hsizes buf List.mem_cons_self) hbuf).mp (by omega)
        rw [taken_chunk hall, List.append_cancel_left_eq, hrest] at h
        intro j b hj
        cases j with
        | zero =>
            rw [List.getElem?_cons_zero, Option.some.injEq] at hj
            rw [← hj]
            exact hall
        | succ j =>
            rw [show i + (j + 1) = i + 1 + j by omega]
            exact h j b hj
      · intro h
        have hall : env.send i buf = SendRet.taken buf.length := h 0 buf rfl
        rw [taken_chunk hall, List.append_cancel_left_eq, hrest]
        intro j b hj
        rw [show i + 1 + j = i + (j + 1) by omega]
        exact h (j + 1) b hj

end Loop

/-- **`sendfile` delivers the file exactly if every `send` takes all that it is
offered.**  The buffers `reads` are what `read` gives before it returns 0, the first of
them goes to the `send` with number `i`, and the call returns in any case. -/
theorem sendfile_delivers_iff (env : Env) (i : ℕ) (file content : List UInt8)
    (reads : List (List UInt8)) (hopen : env.opened file = some reads)
    (hcontent : reads.flatten = content)
    (hsizes : ∀ buf ∈ reads, 1 ≤ buf.length ∧ buf.length ≤ 1024)
    (hsend : ∀ j, ∀ buf ∈ reads, (env.send j buf).Allowed buf) :
    (sendfile env i file).2 = true ∧
      (takenBytes (sendfile env i file).1 = content ↔
        ∀ j buf, reads[j]? = some buf → env.send (i + j) buf = SendRet.taken buf.length) := by
  rw [sendfile, hopen, ← hcontent]
  constructor
  · exact sendfileLoop_returns hsend
  · exact takenBytes_sendfileLoop_iff (fun buf hbuf => (hsizes buf hbuf).1) hsend

/-- A file of three bytes that is read in two turns, with some outcomes of `send`. -/
def smallFile (send : ℕ → List UInt8 → SendRet) : Env where
  stat := fun _ => Stat.regular 3
  opened := fun _ => some [[97, 98], [99]]
  send := send

/-- The file arrives if the sends take all. -/
theorem sendfile_delivers_iff_small :
    (sendfile (smallFile (fun _ buf => SendRet.taken buf.length)) 0 []).2 = true ∧
      (takenBytes (sendfile (smallFile (fun _ buf => SendRet.taken buf.length)) 0 []).1
          = [97, 98, 99] ↔
        ∀ j buf, [[97, 98], [99]][j]? = some buf →
          (smallFile (fun _ buf => SendRet.taken buf.length)).send (0 + j) buf
            = SendRet.taken buf.length) := by
  apply sendfile_delivers_iff _ 0 [] [97, 98, 99] [[97, 98], [99]] rfl rfl
  · decide
  · intro j buf hbuf
    refine ⟨?_, le_rfl⟩
    fin_cases hbuf <;> decide

/-- The outcomes of a socket whose buffer fills up: one byte, and then `EAGAIN`. -/
def fullSocket (i : ℕ) (_buf : List UInt8) : SendRet :=
  if i = 0 then SendRet.taken 1 else SendRet.again

/-- **A short `send` and an `EAGAIN` lose the rest of the file**, although both are
outcomes that a `send` can have. -/
theorem sendfile_loses :
    (∀ i, ∀ buf ∈ [[97, 98], [99]], ((smallFile fullSocket).send i buf).Allowed buf) ∧
      (sendfile (smallFile fullSocket) 0 []).2 = true ∧
      takenBytes (sendfile (smallFile fullSocket) 0 []).1 ≠ [97, 98, 99] := by
  refine ⟨?_, by decide, by decide⟩
  intro i buf hbuf
  show (fullSocket i buf).Allowed buf
  rw [fullSocket]
  split_ifs
  · refine ⟨le_rfl, ?_⟩
    fin_cases hbuf <;> decide
  · trivial

/-! ## One response for each request -/

/-- A request for a file, as `http_request` meets it: the cells of its arrays on entry,
and what `stat` and `open` find. -/
structure Get where
  file : List UInt8
  locals : TypeLocals
  stat : Stat
  opened : Option (List (List UInt8))

/-- The answers of the system when `send` takes everything. -/
def Get.env (g : Get) : Env where
  stat := fun _ => g.stat
  opened := fun _ => g.opened
  send := fun _ buf => SendRet.taken buf.length

/-- The system calls for the requests, one after the other. -/
def serveAll (gs : List Get) : List Event :=
  gs.flatMap (fun g => (httpRequest g.env g.locals g.file).1)

/-- The messages of one response to a request: one head of success and the file behind
it, or one error page with its head. -/
def Get.IsResponse (g : Get) (ms : List Message) : Prop :=
  (∃ size reads, g.stat = Stat.regular size ∧ g.opened = some reads ∧
    ms = Message.head 200 (ascii "OK") (getfileType g.file g.locals) size
      :: reads.map Message.chunk) ∨
  ms = [Message.error]

/-- What goes out for the requests is one response for each, in their order. -/
def OneResponseEach (gs : List Get) : Prop :=
  ∃ responses, List.Forall₂ Get.IsResponse gs responses ∧
    messages (serveAll gs) = responses.flatten ∧
    takenBytes (serveAll gs) = (responses.map (fun ms => ms.flatMap Message.bytes)).flatten

/-- What a client can tell of it: the bytes that it is sent are those of one response
for each request, in their order. -/
def OneResponseBytes (gs : List Get) : Prop :=
  ∃ responses, List.Forall₂ Get.IsResponse gs responses ∧
    takenBytes (serveAll gs) = (responses.map (fun ms => ms.flatMap Message.bytes)).flatten

/-- Whether the file is missing, or a regular one that opens. -/
def Get.Answerable (g : Get) : Prop :=
  g.stat = Stat.missing ∨ ∃ size reads, g.stat = Stat.regular size ∧ g.opened = some reads

/-- The messages of a request. -/
def Get.messages (g : Get) : List Message :=
  MyHttpd.messages (httpRequest g.env g.locals g.file).1

theorem messages_missing {g : Get} (h : g.stat = Stat.missing) : g.messages = [Message.error] := by
  have hstat : g.env.stat g.file = Stat.missing := h
  rw [Get.messages, httpRequest, hstat]
  rfl

/-- Nothing is sent for a file of another kind. -/
theorem messages_other {g : Get} (h : g.stat = Stat.other) : g.messages = [] := by
  have hstat : g.env.stat g.file = Stat.other := h
  rw [Get.messages, httpRequest, hstat]
  rfl

/-- The loop with a socket that takes everything. -/
theorem sendfileLoop_all (g : Get) (i : ℕ) (reads : List (List UInt8)) :
    (sendfileLoop g.env i reads).1
      = reads.map (fun buf => Event.send (Message.chunk buf) (SendRet.taken buf.length)) := by
  induction reads generalizing i with
  | nil => rfl
  | cons buf reads ih =>
      have hret : g.env.send i buf = SendRet.taken buf.length := rfl
      rw [sendfileLoop, hret, if_neg (by simp), List.map_cons, ih (i + 1), Env.sent,
        Message.bytes, hret]

/-- The messages for a regular file: the head is sent before the file is opened. -/
theorem messages_regular {g : Get} {size : ℤ} (h : g.stat = Stat.regular size) :
    g.messages = Message.head 200 (ascii "OK") (getfileType g.file g.locals) size
      :: (match g.opened with
          | none => [Message.error]
          | some reads => reads.map Message.chunk) := by
  have hstat : g.env.stat g.file = Stat.regular size := h
  have hopen : g.env.opened g.file = g.opened := rfl
  rw [Get.messages, httpRequest, hstat]
  simp only [messages_stat, messages_sent, sendfile, hopen]
  rcases g.opened with _ | reads
  · rfl
  · simp only [messages_open, sendfileLoop_all]
    rw [MyHttpd.messages, List.filterMap_map]
    simp

/-! ### What the socket takes -/

/-- Every `send` has taken all. -/
def AllTaken (es : List Event) : Prop :=
  ∀ m ret, Event.send m ret ∈ es → ret = SendRet.taken m.bytes.length

/-- Then the bytes are those of the messages. -/
theorem takenBytes_of_all {es : List Event} (h : AllTaken es) :
    takenBytes es = (messages es).flatMap Message.bytes := by
  induction es with
  | nil => rfl
  | cons e es ih =>
      have hrest : AllTaken es := fun m ret hmem => h m ret (List.mem_cons_of_mem _ hmem)
      rw [takenBytes_cons, ih hrest]
      cases e with
      | closefd => rfl
      | stat file => rfl
      | «open» file => rfl
      | send m ret =>
          rw [h m ret List.mem_cons_self, Event.taken, List.take_length]
          rfl

/-- The calls for a request whose socket takes everything. -/
theorem allTaken_httpRequest (g : Get) : AllTaken (httpRequest g.env g.locals g.file).1 := by
  have hsent : ∀ i m m' ret, Event.send m' ret = g.env.sent i m →
      ret = SendRet.taken m'.bytes.length := by
    rintro i m m' ret h
    rw [Env.sent, Event.send.injEq] at h
    obtain ⟨rfl, rfl⟩ := h
    rfl
  have hfile : AllTaken (sendfile g.env 1 g.file).1 := by
    intro m ret hmem
    rw [sendfile] at hmem
    rcases hopened : g.env.opened g.file with _ | reads
    · simp only [hopened, List.mem_cons, List.not_mem_nil, or_false, reduceCtorEq, false_or] at hmem
      exact hsent _ _ _ _ hmem
    · simp only [hopened, List.mem_cons, reduceCtorEq, false_or, sendfileLoop_all,
        List.mem_map] at hmem
      obtain ⟨buf, -, hbuf⟩ := hmem
      rw [Event.send.injEq] at hbuf
      obtain ⟨rfl, rfl⟩ := hbuf
      rfl
  intro m ret hmem
  rw [httpRequest] at hmem
  rcases hstat : g.env.stat g.file with _ | size | _
  · simp only [hstat, List.mem_cons, List.not_mem_nil, or_false, reduceCtorEq, false_or] at hmem
    exact hsent _ _ _ _ hmem
  · simp only [hstat, List.mem_cons, reduceCtorEq, false_or] at hmem
    rcases hmem with hhead | hmem
    · exact hsent _ _ _ _ hhead
    · exact hfile m ret hmem
  · simp only [hstat, List.mem_cons, List.not_mem_nil, or_false, reduceCtorEq] at hmem

theorem takenBytes_serveAll (gs : List Get) :
    takenBytes (serveAll gs) = (messages (serveAll gs)).flatMap Message.bytes := by
  apply takenBytes_of_all
  intro m ret hmem
  obtain ⟨g, -, hg⟩ := List.mem_flatMap.mp hmem
  exact allTaken_httpRequest g m ret hg

/-! ### The order of the responses -/

theorem messages_serveAll (gs : List Get) :
    messages (serveAll gs) = (gs.map Get.messages).flatten := by
  rw [messages, serveAll, List.filterMap_flatMap, ← List.flatMap_def]
  rfl

/-- The bytes are those of the messages of each request. -/
theorem takenBytes_serveAll_flatten (gs : List Get) :
    takenBytes (serveAll gs)
      = (gs.map (fun g => g.messages.flatMap Message.bytes)).flatten := by
  rw [takenBytes_serveAll, messages_serveAll, List.flatMap_def, List.map_flatten,
    List.flatten_flatten, List.map_map]
  simp only [List.map_map, List.flatMap_def, Function.comp_def]

/-- A request that cannot be answered with the file is answered with the error page. -/
theorem isResponse_error {g : Get} {ms : List Message}
    (h : ¬ ∃ size reads, g.stat = Stat.regular size ∧ g.opened = some reads)
    (hms : g.IsResponse ms) : ms = [Message.error] := by
  rcases hms with ⟨size, reads, hstat, hopened, -⟩ | herror
  · exact absurd ⟨size, reads, hstat, hopened⟩ h
  · exact herror

/-- What is sent for an answerable request is a response. -/
theorem isResponse_messages {g : Get} (h : g.Answerable) : g.IsResponse g.messages := by
  rcases h with hmissing | ⟨size, reads, hstat, hopened⟩
  · exact Or.inr (messages_missing hmissing)
  · refine Or.inl ⟨size, reads, hstat, hopened, ?_⟩
    rw [messages_regular hstat, hopened]

/-- The error page does not begin like the head of a file: the types differ within the
first 20 bytes. -/
theorem head_append_ne_senderror (no : ℤ) (disp : List UInt8) (file : List UInt8)
    (l : TypeLocals) (len : ℤ) (xs ys : List UInt8) :
    sendResponse no disp (getfileType file l) len ++ xs ≠ senderror ++ ys := by
  intro h
  have htake := congrArg (List.take 20) h
  have herror : (senderror ++ ys).take 20 = ascii "Content-Type: text/h" := by
    rw [senderror_eq, List.append_assoc]
    rfl
  rw [herror, sendResponse_eq, getfileType, typeText] at htake
  split_ifs at htake
  · rw [show ascii "Content-Type: " ++ cstr (ascii "image/jpeg")
        = ascii "Content-Type: image/jpeg" by decide, List.append_assoc,
      List.take_append_of_le_length (by decide)] at htake
    exact absurd htake (by decide)
  · rw [show ascii "Content-Type: " ++ cstr (ascii "text/plain; charset=iso-8859-1")
        = ascii "Content-Type: text/plain; charset=iso-8859-1" by decide,
      List.append_assoc, List.take_append_of_le_length (by decide)] at htake
    exact absurd htake (by decide)

/-- The bytes of an error page alone. -/
theorem bytes_error : [Message.error].flatMap Message.bytes = senderror :=
  List.flatMap_singleton _ _

theorem senderror_ne_nil : senderror ≠ [] := by
  rw [senderror_eq]
  exact List.append_ne_nil_of_left_ne_nil (by decide) _

/-- Once the responses are one error page ahead of what is sent, they stay ahead: a
request adds its own error page, or nothing. -/
theorem never_catches_up {gs : List Get} {responses : List (List Message)}
    (h : List.Forall₂ Get.IsResponse gs responses) (n : ℕ) :
    (gs.map (fun g => g.messages.flatMap Message.bytes)).flatten
      ≠ (List.replicate (n + 1) senderror).flatten
        ++ (responses.map (fun ms => ms.flatMap Message.bytes)).flatten := by
  induction h generalizing n with
  | nil =>
      rw [List.replicate_succ, List.flatten_cons, List.append_assoc]
      exact (List.append_ne_nil_of_left_ne_nil senderror_ne_nil _).symm
  | @cons g ms gs responses hms _ ih =>
      have hahead : (List.replicate (n + 1) senderror).flatten ++ senderror
          = (List.replicate (n + 1 + 1) senderror).flatten := by
        rw [List.replicate_succ' (n := n + 1), List.flatten_append, List.flatten_singleton]
      simp only [List.map_cons, List.flatten_cons]
      rcases hstat : g.stat with _ | size | _
      · -- the error page of this request stands in for the one that is missing
        rw [messages_missing hstat, isResponse_error (by simp [hstat]) hms, bytes_error,
          ← List.append_assoc, hahead, List.replicate_succ, List.flatten_cons, List.append_assoc]
        intro heq
        exact ih n (List.append_cancel_left heq)
      · -- a head is sent where an error page is due
        rw [messages_regular hstat, List.flatMap_cons, Message.bytes, List.replicate_succ,
          List.flatten_cons, List.append_assoc, List.append_assoc]
        exact head_append_ne_senderror _ _ _ _ _ _ _
      · rw [messages_other hstat, isResponse_error (by simp [hstat]) hms, bytes_error,
          ← List.append_assoc, hahead, List.flatMap_nil, List.nil_append]
        exact ih (n + 1)

/-- The bytes are those of one response each only if every request is answerable. -/
theorem answerable_of_bytes {gs : List Get} {responses : List (List Message)}
    (h : List.Forall₂ Get.IsResponse gs responses)
    (heq : (gs.map (fun g => g.messages.flatMap Message.bytes)).flatten
      = (responses.map (fun ms => ms.flatMap Message.bytes)).flatten) :
    ∀ g ∈ gs, g.Answerable := by
  induction h with
  | nil => simp
  | @cons g ms gs responses hms hrest ih =>
      simp only [List.map_cons, List.flatten_cons] at heq
      rw [List.forall_mem_cons]
      rcases hstat : g.stat with _ | size | _
      · rw [messages_missing hstat, isResponse_error (by simp [hstat]) hms] at heq
        exact ⟨Or.inl hstat, ih (List.append_cancel_left heq)⟩
      · rw [messages_regular hstat] at heq
        rcases hms with ⟨size', reads, hstat', hopened, rfl⟩ | rfl
        · rw [hstat, Stat.regular.injEq] at hstat'
          rw [hopened, hstat'] at heq
          exact ⟨Or.inr ⟨size, reads, hstat, hopened⟩, ih (List.append_cancel_left heq)⟩
        · rw [bytes_error, List.flatMap_cons, Message.bytes, List.append_assoc] at heq
          exact absurd heq (head_append_ne_senderror _ _ _ _ _ _ _)
      · have hbehind := never_catches_up hrest 0
        rw [messages_other hstat, isResponse_error (by simp [hstat]) hms, bytes_error,
          List.flatMap_nil, List.nil_append] at heq
        rw [List.replicate_one, List.flatten_singleton] at hbehind
        exact absurd heq hbehind

theorem answerable_of_oneResponseBytes {gs : List Get} (h : OneResponseBytes gs) :
    ∀ g ∈ gs, g.Answerable := by
  obtain ⟨responses, hresponses, hbytes⟩ := h
  rw [takenBytes_serveAll_flatten] at hbytes
  exact answerable_of_bytes hresponses hbytes

theorem OneResponseEach.bytes {gs : List Get} (h : OneResponseEach gs) : OneResponseBytes gs := by
  obtain ⟨responses, hresponses, -, hbytes⟩ := h
  exact ⟨responses, hresponses, hbytes⟩

theorem oneResponseEach_of_answerable {gs : List Get} (h : ∀ g ∈ gs, g.Answerable) :
    OneResponseEach gs := by
  refine ⟨gs.map Get.messages, ?_, messages_serveAll gs, ?_⟩
  · rw [List.forall₂_map_right_iff, List.forall₂_same]
    exact fun g hg => isResponse_messages (h g hg)
  · rw [takenBytes_serveAll_flatten, List.map_map]
    rfl

/-- **One response for each request**, in their order, exactly if every requested file
is missing, or a regular one that opens; and the bytes alone tell as much. -/
theorem one_response_each_iff (gs : List Get) :
    (OneResponseEach gs ↔ ∀ g ∈ gs,
      g.stat = Stat.missing ∨ ∃ size reads, g.stat = Stat.regular size ∧ g.opened = some reads) ∧
    (OneResponseBytes gs ↔ ∀ g ∈ gs,
      g.stat = Stat.missing ∨
        ∃ size reads, g.stat = Stat.regular size ∧ g.opened = some reads) := by
  constructor
  · constructor
    · exact fun h => answerable_of_oneResponseBytes h.bytes
    · exact oneResponseEach_of_answerable
  · constructor
    · exact answerable_of_oneResponseBytes
    · exact fun h => (oneResponseEach_of_answerable h).bytes

/-- A request for a directory. -/
def directory : Get where
  file := [115]
  locals := ⟨[], []⟩
  stat := Stat.other
  opened := some []

/-- A request for a file that may not be read. -/
def unreadable : Get where
  file := [97, 46, 106, 112, 103]
  locals := ⟨[], []⟩
  stat := Stat.regular 5
  opened := none

/-- **A directory gets no response, and an unreadable file gets two heads.** -/
theorem responses_missing_and_doubled :
    ¬ OneResponseEach [directory] ∧ ¬ OneResponseEach [unreadable] ∧
      messages (serveAll [directory]) = [] ∧
      messages (serveAll [unreadable])
        = [Message.head 200 (ascii "OK") (ascii "image/jpeg") 5, Message.error] := by
  refine ⟨?_, ?_, by decide, by decide⟩
  · intro hone
    have h := answerable_of_oneResponseBytes hone.bytes directory List.mem_cons_self
    simp [Get.Answerable, directory] at h
  · intro hone
    have h := answerable_of_oneResponseBytes hone.bytes unreadable List.mem_cons_self
    simp [Get.Answerable, unreadable] at h

end MyHttpd
