/-
# The answer of the web server (`http/myhttpd.c`)

`http_request` asks `stat` about the file, and answers with an error page
(`senderror`), or with a head (`sendResponse`) and the file behind it (`sendfile`).
The name of the file decides its content type (`getfileType`).

* `put` and `cat` are the two places at which the code writes with `sprintf`: the
  start of the buffer, and the end of the string that is in it;
* `Env` is what the system answers: to `stat`, to `open`, to the calls of `read`, and
  to each `send`;
* `httpRequest` gives the system calls in their order, with what is sent and what
  `send` made of it, and whether the process is still there at the end.

The prints and the close of the file are left out.  As in `do_read` the arrays that
`sscanf` fills are lists of any length.
-/
import NetStudy.DoRead

namespace MyHttpd

/-! ## Text -/

/-- The bytes of an ASCII text. -/
def ascii (s : String) : List UInt8 := s.toList.map (fun c => c.toNat.toUInt8)

/-- `%d`. -/
def decimal (n : ℤ) : List UInt8 :=
  (if n < 0 then ascii "-" else [])
    ++ (Nat.toDigits 10 n.natAbs).map (fun c => c.toNat.toUInt8)

/-- `"\r\n"`. -/
abbrev CRLF : List UInt8 := [CR, LF]

/-- `char buf[1024] = {0}`. -/
def zeroed : List UInt8 := List.replicate 1024 0

/-- `sprintf(buf, "%s", text)`. -/
def put (buf text : List UInt8) : List UInt8 := storeString buf (cstr text)

/-- `sprintf(buf + strlen(buf), "%s", text)`. -/
def cat (buf text : List UInt8) : List UInt8 :=
  cstr buf ++ storeString (buf.drop (cstr buf).length) (cstr text)

/-- A text that is put at the start replaces the string that is there. -/
@[simp] theorem cstr_put (buf text : List UInt8) : cstr (put buf text) = cstr text := by
  rw [put, storeString, cstr_append_zero _ (zero_notMem_cstr text)]

/-- A text that is put at the end of the string is appended to it. -/
@[simp] theorem cstr_cat (buf text : List UInt8) :
    cstr (cat buf text) = cstr buf ++ cstr text := by
  have hmem : 0 ∉ cstr buf ++ cstr text := by
    rw [List.mem_append, not_or]
    exact ⟨zero_notMem_cstr buf, zero_notMem_cstr text⟩
  rw [cat, storeString, ← List.append_assoc, cstr_append_zero _ hmem]

/-! ## The heads -/

/-- `"HTTP/1.1 %d %s \r\n"`. -/
def statusLine (no : ℤ) (disp : List UInt8) : List UInt8 :=
  ascii "HTTP/1.1 " ++ decimal no ++ ascii " " ++ cstr disp ++ ascii " " ++ CRLF

/-- `"Content-Type: %s \r\n"`. -/
def contentType (type : List UInt8) : List UInt8 :=
  ascii "Content-Type: " ++ cstr type ++ ascii " " ++ CRLF

/-- `"Content-Length:%d \r\n"`. -/
def contentLength (n : ℤ) : List UInt8 :=
  ascii "Content-Length:" ++ decimal n ++ ascii " " ++ CRLF

/-- `sendResponse(cfd, no, disp, type, len)`: what it hands to `send`.  The type is
written where the status line is, and `len` is not used (lines 121-127). -/
def sendResponse (no : ℤ) (disp type : List UInt8) (_len : ℤ) : List UInt8 :=
  cstr (cat (cat (put (put zeroed (statusLine no disp)) (contentType type))
    (contentLength (-1))) CRLF)

/-- The page of line 138. -/
def html : List UInt8 :=
  ascii "<!DOCTYPE html><html> <title> 404 not found </title> " ++
    ascii "<body background=\"0xffff\"><div>404 NOT Found</div><hr></body></html>"

/-- `senderror(cfd)`: what it hands to `send`. -/
def senderror : List UInt8 :=
  cstr (cat (cat (cat (put (put zeroed (statusLine 200 (ascii "OK")))
    (contentType (ascii "text/html"))) (contentLength (-1))) CRLF) html)

/-! ## The content type -/

/-- `'.'`. -/
abbrev DOT : UInt8 := 46

/-- The conversion `%[^.]`: the bytes up to the next dot, at least one. -/
def scanName (s : List UInt8) : Option (List UInt8 × List UInt8) :=
  if s.head? = none ∨ s.head? = some DOT then none
  else some (s.takeWhile (· ≠ DOT), s.dropWhile (· ≠ DOT))

/-- The conversion `%s`: the word behind any white space, at least one byte. -/
def scanWord (s : List UInt8) : Option (List UInt8) :=
  if (skipSpace s).takeWhile (fun c => !isSpace c) = [] then none
  else some ((skipSpace s).takeWhile (fun c => !isSpace c))

/-- The arrays `name` and `extend`. -/
structure TypeLocals where
  name : List UInt8
  extend : List UInt8
  deriving DecidableEq

/-- `sscanf(filename, "%[^.].%s", name, extend)` (line 183).  Behind the name there is
a dot or nothing. -/
def sscanfType (file : List UInt8) (l : TypeLocals) : TypeLocals :=
  match scanName file with
  | none => l
  | some (n, s) =>
      match scanWord s.tail with
      | none => { l with name := storeString l.name n }
      | some e => { name := storeString l.name n, extend := storeString l.extend e }

/-- `strncasecmp(extend, "jpg", 3) == 0`. -/
def isJpg (extend : List UInt8) : Bool := ((cstr extend).take 3).map toLower == ascii "jpg"

/-- What `getfileType` copies into `type` (lines 186-193). -/
def typeText (extend : List UInt8) : List UInt8 :=
  if isJpg extend then ascii "image/jpeg" else ascii "text/plain; charset=iso-8859-1"

/-- `getfileType(filename, name, extend, type)`: the string in `type`. -/
def getfileType (file : List UInt8) (l : TypeLocals) : List UInt8 :=
  typeText (sscanfType file l).extend

/-! ## The system calls -/

/-- What `stat` finds: no file, a regular file of some size, or anything else. -/
inductive Stat
  | missing
  | regular (size : ℤ)
  | other
  deriving DecidableEq

/-- What a `send` gives: the number of bytes it has taken, or -1 with `EAGAIN`, with
`EINTR` or with any other error. -/
inductive SendRet
  | taken (n : ℕ)
  | again
  | intr
  | failed
  deriving DecidableEq

/-- What is handed to `send`: a head with its content type and length, a buffer of the
file, or the error page with its head. -/
inductive Message
  | head (no : ℤ) (disp type : List UInt8) (len : ℤ)
  | chunk (buf : List UInt8)
  | error
  deriving DecidableEq

/-- The bytes of a message. -/
def Message.bytes : Message → List UInt8
  | head no disp type len => sendResponse no disp type len
  | chunk buf => buf
  | error => senderror

/-- A system call that `do_read` makes for a request, or the closing of the connection
(`closefd`). -/
inductive Event
  | closefd
  | stat (file : List UInt8)
  | open (file : List UInt8)
  | send (m : Message) (ret : SendRet)
  deriving DecidableEq

/-- The answers of the system: of `stat` and of `open` about each name, where an open
file is the list of the buffers that `read` fills before it returns 0, and of the
`send` with each number. -/
structure Env where
  stat : List UInt8 → Stat
  opened : List UInt8 → Option (List (List UInt8))
  send : ℕ → List UInt8 → SendRet

/-- The `send` with number `i`. -/
def Env.sent (env : Env) (i : ℕ) (m : Message) : Event := Event.send m (env.send i m.bytes)

/-! ## The functions -/

/-- The loop of lines 156-174, from the `send` with number `i` on.  After `EAGAIN` and
after `EINTR`, as after any count, it goes on with the next `read`; any other error
ends the process. -/
def sendfileLoop (env : Env) : ℕ → List (List UInt8) → List Event × Bool
  | _, [] => ([], true)
  | i, buf :: reads =>
      if env.send i buf = SendRet.failed then ([env.sent i (Message.chunk buf)], false)
      else (env.sent i (Message.chunk buf) :: (sendfileLoop env (i + 1) reads).1,
        (sendfileLoop env (i + 1) reads).2)

/-- `sendfile(cfd, file)`. -/
def sendfile (env : Env) (i : ℕ) (file : List UInt8) : List Event × Bool :=
  match env.opened file with
  | none => ([Event.open file, env.sent i Message.error], true)
  | some reads => (Event.open file :: (sendfileLoop env i reads).1, (sendfileLoop env i reads).2)

/-- `http_request(cfd, file)`, with the cells `l` in its arrays on entry. -/
def httpRequest (env : Env) (l : TypeLocals) (file : List UInt8) : List Event × Bool :=
  match env.stat file with
  | Stat.missing => ([Event.stat file, env.sent 0 Message.error], true)
  | Stat.other => ([Event.stat file], true)
  | Stat.regular size =>
      (Event.stat file
          :: env.sent 0 (Message.head 200 (ascii "OK") (getfileType file l) size)
          :: (sendfile env 1 file).1, (sendfile env 1 file).2)

/-- The system calls that follow from the outcome of `do_read`. -/
def Outcome.events (env : Env) (l : TypeLocals) : Outcome → List Event
  | closed => [Event.closefd]
  | ignored => []
  | request _ file => (httpRequest env l file).1

/-! ## What goes out -/

/-- The messages handed to `send`. -/
def messages (es : List Event) : List Message :=
  es.filterMap (fun e => match e with | Event.send m _ => some m | _ => none)

/-- The bytes that the socket has taken. -/
def Event.taken : Event → List UInt8
  | send m (SendRet.taken n) => m.bytes.take n
  | _ => []

/-- The bytes that the socket has taken over several calls. -/
def takenBytes (es : List Event) : List UInt8 := es.flatMap Event.taken

@[simp] theorem messages_nil : messages [] = [] := rfl

@[simp] theorem messages_stat (file : List UInt8) (es : List Event) :
    messages (Event.stat file :: es) = messages es := rfl

@[simp] theorem messages_open (file : List UInt8) (es : List Event) :
    messages (Event.open file :: es) = messages es := rfl

@[simp] theorem messages_sent (env : Env) (i : ℕ) (m : Message) (es : List Event) :
    messages (env.sent i m :: es) = m :: messages es := rfl

@[simp] theorem takenBytes_nil : takenBytes [] = [] := rfl

@[simp] theorem takenBytes_cons (e : Event) (es : List Event) :
    takenBytes (e :: es) = e.taken ++ takenBytes es := rfl

/-- The bytes of a head: there is no status line, and the length is -1. -/
theorem sendResponse_eq (no : ℤ) (disp type : List UInt8) (len : ℤ) :
    sendResponse no disp type len
      = ascii "Content-Type: " ++ cstr type ++ ascii " \r\nContent-Length:-1 \r\n\r\n" := by
  have htext : cstr (contentType type) = contentType type := by
    apply cstr_of_zero_notMem
    rw [contentType]
    simp only [List.mem_append, not_or]
    exact ⟨⟨⟨by decide, zero_notMem_cstr type⟩, by decide⟩, by decide⟩
  have htail : ascii " " ++ CRLF ++ cstr (contentLength (-1)) ++ cstr CRLF
      = ascii " \r\nContent-Length:-1 \r\n\r\n" := by decide
  rw [sendResponse, cstr_cat, cstr_cat, cstr_put, htext, contentType, ← htail]
  simp only [List.append_assoc]

/-- The bytes of the error page, which begin with a head as well. -/
theorem senderror_eq :
    senderror = ascii "Content-Type: text/html \r\nContent-Length:-1 \r\n\r\n" ++ html := by
  have hhtml : cstr html = html := by
    apply cstr_of_zero_notMem
    rw [html, List.mem_append, not_or]
    exact ⟨by decide +kernel, by decide +kernel⟩
  have hhead : cstr (contentType (ascii "text/html")) ++ cstr (contentLength (-1)) ++ cstr CRLF
      = ascii "Content-Type: text/html \r\nContent-Length:-1 \r\n\r\n" := by decide +kernel
  rw [senderror, cstr_cat, cstr_cat, cstr_cat, cstr_put, hhtml, hhead]

end MyHttpd
