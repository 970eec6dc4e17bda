/-
# The heads that the web server sends (`http/myhttpd.c`)

`sendResponse` and `senderror` write the status line to the start of a buffer, and
then the `Content-Type` line to the start of the same buffer.  What goes out begins
with `Content-Type`, so it is no response (`heads_never_decode`); with the lost status
line in front of it it is one, and its length is -1 whatever the length of the file
(`decode_statusLine_append`).
-/
import NetStudy.HttpGrammar
import NetStudy.HttpRequest

namespace MyHttpd

open HttpGrammar

/-! ## What is promised -/

/-- A client reads the status, the reason, the content type and the length that were
encoded. -/
def HeadDecodes (bs : List UInt8) (no : ℤ) (disp type : List UInt8) (len : ℤ) : Prop :=
  ∃ r, decode bs = some r ∧ r.status = decimal no ∧ r.reason = trim disp ∧
    r.field (ascii "Content-Type") = some (trim type) ∧
    r.field (ascii "Content-Length") = some (decimal len)

/-- A client reads a status line, a content type, the length of what is behind the
empty line, and the page. -/
def PageDecodes (bs page : List UInt8) : Prop :=
  ∃ r, decode bs = some r ∧ (∃ type, r.field (ascii "Content-Type") = some type) ∧
    r.field (ascii "Content-Length") = some (decimal r.body.length) ∧ r.body = page

/-! ## What is sent -/

/-- The first byte of a head is the `C` of `Content-Type`. -/
theorem sendResponse_head (no : ℤ) (disp type : List UInt8) (len : ℤ) :
    (sendResponse no disp type len).head? = some 67 := by
  rw [sendResponse_eq]
  rfl

theorem senderror_head : senderror.head? = some 67 := by
  rw [senderror_eq]
  rfl

/-- A head is no response. -/
theorem decode_sendResponse (no : ℤ) (disp type : List UInt8) (len : ℤ) :
    decode (sendResponse no disp type len) = none := by
  apply decode_eq_none
  rw [sendResponse_head]
  decide

theorem decode_senderror : decode senderror = none := by
  apply decode_eq_none
  rw [senderror_head]
  decide

/-- **No head can be read**, whatever is encoded in it. -/
theorem heads_never_decode (no : ℤ) (disp type : List UInt8) (len : ℤ) :
    ¬ HeadDecodes (sendResponse no disp type len) no disp type len ∧
      ¬ PageDecodes senderror html := by
  constructor
  · rintro ⟨r, hr, -⟩
    rw [decode_sendResponse] at hr
    cases hr
  · rintro ⟨r, hr, -⟩
    rw [decode_senderror] at hr
    cases hr

/-- The head of `200 OK` for an image of five bytes cannot be read, and no more can
the error page. -/
theorem okHead_not_decoded :
    ¬ (HeadDecodes (sendResponse 200 (ascii "OK") (ascii "image/jpeg") 5) 200 (ascii "OK")
        (ascii "image/jpeg") 5 ∧ PageDecodes senderror html) := by
  rintro ⟨⟨r, hr, -⟩, -⟩
  rw [decode_sendResponse] at hr
  cases hr

/-! ## The line that is lost -/

/-- The digits of a number hold no blank and no line ending. -/
theorem decimal_clean {c : UInt8} {n : ℤ} (hc : c ∈ decimal n) : c ≠ 32 ∧ c ≠ 13 := by
  rw [decimal, List.mem_append] at hc
  rcases hc with hsign | hdigit
  · split_ifs at hsign
    · rw [show c = 45 by simpa [ascii] using hsign]
      decide
    · cases hsign
  · obtain ⟨d, hd, rfl⟩ := List.mem_map.mp hdigit
    have hdig := Nat.isDigit_of_mem_toDigits (by decide) (by decide) hd
    rw [Char.isDigit_iff_toNat, show '0'.toNat = 48 from rfl, show '9'.toNat = 57 from rfl] at hdig
    have hbyte : d.toNat.toUInt8.toNat = d.toNat := Nat.mod_eq_of_lt (by omega)
    constructor
    · intro h
      rw [h] at hbyte
      have h32 : (32 : UInt8).toNat = 32 := rfl
      omega
    · intro h
      rw [h] at hbyte
      have h13 : (13 : UInt8).toNat = 13 := rfl
      omega

/-- The `Content-Type` line, read. -/
theorem fieldOf_contentType (type : List UInt8) :
    fieldOf (ascii "Content-Type: " ++ cstr type ++ ascii " ")
      = some (ascii "Content-Type", trim (cstr type)) := by
  have hline : ascii "Content-Type: " ++ cstr type ++ ascii " "
      = ascii "Content-Type" ++ 58 :: (32 :: (cstr type ++ [32])) := by
    rw [show ascii "Content-Type: " = ascii "Content-Type" ++ [58, 32] by decide]
    simp [ascii]
  rw [hline, fieldOf_append _ (by decide), trim_cons_blank _ rfl, trim_append_blank _ rfl]

/-- **What the head lacks.**  With the status line in front of it, a head of a reason
and a type without CR is read as the status, the reason and the type that were
encoded, and the length -1. -/
theorem decode_statusLine_append (no : ℤ) {disp type : List UInt8} (len : ℤ)
    (hdisp : CR ∉ disp) (htype : CR ∉ type) :
    decode (statusLine no disp ++ sendResponse no disp type len)
      = some ⟨decimal no, trim (cstr disp),
          [(ascii "Content-Type", trim (cstr type)), (ascii "Content-Length", decimal (-1))],
          []⟩ := by
  have hdisp' : CR ∉ cstr disp := fun h => hdisp ((List.takeWhile_sublist _).subset h)
  have htype' : CR ∉ cstr type := fun h => htype ((List.takeWhile_sublist _).subset h)
  have hno : CR ∉ decimal no := fun h => (decimal_clean h).2 rfl
  have htext : statusLine no disp ++ sendResponse no disp type len
      = (version ++ (decimal no ++ 32 :: (cstr disp ++ [32]))) ++ (lineEnd
        ++ (writeLines [ascii "Content-Type: " ++ cstr type ++ ascii " ",
            ascii "Content-Length:-1 "] ++ (lineEnd ++ []))) := by
    rw [sendResponse_eq]
    simp [statusLine, writeLines, ascii]
  have hstatus : statusOf (version ++ (decimal no ++ 32 :: (cstr disp ++ [32])))
      = some (decimal no, trim (cstr disp)) := by
    rw [statusOf_append _ (fun h => (decimal_clean h).1 rfl), trim_append_blank _ rfl]
  rw [htext, decode_lines [] _ hstatus _ _]
  · simp only [List.mem_append, List.mem_cons, not_or]
    exact ⟨by decide, hno, by decide, hdisp', by decide⟩
  · intro l hl
    simp only [List.mem_cons, List.not_mem_nil, or_false] at hl
    rcases hl with rfl | rfl
    · constructor
      · exact List.append_ne_nil_of_right_ne_nil _ (by decide)
      · simp only [List.mem_append, not_or]
        exact ⟨⟨by decide, htype'⟩, by decide⟩
    · decide
  · have hlen : fieldOf (ascii "Content-Length:-1 ")
        = some (ascii "Content-Length", decimal (-1)) := by decide
    rw [List.mapM_cons, fieldOf_contentType, List.mapM_cons, hlen]
    rfl

end MyHttpd
