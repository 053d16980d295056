import Lith.CString

/-!
# The HTTP request parser

The functions of `http_parser.c`.  The parser works on the C string at the
start of the receive buffer: a request line is recognised by its method, the
target is copied into an array of `maxPathSize` bytes, and the two header
fields that matter for the connection are found by substring searches over
the whole buffer, each in three spellings tried in turn.
-/

namespace Lith

open CString

def maxPathSize : ℕ := 256

inductive HttpMethod where
  | get
  | post
  | unknown
  deriving DecidableEq, Repr

theorem HttpMethod.post_ne_unknown : HttpMethod.post ≠ .unknown := by decide

theorem slash_lt_maxPathSize : (ascii "/").length < maxPathSize := by decide

structure HttpRequest where
  method : HttpMethod
  path : CharArray maxPathSize
  contentLength : ℤ
  /-- Offset of the body in the buffer, when the blank line was found. -/
  bodyStart : Option ℕ
  keepAlive : Bool
  deriving DecidableEq

/-- The copying loop of the request target, with the room left in `path`. -/
def copyPath : ℕ → Bytes → Bytes
  | 0, _ => []
  | _ + 1, [] => []
  | room + 1, c :: rest =>
      if isspace c then [] else c :: copyPath room rest

theorem copyPath_isPrefix (room : ℕ) (text : Bytes) :
    copyPath room text <+: text := by
  induction room generalizing text with
  | zero => exact List.nil_prefix
  | succ room ih =>
      cases text with
      | nil => exact List.nil_prefix
      | cons c rest =>
          simp only [copyPath]
          split
          · exact List.nil_prefix
          · exact List.cons_prefix_cons.mpr ⟨rfl, ih rest⟩

theorem copyPath_length_le (room : ℕ) (text : Bytes) :
    (copyPath room text).length ≤ room := by
  induction room generalizing text with
  | zero => simp [copyPath]
  | succ room ih =>
      cases text with
      | nil => simp [copyPath]
      | cons c rest =>
          simp only [copyPath]
          split
          · simp
          · simpa using ih rest

/-- `req->path` for a target that starts after the method name. -/
def requestPath (buffer : Bytes) (methodWidth : ℕ) : CharArray maxPathSize where
  text := copyPath (maxPathSize - 1) ((cstr buffer).drop methodWidth)
  fits := Nat.lt_of_le_of_lt (copyPath_length_le _ _) (by decide)
  nulFree := fun hmem => nulFree_cstr buffer
    (List.mem_of_mem_drop ((copyPath_isPrefix _ _).subset hmem))

def contentLengthNames : List Bytes :=
  [ascii "Content-Length:", ascii "content-length:", ascii "CONTENT-LENGTH:"]

def connectionNames : List Bytes :=
  [ascii "Connection:", ascii "connection:", ascii "CONNECTION:"]

/-- The spellings of a field name are searched one after the other, each over
the whole text. -/
def findName (names : List Bytes) (text : Bytes) : Option ℕ :=
  names.findSome? fun name => strstr name text

def fieldValue (names : List Bytes) (width : ℕ) (text : Bytes) : Option Bytes :=
  (findName names text).map fun offset =>
    (text.drop (offset + width)).dropWhile (· = 32)

def parseContentLength (text : Bytes) : ℤ :=
  match fieldValue contentLengthNames 15 text with
  | none => 0
  | some value => strtol value

def parseKeepAlive (text : Bytes) : Bool :=
  match fieldValue connectionNames 11 text with
  | none => true
  | some value =>
      if caseMatches (ascii "close") value then false
      else if caseMatches (ascii "keep-alive") value then true
      else true

def blankLine : Bytes := ascii "\r\n\r\n"

def parseBodyStart (text : Bytes) : Option ℕ :=
  (strstr blankLine text).map (· + 4)

def parseFields (buffer : Bytes) (method : HttpMethod) (methodWidth : ℕ) :
    HttpRequest where
  method := method
  path := requestPath buffer methodWidth
  contentLength := parseContentLength (cstr buffer)
  keepAlive := parseKeepAlive (cstr buffer)
  bodyStart := parseBodyStart (cstr buffer)

/-- `parse_http_request`: `none` is the return value `-1`.  An accepted request
overwrites every field, so nothing of an earlier request survives. -/
def parseHttpRequest (buffer : Bytes) : Option HttpRequest :=
  if ascii "GET " <+: cstr buffer then some (parseFields buffer .get 4)
  else if ascii "POST " <+: cstr buffer then some (parseFields buffer .post 5)
  else none

def mimeTypes : List (Bytes × Bytes) :=
  [(ascii ".html", ascii "text/html"), (ascii ".htm", ascii "text/html"),
    (ascii ".css", ascii "text/css"),
    (ascii ".js", ascii "application/javascript"),
    (ascii ".png", ascii "image/png"),
    (ascii ".jpg", ascii "image/jpeg"), (ascii ".jpeg", ascii "image/jpeg"),
    (ascii ".gif", ascii "image/gif"), (ascii ".ico", ascii "image/x-icon"),
    (ascii ".json", ascii "application/json"),
    (ascii ".txt", ascii "text/plain")]

def defaultMimeType : Bytes := ascii "application/octet-stream"

def getMimeType (path : Bytes) : Bytes :=
  match strrchr 46 path with
  | none => defaultMimeType
  | some offset =>
      ((mimeTypes.find? fun row => row.1 = path.drop offset).map Prod.snd).getD
        defaultMimeType

theorem getMimeType_append {name : Bytes} {i : ℕ}
    (hdot : strrchr 46 name = some i) (base : Bytes) :
    getMimeType (base ++ name) = getMimeType name := by
  unfold getMimeType
  rw [strrchr_append hdot, hdot]
  simp only [List.drop_length_add_append]

/-- What holds of the types in the table holds of every answer. -/
theorem getMimeType_mem {P : Bytes → Prop} (hdefault : P defaultMimeType)
    (htable : ∀ row ∈ mimeTypes, P row.2) (path : Bytes) : P (getMimeType path) := by
  unfold getMimeType
  split
  · exact hdefault
  · rename_i offset _
    cases hrow : mimeTypes.find? fun row => row.1 = path.drop offset with
    | none => exact hdefault
    | some row => exact htable row (List.mem_of_find?_eq_some hrow)

def errorPageHead : Bytes :=
  ascii <| "    <style>\n" ++
    "        body \x7b font-family: 'Segoe UI', system-ui, sans-serif; background: #0f172a; color: #f8fafc; display: flex; justify-content: center; align-items: center; min-height: 100vh; margin: 0; \x7d\n" ++
    "        .error-card \x7b text-align: center; background: #1e293b; padding: 3rem; border-radius: 12px; box-shadow: 0 10px 25px rgba(0,0,0,0.3); max-width: 450px; width: 90%; border: 1px solid rgba(239, 68, 68, 0.2); \x7d\n" ++
    "        h1 \x7b font-size: 4rem; margin: 0; color: #ef4444; font-weight: 800; \x7d\n" ++
    "        h2 \x7b font-size: 1.5rem; margin: 0.5rem 0 1rem 0; color: #e2e8f0; \x7d\n" ++
    "        p \x7b color: #94a3b8; line-height: 1.6; margin-bottom: 2rem; \x7d\n" ++
    "        .footer \x7b font-size: 0.8rem; color: #64748b; border-top: 1px solid #334155; padding-top: 1rem; \x7d\n" ++
    "    </style>\n</head>\n<body>\n    <div class=\"error-card\">\n"

/-- The page in the static `error_buffer` after `get_error_html`. -/
def getErrorHtml (statusCode : ℤ) (title message : Bytes) : Bytes :=
  snprintf 2048 <|
    ascii "<!DOCTYPE html>\n<html lang=\"en\">\n<head>\n    <meta charset=\"UTF-8\">\n" ++
    ascii "    <meta name=\"viewport\" content=\"width=device-width, initial-scale=1.0\">\n" ++
    ascii "    <title>" ++ decimal statusCode ++ ascii " - " ++ title ++
    ascii "</title>\n" ++ errorPageHead ++
    ascii "        <h1>" ++ decimal statusCode ++ ascii "</h1>\n" ++
    ascii "        <h2>" ++ title ++ ascii "</h2>\n" ++
    ascii "        <p>" ++ message ++ ascii "</p>\n" ++
    ascii "        <div class=\"footer\">LITH Server " ++ [226, 128, 162] ++
    ascii " Powered by FomaDev</div>\n    </div>\n</body>\n</html>"

end Lith
