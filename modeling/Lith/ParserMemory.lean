import Lith.PathBuffers
import Lith.StringScan

/-!
# The parser in memory

`parse_http_request` on the bytes of the receive buffer and on an `HttpRequest`
that holds whatever an earlier request, or nobody, left in it.  Each search, each
loop over blanks and each conversion walks along the array on its own, and the
path is copied byte by byte, with every access checked.  On a buffer that holds
a terminated string none of them fails, and the parser on texts says what is in
the request afterwards.
-/

namespace Lith

open CString

/-- An `HttpRequest` in memory, with `body_start` as an offset in the buffer. -/
structure RequestArea where
  method : HttpMethod
  path : ByteArea 256
  contentLength : ℤ
  bodyStart : Option ℕ
  keepAlive : Bool

/-- `req->path` for a target that starts at `ptr`. -/
def RequestArea.copyTarget (req : RequestArea) (ptr : Bytes) : Option RequestArea :=
  (copyPathInto req.path 0 ptr).map fun path =>
    { req with path := path }

/-- The searches for the spellings of a field name, until one is found. -/
def scanNames (buffer : Bytes) : List Bytes → Option (Option ℕ)
  | [] => some none
  | name :: names =>
      (scanString name buffer).bind fun found =>
        match found with
        | some offset => some (some offset)
        | none => scanNames buffer names

/-- The pointer behind the name and the blanks that follow it. -/
def scanValue (names : List Bytes) (width : ℕ) (buffer : Bytes) :
    Option (Option Bytes) :=
  (scanNames buffer names).bind fun found =>
    match found with
    | some offset => (skipWhile (· = 32) (buffer.drop (offset + width))).map some
    | none => some none

def RequestArea.readContentLength (req : RequestArea) (buffer : Bytes) :
    Option RequestArea := do
  match ← scanValue contentLengthNames 15 buffer with
  | some clPtr =>
      let length ← scanLong clPtr
      some
        { req with
          contentLength := length }
  | none => some req

def RequestArea.readConnection (req : RequestArea) (buffer : Bytes) :
    Option RequestArea := do
  match ← scanValue connectionNames 11 buffer with
  | some connPtr =>
      if ← compareCaseAt (ascii "close") connPtr then
        some
          { req with
            keepAlive := false }
      else if ← compareCaseAt (ascii "keep-alive") connPtr then
        some
          { req with
            keepAlive := true }
      else some req
  | none => some req

def RequestArea.readBodyStart (req : RequestArea) (buffer : Bytes) :
    Option RequestArea := do
  match ← scanString blankLine buffer with
  | some marker =>
      some
        { req with
          bodyStart := some (marker + 4) }
  | none => some req

/-- The parser behind the recognition of the method. -/
def RequestArea.readFields (req : RequestArea) (buffer : Bytes) (width : ℕ) :
    Option RequestArea := do
  let target ← req.copyTarget (buffer.drop width)
  let framed ← target.readContentLength buffer
  let kept ← framed.readConnection buffer
  kept.readBodyStart buffer

/-- The defaults that every call starts with. -/
def RequestArea.reset (req : RequestArea) : Option RequestArea :=
  (req.path.write 0 (List.replicate maxPathSize 0)).map fun path =>
    { req with
      path := path
      contentLength := 0
      bodyStart := none
      keepAlive := true }

/-- `parse_http_request(buffer, req)`, with its return value. -/
def parseInto (buffer : Bytes) (req : RequestArea) : Option (ℤ × RequestArea) := do
  let cleared ← req.reset
  if ← compareAt (ascii "GET ") buffer then
    let get : RequestArea :=
      { cleared with
        method := .get }
    (get.readFields buffer 4).map fun parsed => (0, parsed)
  else if ← compareAt (ascii "POST ") buffer then
    let post : RequestArea :=
      { cleared with
        method := .post }
    (post.readFields buffer 5).map fun parsed => (0, parsed)
  else
    some (-1,
      { cleared with
        method := .unknown })

/-- The memory holds this request. -/
structure RequestArea.Stores (area : RequestArea) (req : HttpRequest) : Prop where
  method : area.method = req.method
  path : area.path.string = some req.path.text
  contentLength : area.contentLength = req.contentLength
  bodyStart : area.bodyStart = req.bodyStart
  keepAlive : area.keepAlive = req.keepAlive

/-! ## The searches -/

theorem scanNames_eq {buffer text : Bytes} (hread : readString buffer = some text)
    {names : List Bytes} (hnames : ∀ name ∈ names, name ≠ [] ∧ 0 ∉ name) :
    scanNames buffer names = some (findName names text) := by
  induction names with
  | nil => rfl
  | cons name names ih =>
      obtain ⟨hsome, hfree⟩ := hnames name (by simp)
      have hrest := ih fun other hmem => hnames other (List.mem_cons_of_mem name hmem)
      unfold findName at hrest ⊢
      rw [List.findSome?_cons]
      cases hfound : strstr name text with
      | some offset =>
          simp [scanNames, scanString_eq hread name hsome hfree, hfound]
      | none =>
          simp [scanNames, scanString_eq hread name hsome hfree, hfound, hrest]

theorem findName_le {text : Bytes} {names : List Bytes} {width : ℕ}
    (hwidth : ∀ name ∈ names, name.length = width) {offset : ℕ}
    (hfound : findName names text = some offset) : offset + width ≤ text.length := by
  obtain ⟨name, hmem, hname⟩ := List.exists_of_findSome?_eq_some hfound
  rw [← hwidth name hmem]
  exact strstr_bound hname

/-- The pointer that the search leaves behind reads the value of the field. -/
theorem scanValue_eq {buffer text : Bytes} (hread : readString buffer = some text)
    (names : List Bytes) (width : ℕ)
    (hnames : ∀ name ∈ names, name ≠ [] ∧ 0 ∉ name)
    (hwidth : ∀ name ∈ names, name.length = width) :
    ∃ found, scanValue names width buffer = some found ∧
      (found.map readString) = (fieldValue names width text).map some := by
  unfold scanValue fieldValue
  rw [scanNames_eq hread hnames]
  cases hfound : findName names text with
  | none => exact ⟨none, rfl, rfl⟩
  | some offset =>
      have hdrop := readString_drop hread (findName_le hwidth hfound)
      obtain ⟨value, hskip, hvalue⟩ :=
        readString_skipWhile (p := (· = 32)) (by decide) hdrop
      exact ⟨some value, by simp [hskip], by simp [hvalue]⟩

theorem RequestArea.readContentLength_eq {buffer text : Bytes}
    (hread : readString buffer = some text) (req : RequestArea)
    (hzero : req.contentLength = 0) :
    req.readContentLength buffer =
      some
        { req with
          contentLength := parseContentLength text } := by
  obtain ⟨found, hscan, hvalue⟩ := scanValue_eq hread contentLengthNames 15 (by decide)
    (by decide)
  unfold readContentLength parseContentLength
  rw [hscan]
  cases hfield : fieldValue contentLengthNames 15 text with
  | none =>
      rw [hfield, Option.map_none, Option.map_eq_none_iff] at hvalue
      simp [hvalue, ← hzero]
  | some value =>
      rw [hfield, Option.map_some, Option.map_eq_some_iff] at hvalue
      obtain ⟨clPtr, rfl, hptr⟩ := hvalue
      simp [scanLong_eq hptr]

theorem RequestArea.readConnection_eq {buffer text : Bytes}
    (hread : readString buffer = some text) (req : RequestArea)
    (halive : req.keepAlive = true) :
    req.readConnection buffer =
      some
        { req with
          keepAlive := parseKeepAlive text } := by
  obtain ⟨found, hscan, hvalue⟩ := scanValue_eq hread connectionNames 11 (by decide)
    (by decide)
  unfold readConnection parseKeepAlive
  rw [hscan]
  cases hfield : fieldValue connectionNames 11 text with
  | none =>
      rw [hfield, Option.map_none, Option.map_eq_none_iff] at hvalue
      simp [hvalue, ← halive]
  | some value =>
      rw [hfield, Option.map_some, Option.map_eq_some_iff] at hvalue
      obtain ⟨connPtr, rfl, hptr⟩ := hvalue
      have hclose : compareCaseAt (ascii "close") connPtr =
          some (caseMatches (ascii "close") value) := compareCaseAt_eq (by decide) hptr
      have hkeep : compareCaseAt (ascii "keep-alive") connPtr =
          some (caseMatches (ascii "keep-alive") value) :=
        compareCaseAt_eq (by decide) hptr
      cases hc : caseMatches (ascii "close") value with
      | true => simp [hclose, hc]
      | false =>
          cases hk : caseMatches (ascii "keep-alive") value with
          | true => simp [hclose, hkeep, hc, hk]
          | false => simp [hclose, hkeep, hc, hk, ← halive]

theorem RequestArea.readBodyStart_eq {buffer text : Bytes}
    (hread : readString buffer = some text) (req : RequestArea)
    (hnull : req.bodyStart = none) :
    req.readBodyStart buffer =
      some
        { req with
          bodyStart := parseBodyStart text } := by
  unfold readBodyStart parseBodyStart
  rw [scanString_eq hread blankLine (by decide) (by decide)]
  cases hfound : strstr blankLine text with
  | none =>
      change some req = _
      rw [Option.map_none, ← hnull]
  | some marker => rfl

/-! ## The whole parser -/

/-- What every call starts with, whatever the request held. -/
structure RequestArea.Cleared (area : RequestArea) : Prop where
  contentLength : area.contentLength = 0
  bodyStart : area.bodyStart = none
  keepAlive : area.keepAlive = true

theorem RequestArea.reset_cleared (req : RequestArea) :
    ∃ cleared, req.reset = some cleared ∧ cleared.Cleared := by
  have hfits : 0 + (List.replicate maxPathSize (0 : UInt8)).length ≤ 256 := by
    rw [List.length_replicate]
    decide
  obtain ⟨path, hwrite, -⟩ := req.path.exists_write 0 _ hfits
  have hreset : req.reset =
      some
        { req with
          path := path
          contentLength := 0
          bodyStart := none
          keepAlive := true } := by
    rw [reset, hwrite]
    rfl
  exact ⟨_, hreset, rfl, rfl, rfl⟩

variable {buffer chunk : Bytes} {req : HttpRequest}

theorem RequestArea.Cleared.readFields {area : RequestArea} (hcleared : area.Cleared)
    (hread : readString buffer = some (cstr chunk)) {width : ℕ}
    (hwidth : width ≤ (cstr chunk).length) :
    ∃ after, area.readFields buffer width = some after ∧
      after.Stores (parseFields chunk area.method width) := by
  have hfree : 0 ∉ area.path.bytes.take 0 := by simp
  obtain ⟨path, hcopy, hpath⟩ :=
    copyPathInto_string (readString_drop hread hwidth) hfree (by omega)
  refine
    ⟨{ area with
      path := path
      contentLength := parseContentLength (cstr chunk)
      bodyStart := parseBodyStart (cstr chunk)
      keepAlive := parseKeepAlive (cstr chunk) }, ?_, rfl, hpath, rfl, rfl, rfl⟩
  have htarget : area.copyTarget (buffer.drop width) =
      some
        { area with
          path := path } := by
    rw [RequestArea.copyTarget, hcopy]
    rfl
  rw [RequestArea.readFields, htarget, Option.bind_eq_bind, Option.bind_some,
    RequestArea.readContentLength_eq hread, Option.bind_some,
    RequestArea.readConnection_eq hread, Option.bind_some,
    RequestArea.readBodyStart_eq hread]
  · exact hcleared.bodyStart
  · exact hcleared.keepAlive
  · exact hcleared.contentLength

theorem parseInto_of_accepted (hread : readString buffer = some (cstr chunk))
    (hparse : parseHttpRequest chunk = some req) (area : RequestArea) :
    ∃ after, parseInto buffer area = some (0, after) ∧ after.Stores req := by
  obtain ⟨cleared, hreset, hcleared⟩ := area.reset_cleared
  have hget := compareAt_eq hread (by decide : 0 ∉ ascii "GET ")
  have hpost := compareAt_eq hread (by decide : 0 ∉ ascii "POST ")
  rcases parseHttpRequest_eq_some hparse with ⟨hmethod, rfl⟩ | ⟨hmethod, rfl⟩
  · have hready : ({ cleared with method := .get } : RequestArea).Cleared :=
      ⟨hcleared.1, hcleared.2, hcleared.3⟩
    have hwidth : 4 ≤ (cstr chunk).length := hmethod.length_le
    obtain ⟨after, hfields, hafter⟩ := hready.readFields hread hwidth
    refine ⟨after, ?_, hafter⟩
    simp [parseInto, hreset, hget, hmethod, hfields]
  · have hready : ({ cleared with method := .post } : RequestArea).Cleared :=
      ⟨hcleared.1, hcleared.2, hcleared.3⟩
    have hwidth : 5 ≤ (cstr chunk).length := hmethod.length_le
    obtain ⟨after, hfields, hafter⟩ := hready.readFields hread hwidth
    have hother : ¬ascii "GET " <+: cstr chunk := by
      intro hboth
      have hclash := List.prefix_of_prefix_length_le hboth hmethod (by decide)
      exact absurd hclash (by decide)
    refine ⟨after, ?_, hafter⟩
    simp [parseInto, hreset, hget, hpost, hother, hmethod, hfields]

theorem parseInto_of_rejected (hread : readString buffer = some (cstr chunk))
    (hparse : parseHttpRequest chunk = none) (area : RequestArea) :
    ∃ after, parseInto buffer area = some (-1, after) := by
  obtain ⟨cleared, hreset, -⟩ := area.reset_cleared
  have hget := compareAt_eq hread (by decide : 0 ∉ ascii "GET ")
  have hpost := compareAt_eq hread (by decide : 0 ∉ ascii "POST ")
  have hneither : ¬ascii "GET " <+: cstr chunk ∧ ¬ascii "POST " <+: cstr chunk := by
    unfold parseHttpRequest at hparse
    split_ifs at hparse with h1 h2
    exact ⟨h1, h2⟩
  refine
    ⟨{ cleared with
      method := .unknown }, ?_⟩
  simp [parseInto, hreset, hget, hpost, hneither]

end Lith
