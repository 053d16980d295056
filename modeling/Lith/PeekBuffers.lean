import Lith.ByteArea
import Lith.Redirect

/-!
# The arrays of the redirect

The cleartext branch of the worker once more, on the arrays that it declares:
the peeked request, the two tokens and the response.  Every access is checked,
and for whatever is peeked the run has a result: the scans end inside the peeked
array, the copies inside theirs, and the response is never cut.
-/

namespace Lith

open CString

/-- What the second `recv` delivers, if it does not fail. -/
abbrev PeekAnswer := Option { peeked : Bytes // peeked.length ≤ 1023 }

def peekLength (peek : PeekAnswer) : ℤ :=
  peek.elim (-1) fun peeked => peeked.val.length

def peekRequest (peek : PeekAnswer) : Option (ByteArea 1024) :=
  match peek with
  | none => some (.initialised 1024 [])
  | some peeked => (ByteArea.initialised 1024 []).write 0 peeked.val

/-- The bytes from `start` to `stop`, when the end was found and they fit. -/
def copyToken (area : ByteArea 256) (start : Bytes) (stop : Option ℕ) :
    Option (ByteArea 256) :=
  match stop with
  | some len =>
      if len < 256 then area.copyString start len else some area
  | none => some area

def extractPath (peekReq : ByteArea 1024) (area : ByteArea 256) :
    Option (ByteArea 256) := do
  match ← scanChar 32 peekReq.bytes with
  | some space =>
      let pathStart := peekReq.bytes.drop (space + 1)
      let pathEnd ← scanChar 32 pathStart
      copyToken area pathStart pathEnd
  | none => some area

def extractHost (peekReq : ByteArea 1024) (area : ByteArea 256) :
    Option (ByteArea 256) := do
  match ← scanString hostMarker peekReq.bytes with
  | some found =>
      let hostStart := peekReq.bytes.drop (found + 6)
      match ← scanChar 13 hostStart with
      | some hostEnd => copyToken area hostStart (some hostEnd)
      | none =>
          let hostEnd ← scanChar 10 hostStart
          copyToken area hostStart hostEnd
  | none => some area

structure RedirectBuffers where
  targetPath : ByteArea 256
  hostHeader : ByteArea 256
  redirectResponse : ByteArea 1024

def redirectText (host target : Bytes) : Bytes :=
  ascii "HTTP/1.1 301 Moved Permanently\r\nServer: LITH/" ++ lithVersion ++
    ascii "\r\nLocation: https://" ++ host ++ target ++
    ascii "\r\nContent-Length: 0\r\nConnection: close\r\n\r\n"

def targetArea : ByteArea 256 := .initialised 256 (ascii "/")

def hostArea : ByteArea 256 := .initialised 256 (ascii "localhost:8090")

/-- The branch up to `send`; `response` is what the array held before. -/
def redirectInto (peek : PeekAnswer) (response : ByteArea 1024) :
    Option RedirectBuffers := do
  let peekReq ← peekRequest peek
  let target ← if 0 < peekLength peek then extractPath peekReq targetArea
    else some targetArea
  let host ← if 0 < peekLength peek then extractHost peekReq hostArea
    else some hostArea
  let hostText ← host.string
  let targetText ← target.string
  let written ← response.snprintf 1024 (redirectText hostText targetText)
  return ⟨target, host, written⟩

/-- The text that the scans see. -/
def peekedText (peek : PeekAnswer) : Bytes :=
  peek.elim [] fun peeked => cstr peeked.val

/-! ## The scans and the copies -/

theorem peekRequest_string (peek : PeekAnswer) :
    ∃ peekReq, peekRequest peek = some peekReq ∧
      peekReq.string = some (peekedText peek) := by
  cases peek with
  | none =>
      exact ⟨_, rfl, ByteArea.string_initialised (by simp) (by simp)⟩
  | some peeked =>
      obtain ⟨text, hfits⟩ := peeked
      obtain ⟨peekReq, hwrite, hbytes⟩ :=
        (ByteArea.initialised 1024 []).exists_write 0 text (by omega)
      refine ⟨peekReq, hwrite, ?_⟩
      have hrest : (ByteArea.initialised 1024 []).bytes.drop (0 + text.length) =
          0 :: List.replicate (1023 - text.length) 0 := by
        simp only [ByteArea.initialised, List.nil_append, List.take_replicate,
          List.drop_replicate, ← List.replicate_succ]
        congr 1
        omega
      rw [ByteArea.string, hbytes, hrest, List.take_zero, List.nil_append]
      exact readString_cstr text _

theorem copyToken_string {area : ByteArea 256} {initial : CharArray 256}
    (harea : area.string = some initial.text) {start text : Bytes}
    (hstart : readString start = some text) (stop : Option ℕ) :
    ∃ after, copyToken area start stop = some after ∧
      after.string = some (copyBefore initial text stop).text := by
  cases stop with
  | none => exact ⟨area, rfl, harea⟩
  | some len =>
      by_cases hlen : len < 256
      · obtain ⟨after, hcopy, hafter⟩ := area.copyString_string hstart hlen
        refine ⟨after, ?_, ?_⟩
        · simp [copyToken, hlen, hcopy]
        · have hfree := (readString_eq_some_iff.mp hstart).1
          simp only [copyBefore, if_pos hlen]
          rw [hafter, strncpy_text fun hmem => hfree (List.mem_of_mem_take hmem)]
          rw [List.length_take]
          omega
      · refine ⟨area, ?_, ?_⟩
        · simp [copyToken, hlen]
        · simpa only [copyBefore, if_neg hlen] using harea

theorem extractPath_string {peekReq : ByteArea 1024} {text : Bytes}
    (hread : peekReq.string = some text) :
    ∃ after, extractPath peekReq targetArea = some after ∧
      after.string = some (targetPath text).text := by
  have harea : targetArea.string = some defaultTargetPath.text :=
    ByteArea.string_initialised (by decide) (by decide)
  have hscan := scanChar_eq hread 32 (by decide)
  cases hspace : strchr 32 text with
  | none =>
      refine ⟨targetArea, ?_, ?_⟩
      · simp [extractPath, hscan, hspace]
      · simpa only [targetPath, hspace] using harea
  | some space =>
      have hbound : space + 1 ≤ text.length := strstr_bound hspace
      have hstart := readString_drop hread hbound
      have hend := scanChar_eq hstart 32 (by decide)
      obtain ⟨after, hcopy, hafter⟩ := copyToken_string harea hstart
        (strchr 32 (text.drop (space + 1)))
      refine ⟨after, ?_, ?_⟩
      · simp [extractPath, hscan, hspace, hend, hcopy]
      · simpa only [targetPath, hspace] using hafter

theorem extractHost_string {peekReq : ByteArea 1024} {text : Bytes}
    (hread : peekReq.string = some text) :
    ∃ after, extractHost peekReq hostArea = some after ∧
      after.string = some (hostHeader text).text := by
  have harea : hostArea.string = some defaultHostHeader.text :=
    ByteArea.string_initialised (by decide) (by decide)
  have hscan := scanString_eq hread hostMarker (by decide) (by decide)
  cases hfound : strstr hostMarker text with
  | none =>
      refine ⟨hostArea, ?_, ?_⟩
      · simp [extractHost, hscan, hfound]
      · simpa only [hostHeader, behind, hfound, Option.map_none] using harea
  | some found =>
      have hbound : found + 6 ≤ text.length := strstr_bound hfound
      have hstart := readString_drop hread hbound
      have hreturn := scanChar_eq hstart 13 (by decide)
      have hfeed := scanChar_eq hstart 10 (by decide)
      obtain ⟨after, hcopy, hafter⟩ := copyToken_string harea hstart
        ((strchr 13 (text.drop (found + 6))).or (strchr 10 (text.drop (found + 6))))
      refine ⟨after, ?_, ?_⟩
      · cases hend : strchr 13 (text.drop (found + 6)) with
        | none =>
            rw [hend, Option.none_or] at hcopy
            simp [extractHost, hscan, hfound, hreturn, hend, hfeed, hcopy]
        | some hostEnd =>
            rw [hend, Option.some_or] at hcopy
            simp [extractHost, hscan, hfound, hreturn, hend, hcopy]
      · have hmarker : hostMarker.length = 6 := by decide
        simpa only [hostHeader, behind, hfound, Option.map_some, hmarker]
          using hafter

/-! ## The tokens and the response -/

/-- The token lies between the first two spaces. -/
def IsPathToken (text token : Bytes) : Prop :=
  ∃ method rest, text = method ++ 32 :: (token ++ 32 :: rest) ∧
    32 ∉ method ∧ 32 ∉ token

/-- The token lies between the first `Host: ` and the next carriage return, or
the next line feed when no carriage return follows. -/
def IsHostToken (text token : Bytes) : Prop :=
  ∃ rest, behind hostMarker text = some (token ++ 13 :: rest) ∧ 13 ∉ token ∨
    behind hostMarker text = some (token ++ 10 :: rest) ∧
      13 ∉ token ++ 10 :: rest ∧ 10 ∉ token

structure TokenKept (IsToken : Bytes → Prop) (default kept : Bytes) : Prop where
  copied : ∀ token, IsToken token → token.length ≤ 255 → kept = token
  tooLong : ∀ token, IsToken token → 255 < token.length → kept = default
  absent : (∀ token, ¬IsToken token) → kept = default

theorem TokenKept.of_cases {IsToken : Bytes → Prop} {default kept : Bytes}
    (htoken : ∀ token, IsToken token →
      kept = if token.length < 256 then token else default)
    (habsent : kept = default ∨ ∃ token, IsToken token) :
    TokenKept IsToken default kept where
  copied := by
    intro token hmem hshort
    rw [htoken token hmem, if_pos (by omega)]
  tooLong := by
    intro token hmem hlong
    rw [htoken token hmem, if_neg (by omega)]
  absent := by
    intro hnone
    rcases habsent with hdefault | ⟨token, hmem⟩
    · exact hdefault
    · exact absurd hmem (hnone token)

theorem pathToken_kept {text : Bytes} (hfree : 0 ∉ text) :
    TokenKept (IsPathToken text) (ascii "/") (targetPath text).text := by
  have hdefault : defaultTargetPath.text = ascii "/" := by decide
  apply TokenKept.of_cases
  · rintro token ⟨method, rest, rfl, hmethod, htoken⟩
    rw [targetPath_between hmethod htoken fun h => hfree (by simp [h]), hdefault]
  · rcases targetPath_cases text with hpath | ⟨method, path, rest, htext, hmethod, hpath⟩
    · exact Or.inl (by rw [hpath, hdefault])
    · exact Or.inr ⟨path, method, rest, htext, hmethod, hpath⟩

theorem hostToken_kept {text : Bytes} (hfree : 0 ∉ text) :
    TokenKept (IsHostToken text) (ascii "localhost:8090") (hostHeader text).text := by
  have hdefault : defaultHostHeader.text = ascii "localhost:8090" := by decide
  have hstart {rest : Bytes} (hfound : behind hostMarker text = some rest) :
      0 ∉ rest := nulFree_of_behind (by decide) hfree hfound
  apply TokenKept.of_cases
  · rintro token ⟨rest, ⟨hfound, htoken⟩ | ⟨hfound, hreturn, htoken⟩⟩
    · rw [hostHeader_return hfound htoken fun h => hstart hfound (by simp [h]),
        hdefault]
    · rw [hostHeader_feed hfound hreturn htoken fun h => hstart hfound (by simp [h]),
        hdefault]
  · rcases hostHeader_cases text with hhost | ⟨host, rest, hfound, hhost⟩ |
      ⟨host, rest, hfound, hreturn, hhost⟩
    · exact Or.inl (by rw [hhost, hdefault])
    · exact Or.inr ⟨host, rest, Or.inl ⟨hfound, hhost⟩⟩
    · exact Or.inr ⟨host, rest, Or.inr ⟨hfound, hreturn, hhost⟩⟩

theorem redirectText_length_lt {host target : Bytes} (hhost : host.length < 256)
    (htarget : target.length < 256) : (redirectText host target).length < 1024 := by
  have hnames :
      (ascii "HTTP/1.1 301 Moved Permanently\r\nServer: LITH/").length = 45 ∧
      lithVersion.length = 5 ∧ (ascii "\r\nLocation: https://").length = 20 ∧
      (ascii "\r\nContent-Length: 0\r\nConnection: close\r\n\r\n").length = 42 := by
    decide
  simp only [redirectText, List.length_append, hnames]
  omega

theorem nulFree_redirectText {host target : Bytes} (hhost : 0 ∉ host)
    (htarget : 0 ∉ target) : 0 ∉ redirectText host target := by
  have hnames : 0 ∉ ascii "HTTP/1.1 301 Moved Permanently\r\nServer: LITH/" ∧
      0 ∉ lithVersion ∧ 0 ∉ ascii "\r\nLocation: https://" ∧
      0 ∉ ascii "\r\nContent-Length: 0\r\nConnection: close\r\n\r\n" := by
    decide
  simp only [redirectText, List.mem_append, not_or]
  exact ⟨⟨⟨⟨⟨hnames.1, hnames.2.1⟩, hnames.2.2.1⟩, hhost⟩, htarget⟩, hnames.2.2.2⟩

theorem blankLine_isSuffix_redirectText (host target : Bytes) :
    blankLine <:+ redirectText host target := by
  have hend : blankLine <:+
      ascii "\r\nContent-Length: 0\r\nConnection: close\r\n\r\n" := by decide
  exact hend.trans (List.suffix_append _ _)

/-- The branch on arrays does what `redirectResponse` says. -/
theorem redirectInto_eq (peek : PeekAnswer) (response : ByteArea 1024) :
    ∃ buffers, redirectInto peek response = some buffers ∧
      buffers.targetPath.string = some (targetPath (peekedText peek)).text ∧
      buffers.hostHeader.string = some (hostHeader (peekedText peek)).text ∧
      buffers.redirectResponse.string = some
        (redirectText (hostHeader (peekedText peek)).text
          (targetPath (peekedText peek)).text) := by
  obtain ⟨peekReq, hpeek, hread⟩ := peekRequest_string peek
  obtain ⟨target, htarget, htargetText⟩ := extractPath_string hread
  obtain ⟨host, hhost, hhostText⟩ := extractHost_string hread
  have hfree := nulFree_redirectText (ByteArea.nulFree_of_string hhostText)
    (ByteArea.nulFree_of_string htargetText)
  obtain ⟨written, hwrite, hwritten⟩ :=
    response.snprintf_string (by omega : 0 < 1024) le_rfl hfree
  rw [snprintf_of_length_lt (redirectText_length_lt
    (ByteArea.length_lt_of_string hhostText)
    (ByteArea.length_lt_of_string htargetText))] at hwritten
  by_cases hsome : 0 < peekLength peek
  · refine ⟨⟨target, host, written⟩, ?_, htargetText, hhostText, hwritten⟩
    simp [redirectInto, hpeek, hsome, htarget, hhost, hhostText, htargetText, hwrite]
  · -- nothing was peeked, and the scans of the empty text keep the defaults
    have hempty : peekedText peek = [] := by
      cases peek with
      | none => rfl
      | some peeked =>
          have hnil : peeked.val = [] := by
            rw [← List.length_eq_zero_iff]
            simp only [peekLength, Option.elim_some] at hsome
            omega
          simp [peekedText, hnil, cstr]
    have hnone : targetPath [] = defaultTargetPath ∧ hostHeader [] = defaultHostHeader := by
      decide
    rw [hempty, hnone.1, hnone.2] at hwrite hwritten ⊢
    have htargetArea : targetArea.string = some defaultTargetPath.text :=
      ByteArea.string_initialised (by decide) (by decide)
    have hhostArea : hostArea.string = some defaultHostHeader.text :=
      ByteArea.string_initialised (by decide) (by decide)
    refine ⟨⟨targetArea, hostArea, written⟩, ?_, htargetArea, hhostArea, hwritten⟩
    simp [redirectInto, hpeek, hsome, hhostArea, htargetArea, hwrite]

/-- For whatever is peeked the run stays inside its arrays, each token is kept
or replaced by its default, and the whole response is written. -/
theorem redirect_buffers_safe (peek : PeekAnswer) (response : ByteArea 1024) :
    ∃ buffers target host, redirectInto peek response = some buffers ∧
      buffers.targetPath.string = some target ∧
      TokenKept (IsPathToken (peekedText peek)) (ascii "/") target ∧
      buffers.hostHeader.string = some host ∧
      TokenKept (IsHostToken (peekedText peek)) (ascii "localhost:8090") host ∧
      buffers.redirectResponse.string = some (redirectText host target) ∧
      blankLine <:+ redirectText host target := by
  have hfree : 0 ∉ peekedText peek := by
    cases peek with
    | none => simp [peekedText]
    | some peeked => exact nulFree_cstr peeked.val
  obtain ⟨buffers, hrun, htarget, hhost, hresponse⟩ := redirectInto_eq peek response
  exact ⟨buffers, _, _, hrun, htarget, pathToken_kept hfree, hhost,
    hostToken_kept hfree, hresponse, blankLine_isSuffix_redirectText _ _⟩

/-- What is sent is the response of the model on texts. -/
theorem redirectInto_response (peek : PeekAnswer) (response : ByteArea 1024) :
    ∃ buffers, redirectInto peek response = some buffers ∧
      buffers.redirectResponse.string =
        some (redirectResponse (peek.elim [] Subtype.val)) := by
  obtain ⟨buffers, hrun, htarget, hhost, hresponse⟩ := redirectInto_eq peek response
  have htext : cstr (peek.elim [] Subtype.val) = peekedText peek := by
    cases peek <;> rfl
  refine ⟨buffers, hrun, ?_⟩
  have hlength := redirectText_length_lt (ByteArea.length_lt_of_string hhost)
    (ByteArea.length_lt_of_string htarget)
  rw [hresponse, ← snprintf_of_length_lt hlength, ← htext]
  rfl

end Lith
