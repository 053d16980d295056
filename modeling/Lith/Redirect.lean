import Lith.FieldNameCase

/-!
# The redirect of a cleartext connection

A connection whose first byte is not that of a TLS handshake is answered with
one redirect.  The worker peeks at up to 1023 bytes, takes what stands between
the first two spaces for the path and what follows the first `Host: ` for the
host, and writes both into the `Location` line.  Neither search knows of
lines: the path may run over line ends, the host may be cut at a carriage
return that comes after a line feed, and `Host: ` may be the end of another
name or part of a value.
-/

namespace Lith

open CString

def lithVersion : Bytes := ascii "1.0.9"

def defaultTargetPath : CharArray 256 := strncpy 255 (ascii "/")

def defaultHostHeader : CharArray 256 := strncpy 255 (ascii "localhost:8090")

/-- The bytes before `stop`, when the end was found and they fit. -/
def copyBefore (initial : CharArray 256) (start : Bytes) (stop : Option ℕ) :
    CharArray 256 :=
  match stop with
  | some len => if len < 256 then strncpy 255 (start.take len) else initial
  | none => initial

def targetPath (text : Bytes) : CharArray 256 :=
  match strchr 32 text with
  | some space =>
      let pathStart := text.drop (space + 1)
      copyBefore defaultTargetPath pathStart (strchr 32 pathStart)
  | none => defaultTargetPath

def hostMarker : Bytes := ascii "Host: "

def hostHeader (text : Bytes) : CharArray 256 :=
  match behind hostMarker text with
  | some hostStart =>
      copyBefore defaultHostHeader hostStart
        ((strchr 13 hostStart).or (strchr 10 hostStart))
  | none => defaultHostHeader

/-- What is sent for the peeked bytes; `peek_req` is zeroed before, so the text
ends with them at the latest. -/
def redirectResponse (peeked : Bytes) : Bytes :=
  let peekReq := cstr peeked
  snprintf 1024 <|
    ascii "HTTP/1.1 301 Moved Permanently\r\nServer: LITH/" ++ lithVersion ++
    ascii "\r\nLocation: https://" ++ (hostHeader peekReq).text ++
    (targetPath peekReq).text ++
    ascii "\r\nContent-Length: 0\r\nConnection: close\r\n\r\n"

def redirectLines (url : Bytes) : List Bytes :=
  [ascii "HTTP/1.1 301 Moved Permanently", ascii "Server: LITH/" ++ lithVersion,
    ascii "Location: https://" ++ url, ascii "Content-Length: 0",
    ascii "Connection: close"]

/-! ## The two searches -/

theorem copyBefore_append {taken rest : Bytes} (hfree : 0 ∉ taken)
    (initial : CharArray 256) :
    (copyBefore initial (taken ++ rest) (some taken.length)).text =
      if taken.length < 256 then taken else initial.text := by
  by_cases hlength : taken.length < 256
  · simp only [copyBefore, if_pos hlength, List.take_left' rfl]
    exact strncpy_text hfree (by omega)
  · simp only [copyBefore, if_neg hlength]

theorem targetPath_between {method path rest : Bytes} (hmethod : 32 ∉ method)
    (hpath : 32 ∉ path) (hfree : 0 ∉ path) :
    (targetPath (method ++ 32 :: (path ++ 32 :: rest))).text =
      if path.length < 256 then path else defaultTargetPath.text := by
  have hstart : (method ++ 32 :: (path ++ 32 :: rest)).drop (method.length + 1) =
      path ++ 32 :: rest := by
    simp
  simp only [targetPath, strchr_append_cons hmethod, hstart,
    strchr_append_cons hpath]
  exact copyBefore_append hfree _

/-- Either there is no second space or the path lies between the first two. -/
theorem targetPath_cases (text : Bytes) :
    targetPath text = defaultTargetPath ∨
      ∃ method path rest, text = method ++ 32 :: (path ++ 32 :: rest) ∧
        32 ∉ method ∧ 32 ∉ path := by
  by_cases hfirst : 32 ∈ text
  · obtain ⟨method, start, rfl, hmethod⟩ := List.eq_append_cons_of_mem hfirst
    by_cases hsecond : 32 ∈ start
    · obtain ⟨path, rest, rfl, hpath⟩ := List.eq_append_cons_of_mem hsecond
      exact Or.inr ⟨method, path, rest, rfl, hmethod, hpath⟩
    · left
      have hstart : (method ++ 32 :: start).drop (method.length + 1) = start := by
        simp
      simp only [targetPath, strchr_append_cons hmethod, hstart,
        (strchr_eq_none_iff start).mpr hsecond, copyBefore]
  · left
    simp only [targetPath, (strchr_eq_none_iff text).mpr hfirst]

theorem hostHeader_return {text host rest : Bytes}
    (hfound : behind hostMarker text = some (host ++ 13 :: rest))
    (hhost : 13 ∉ host) (hfree : 0 ∉ host) :
    (hostHeader text).text =
      if host.length < 256 then host else defaultHostHeader.text := by
  simp only [hostHeader, hfound, strchr_append_cons hhost, Option.some_or]
  exact copyBefore_append hfree _

theorem hostHeader_feed {text host rest : Bytes}
    (hfound : behind hostMarker text = some (host ++ 10 :: rest))
    (hreturn : 13 ∉ host ++ 10 :: rest) (hhost : 10 ∉ host) (hfree : 0 ∉ host) :
    (hostHeader text).text =
      if host.length < 256 then host else defaultHostHeader.text := by
  simp only [hostHeader, hfound, (strchr_eq_none_iff _).mpr hreturn,
    strchr_append_cons hhost, Option.none_or]
  exact copyBefore_append hfree _

theorem hostHeader_cases (text : Bytes) :
    hostHeader text = defaultHostHeader ∨
      (∃ host rest, behind hostMarker text = some (host ++ 13 :: rest) ∧
        13 ∉ host) ∨
      ∃ host rest, behind hostMarker text = some (host ++ 10 :: rest) ∧
        13 ∉ host ++ 10 :: rest ∧ 10 ∉ host := by
  cases hfound : behind hostMarker text with
  | none =>
      left
      simp only [hostHeader, hfound]
  | some start =>
      by_cases hreturn : 13 ∈ start
      · obtain ⟨host, rest, rfl, hhost⟩ := List.eq_append_cons_of_mem hreturn
        exact Or.inr (Or.inl ⟨host, rest, rfl, hhost⟩)
      · by_cases hfeed : 10 ∈ start
        · obtain ⟨host, rest, rfl, hhost⟩ := List.eq_append_cons_of_mem hfeed
          exact Or.inr (Or.inr ⟨host, rest, rfl, hreturn, hhost⟩)
        · left
          simp only [hostHeader, hfound, (strchr_eq_none_iff start).mpr hreturn,
            (strchr_eq_none_iff start).mpr hfeed, Option.none_or, copyBefore]

/-! ## The lines of the response -/

theorem redirectResponse_eq (peeked : Bytes) :
    redirectResponse peeked = lineBlock (redirectLines
      ((hostHeader (cstr peeked)).text ++ (targetPath (cstr peeked)).text)) := by
  have hhost := (hostHeader (cstr peeked)).fits
  have htarget := (targetPath (cstr peeked)).fits
  have hnames :
      (ascii "HTTP/1.1 301 Moved Permanently\r\nServer: LITH/").length = 45 ∧
      lithVersion.length = 5 ∧ (ascii "\r\nLocation: https://").length = 20 ∧
      (ascii "\r\nContent-Length: 0\r\nConnection: close\r\n\r\n").length = 42 := by
    decide
  have hstatus : ascii "HTTP/1.1 301 Moved Permanently\r\nServer: LITH/" =
      ascii "HTTP/1.1 301 Moved Permanently" ++ (crlf ++ ascii "Server: LITH/") := by
    decide
  have hlocation : ascii "\r\nLocation: https://" =
      crlf ++ ascii "Location: https://" := by
    decide
  have hend : ascii "\r\nContent-Length: 0\r\nConnection: close\r\n\r\n" =
      crlf ++ lineBlock [ascii "Content-Length: 0", ascii "Connection: close"] := by
    decide
  unfold redirectResponse snprintf
  rw [List.take_of_length_le]
  · rw [hstatus, hlocation, hend]
    simp only [redirectLines, lineBlock, List.append_assoc]
  · simp only [List.length_append, hnames]
    omega

/-- The five lines and the empty one, with a `Location` that ends where its line
ends. -/
def FiveLines (response : Bytes) : Prop :=
  ∃ url, 13 ∉ url ∧ 10 ∉ url ∧ response = lineBlock (redirectLines url)

/-- No line end between the first two spaces, if what they enclose fits. -/
def PathClean (text : Bytes) : Prop :=
  ∀ method path rest, text = method ++ 32 :: (path ++ 32 :: rest) →
    32 ∉ method → 32 ∉ path → path.length < 256 → 13 ∉ path ∧ 10 ∉ path

/-- No line feed between the first `Host: ` and the next carriage return, if
what they enclose fits. -/
def HostClean (text : Bytes) : Prop :=
  ∀ host rest, behind hostMarker text = some (host ++ 13 :: rest) →
    13 ∉ host → host.length < 256 → 10 ∉ host

/-- The response before and behind the URL. -/
def redirectHead : Bytes :=
  ascii "HTTP/1.1 301 Moved Permanently" ++ (crlf ++ (ascii "Server: LITH/" ++
    (lithVersion ++ (crlf ++ ascii "Location: "))))

def redirectTail : Bytes :=
  crlf ++ lineBlock [ascii "Content-Length: 0", ascii "Connection: close"]

theorem lineBlock_redirectLines (url : Bytes) :
    lineBlock (redirectLines url) =
      redirectHead ++ ((ascii "https://" ++ url) ++ redirectTail) := by
  have hname : ascii "Location: https://" = ascii "Location: " ++ ascii "https://" := by
    decide
  simp only [redirectLines, redirectHead, redirectTail, hname, lineBlock,
    List.append_assoc]

theorem redirectLines_injective :
    Function.Injective fun url => lineBlock (redirectLines url) := by
  intro left right hsame
  simp only [lineBlock_redirectLines] at hsame
  have hurl := List.append_cancel_right (List.append_cancel_left hsame)
  exact List.append_cancel_left hurl

theorem nulFree_of_behind {marker text rest : Bytes} (hmarker : marker ≠ [])
    (hfree : 0 ∉ text) (hfound : behind marker text = some rest) : 0 ∉ rest := by
  obtain ⟨front, rfl, -⟩ := exists_front_of_behind hmarker hfound
  exact fun hmem => hfree (List.mem_append_right _ hmem)

theorem targetPath_clean_iff {text : Bytes} (hfree : 0 ∉ text) :
    13 ∉ (targetPath text).text ∧ 10 ∉ (targetPath text).text ↔
      PathClean text := by
  have hdefault : 13 ∉ defaultTargetPath.text ∧ 10 ∉ defaultTargetPath.text := by
    decide
  constructor
  · rintro hclean method path rest rfl hmethod hpath hlength
    rw [targetPath_between hmethod hpath fun h => hfree (by simp [h]),
      if_pos hlength] at hclean
    exact hclean
  · intro hclean
    rcases targetPath_cases text with hpath | ⟨method, path, rest, rfl, hmethod, hpath⟩
    · rw [hpath]
      exact hdefault
    · rw [targetPath_between hmethod hpath fun h => hfree (by simp [h])]
      split_ifs with hlength
      · exact hclean method path rest rfl hmethod hpath hlength
      · exact hdefault

theorem hostHeader_clean_iff {text : Bytes} (hfree : 0 ∉ text) :
    13 ∉ (hostHeader text).text ∧ 10 ∉ (hostHeader text).text ↔
      HostClean text := by
  have hdefault : 13 ∉ defaultHostHeader.text ∧ 10 ∉ defaultHostHeader.text := by
    decide
  have hstart {rest : Bytes} (hfound : behind hostMarker text = some rest) :
      0 ∉ rest := nulFree_of_behind (by decide) hfree hfound
  constructor
  · intro hclean host rest hfound hhost hlength
    rw [hostHeader_return hfound hhost fun h => hstart hfound (by simp [h]),
      if_pos hlength] at hclean
    exact hclean.2
  · intro hclean
    rcases hostHeader_cases text with hhost | ⟨host, rest, hfound, hhost⟩ |
      ⟨host, rest, hfound, hreturn, hhost⟩
    · rw [hhost]
      exact hdefault
    · rw [hostHeader_return hfound hhost fun h => hstart hfound (by simp [h])]
      split_ifs with hlength
      · exact ⟨hhost, hclean host rest hfound hhost hlength⟩
      · exact hdefault
    · rw [hostHeader_feed hfound hreturn hhost fun h => hstart hfound (by simp [h])]
      split_ifs with hlength
      · exact ⟨fun h => hreturn (by simp [h]), hhost⟩
      · exact hdefault

/-- The response has its five lines if and only if neither cut runs over a line
end. -/
theorem redirect_five_lines_iff (peeked : Bytes) :
    FiveLines (redirectResponse peeked) ↔
      PathClean (cstr peeked) ∧ HostClean (cstr peeked) := by
  rw [← targetPath_clean_iff (nulFree_cstr peeked),
    ← hostHeader_clean_iff (nulFree_cstr peeked), redirectResponse_eq]
  constructor
  · rintro ⟨url, hreturn, hfeed, hsame⟩
    have hurl := redirectLines_injective hsame
    rw [← hurl, List.mem_append, not_or] at hreturn hfeed
    exact ⟨⟨hreturn.2, hfeed.2⟩, hreturn.1, hfeed.1⟩
  · rintro ⟨⟨hreturn, hfeed⟩, hreturn', hfeed'⟩
    refine ⟨_, ?_, ?_, rfl⟩
    · rw [List.mem_append, not_or]
      exact ⟨hreturn', hreturn⟩
    · rw [List.mem_append, not_or]
      exact ⟨hfeed', hfeed⟩

/-- A request line without version lets the path run into the next line, and
the response has a line more. -/
theorem redirect_extra_line :
    redirectResponse (ascii "GET /a\r\nSet-Cookie: id=1\r\n\r\n") =
        lineBlock [ascii "HTTP/1.1 301 Moved Permanently",
          ascii "Server: LITH/" ++ lithVersion,
          ascii "Location: https://localhost:8090/a", ascii "Set-Cookie:",
          ascii "Content-Length: 0", ascii "Connection: close"] ∧
      ¬FiveLines (redirectResponse (ascii "GET /a\r\nSet-Cookie: id=1\r\n\r\n")) := by
  have hhost : (hostHeader (cstr (ascii "GET /a\r\nSet-Cookie: id=1\r\n\r\n"))).text =
      ascii "localhost:8090" := by decide
  have hpath : (targetPath (cstr (ascii "GET /a\r\nSet-Cookie: id=1\r\n\r\n"))).text =
      ascii "/a\r\nSet-Cookie:" := by decide
  have hlocation : ascii "Location: https://" ++
      (ascii "localhost:8090" ++ ascii "/a\r\nSet-Cookie:") =
        ascii "Location: https://localhost:8090/a" ++ (crlf ++ ascii "Set-Cookie:") := by
    decide
  rw [redirectResponse_eq, hhost, hpath]
  constructor
  · simp only [redirectLines, hlocation, lineBlock, List.append_assoc]
  · rintro ⟨url, hreturn, -, hsame⟩
    have hurl := redirectLines_injective hsame
    rw [← hurl] at hreturn
    exact hreturn (by decide)

/-! ## The host of the response -/

/-- The value of the `Location` line. -/
def redirectLocation (response : Bytes) : Option Bytes :=
  (behind (ascii "Location: ") response).map (List.takeWhile (· ≠ 13))

/-- A request of which one field, the one behind `earlier`, is named `Host`. -/
structure CleartextRequest where
  method : Bytes
  target : Bytes
  earlier : List Field
  host : Bytes
  later : List Field
  body : Bytes
  methodPlain : ∀ c ∈ method, c ≠ 0 ∧ c ≠ 58 ∧ isspace c = false
  targetPlain : ∀ c ∈ target, c ≠ 0 ∧ isspace c = false
  hostPlain : ∀ c ∈ host, c ≠ 0 ∧ c ≠ 13 ∧ c ≠ 10
  oneHost : ∀ field ∈ earlier ++ later, ¬SameLetters field.name (ascii "Host")
  targetFits : target.length ≤ 255
  hostFits : host.length ≤ 255

namespace CleartextRequest

variable (request : CleartextRequest)

/-- The text before the `Host` line. -/
def front : Bytes :=
  request.method ++ 32 :: (request.target ++ 32 ::
    (ascii "HTTP/1.1" ++ crlf ++ fieldLines request.earlier))

/-- The text up to the end of the `Host` line. -/
def visible : Bytes := request.front ++ (hostMarker ++ (request.host ++ crlf))

def bytes : Bytes :=
  request.visible ++ (fieldLines request.later ++ (crlf ++ request.body))

/-- The text from the first `Host: ` before the `Host` line to the end of its
line states the same host, or is too long and the host is the default one. -/
def HostStatedFirst : Prop :=
  ∀ rest, behind hostMarker request.front = some rest →
    if (rest.takeWhile (· ≠ 13)).length < 256 then
      rest.takeWhile (· ≠ 13) = request.host
    else defaultHostHeader.text = request.host

theorem nulFree_front : 0 ∉ request.front := by
  have hversion : 0 ∉ ascii "HTTP/1.1" ++ crlf := by decide
  have hmethod : 0 ∉ request.method := fun h => (request.methodPlain 0 h).1 rfl
  have htarget : 0 ∉ request.target := fun h => (request.targetPlain 0 h).1 rfl
  have hfields := nulFree_fieldLines request.earlier
  unfold front
  rw [List.mem_append, List.mem_cons, List.mem_append, List.mem_cons,
    List.mem_append]
  rintro (hmem | hspace | hmem | hspace | hmem | hmem)
  · exact hmethod hmem
  · exact absurd hspace (by decide)
  · exact htarget hmem
  · exact absurd hspace (by decide)
  · exact hversion hmem
  · exact hfields hmem

theorem front_ends : ∃ lines, request.front = lines ++ crlf := by
  obtain ⟨lines, hlines⟩ := exists_append_crlf (ascii "HTTP/1.1") request.earlier
  refine ⟨request.method ++ 32 :: (request.target ++ 32 :: lines), ?_⟩
  rw [front, List.append_assoc (ascii "HTTP/1.1"), hlines]
  simp

/-- Without a `Host: ` in front of it the one of the `Host` line is found. -/
theorem behind_visible_of_none (hfront : behind hostMarker request.front = none)
    (more : Bytes) : behind hostMarker (request.visible ++ more) =
      some (request.host ++ 13 :: 10 :: more) := by
  obtain ⟨lines, hlines⟩ := request.front_ends
  have hcrlf : crlf = [13, 10] := by decide
  have hself : behind hostMarker hostMarker = some [] := by decide
  have hbefore : behind hostMarker (lines ++ [13]) = none := by
    by_contra hsome
    obtain ⟨rest, hrest⟩ := Option.ne_none_iff_exists'.mp hsome
    have hlong := behind_append_of_some hrest [10]
    rw [hlines, hcrlf] at hfront
    rw [List.append_assoc, List.singleton_append, hfront] at hlong
    simp at hlong
  have htext : request.visible ++ more = (lines ++ [13]) ++ 10 ::
      (hostMarker ++ (request.host ++ 13 :: 10 :: more)) := by
    rw [visible, hlines, hcrlf]
    simp
  rw [htext, behind_append_mark (by decide) (by decide), hbefore,
    behind_append_of_some hself]
  rfl

/-- The first `Host: ` in front of the `Host` line lies within one line. -/
theorem behind_visible_of_some {rest : Bytes}
    (hfront : behind hostMarker request.front = some rest) (more : Bytes) :
    ∃ found others, rest = found ++ 13 :: others ∧ 13 ∉ found ∧ 0 ∉ found ∧
      ∃ others', behind hostMarker (request.visible ++ more) =
        some (found ++ 13 :: others') := by
  obtain ⟨lines, hlines⟩ := request.front_ends
  have hcrlf : crlf = [13, 10] := by decide
  have hfree := nulFree_of_behind (by decide) request.nulFree_front hfront
  have hreturn : 13 ∈ rest := by
    have hfeed : behind hostMarker [10] = none := by decide
    rw [hlines, hcrlf, behind_append_mark (by decide) (by decide), hfeed,
      Option.or_none, Option.map_eq_some_iff] at hfront
    obtain ⟨start, -, rfl⟩ := hfront
    simp
  obtain ⟨found, others, rfl, hfound⟩ := List.eq_append_cons_of_mem hreturn
  refine ⟨found, others, rfl, hfound, fun h => hfree (by simp [h]),
    others ++ (hostMarker ++ (request.host ++ crlf) ++ more), ?_⟩
  rw [visible, List.append_assoc, behind_append_of_some hfront]
  simp

/-- The host that the worker takes, and whether it is the right one. -/
theorem hostHeader_visible (more : Bytes) :
    13 ∉ (hostHeader (request.visible ++ more)).text ∧
      ((hostHeader (request.visible ++ more)).text = request.host ↔
        request.HostStatedFirst) := by
  have hdefault : 13 ∉ defaultHostHeader.text := by decide
  have hplain : 13 ∉ request.host := fun h => (request.hostPlain 13 h).2.1 rfl
  have hfree : 0 ∉ request.host := fun h => (request.hostPlain 0 h).1 rfl
  have hfits := request.hostFits
  cases hfront : behind hostMarker request.front with
  | none =>
      have hhost : (hostHeader (request.visible ++ more)).text = request.host := by
        rw [hostHeader_return (request.behind_visible_of_none hfront more) hplain hfree,
          if_pos (by omega)]
      rw [hhost]
      refine ⟨hplain, ?_⟩
      simp [HostStatedFirst, hfront]
  | some rest =>
      obtain ⟨found, others, rfl, hfound, hnul, others', hwhole⟩ :=
        request.behind_visible_of_some hfront more
      have htake := takeWhile_ne_append hfound others
      have hstated : request.HostStatedFirst ↔
          if found.length < 256 then found = request.host
          else defaultHostHeader.text = request.host := by
        simp only [HostStatedFirst, hfront, Option.some.injEq, forall_eq', htake]
      rw [hostHeader_return hwhole hfound hnul, hstated]
      split_ifs
      · exact ⟨hfound, Iff.rfl⟩
      · exact ⟨hdefault, Iff.rfl⟩

theorem targetPath_visible (more : Bytes) :
    (targetPath (request.visible ++ more)).text = request.target := by
  have hmethod : 32 ∉ request.method := by
    intro hmem
    exact absurd (request.methodPlain 32 hmem).2.2 (by decide)
  have htarget : 32 ∉ request.target := by
    intro hmem
    exact absurd (request.targetPlain 32 hmem).2 (by decide)
  have hfree : 0 ∉ request.target := fun h => (request.targetPlain 0 h).1 rfl
  have hfits := request.targetFits
  have htext : request.visible ++ more = request.method ++ 32 :: (request.target ++
      32 :: (ascii "HTTP/1.1" ++ crlf ++ fieldLines request.earlier ++
        (hostMarker ++ (request.host ++ crlf)) ++ more)) := by
    simp [visible, front]
  rw [htext, targetPath_between hmethod htarget hfree, if_pos (by omega)]

theorem nulFree_visible : 0 ∉ request.visible := by
  have hmarker : 0 ∉ hostMarker := by decide
  have hcrlf : 0 ∉ crlf := by decide
  have hfront := request.nulFree_front
  have hhost : 0 ∉ request.host := fun h => (request.hostPlain 0 h).1 rfl
  simp [visible, hmarker, hcrlf, hfront, hhost]

end CleartextRequest

theorem redirectLocation_redirectLines {url : Bytes} (hurl : 13 ∉ url) :
    redirectLocation (lineBlock (redirectLines url)) =
      some (ascii "https://" ++ url) := by
  have hstart : behind (ascii "Location: ") redirectHead = some [] := by decide
  have hscheme : 13 ∉ ascii "https://" := by decide
  have hplain : 13 ∉ ascii "https://" ++ url := by
    rw [List.mem_append, not_or]
    exact ⟨hscheme, hurl⟩
  have htail : redirectTail = 13 :: (10 :: lineBlock [ascii "Content-Length: 0",
      ascii "Connection: close"]) := rfl
  unfold redirectLocation
  rw [lineBlock_redirectLines, behind_append_of_some hstart, List.nil_append,
    Option.map_some, htail, takeWhile_ne_append hplain]

/-- The client is sent to the host of its `Host` field if and only if no earlier
text passes for another one. -/
theorem redirect_location_iff (request : CleartextRequest) {n : ℕ}
    (hpeek : request.visible.length ≤ n) :
    redirectLocation (redirectResponse (request.bytes.take n)) =
        some (ascii "https://" ++ (request.host ++ request.target)) ↔
      request.HostStatedFirst := by
  obtain ⟨more, hmore⟩ : ∃ more, cstr (request.bytes.take n) =
      request.visible ++ more := by
    rw [CleartextRequest.bytes, List.take_append, List.take_of_length_le hpeek,
      cstr_append request.nulFree_visible]
    exact ⟨_, rfl⟩
  obtain ⟨hplain, hiff⟩ := request.hostHeader_visible more
  have htarget : 13 ∉ request.target := by
    intro hmem
    exact absurd (request.targetPlain 13 hmem).2 (by decide)
  rw [redirectResponse_eq, hmore, request.targetPath_visible,
    redirectLocation_redirectLines, Option.some.injEq, List.append_cancel_left_eq,
    List.append_cancel_right_eq, hiff]
  rw [List.mem_append, not_or]
  exact ⟨hplain, htarget⟩

def agentField : Field where
  name := ascii "User-Agent"
  value := ascii " curl"
  namePlain := by decide
  valuePlain := by decide

def forwardedField : Field where
  name := ascii "X-Forwarded-Host"
  value := ascii " evil.test"
  namePlain := by decide
  valuePlain := by decide

/-- `GET /a HTTP/1.1` with one field before `Host: good.test`. -/
def cleartextExample (field : Field)
    (hname : ¬SameLetters field.name (ascii "Host")) : CleartextRequest where
  method := ascii "GET"
  target := ascii "/a"
  earlier := [field]
  host := ascii "good.test"
  later := []
  body := []
  methodPlain := by decide
  targetPlain := by decide
  hostPlain := by decide
  oneHost := by
    intro other hother
    rw [List.append_nil, List.mem_singleton] at hother
    rw [hother]
    exact hname
  targetFits := by decide
  hostFits := by decide

theorem agentField_not_host : ¬SameLetters agentField.name (ascii "Host") := by
  unfold SameLetters
  decide

theorem forwardedField_not_host :
    ¬SameLetters forwardedField.name (ascii "Host") := by
  unfold SameLetters
  decide

theorem redirect_location_agent :
    redirectLocation (redirectResponse
        ((cleartextExample agentField agentField_not_host).bytes.take 1023)) =
      some (ascii "https://" ++ (ascii "good.test" ++ ascii "/a")) := by
  apply (redirect_location_iff (cleartextExample agentField agentField_not_host)
    (by decide)).mpr
  intro rest hfound
  have hnone : behind hostMarker
      (cleartextExample agentField agentField_not_host).front = none := by decide
  rw [hnone] at hfound
  simp at hfound

theorem redirect_location_forwarded :
    redirectLocation (redirectResponse
        ((cleartextExample forwardedField forwardedField_not_host).bytes.take 1023)) =
      some (ascii "https://evil.test/a") := by
  have hhost : (hostHeader (cstr ((cleartextExample forwardedField
      forwardedField_not_host).bytes.take 1023))).text = ascii "evil.test" := by decide
  have htarget : (targetPath (cstr ((cleartextExample forwardedField
      forwardedField_not_host).bytes.take 1023))).text = ascii "/a" := by decide
  rw [redirectResponse_eq, hhost, htarget, redirectLocation_redirectLines (by decide)]
  decide

end Lith
