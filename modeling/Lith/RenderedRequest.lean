import Lith.Decimal
import Lith.Message

/-!
# Parsing a rendered request

A request is written as a request line, header lines, an empty line and a
body.  Among the lines there may be one that announces the length of the body
and one that says what becomes of the connection, in any of the spellings that
the parser tries; no other text contains one of these names.  Each search of
the parser then stops at the line it is meant for, and the parser reads back
what was written.
-/

namespace Lith

open CString

inductive HeaderLine where
  | other (text : Bytes)
  | contentLength (stem : Bytes) (blanks length : ℕ)
  | connection (stem : Bytes) (blanks : ℕ) (value : Bytes)

namespace HeaderLine

def render : HeaderLine → Bytes
  | other text => text
  | contentLength stem blanks length =>
      stem ++ 58 :: (List.replicate blanks 32 ++ decimal length)
  | connection stem blanks value =>
      stem ++ 58 :: (List.replicate blanks 32 ++ value)

def Valid : HeaderLine → Prop
  | other text => text ≠ [] ∧ ∀ c ∈ text, c ≠ 0 ∧ c ≠ 13 ∧ c ≠ 10
  | contentLength stem _ length =>
      stem ∈ contentLengthReader.stems ∧ (length : ℤ) ≤ longMax
  | connection stem _ value =>
      stem ∈ connectionReader.stems ∧
        (value.map tolower = ascii "close" ∨
          value.map tolower = ascii "keep-alive")

def length? : HeaderLine → Option ℤ
  | contentLength _ _ length => some length
  | _ => none

/-- Whether a line asks to keep the connection. -/
def alive? : HeaderLine → Option Bool
  | connection _ _ value => some (value.map tolower = ascii "keep-alive")
  | _ => none

end HeaderLine

/-- A request as it is to be written. -/
structure RequestText where
  method : HttpMethod
  target : Bytes
  headers : List HeaderLine
  body : Bytes
  known : method ≠ .unknown
  targetNonempty : target ≠ []
  targetFits : target.length ≤ 255
  targetPlain : ∀ c ∈ target, c ≠ 0 ∧ isspace c = false
  valid : ∀ line ∈ headers, line.Valid
  oneLength : (headers.filterMap HeaderLine.length?).length ≤ 1
  oneConnection : (headers.filterMap HeaderLine.alive?).length ≤ 1
  unmarked : ∀ marker ∈ contentLengthNames ++ connectionNames,
    ¬marker <:+: target ∧ ¬marker <:+: body ∧
      ∀ text, HeaderLine.other text ∈ headers → ¬marker <:+: text

namespace RequestText

variable (text : RequestText)

def head : Bytes :=
  ascii " HTTP/1.1" ++ (crlf ++ lineBlock (text.headers.map HeaderLine.render))

def render : Bytes :=
  methodWord text.method ++ (text.target ++ (text.head ++ text.body))

def path : CharArray maxPathSize where
  text := text.target
  fits := Nat.lt_of_le_of_lt text.targetFits (by decide)
  nulFree := fun hmem => (text.targetPlain 0 hmem).1 rfl

def statedLength : ℤ :=
  ((text.headers.filterMap HeaderLine.length?).head?).getD 0

def statedAlive : Bool :=
  ((text.headers.filterMap HeaderLine.alive?).head?).getD true

end RequestText

/-! ## Lines -/

theorem tolower_mem_of_map {value word : Bytes}
    (hvalue : value.map tolower = word) {c : UInt8} (hc : c ∈ value) :
    tolower c ∈ word :=
  hvalue ▸ List.mem_map_of_mem hc

theorem value_plain {value : Bytes}
    (hvalue : value.map tolower = ascii "close" ∨
      value.map tolower = ascii "keep-alive") {c : UInt8}
    (hclose : tolower c ∉ ascii "close")
    (hkeep : tolower c ∉ ascii "keep-alive") : c ∉ value := by
  intro hc
  rcases hvalue with hvalue | hvalue
  · exact hclose (tolower_mem_of_map hvalue hc)
  · exact hkeep (tolower_mem_of_map hvalue hc)

namespace HeaderLine

theorem Valid.plain {line : HeaderLine} (hvalid : line.Valid) :
    line.render ≠ [] ∧ ∀ c ∈ [0, 13, 10], c ∉ line.render := by
  cases line with
  | other text =>
      refine ⟨hvalid.1, ?_⟩
      intro c hc hmem
      obtain ⟨hzero, hcr, hlf⟩ := hvalid.2 c hmem
      simp [hzero, hcr, hlf] at hc
  | contentLength stem blanks length =>
      refine ⟨by simp [render], ?_⟩
      have hstem : ∀ stem ∈ contentLengthReader.stems, ∀ c ∈ [0, 13, 10],
          c ∉ stem := by decide
      have hothers : ∀ c ∈ ([0, 13, 10] : Bytes), c ≠ 58 ∧ c ≠ 32 ∧
          isdigit c = false ∧ c ≠ 45 := by decide
      intro c hc
      obtain ⟨hcolon, hblank, hdigit, hminus⟩ := hothers c hc
      simp [render, hstem stem hvalid.1 c hc, hcolon, hblank,
        notMem_decimal hdigit hminus]
  | connection stem blanks value =>
      refine ⟨by simp [render], ?_⟩
      have hstem : ∀ stem ∈ connectionReader.stems, ∀ c ∈ [0, 13, 10],
          c ∉ stem := by decide
      have hothers : ∀ c ∈ ([0, 13, 10] : Bytes), c ≠ 58 ∧ c ≠ 32 ∧
          tolower c ∉ ascii "close" ∧ tolower c ∉ ascii "keep-alive" := by
        decide
      intro c hc
      obtain ⟨hcolon, hblank, hclose, hkeep⟩ := hothers c hc
      simp [render, hstem stem hvalid.1 c hc, hcolon, hblank,
        value_plain hvalid.2 hclose hkeep]

theorem colon_notMem_length (blanks length : ℕ) :
    58 ∉ List.replicate blanks 32 ++ decimal length := by
  simp [notMem_decimal (show isdigit 58 = false from by decide) (by decide)]

theorem colon_notMem_connection (blanks : ℕ) {value : Bytes}
    (hvalue : value.map tolower = ascii "close" ∨
      value.map tolower = ascii "keep-alive") :
    58 ∉ List.replicate blanks 32 ++ value := by
  simp [value_plain hvalue (c := 58) (by decide) (by decide)]

/-- A line with a name that no spelling of the field ends. -/
theorem silent_field {β : Type} {reader : FieldReader β} {stem value : Bytes}
    (hstem : 58 ∉ stem) (hvalue : 58 ∉ value)
    (hother : ∀ other ∈ reader.stems, ¬other <:+ stem) :
    reader.Silent (stem ++ 58 :: value) := by
  intro name hname
  have hsilent := reader.silent_of_notMem_colon hvalue name hname
  unfold FieldReader.names at hname
  obtain ⟨other, hmem, rfl⟩ := List.mem_map.mp hname
  rw [behind_name (reader.plain other hmem).1 hstem, if_neg (hother other hmem),
    hsilent]

theorem silent_contentLength {line : HeaderLine} (hvalid : line.Valid)
    (hother : ∀ text, line = .other text →
      ∀ marker ∈ contentLengthNames, ¬marker <:+: text)
    (hnone : line.length? = none) : contentLengthReader.Silent line.render := by
  cases line with
  | other text =>
      intro name hname
      exact behind_eq_none (hother text rfl name hname)
  | contentLength stem blanks length => simp [length?] at hnone
  | connection stem blanks value =>
      apply silent_field (connectionReader.plain stem hvalid.1).1
        (colon_notMem_connection blanks hvalid.2)
      have hstems : ∀ stem ∈ connectionReader.stems,
          ∀ other ∈ contentLengthReader.stems, ¬other <:+ stem := by decide
      exact hstems stem hvalid.1

theorem silent_connection {line : HeaderLine} (hvalid : line.Valid)
    (hother : ∀ text, line = .other text →
      ∀ marker ∈ connectionNames, ¬marker <:+: text)
    (hnone : line.alive? = none) : connectionReader.Silent line.render := by
  cases line with
  | other text =>
      intro name hname
      exact behind_eq_none (hother text rfl name hname)
  | contentLength stem blanks length =>
      apply silent_field (contentLengthReader.plain stem hvalid.1).1
        (colon_notMem_length blanks length)
      have hstems : ∀ stem ∈ contentLengthReader.stems,
          ∀ other ∈ connectionReader.stems, ¬other <:+ stem := by decide
      exact hstems stem hvalid.1
  | connection stem blanks value => simp [alive?] at hnone

end HeaderLine

/-- The two words are told apart by their first five letters. -/
theorem read_connection (blanks : ℕ) {value : Bytes}
    (hvalue : value.map tolower = ascii "close" ∨
      value.map tolower = ascii "keep-alive") (rest : Bytes) :
    connectionReader.read (List.replicate blanks 32 ++ (value ++ rest)) =
      decide (value.map tolower = ascii "keep-alive") := by
  have hblank : 32 ∉ value := value_plain hvalue (by decide) (by decide)
  have hlen : (ascii "close").length ≤ value.length := by
    rcases hvalue with hvalue | hvalue
    · have hlength := congrArg List.length hvalue
      rw [List.length_map] at hlength
      exact le_of_eq hlength.symm
    · have hlength := congrArg List.length hvalue
      rw [List.length_map] at hlength
      exact le_of_le_of_eq (by decide) hlength.symm
  have hfive : (ascii "close").length = 5 := by decide
  have hskip : (List.replicate blanks 32 ++ (value ++ rest)).dropWhile (· = 32) =
      value ++ rest := by
    rw [List.dropWhile_append_of_pos (by simp)]
    obtain ⟨c, others, rfl⟩ := List.exists_cons_of_ne_nil
      (List.ne_nil_of_length_pos (by omega : 0 < value.length))
    have hc : c ≠ 32 := fun h => hblank (by simp [h])
    simp [hc]
  simp only [connectionReader, hskip, caseMatches]
  rw [List.take_append_of_le_length hlen, List.map_take]
  rcases hvalue with hvalue | hvalue
  · rw [hvalue]
    decide
  · rw [hvalue]
    decide

/-! ## The parts of a rendered request -/

namespace RequestText

variable (text : RequestText)

theorem lines_plain {line : Bytes} (hline : line ∈ text.headers.map HeaderLine.render) :
    line ≠ [] ∧ ∀ c ∈ [0, 13, 10], c ∉ line := by
  obtain ⟨header, hheader, rfl⟩ := List.mem_map.mp hline
  exact (text.valid header hheader).plain

def message : Message where
  method := text.method
  target := text.target
  head := text.head
  body := text.body
  known := text.known
  targetPlain := text.targetPlain
  headBlank := ⟨32, _, rfl, by decide⟩
  headNulFree := by
    have hversion : 0 ∉ ascii " HTTP/1.1" := by decide
    have hcrlf : 0 ∉ crlf := by decide
    have hblock : 0 ∉ lineBlock (text.headers.map HeaderLine.render) := by
      apply nulFree_lineBlock
      intro line hline
      exact (text.lines_plain hline).2 0 (by decide)
    simp [head, hversion, hcrlf, hblock]
  headEnds := by
    apply behind_blankLine_block (by decide)
    intro line hline
    obtain ⟨hne, hplain⟩ := text.lines_plain hline
    exact ⟨hne, hplain 13 (by decide)⟩

theorem bytes_message : text.message.bytes = text.render := rfl

theorem silent_around {β : Type} (reader : FieldReader β)
    (hnames : ∀ name ∈ reader.names, name ∈ contentLengthNames ++ connectionNames) :
    reader.Silent text.message.target ∧
      reader.Silent (cstr text.message.body) := by
  constructor
  · intro name hname
    exact behind_eq_none (text.unmarked name (hnames name hname)).1
  · intro name hname
    apply behind_eq_none
    intro hinside
    apply (text.unmarked name (hnames name hname)).2.1
    exact hinside.trans (List.takeWhile_prefix _).isInfix

/-- The field is looked for among the lines alone. -/
theorem found_message {β : Type} (reader : FieldReader β)
    (hnames : ∀ name ∈ reader.names, name ∈ contentLengthNames ++ connectionNames) :
    reader.found text.message.seen =
      (reader.found (lineBlock (text.headers.map HeaderLine.render))).map
        (· ++ cstr text.body) := by
  obtain ⟨htarget, hbody⟩ := text.silent_around reader hnames
  rw [text.message.found_seen reader htarget hbody]
  change Option.map _ (reader.found (ascii " HTTP/1.1" ++ (crlf ++ _))) = _
  rw [reader.found_silent_line (reader.silent_of_notMem_colon (by decide))]
  rfl

/-- A field that at most one line states, and that states it in a way that is
read back, has the stated value. -/
theorem value_message {β : Type} (reader : FieldReader β)
    (hnames : ∀ name ∈ reader.names, name ∈ contentLengthNames ++ connectionNames)
    {stated : HeaderLine → Option β}
    (hone : (text.headers.filterMap stated).length ≤ 1)
    (hsilent : ∀ line ∈ text.headers, stated line = none →
      reader.Silent line.render)
    (hstates : ∀ line ∈ text.headers, ∀ result, stated line = some result →
      ∃ stem value, stem ∈ reader.stems ∧ 58 ∉ value ∧
        line.render = stem ++ 58 :: value ∧
        ∀ rest, reader.read (value ++ (crlf ++ rest)) = result) :
    reader.value text.message.seen =
      ((text.headers.filterMap stated).head?).getD reader.absent := by
  have hrendered {headers : List HeaderLine} (hmem : ∀ line ∈ headers, line ∈ text.headers)
      (hnone : ∀ line ∈ headers, stated line = none) :
      ∀ line ∈ headers.map HeaderLine.render, reader.Silent line := by
    intro line hline
    obtain ⟨header, hheader, rfl⟩ := List.mem_map.mp hline
    exact hsilent header (hmem header hheader) (hnone header hheader)
  unfold FieldReader.value
  rw [text.found_message reader hnames]
  cases hstated : text.headers.filterMap stated with
  | nil =>
      rw [List.filterMap_eq_nil_iff] at hstated
      rw [reader.found_eq_none (reader.silent_lineBlock
        (hrendered (fun _ => id) hstated))]
      rfl
  | cons result others =>
      rw [hstated, List.length_cons] at hone
      have hothers : others = [] := List.length_eq_zero_iff.mp (by omega)
      rw [hothers, List.filterMap_eq_cons_iff] at hstated
      obtain ⟨before, line, after, hheaders, hbefore, hline, hafter⟩ := hstated
      rw [List.filterMap_eq_nil_iff] at hafter
      obtain ⟨stem, value, hstem, hvalue, hrender, hread⟩ :=
        hstates line (by simp [hheaders]) result hline
      have hleft := hrendered (fun other hother => by simp [hheaders, hother]) hbefore
      have hright := hrendered (fun other hother => by simp [hheaders, hother]) hafter
      rw [hheaders, List.map_append, List.map_cons, hrender,
        reader.found_lineBlock hstem hvalue hleft hright]
      simp only [Option.map_some, Option.getD_some, List.append_assoc,
        List.head?_cons]
      exact hread _

theorem contentLength_message :
    contentLengthReader.value text.message.seen = text.statedLength := by
  apply text.value_message contentLengthReader (by decide) text.oneLength
  · intro line hline hnone
    apply HeaderLine.silent_contentLength (text.valid line hline) _ hnone
    rintro other rfl marker hmarker
    exact (text.unmarked marker (List.mem_append_left _ hmarker)).2.2 other hline
  · intro line hline result hresult
    cases line with
    | other text => simp [HeaderLine.length?] at hresult
    | connection stem blanks value => simp [HeaderLine.length?] at hresult
    | contentLength stem blanks length =>
        have hvalid := text.valid _ hline
        have hsame : (length : ℤ) = result := by
          simpa [HeaderLine.length?] using hresult
        refine ⟨stem, _, hvalid.1,
          HeaderLine.colon_notMem_length blanks length, rfl, ?_⟩
        intro rest
        have hcrlf : crlf = 13 :: [10] := by decide
        have hblanks : ∀ c ∈ List.replicate blanks (32 : UInt8),
            isspace c = true := by
          intro c hc
          rw [List.eq_of_mem_replicate hc]
          decide
        simp only [contentLengthReader, hcrlf, List.append_assoc,
          List.cons_append]
        rw [strtol_decimal hblanks length (by decide), ← hsame]
        exact min_eq_left hvalid.2

theorem keepAlive_message :
    connectionReader.value text.message.seen = text.statedAlive := by
  apply text.value_message connectionReader (by decide) text.oneConnection
  · intro line hline hnone
    apply HeaderLine.silent_connection (text.valid line hline) _ hnone
    rintro other rfl marker hmarker
    exact (text.unmarked marker (List.mem_append_right _ hmarker)).2.2 other hline
  · intro line hline result hresult
    cases line with
    | other text => simp [HeaderLine.alive?] at hresult
    | contentLength stem blanks length => simp [HeaderLine.alive?] at hresult
    | connection stem blanks value =>
        have hvalid := text.valid _ hline
        refine ⟨stem, _, hvalid.1,
          HeaderLine.colon_notMem_connection blanks hvalid.2, rfl, ?_⟩
        intro rest
        rw [List.append_assoc]
        exact (read_connection blanks hvalid.2 _).trans
          (by simpa [HeaderLine.alive?] using hresult)

/-- Parsing undoes rendering. -/
theorem parse_render :
    parseHttpRequest text.render = some {
      method := text.method
      path := text.path
      contentLength := text.statedLength
      bodyStart := some (text.render.length - text.body.length)
      keepAlive := text.statedAlive } := by
  have hpath : requestPath text.message.bytes (methodWord text.method).length =
      text.path := by
    apply CharArray.ext
    exact text.message.path_bytes.trans (List.take_of_length_le text.targetFits)
  have hlength : parseContentLength (cstr text.message.bytes) =
      text.statedLength := by
    rw [parseContentLength_eq_value, text.message.cstr_bytes]
    exact text.contentLength_message
  have halive : parseKeepAlive (cstr text.message.bytes) = text.statedAlive := by
    rw [parseKeepAlive_eq_value, text.message.cstr_bytes]
    exact text.keepAlive_message
  have hstart : parseBodyStart (cstr text.message.bytes) =
      some (text.message.bytes.length - text.body.length) := by
    refine (text.message.bodyStart_bytes text.method 0).trans ?_
    simp only [Message.bytes, List.length_append, Option.some.injEq, message]
    omega
  rw [← text.bytes_message, text.message.parse_bytes]
  unfold parseFields
  rw [hlength, halive, hstart]
  exact congrArg some (congrArg
    (HttpRequest.mk text.method · text.statedLength _ text.statedAlive) hpath)

example : ∃ text : RequestText,
    text.statedLength = 2 ∧ text.statedAlive = false ∧
      text.headers.length = 3 ∧ text.body = ascii "ok" :=
  ⟨{ method := .post
     target := ascii "/form"
     headers := [.contentLength (ascii "content-length") 1 2,
       .other (ascii "Host: a"),
       .connection (ascii "CONNECTION") 0 (ascii "Close")]
     body := ascii "ok"
     known := by decide
     targetNonempty := by decide
     targetFits := by decide
     targetPlain := by decide
     valid := by
       simp only [List.forall_mem_cons, List.not_mem_nil, false_implies,
         implies_true, and_true, HeaderLine.Valid]
       decide
     oneLength := by decide
     oneConnection := by decide
     unmarked := by
       simp only [List.mem_cons, reduceCtorEq, HeaderLine.other.injEq,
         List.not_mem_nil, or_false, false_or, forall_eq]
       decide +kernel }, by decide⟩

end RequestText

end Lith
