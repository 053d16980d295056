import Lith.FieldNameCase
import Lith.FramingSources

/-!
# One more header line

A line is inserted among the fields of a request.  The searches for
`Content-Length` and `Connection` meet it where it stands, whatever it is named: a
name that ends in one of the spellings, or a value that contains one, is read
in place of the field unless an earlier spelling, or an earlier part of the
text, comes first.  A length that is left blank in the line before is read from
the inserted line as well.  Otherwise the line is not noticed.

Which of these is the case is said by the texts in front of the line, in it and
behind it: what stands behind a spelling, and which number it begins with.
-/

namespace Lith

open CString

/-- The place where the first of some spellings is found. -/
def place (names : List Bytes) (text : Bytes) : Option Bytes :=
  names.findSome? fun name => behind name text

/-- What is stated at a place, or by a field that is absent. -/
def FieldReader.stated {β : Type} (reader : FieldReader β) (text : Option Bytes) : β :=
  (text.map reader.read).getD reader.absent

/-- The spellings are tried in turn.  A value in front of the line must not go on
into it, a value in the line must repeat the one at the place where the field is
found otherwise, and a value behind the line ends the search. -/
def HarmlessLine (Ends : Bytes → Bytes → Bytes → Prop)
    (Repeats : Bytes → Option Bytes → Prop) (front line rest : Bytes) :
    List Bytes → Prop
  | [] => True
  | name :: names =>
      match behind name front, behind name line, behind name rest with
      | some text, _, _ => Ends text line rest
      | none, some text, _ =>
          Repeats (text ++ (crlf ++ rest)) (place (name :: names) (front ++ rest))
      | none, none, some _ => True
      | none, none, none => HarmlessLine Ends Repeats front line rest names

/-- The texts after which a reader does not see the line, and those that it reads
alike. -/
structure FieldReader.Rules {β : Type} (reader : FieldReader β)
    (Ends : Bytes → Bytes → Bytes → Prop) (Repeats : Bytes → Option Bytes → Prop) :
    Prop where
  ends_iff : ∀ start line rest : Bytes, Ends (start ++ crlf) line rest ↔
    reader.read (start ++ crlf ++ (line ++ (crlf ++ rest))) =
      reader.read (start ++ crlf ++ rest)
  repeats_iff : ∀ text other, Repeats text other ↔
    reader.read text = reader.stated other

/-- A number is written up to the line, or the line and what is behind it begin
with the same one. -/
def LengthEnds (text line rest : Bytes) : Prop :=
  (∃ c ∈ text, isspace c = false) ∨ strtol (line ++ (crlf ++ rest)) = strtol rest

/-- The text begins with the number that is written at the other place. -/
def LengthRepeats (text : Bytes) : Option Bytes → Prop
  | none => strtol text = 0
  | some other => strtol text = strtol other

def SaysClose (text : Bytes) : Prop :=
  caseMatches (ascii "close") (text.dropWhile (· = 32)) = true

/-- A connection option never goes on into another line. -/
def ConnectionEnds (_text _line _rest : Bytes) : Prop := True

def ConnectionRepeats (text : Bytes) (other : Option Bytes) : Prop :=
  SaysClose text ↔ ∃ value ∈ other, SaysClose value

section Insertion

variable {β : Type} (reader : FieldReader β)

/-- A name does not reach over the end of a text that ends in a line feed. -/
theorem behind_front_append {front : Bytes} (hfront : ∃ lines, front = lines ++ crlf)
    {name : Bytes} (hname : name ∈ reader.names) (rest : Bytes) :
    behind name (front ++ rest) =
      ((behind name front).map (· ++ rest)).or (behind name rest) := by
  obtain ⟨lines, rfl⟩ := hfront
  have hsplit : lines ++ crlf = lines ++ [13] ++ [10] := by
    simp [show crlf = [13, 10] from by decide]
  rw [hsplit, reader.behind_append_of_blank_last hname (by decide)]

/-- The text behind a name in front of the line ends in a line end. -/
theorem exists_of_behind_front {front : Bytes}
    (hfront : ∃ lines, front = lines ++ crlf) {name text : Bytes}
    (hname : name ∈ reader.names) (hfound : behind name front = some text) :
    ∃ start, text = start ++ crlf := by
  obtain ⟨lines, rfl⟩ := hfront
  have hcrlf : crlf = [13, 10] := by decide
  have hshort : behind name [10] = none := by
    apply behind_eq_none_of_length
    have hlong := reader.lt_length_name hname
    simp only [List.length_singleton]
    omega
  rw [hcrlf, reader.behind_append_of_blank_head hname (by decide),
    reader.behind_cons_blank hname (by decide), hshort, Option.or_none,
    Option.map_eq_some_iff] at hfound
  obtain ⟨start, -, rfl⟩ := hfound
  exact ⟨start, rfl⟩

variable {Ends : Bytes → Bytes → Bytes → Prop} {Repeats : Bytes → Option Bytes → Prop}

/-- The field states the same with and without the line. -/
theorem stated_insert_iff (hrules : reader.Rules Ends Repeats) {front : Bytes}
    (hfront : ∃ lines, front = lines ++ crlf) (line rest : Bytes)
    {names : List Bytes} (hnames : ∀ name ∈ names, name ∈ reader.names) :
    reader.stated (place names (front ++ (line ++ (crlf ++ rest)))) =
        reader.stated (place names (front ++ rest)) ↔
      HarmlessLine Ends Repeats front line rest names := by
  induction names with
  | nil => exact iff_of_true rfl trivial
  | cons name names ih =>
      have hname := hnames name List.mem_cons_self
      have hrec := ih fun other hother => hnames other (List.mem_cons_of_mem _ hother)
      have hwith := behind_front_append reader hfront hname (line ++ (crlf ++ rest))
      rw [behind_line reader hname] at hwith
      have hwithout := behind_front_append reader hfront hname rest
      unfold HarmlessLine
      cases hinFront : behind name front with
      | some text =>
          rw [hinFront] at hwith hwithout
          obtain ⟨start, rfl⟩ := exists_of_behind_front reader hfront hname hinFront
          simp only [FieldReader.stated, place, List.findSome?_cons, hwith, hwithout,
            Option.map_some, Option.some_or, Option.getD_some, hrules.ends_iff]
      | none =>
          rw [hinFront] at hwith hwithout
          cases hinLine : behind name line with
          | some text =>
              rw [hinLine] at hwith
              have hplace : place (name :: names) (front ++ (line ++ (crlf ++ rest))) =
                  some (text ++ (crlf ++ rest)) := by
                simp [place, hwith]
              rw [hplace]
              simp only [hrules.repeats_iff]
              rfl
          | none =>
              rw [hinLine] at hwith
              cases hinRest : behind name rest with
              | some text =>
                  rw [hinRest] at hwith hwithout
                  simp [place, hwith, hwithout]
              | none =>
                  rw [hinRest] at hwith hwithout
                  rw [← hrec]
                  simp [place, hwith, hwithout]

theorem harmlessLine_of_silent {front line : Bytes} (hline : reader.Silent line)
    (rest : Bytes) {names : List Bytes} (hnames : ∀ name ∈ names, name ∈ reader.names)
    (hends : ∀ name ∈ names, ∀ text, behind name front = some text →
      Ends text line rest) :
    HarmlessLine Ends Repeats front line rest names := by
  induction names with
  | nil => trivial
  | cons name names ih =>
      have hrec := ih (fun other hother => hnames other (List.mem_cons_of_mem _ hother))
        fun other hother => hends other (List.mem_cons_of_mem _ hother)
      have hsilent := hline name (hnames name List.mem_cons_self)
      unfold HarmlessLine
      cases hinFront : behind name front with
      | some text => exact hends name List.mem_cons_self text hinFront
      | none =>
          rw [hsilent]
          cases behind name rest with
          | some text => trivial
          | none => exact hrec

end Insertion

theorem connection_read_append_crlf (text more : Bytes) :
    connectionReader.read (text ++ crlf ++ more) =
      connectionReader.read (text ++ crlf) := by
  have hcrlf : crlf = 13 :: [10] := by decide
  rw [hcrlf, List.append_assoc, List.cons_append, connection_read_append_cr,
    connection_read_append_cr]

theorem strtol_append_crlf {text : Bytes} (htext : ∃ c ∈ text, isspace c = false)
    (more : Bytes) : strtol (text ++ crlf ++ more) = strtol (text ++ crlf) := by
  have hcrlf : crlf = 13 :: [10] := by decide
  rw [hcrlf, List.append_assoc, List.cons_append, strtol_append_cr htext,
    strtol_append_cr htext]

theorem strtol_blank_append {text : Bytes} (htext : ∀ c ∈ text, isspace c = true)
    (more : Bytes) : strtol (text ++ more) = strtol more := by
  have hskip : (text ++ more).dropWhile isspace = more.dropWhile isspace :=
    List.dropWhile_append_of_pos htext
  unfold strtol
  rw [hskip]

theorem lengthRules : contentLengthReader.Rules LengthEnds LengthRepeats where
  ends_iff := by
    intro start line rest
    have hblank : ∀ c ∈ crlf, isspace c = true := by decide
    change _ ↔ strtol _ = strtol _
    by_cases hstart : ∃ c ∈ start, isspace c = false
    · have hinside : ∃ c ∈ start ++ crlf, isspace c = false := by
        obtain ⟨c, hc, hspace⟩ := hstart
        exact ⟨c, List.mem_append_left _ hc, hspace⟩
      exact iff_of_true (Or.inl hinside)
        (by rw [strtol_append_crlf hstart, strtol_append_crlf hstart])
    · have hspace : ∀ c ∈ start ++ crlf, isspace c = true := by
        intro c hc
        rcases List.mem_append.mp hc with hc | hc
        · by_contra hfalse
          exact hstart ⟨c, hc, Bool.eq_false_iff.mpr hfalse⟩
        · exact hblank c hc
      have hnone : ¬∃ c ∈ start ++ crlf, isspace c = false := by
        rintro ⟨c, hc, hfalse⟩
        rw [hspace c hc] at hfalse
        cases hfalse
      rw [strtol_blank_append hspace, strtol_blank_append hspace, LengthEnds,
        or_iff_right hnone]
  repeats_iff := by
    intro text other
    cases other <;> rfl

theorem connectionRules :
    connectionReader.Rules ConnectionEnds ConnectionRepeats where
  ends_iff := by
    intro start line rest
    rw [connection_read_append_crlf, connection_read_append_crlf]
    exact iff_of_true trivial rfl
  repeats_iff := by
    intro text other
    have hread (value : Bytes) : connectionReader.read value = false ↔ SaysClose value := by
      simp [connectionReader, SaysClose]
    have hother : connectionReader.stated other = false ↔
        ∃ value ∈ other, SaysClose value := by
      cases other with
      | none => simp [FieldReader.stated, connectionReader]
      | some value => simpa [FieldReader.stated] using hread value
    rw [ConnectionRepeats, ← hread text, ← hother]
    cases connectionReader.read text <;> cases connectionReader.stated other <;> simp

namespace FieldedRequest

variable (request : FieldedRequest)

def withFields (fields : List Field) : FieldedRequest :=
  { request with fields := fields }

/-- The text of the request up to the end of some first fields. -/
def frontText (before : List Field) : Bytes :=
  methodWord request.method ++ (request.target ++
    (32 :: request.version ++ (crlf ++ fieldLines before)))

theorem frontText_ends (before : List Field) :
    ∃ lines, request.frontText before = lines ++ crlf := by
  obtain ⟨lines, hlines⟩ := exists_append_crlf (32 :: request.version) before
  refine ⟨methodWord request.method ++ (request.target ++ lines), ?_⟩
  rw [frontText, hlines, List.append_assoc, List.append_assoc]

theorem seen_withFields (before after : List Field) :
    (request.withFields (before ++ after)).message.seen =
      request.frontText before ++ textFrom after request.body := by
  simp only [Message.seen, message, withFields, lines, lineBlock_append_fields,
    frontText, textFrom, List.append_assoc]

/-- What the parser reads of either field is not disturbed by the line. -/
structure InsertionHarmless (before : List Field) (inserted : Field)
    (after : List Field) : Prop where
  length : HarmlessLine LengthEnds LengthRepeats (request.frontText before)
    inserted.line (textFrom after request.body) contentLengthReader.names
  connection : HarmlessLine ConnectionEnds ConnectionRepeats
    (request.frontText before) inserted.line (textFrom after request.body)
    connectionReader.names

/-- A request is framed alike with and without the line if and only if the line
is harmless. -/
theorem framing_insert_iff (before : List Field) (inserted : Field)
    (after : List Field) :
    (request.withFields (before ++ inserted :: after)).message.framing =
        (request.withFields (before ++ after)).message.framing ↔
      request.InsertionHarmless before inserted after := by
  have hends := request.frontText_ends before
  have hlength := stated_insert_iff contentLengthReader lengthRules hends inserted.line
    (textFrom after request.body) fun name (hname : name ∈ contentLengthReader.names) =>
      hname
  have hconnection := stated_insert_iff connectionReader connectionRules hends
    inserted.line (textFrom after request.body)
    fun name (hname : name ∈ connectionReader.names) => hname
  rw [Message.framing_eq, Message.framing_eq, seen_withFields, seen_withFields,
    textFrom_cons, Option.some.injEq, Prod.mk.injEq]
  constructor
  · rintro ⟨hsame, hsame'⟩
    exact ⟨hlength.mp hsame, hconnection.mp hsame'⟩
  · intro hharmless
    exact ⟨hlength.mpr hharmless.length, hconnection.mpr hharmless.connection⟩

/-- A line that mentions neither field is harmless behind lengths that are not
left blank. -/
theorem insertionHarmless_of_silent {before : List Field} {inserted : Field}
    (hlength : contentLengthReader.Silent inserted.line)
    (hconnection : connectionReader.Silent inserted.line)
    (hstated : ∀ name ∈ contentLengthReader.names, ∀ text,
      behind name (request.frontText before) = some text →
        ∃ c ∈ text, isspace c = false) (after : List Field) :
    request.InsertionHarmless before inserted after where
  length := harmlessLine_of_silent contentLengthReader hlength _ (fun _ => id)
    fun name hname text hfound => Or.inl (hstated name hname text hfound)
  connection := harmlessLine_of_silent connectionReader hconnection _ (fun _ => id)
    fun _ _ _ _ => trivial

end FieldedRequest

def otherLengthField : Field where
  name := ascii "X-Content-Length"
  value := ascii " 5"
  namePlain := by decide
  valuePlain := by decide

/-- A field whose name ends in the name of the length. -/
theorem framing_insert_ne :
    let request := lengthTwo (ascii "Content-Length") (by decide)
    ¬SameLetters otherLengthField.name (ascii "Content-Length") ∧
      ¬SameLetters otherLengthField.name (ascii "Connection") ∧
      (request.withFields request.fields).message.framing = some (2, true) ∧
      (request.withFields (otherLengthField :: request.fields)).message.framing =
        some (5, true) := by
  unfold SameLetters
  exact ⟨by decide, by decide, by decide +kernel, by decide +kernel⟩

end Lith
