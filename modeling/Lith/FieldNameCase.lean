import Lith.LetterCase
import Lith.Message

/-!
# The letter case of field names

A request is a list of named fields.  The parser tries three spellings of each
of its two names, so writing a name in another case may hide the field, or
bring a field of the same name before another one.  Names of fields are not the
only places where a spelling is found: it may stand in the target, in a value
or in the body, where a change of case does not reach it.  The request is read
alike in every case exactly if each field of the name either comes too late or
states what the rest of the request states without it.
-/

namespace Lith

open CString

structure Field where
  name : Bytes
  value : Bytes
  namePlain : ∀ c ∈ name, c ≠ 0 ∧ c ≠ 58 ∧ isspace c = false
  valuePlain : ∀ c ∈ value, c ≠ 0 ∧ c ≠ 13 ∧ c ≠ 10

namespace Field

variable (field : Field)

def line : Bytes := field.name ++ 58 :: field.value

def rename {name : Bytes} (hname : SameLetters field.name name) : Field where
  name := name
  value := field.value
  namePlain := by
    intro c hc
    obtain ⟨d, hd, hsame⟩ := hname.exists_mem hc
    obtain ⟨hnul, hcolon, hspace⟩ := field.namePlain d hd
    refine ⟨?_, ?_, ?_⟩
    · rintro rfl
      exact hnul ((tolower_eq_iff (by decide)).mp hsame)
    · rintro rfl
      exact hcolon ((tolower_eq_iff (by decide)).mp hsame)
    · rw [← isspace_tolower, ← hsame, isspace_tolower, hspace]
  valuePlain := field.valuePlain

/-- The same field with its name in another case. -/
structure SameField (field other : Field) : Prop where
  name : SameLetters field.name other.name
  value : field.value = other.value

end Field

/-- The lines of some fields with their line ends. -/
def fieldLines (fields : List Field) : Bytes :=
  fields.flatMap fun field => field.line ++ crlf

theorem nulFree_fieldLines (fields : List Field) : 0 ∉ fieldLines fields := by
  have hcrlf : 0 ∉ crlf := by decide
  unfold fieldLines Field.line
  rw [List.mem_flatMap]
  rintro ⟨field, -, hmem⟩
  rw [List.mem_append, List.mem_append, List.mem_cons] at hmem
  rcases hmem with (hname | hcolon | hvalue) | hend
  · exact (field.namePlain 0 hname).1 rfl
  · exact absurd hcolon (by decide)
  · exact (field.valuePlain 0 hvalue).1 rfl
  · exact hcrlf hend

theorem exists_append_crlf (text : Bytes) (fields : List Field) :
    ∃ lines, text ++ (crlf ++ fieldLines fields) = lines ++ crlf := by
  induction fields generalizing text with
  | nil => exact ⟨text, by simp [fieldLines]⟩
  | cons field fields ih =>
      obtain ⟨lines, hlines⟩ := ih (text ++ (crlf ++ field.line))
      refine ⟨lines, ?_⟩
      rw [← hlines]
      simp [fieldLines]

theorem lineBlock_append_fields (before after : List Field) :
    lineBlock ((before ++ after).map Field.line) =
      fieldLines before ++ lineBlock (after.map Field.line) := by
  induction before with
  | nil => rfl
  | cons field before ih =>
      rw [List.cons_append, List.map_cons, lineBlock, ih]
      simp [fieldLines]

structure FieldedRequest where
  method : HttpMethod
  target : Bytes
  version : Bytes
  fields : List Field
  body : Bytes
  known : method ≠ .unknown
  targetPlain : ∀ c ∈ target, c ≠ 0 ∧ isspace c = false
  versionPlain : ∀ c ∈ version, c ≠ 0 ∧ c ≠ 13 ∧ c ≠ 58

namespace FieldedRequest

variable (request : FieldedRequest)

def lines : List Bytes := request.fields.map Field.line

def message : Message where
  method := request.method
  target := request.target
  head := 32 :: request.version ++ (crlf ++ lineBlock request.lines)
  body := request.body
  known := request.known
  targetPlain := request.targetPlain
  headBlank := ⟨32, _, rfl, by decide⟩
  headNulFree := by
    have hversion : 0 ∉ request.version := fun hmem =>
      (request.versionPlain 0 hmem).1 rfl
    have hcrlf : 0 ∉ crlf := by decide
    have hblock : 0 ∉ lineBlock request.lines := by
      apply nulFree_lineBlock
      intro line hline hmem
      obtain ⟨field, -, rfl⟩ := List.mem_map.mp hline
      unfold Field.line at hmem
      rcases List.mem_append.mp hmem with hmem | hmem
      · exact (field.namePlain 0 hmem).1 rfl
      · rcases List.mem_cons.mp hmem with hmem | hmem
        · simp at hmem
        · exact (field.valuePlain 0 hmem).1 rfl
    simp [hversion, hcrlf, hblock]
  headEnds := by
    apply behind_blankLine_block
    · intro hmem
      rcases List.mem_cons.mp hmem with hmem | hmem
      · simp at hmem
      · exact (request.versionPlain 13 hmem).2.1 rfl
    · intro line hline
      obtain ⟨field, -, rfl⟩ := List.mem_map.mp hline
      refine ⟨by simp [Field.line], ?_⟩
      unfold Field.line
      intro hmem
      rcases List.mem_append.mp hmem with hmem | hmem
      · have hspace := (field.namePlain 13 hmem).2.2
        revert hspace
        decide
      · rcases List.mem_cons.mp hmem with hmem | hmem
        · simp at hmem
        · exact (field.valuePlain 13 hmem).2.1 rfl

/-- The same request with field names in another case. -/
structure Recased (request other : FieldedRequest) : Prop where
  method : request.method = other.method
  target : request.target = other.target
  version : request.version = other.version
  fields : List.Forall₂ Field.SameField request.fields other.fields
  body : request.body = other.body

/-- The text from a field on, as the parser sees it. -/
def textFrom (fields : List Field) (body : Bytes) : Bytes :=
  lineBlock (fields.map Field.line) ++ cstr body

/-- The text behind the first occurrence of a marker in a value or in the
body. -/
def strayFrom (marker : Bytes) (body : Bytes) : List Field → Option Bytes
  | [] => behind marker (cstr body)
  | field :: fields =>
      ((behind marker field.value).map
        (· ++ (crlf ++ textFrom fields body))).or (strayFrom marker body fields)

/-- The text behind the first occurrence of a marker outside field names. -/
def stray (marker : Bytes) : Option Bytes :=
  ((behind marker request.target).map
    (· ++ (request.message.head ++ cstr request.body))).or
    (strayFrom marker request.body request.fields)

end FieldedRequest

/-- A reader whose spellings are one word in different cases, read without
regard to case.  One more case of the word is none of the spellings. -/
structure CasedReader (β : Type) extends FieldReader β where
  first : Bytes
  others : List Bytes
  disguise : Bytes
  stems_eq : stems = first :: others
  sameLetters : ∀ stem ∈ stems, SameLetters stem disguise
  disguised : disguise ∉ stems
  read_eq : ∀ text, read (text.map tolower) = read text

def contentLengthCased : CasedReader ℤ where
  toFieldReader := contentLengthReader
  first := ascii "Content-Length"
  others := [ascii "content-length", ascii "CONTENT-LENGTH"]
  disguise := ascii "content-lengtH"
  stems_eq := rfl
  sameLetters := by
    unfold SameLetters
    decide
  disguised := by decide
  read_eq := strtol_map_tolower

def connectionCased : CasedReader Bool where
  toFieldReader := connectionReader
  first := ascii "Connection"
  others := [ascii "connection", ascii "CONNECTION"]
  disguise := ascii "connectioN"
  stems_eq := rfl
  sameLetters := by
    unfold SameLetters
    decide
  disguised := by decide
  read_eq := by
    intro text
    simp only [connectionReader, dropWhile_blank_map_tolower,
      caseMatches_map_tolower]

namespace CasedReader

variable {β : Type} (reader : CasedReader β) (request : FieldedRequest)

/-- The field has the name of the reader, in whatever case. -/
def Named (field : Field) : Prop :=
  reader.disguise.map tolower <:+ field.name.map tolower

/-- What the request states outside of its field names. -/
def strayValue : β :=
  ((reader.names.findSome? request.stray).map reader.read).getD reader.absent

/-- The first spelling occurs before the fields in question. -/
def Preceded (fields : List Field) : Prop :=
  reader.first ++ [58] <:+: request.target ∨
    ∃ field ∈ fields, reader.first ++ [58] <:+: field.value

/-- Each field of the name comes too late, or states what the rest states. -/
def CaseStable : Prop :=
  ∀ before field after, request.fields = before ++ field :: after →
    reader.Named field →
      reader.Preceded request before ∨
        reader.read (field.value ++
          (crlf ++ FieldedRequest.textFrom after request.body)) =
            reader.strayValue request

end CasedReader

/-! ## Where a spelling is found -/

namespace FieldedRequest

theorem textFrom_cons (field : Field) (fields : List Field) (body : Bytes) :
    textFrom (field :: fields) body =
      field.line ++ (crlf ++ textFrom fields body) := by
  simp [textFrom, lineBlock]

theorem colon_notMem_name (field : Field) : 58 ∉ field.name :=
  fun hmem => (field.namePlain 58 hmem).2.1 rfl

variable {β : Type} (reader : FieldReader β)

theorem behind_textFrom_nil {marker : Bytes} (hmarker : marker ∈ reader.names)
    (body : Bytes) : behind marker (textFrom [] body) = behind marker (cstr body) := by
  change behind marker ([] ++ (crlf ++ cstr body)) = _
  rw [behind_line reader hmarker, behind_nil (reader.name_ne_nil hmarker)]
  rfl

theorem behind_textFrom_cons {stem : Bytes} (hstem : stem ∈ reader.stems)
    (field : Field) (fields : List Field) (body : Bytes) :
    behind (stem ++ [58]) (textFrom (field :: fields) body) =
      if stem <:+ field.name then
        some (field.value ++ (crlf ++ textFrom fields body))
      else ((behind (stem ++ [58]) field.value).map
        (· ++ (crlf ++ textFrom fields body))).or
          (behind (stem ++ [58]) (textFrom fields body)) := by
  rw [textFrom_cons, behind_line reader (List.mem_map_of_mem hstem), Field.line,
    behind_name (reader.plain stem hstem).1 (colon_notMem_name field)]
  split_ifs <;> rfl

/-- A spelling is found outside the names, or in the name of a field. -/
theorem behind_textFrom_cases {stem : Bytes} (hstem : stem ∈ reader.stems)
    (fields : List Field) (body : Bytes) :
    behind (stem ++ [58]) (textFrom fields body) =
        strayFrom (stem ++ [58]) body fields ∨
      ∃ before field after, fields = before ++ field :: after ∧
        stem <:+ field.name ∧
        (∀ earlier ∈ before, ¬stem ++ [58] <:+: earlier.value) ∧
        behind (stem ++ [58]) (textFrom fields body) =
          some (field.value ++ (crlf ++ textFrom after body)) := by
  induction fields with
  | nil => exact Or.inl (behind_textFrom_nil reader (List.mem_map_of_mem hstem) body)
  | cons field fields ih =>
      by_cases hsuffix : stem <:+ field.name
      · refine Or.inr ⟨[], field, fields, rfl, hsuffix, by simp, ?_⟩
        rw [behind_textFrom_cons reader hstem, if_pos hsuffix]
      rw [behind_textFrom_cons reader hstem, if_neg hsuffix, strayFrom]
      cases hvalue : behind (stem ++ [58]) field.value with
      | some rest => exact Or.inl rfl
      | none =>
          rcases ih with hstray | ⟨before, later, after, rfl, hname, hbefore, hfound⟩
          · rw [hstray]
            exact Or.inl rfl
          · refine Or.inr ⟨field :: before, later, after, rfl, hname, ?_, ?_⟩
            · rw [List.forall_mem_cons]
              exact ⟨(behind_eq_none_iff _).mp hvalue, hbefore⟩
            · rw [hfound]
              rfl

theorem not_mem_of_strayFrom {marker body : Bytes} {fields : List Field}
    (hnone : strayFrom marker body fields = none) :
    ∀ field ∈ fields, ¬marker <:+: field.value := by
  induction fields with
  | nil => simp
  | cons field fields ih =>
      rw [strayFrom, Option.or_eq_none_iff, Option.map_eq_none_iff,
        behind_eq_none_iff] at hnone
      rw [List.forall_mem_cons]
      exact ⟨hnone.1, ih hnone.2⟩

variable (request : FieldedRequest)

theorem behind_message {marker : Bytes} (hmarker : marker ∈ reader.names) :
    behind marker request.message.seen =
      ((behind marker request.target).map
        (· ++ (request.message.head ++ cstr request.body))).or
        (behind marker (textFrom request.fields request.body)) := by
  have hversion : reader.Silent (32 :: request.version) := by
    apply reader.silent_of_notMem_colon
    intro hmem
    rcases List.mem_cons.mp hmem with hmem | hmem
    · simp at hmem
    · exact (request.versionPlain 58 hmem).2.2 rfl
  have hhead : request.message.head ++ cstr request.body =
      32 :: request.version ++ (crlf ++ textFrom request.fields request.body) := by
    simp [message, textFrom, lines]
  have hrest : behind marker (request.message.head ++ cstr request.body) =
      behind marker (textFrom request.fields request.body) := by
    rw [hhead, behind_line reader hmarker, hversion marker hmarker]
    rfl
  rw [request.message.behind_seen reader hmarker, ← hrest]
  exact congrArg _ (request.message.behind_head_append reader hmarker _).symm

theorem behind_message_cases {stem : Bytes} (hstem : stem ∈ reader.stems) :
    behind (stem ++ [58]) request.message.seen = request.stray (stem ++ [58]) ∨
      ∃ before field after, request.fields = before ++ field :: after ∧
        stem <:+ field.name ∧ ¬stem ++ [58] <:+: request.target ∧
        (∀ earlier ∈ before, ¬stem ++ [58] <:+: earlier.value) ∧
        behind (stem ++ [58]) request.message.seen =
          some (field.value ++ (crlf ++ textFrom after request.body)) := by
  rw [request.behind_message reader (List.mem_map_of_mem hstem), stray]
  cases htarget : behind (stem ++ [58]) request.target with
  | some rest => exact Or.inl rfl
  | none =>
      rcases behind_textFrom_cases reader hstem request.fields request.body with
        hstray | ⟨before, field, after, hfields, hname, hbefore, hfound⟩
      · rw [hstray]
        exact Or.inl rfl
      · refine Or.inr ⟨before, field, after, hfields, hname,
          (behind_eq_none_iff _).mp htarget, hbefore, ?_⟩
        rw [hfound]
        rfl

theorem stray_eq_none {marker : Bytes} (hmarker : marker ∈ reader.names)
    (hnone : behind marker request.message.seen = none) :
    request.stray marker = none := by
  unfold FieldReader.names at hmarker
  obtain ⟨stem, hstem, rfl⟩ := List.mem_map.mp hmarker
  rcases request.behind_message_cases reader hstem with
    hstray | ⟨before, field, after, -, -, -, -, hfound⟩
  · rw [← hstray, hnone]
  · rw [hnone] at hfound
    simp at hfound

end FieldedRequest

namespace CasedReader

variable {β : Type} (reader : CasedReader β) (request : FieldedRequest)

theorem not_isSuffix_of_not_named {field : Field} (hnot : ¬reader.Named field)
    {stem : Bytes} (hstem : stem ∈ reader.stems) : ¬stem <:+ field.name := by
  intro hsuffix
  apply hnot
  unfold Named
  rw [← show stem.map tolower = _ from reader.sameLetters stem hstem]
  exact hsuffix.map tolower

theorem names_eq : reader.names =
    (reader.first ++ [58]) :: reader.others.map (· ++ [58]) := by
  unfold FieldReader.names
  rw [reader.stems_eq]
  rfl

theorem first_mem : reader.first ∈ reader.stems := by
  rw [reader.stems_eq]
  exact List.mem_cons_self

/-- The value comes from outside the names, or from a field that the first
spelling does not precede. -/
theorem value_message_cases :
    reader.value request.message.seen = reader.strayValue request ∨
      ∃ before field after, request.fields = before ++ field :: after ∧
        (∃ stem ∈ reader.stems, stem <:+ field.name) ∧
        ¬reader.Preceded request before ∧
        reader.value request.message.seen = reader.read (field.value ++
          (crlf ++ FieldedRequest.textFrom after request.body)) := by
  unfold FieldReader.value strayValue FieldReader.found
  cases hfound : reader.names.findSome? fun name =>
      behind name request.message.seen with
  | none =>
      rw [List.findSome?_eq_none_iff] at hfound
      have hstray : reader.names.findSome? request.stray = none := by
        rw [List.findSome?_eq_none_iff]
        intro name hname
        exact request.stray_eq_none reader.toFieldReader hname (hfound name hname)
      rw [hstray]
      exact Or.inl rfl
  | some rest =>
      rw [List.findSome?_eq_some_iff] at hfound
      obtain ⟨tried, name, untried, hnames, hname, htried⟩ := hfound
      have hmem : name ∈ reader.names := by simp [hnames]
      have hnone : ∀ other ∈ tried, request.stray other = none := fun other hother =>
        request.stray_eq_none reader.toFieldReader (by simp [hnames, hother])
          (htried other hother)
      unfold FieldReader.names at hmem
      obtain ⟨stem, hstem, rfl⟩ := List.mem_map.mp hmem
      rcases request.behind_message_cases reader.toFieldReader hstem with
        hstray | ⟨before, field, after, hfields, hsuffix, htarget, hbefore, hfield⟩
      · have hfirst : reader.names.findSome? request.stray = some rest := by
          rw [List.findSome?_eq_some_iff]
          exact ⟨tried, _, untried, hnames, hstray ▸ hname, hnone⟩
        rw [hfirst]
        exact Or.inl rfl
      · refine Or.inr ⟨before, field, after, hfields, ⟨stem, hstem, hsuffix⟩, ?_, ?_⟩
        · cases tried with
          | nil =>
              rw [reader.names_eq, List.nil_append, List.cons.injEq] at hnames
              unfold Preceded
              rw [hnames.1]
              push Not
              exact ⟨htarget, hbefore⟩
          | cons other tried =>
              rw [reader.names_eq, List.cons_append, List.cons.injEq] at hnames
              have hstray := hnone other List.mem_cons_self
              rw [← hnames.1, FieldedRequest.stray, Option.or_eq_none_iff,
                Option.map_eq_none_iff, behind_eq_none_iff] at hstray
              have hvalues := FieldedRequest.not_mem_of_strayFrom hstray.2
              unfold Preceded
              push Not
              refine ⟨hstray.1, fun earlier hearlier => hvalues earlier ?_⟩
              simp [hfields, hearlier]
        · rw [hname] at hfield
          simp only [Option.map_some, Option.getD_some]
          exact congrArg reader.read (Option.some.inj hfield)

theorem value_eq_of_caseStable (hstable : reader.CaseStable request) :
    reader.value request.message.seen = reader.strayValue request := by
  rcases reader.value_message_cases request with
    hvalue | ⟨before, field, after, hfields, ⟨stem, hstem, hsuffix⟩, hnot, hvalue⟩
  · exact hvalue
  · have hnamed : reader.Named field := by
      by_contra hnamed
      exact reader.not_isSuffix_of_not_named hnamed hstem hsuffix
    rcases hstable before field after hfields hnamed with hpreceded | hread
    · exact absurd hpreceded hnot
    · rw [hvalue, hread]

end CasedReader

/-! ## Changing the case of names -/

theorem exists_split_of_forall₂ {α β : Type} {related : α → β → Prop}
    {before : List β} {item : β} {after : List β} {items : List α}
    (hitems : List.Forall₂ related items (before ++ item :: after)) :
    ∃ before' item' after', items = before' ++ item' :: after' ∧
      List.Forall₂ related before' before ∧ related item' item ∧
      List.Forall₂ related after' after := by
  induction before generalizing items with
  | nil =>
      obtain ⟨item', after', hitem, hafter, rfl⟩ :=
        List.forall₂_cons_right_iff.mp hitems
      exact ⟨[], item', after', rfl, List.Forall₂.nil, hitem, hafter⟩
  | cons first before ih =>
      obtain ⟨first', rest, hfirst, hrest, rfl⟩ :=
        List.forall₂_cons_right_iff.mp hitems
      obtain ⟨before', item', after', rfl, hbefore, hitem, hafter⟩ := ih hrest
      exact ⟨first' :: before', item', after', rfl,
        List.Forall₂.cons hfirst hbefore, hitem, hafter⟩

namespace FieldedRequest

theorem sameLetters_textFrom {fields fields' : List Field}
    (hfields : List.Forall₂ Field.SameField fields fields') (body : Bytes) :
    SameLetters (textFrom fields body) (textFrom fields' body) := by
  induction hfields with
  | nil => exact SameLetters.refl _
  | cons hfield _ ih =>
      rw [textFrom_cons, textFrom_cons]
      unfold Field.line
      rw [hfield.value]
      exact (hfield.name.append (SameLetters.refl _)).append
        ((SameLetters.refl _).append ih)

theorem sameLetters_strayFrom {fields fields' : List Field}
    (hfields : List.Forall₂ Field.SameField fields fields')
    (marker body : Bytes) :
    (strayFrom marker body fields).map (List.map tolower) =
      (strayFrom marker body fields').map (List.map tolower) := by
  induction hfields with
  | nil => rfl
  | cons hfield hrest ih =>
      have htext : List.map tolower (textFrom _ body) = _ :=
        sameLetters_textFrom hrest body
      rw [strayFrom, strayFrom, Option.map_or, Option.map_or, ih, hfield.value,
        Option.map_map, Option.map_map]
      congr 2
      funext found
      simp only [Function.comp_apply, List.map_append, htext]

variable {request other : FieldedRequest}

theorem Recased.sameLetters_head (hrecased : Recased request other) :
    SameLetters request.message.head other.message.head := by
  have hblock := sameLetters_textFrom hrecased.fields []
  have hempty : cstr ([] : Bytes) = [] := rfl
  unfold textFrom at hblock
  rw [hempty, List.append_nil, List.append_nil] at hblock
  simp only [message, hrecased.version]
  exact (SameLetters.refl _).append ((SameLetters.refl _).append hblock)

theorem Recased.sameLetters_stray (hrecased : Recased request other)
    (marker : Bytes) :
    (request.stray marker).map (List.map tolower) =
      (other.stray marker).map (List.map tolower) := by
  have hhead : List.map tolower request.message.head = _ :=
    hrecased.sameLetters_head
  unfold stray
  rw [Option.map_or, Option.map_or, hrecased.target, hrecased.body,
    sameLetters_strayFrom hrecased.fields, Option.map_map, Option.map_map]
  congr 2
  funext found
  simp only [Function.comp_apply, List.map_append, hhead]

end FieldedRequest

namespace CasedReader

variable {β : Type} (reader : CasedReader β) {request other : FieldedRequest}

theorem read_congr {text text' : Bytes} (hsame : SameLetters text text') :
    reader.read text = reader.read text' := by
  rw [← reader.read_eq text, show text.map tolower = _ from hsame, reader.read_eq]

theorem strayValue_congr (hrecased : FieldedRequest.Recased request other) :
    reader.strayValue request = reader.strayValue other := by
  have hlower (request : FieldedRequest) : reader.strayValue request =
      ((reader.names.findSome? fun marker =>
        (request.stray marker).map (List.map tolower)).map reader.read).getD
          reader.absent := by
    unfold strayValue
    congr 1
    rw [show (fun marker => (request.stray marker).map (List.map tolower)) =
      Option.map (List.map tolower) ∘ request.stray from rfl,
      ← List.map_findSome?, Option.map_map]
    congr 1
    funext text
    exact (reader.read_eq text).symm
  rw [hlower request, hlower other]
  simp only [hrecased.sameLetters_stray]

theorem Named.of_sameField {field field' : Field}
    (hsame : Field.SameField field field') (hnamed : reader.Named field') :
    reader.Named field := by
  unfold Named at hnamed ⊢
  rwa [show field.name.map tolower = _ from hsame.name]

theorem Preceded.of_forall₂ {before before' : List Field}
    (hrecased : FieldedRequest.Recased request other)
    (hbefore : List.Forall₂ Field.SameField before before')
    (hpreceded : reader.Preceded request before) :
    reader.Preceded other before' := by
  rcases hpreceded with htarget | ⟨field, hfield, hvalue⟩
  · exact Or.inl (hrecased.target ▸ htarget)
  · right
    induction hbefore with
    | nil => simp at hfield
    | cons hsame _ ih =>
        rcases List.mem_cons.mp hfield with rfl | hfield
        · exact ⟨_, List.mem_cons_self, hsame.value ▸ hvalue⟩
        · obtain ⟨later, hlater, hfound⟩ := ih hfield
          exact ⟨later, List.mem_cons_of_mem _ hlater, hfound⟩

theorem CaseStable.of_recased (hrecased : FieldedRequest.Recased request other)
    (hstable : reader.CaseStable request) : reader.CaseStable other := by
  intro before' field' after' hfields hnamed
  obtain ⟨before, field, after, hsplit, hbefore, hfield, hafter⟩ :=
    exists_split_of_forall₂ (hfields ▸ hrecased.fields)
  rcases hstable before field after hsplit
      (Named.of_sameField reader hfield hnamed) with hpreceded | hread
  · exact Or.inl (Preceded.of_forall₂ reader hrecased hbefore hpreceded)
  · right
    rw [← reader.strayValue_congr hrecased, ← hread]
    apply reader.read_congr
    rw [hfield.value, hrecased.body]
    exact (SameLetters.refl _).append ((SameLetters.refl _).append
      (FieldedRequest.sameLetters_textFrom hafter _).symm)

/-- The name with its end spelled as `stem`. -/
def respell (stem name : Bytes) : Bytes :=
  name.take (name.length - stem.length) ++ stem

theorem sameLetters_respell {stem name : Bytes}
    (hsuffix : stem.map tolower <:+ name.map tolower) :
    SameLetters name (respell stem name) := by
  rw [List.suffix_iff_eq_drop, List.length_map, List.length_map,
    ← List.map_drop] at hsuffix
  unfold SameLetters respell
  rw [List.map_append, hsuffix, ← List.map_append, List.take_append_drop]

theorem sameLetters_disguise {field : Field} (hnamed : reader.Named field)
    {stem : Bytes} (hstem : SameLetters stem reader.disguise) :
    SameLetters field.name (respell stem field.name) := by
  apply sameLetters_respell
  rw [show stem.map tolower = _ from hstem]
  exact hnamed

instance (field : Field) : Decidable (reader.Named field) :=
  inferInstanceAs (Decidable (_ <:+ _))

def disguiseField (field : Field) : Field :=
  if hnamed : reader.Named field then
    field.rename (reader.sameLetters_disguise hnamed (SameLetters.refl _))
  else field

theorem sameField_disguiseField (field : Field) :
    Field.SameField field (reader.disguiseField field) := by
  unfold disguiseField
  split_ifs with hnamed
  · exact ⟨reader.sameLetters_disguise hnamed (SameLetters.refl _), rfl⟩
  · exact ⟨SameLetters.refl _, rfl⟩

theorem not_isSuffix_disguiseField (field : Field) {stem : Bytes}
    (hstem : stem ∈ reader.stems) : ¬stem <:+ (reader.disguiseField field).name := by
  unfold disguiseField
  split_ifs with hnamed
  · intro hsuffix
    have hlen : stem.length = reader.disguise.length := by
      simpa using congrArg List.length (reader.sameLetters stem hstem)
    have hwhole : stem <:+ reader.disguise :=
      List.suffix_of_suffix_length_le hsuffix (List.suffix_append _ _) hlen.le
    exact reader.disguised (hwhole.eq_of_length hlen ▸ hstem)
  · exact reader.not_isSuffix_of_not_named hnamed hstem

theorem forall₂_disguise (fields : List Field) :
    List.Forall₂ Field.SameField fields (fields.map reader.disguiseField) := by
  induction fields with
  | nil => exact List.Forall₂.nil
  | cons field fields ih =>
      exact List.Forall₂.cons (reader.sameField_disguiseField field) ih

theorem behind_textFrom_append {stem : Bytes} (hstem : stem ∈ reader.stems)
    {before : List Field}
    (hbefore : ∀ field ∈ before,
      ¬stem <:+ field.name ∧ ¬stem ++ [58] <:+: field.value)
    (fields : List Field) (body : Bytes) :
    behind (stem ++ [58]) (FieldedRequest.textFrom (before ++ fields) body) =
      behind (stem ++ [58]) (FieldedRequest.textFrom fields body) := by
  induction before with
  | nil => rfl
  | cons field before ih =>
      obtain ⟨hname, hvalue⟩ := hbefore field List.mem_cons_self
      have hrec := ih fun other hother =>
        hbefore other (List.mem_cons_of_mem _ hother)
      rw [List.cons_append,
        FieldedRequest.behind_textFrom_cons reader.toFieldReader hstem,
        if_neg hname, behind_eq_none hvalue, hrec]
      rfl

/-- With all its names disguised, a request states what it states elsewhere. -/
theorem value_disguised (hfields : ∀ field ∈ request.fields,
      ∀ stem ∈ reader.stems, ¬stem <:+ field.name) :
    reader.value request.message.seen = reader.strayValue request := by
  rcases reader.value_message_cases request with
    hvalue | ⟨before, field, after, hsplit, ⟨stem, hstem, hsuffix⟩, -, -⟩
  · exact hvalue
  · exact absurd hsuffix (hfields field (by simp [hsplit]) stem hstem)

/-- A field that is spelled as the first spelling and that nothing precedes. -/
theorem value_revealed {before : List Field} {field : Field} {after : List Field}
    (hfields : request.fields = before ++ field :: after)
    (hname : reader.first <:+ field.name)
    (hbefore : ∀ earlier ∈ before, ¬reader.first <:+ earlier.name)
    (hnot : ¬reader.Preceded request before) :
    reader.value request.message.seen = reader.read (field.value ++
      (crlf ++ FieldedRequest.textFrom after request.body)) := by
  unfold Preceded at hnot
  push Not at hnot
  have hstem := reader.first_mem
  have hbehind : behind (reader.first ++ [58]) request.message.seen =
      some (field.value ++
        (crlf ++ FieldedRequest.textFrom after request.body)) := by
    rw [request.behind_message reader.toFieldReader (List.mem_map_of_mem hstem),
      behind_eq_none hnot.1, hfields, reader.behind_textFrom_append hstem
        (fun earlier hearlier => ⟨hbefore earlier hearlier, hnot.2 earlier hearlier⟩),
      FieldedRequest.behind_textFrom_cons reader.toFieldReader hstem,
      if_pos hname]
    rfl
  unfold FieldReader.value FieldReader.found
  rw [reader.names_eq, List.findSome?_cons, hbehind]
  rfl

/-- The request with no name spelled as the reader looks for it. -/
def hide (request : FieldedRequest) : FieldedRequest :=
  { request with fields := request.fields.map reader.disguiseField }

theorem recased_hide (request : FieldedRequest) :
    FieldedRequest.Recased request (reader.hide request) where
  method := rfl
  target := rfl
  version := rfl
  fields := reader.forall₂_disguise request.fields
  body := rfl

theorem value_hide (request : FieldedRequest) :
    reader.value (reader.hide request).message.seen =
      reader.strayValue request := by
  rw [reader.strayValue_congr (reader.recased_hide request)]
  apply reader.value_disguised
  intro field hfield stem hstem
  obtain ⟨original, -, rfl⟩ := List.mem_map.mp hfield
  exact reader.not_isSuffix_disguiseField original hstem

theorem sameLetters_first {field : Field} (hnamed : reader.Named field) :
    SameLetters field.name (respell reader.first field.name) :=
  reader.sameLetters_disguise hnamed
    (reader.sameLetters reader.first reader.first_mem)

/-- The request with one name spelled as the reader looks for it first. -/
def reveal (request : FieldedRequest) (before : List Field) {field : Field}
    (hnamed : reader.Named field) (after : List Field) : FieldedRequest :=
  { request with
    fields := before.map reader.disguiseField ++
      field.rename (reader.sameLetters_first hnamed) ::
        after.map reader.disguiseField }

variable {before : List Field} {field : Field} {after : List Field}

theorem recased_reveal (hfields : request.fields = before ++ field :: after)
    (hnamed : reader.Named field) :
    FieldedRequest.Recased request
      (reader.reveal request before hnamed after) where
  method := rfl
  target := rfl
  version := rfl
  fields := by
    rw [hfields]
    exact List.rel_append (reader.forall₂_disguise before)
      (List.Forall₂.cons ⟨reader.sameLetters_first hnamed, rfl⟩
        (reader.forall₂_disguise after))
  body := rfl

theorem value_reveal (hnamed : reader.Named field)
    (hnot : ¬reader.Preceded request before) :
    reader.value (reader.reveal request before hnamed after).message.seen =
      reader.read (field.value ++
        (crlf ++ FieldedRequest.textFrom after request.body)) := by
  have hread : reader.value
      (reader.reveal request before hnamed after).message.seen =
      reader.read (field.value ++ (crlf ++ FieldedRequest.textFrom
        (after.map reader.disguiseField) request.body)) := by
    have hfields : (reader.reveal request before hnamed after).fields =
        before.map reader.disguiseField ++
          field.rename (reader.sameLetters_first hnamed) ::
            after.map reader.disguiseField := rfl
    apply reader.value_revealed hfields (List.suffix_append _ _)
    · intro other hother
      obtain ⟨original, -, rfl⟩ := List.mem_map.mp hother
      exact reader.not_isSuffix_disguiseField original reader.first_mem
    · rintro (htarget | ⟨other, hother, hvalue⟩)
      · exact hnot (Or.inl htarget)
      · obtain ⟨original, horiginal, rfl⟩ := List.mem_map.mp hother
        rw [← (reader.sameField_disguiseField original).value] at hvalue
        exact hnot (Or.inr ⟨original, horiginal, hvalue⟩)
  rw [hread]
  apply reader.read_congr
  exact (SameLetters.refl _).append ((SameLetters.refl _).append
    (FieldedRequest.sameLetters_textFrom (reader.forall₂_disguise after) _).symm)

theorem caseStable_of_value_eq (hsame : ∀ other : FieldedRequest,
      FieldedRequest.Recased request other →
        reader.value other.message.seen = reader.value request.message.seen) :
    reader.CaseStable request := by
  intro before field after hfields hnamed
  by_cases hpreceded : reader.Preceded request before
  · exact Or.inl hpreceded
  right
  calc
    reader.read (field.value ++
        (crlf ++ FieldedRequest.textFrom after request.body)) =
        reader.value
          (reader.reveal request before hnamed after).message.seen :=
      (reader.value_reveal hnamed hpreceded).symm
    _ = reader.value (reader.hide request).message.seen := by
      rw [hsame _ (reader.recased_reveal hfields hnamed),
        hsame _ (reader.recased_hide request)]
    _ = reader.strayValue request := reader.value_hide request

theorem value_eq_iff_caseStable :
    (∀ other : FieldedRequest, FieldedRequest.Recased request other →
      reader.value other.message.seen = reader.value request.message.seen) ↔
      reader.CaseStable request := by
  constructor
  · exact reader.caseStable_of_value_eq
  · intro hstable other hrecased
    rw [reader.value_eq_of_caseStable other (hstable.of_recased reader hrecased),
      reader.value_eq_of_caseStable request hstable,
      reader.strayValue_congr hrecased]

end CasedReader

/-- The parser returns the same framing for every case of the field names
exactly if both of its fields are stable. -/
theorem framing_recased_iff (request : FieldedRequest) :
    (∀ other : FieldedRequest, FieldedRequest.Recased request other →
      other.message.framing = request.message.framing) ↔
      contentLengthCased.CaseStable request ∧
        connectionCased.CaseStable request := by
  rw [← CasedReader.value_eq_iff_caseStable,
    ← CasedReader.value_eq_iff_caseStable, ← forall_and]
  apply forall_congr'
  intro other
  rw [← imp_and, Message.framing_eq, Message.framing_eq, Option.some.injEq,
    Prod.mk.injEq]
  rfl

def lengthTwo (name : Bytes)
    (hplain : ∀ c ∈ name, c ≠ 0 ∧ c ≠ 58 ∧ isspace c = false) :
    FieldedRequest where
  method := .post
  target := ascii "/form"
  version := ascii "HTTP/1.1"
  fields := [⟨name, ascii " 2", hplain, by decide⟩]
  body := ascii "ok"
  known := HttpMethod.post_ne_unknown
  targetPlain := by decide
  versionPlain := by decide

/-- A spelling that is not among the three. -/
theorem framing_recased_ne :
    FieldedRequest.Recased (lengthTwo (ascii "Content-Length") (by decide))
        (lengthTwo (ascii "Content-length") (by decide)) ∧
      (lengthTwo (ascii "Content-Length") (by decide)).message.framing =
        some (2, true) ∧
      (lengthTwo (ascii "Content-length") (by decide)).message.framing =
        some (0, true) := by
  have hname : SameLetters (ascii "Content-Length") (ascii "Content-length") := by
    unfold SameLetters
    decide
  have hrecased : FieldedRequest.Recased
      (lengthTwo (ascii "Content-Length") (by decide))
      (lengthTwo (ascii "Content-length") (by decide)) :=
    { method := by simp only [lengthTwo]
      target := by simp only [lengthTwo]
      version := by simp only [lengthTwo]
      fields := List.Forall₂.cons ⟨hname, rfl⟩ List.Forall₂.nil
      body := by simp only [lengthTwo] }
  exact ⟨hrecased, by decide +kernel, by decide +kernel⟩

end Lith
