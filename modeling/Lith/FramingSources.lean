import Lith.Decimal
import Lith.Message

/-!
# Where the framing of a request comes from

The length of the body and the fate of the connection should be read from the
head.  The searches go over the whole text, so a name that occurs in the target
is met before the head, and one that occurs in the body is met where the head
has none in a spelling that is tried as early.  A number is also looked for
behind line ends, so a length left blank in the last line of the head is read
from the body.  The head decides exactly when none of this happens.
-/

namespace Lith

open CString

def fieldNames : List Bytes := contentLengthNames ++ connectionNames

namespace Message

variable (message : Message)

/-- The names are tried in turn, and one of the head is reached before one of
the target or of the body. -/
def HeadDecides : List Bytes → Prop
  | [] => True
  | name :: names =>
      ¬name <:+: message.target ∧
        (name <:+: message.head ∨
          ¬name <:+: cstr message.body ∧ HeadDecides names)

def LengthInHead : Prop :=
  ∀ rest, contentLengthReader.found message.head = some rest →
    ∃ c ∈ rest, isspace c = false

instance decidableHeadDecides :
    (names : List Bytes) → Decidable (message.HeadDecides names)
  | [] => inferInstanceAs (Decidable True)
  | name :: names =>
      have := decidableHeadDecides names
      inferInstanceAs (Decidable (¬name <:+: message.target ∧
        (name <:+: message.head ∨
          ¬name <:+: cstr message.body ∧ message.HeadDecides names)))

instance : Decidable message.LengthInHead :=
  inferInstanceAs (Decidable (∀ rest ∈ contentLengthReader.found message.head,
    ∃ c ∈ rest, isspace c = false))

structure Anchored : Prop where
  length : message.HeadDecides contentLengthNames
  connection : message.HeadDecides connectionNames
  lengthInHead : message.LengthInHead

structure SameHead (message other : Message) : Prop where
  method : message.method = other.method
  head : message.head = other.head

/-- Messages with the same head that mention the same names in the target and
in the body. -/
structure Alike (message other : Message) : Prop
    extends SameHead message other where
  target : ∀ name ∈ fieldNames,
    name <:+: message.target ↔ name <:+: other.target
  body : ∀ name ∈ fieldNames,
    name <:+: cstr message.body ↔ name <:+: cstr other.body

theorem Alike.refl : Alike message message where
  method := rfl
  head := rfl
  target := fun _ _ => Iff.rfl
  body := fun _ _ => Iff.rfl

/-! ## Heads that decide -/

theorem findSome?_of_headDecides {β : Type} (reader : FieldReader β)
    {names : List Bytes} (hnames : ∀ name ∈ names, name ∈ reader.names)
    (hdecides : message.HeadDecides names) :
    (names.findSome? fun name => behind name message.seen) =
      (names.findSome? fun name => behind name message.head).map
        (· ++ cstr message.body) := by
  induction names with
  | nil => rfl
  | cons name names ih =>
      obtain ⟨htarget, hdecides⟩ := hdecides
      rw [List.findSome?_cons, List.findSome?_cons,
        message.behind_seen reader (hnames name List.mem_cons_self),
        behind_eq_none htarget]
      rcases hdecides with hhead | ⟨hbody, hdecides⟩
      · obtain ⟨rest, hrest⟩ : ∃ rest, behind name message.head = some rest := by
          rw [← Option.ne_none_iff_exists', ne_eq, behind_eq_none_iff]
          exact not_not.mpr hhead
        rw [hrest]
        rfl
      · have hrec := ih (fun other hother =>
          hnames other (List.mem_cons_of_mem _ hother)) hdecides
        rw [behind_eq_none hbody, hrec]
        cases behind name message.head <;> rfl

theorem found_of_headDecides {β : Type} (reader : FieldReader β)
    (hdecides : message.HeadDecides reader.names) :
    reader.found message.seen =
      (reader.found message.head).map (· ++ cstr message.body) :=
  message.findSome?_of_headDecides reader (fun _ => id) hdecides

/-- The blank line lies behind every name of the head. -/
theorem exists_of_found_head {β : Type} (reader : FieldReader β) {rest : Bytes}
    (hfound : reader.found message.head = some rest) :
    ∃ front, rest = front ++ blankLine := by
  obtain ⟨lines, hlines⟩ := message.head_eq_append_blankLine
  have hblank : blankLine = 13 :: ascii "\n\r\n" := by decide
  obtain ⟨name, hname, hbehind⟩ := List.exists_of_findSome?_eq_some hfound
  have hshort : behind name (ascii "\n\r\n") = none := by
    apply behind_eq_none_of_length
    have hlong := reader.lt_length_name hname
    change 3 < name.length
    omega
  rw [hlines, hblank, behind_append_mark (reader.name_ne_nil hname)
    (reader.notMem_name hname (by decide)), hshort, Option.or_none,
    Option.map_eq_some_iff] at hbehind
  obtain ⟨front, -, hfront⟩ := hbehind
  exact ⟨front, hblank ▸ hfront.symm⟩

variable {message} {other : Message}

theorem value_eq_of_headDecides {β : Type} (reader : FieldReader β)
    (hsame : message.head = other.head)
    (hdecides : message.HeadDecides reader.names)
    (hdecides' : other.HeadDecides reader.names)
    (hread : ∀ front, reader.found message.head = some (front ++ blankLine) →
      ∀ rest, reader.read (front ++ 13 :: rest) = reader.read front) :
    reader.value message.seen = reader.value other.seen := by
  have hblank : blankLine = 13 :: ascii "\n\r\n" := by decide
  unfold FieldReader.value
  rw [message.found_of_headDecides reader hdecides,
    other.found_of_headDecides reader hdecides', ← hsame]
  cases hfound : reader.found message.head with
  | none => rfl
  | some rest =>
      obtain ⟨front, rfl⟩ := message.exists_of_found_head reader hfound
      simp only [Option.map_some, Option.getD_some, hblank, List.append_assoc,
        List.cons_append]
      rw [hread front hfound, hread front hfound]

end Message

theorem strtol_append_cr {text : Bytes} (htext : ∃ c ∈ text, isspace c = false)
    (rest : Bytes) : strtol (text ++ 13 :: rest) = strtol text := by
  have hcr : isdigit 13 = false := by decide
  have hdigits (digits : Bytes) :
      (digits ++ 13 :: rest).takeWhile isdigit = digits.takeWhile isdigit := by
    induction digits with
    | nil => simp [hcr]
    | cons d digits ih => simp [List.takeWhile_cons, ih]
  obtain ⟨c, others, hskip⟩ :
      ∃ c others, text.dropWhile isspace = c :: others := by
    apply List.exists_cons_of_ne_nil
    intro hnil
    obtain ⟨c, hc, hspace⟩ := htext
    simp [List.dropWhile_eq_nil_iff.mp hnil c hc] at hspace
  have hskip' : (text ++ 13 :: rest).dropWhile isspace =
      c :: (others ++ 13 :: rest) := by
    rw [List.dropWhile_append, hskip]
    rfl
  unfold strtol
  rw [hskip, hskip']
  simp only [← List.cons_append, hdigits]

theorem caseMatches_append_cr {word : Bytes} (hword : 13 ∉ word.map tolower)
    (text rest : Bytes) :
    caseMatches word (text ++ 13 :: rest) = caseMatches word text := by
  unfold caseMatches
  by_cases hlen : word.length ≤ text.length
  · rw [List.take_append_of_le_length hlen]
  · have hcr : (13 : UInt8) ∈ ((text ++ 13 :: rest).take word.length).map tolower := by
      obtain ⟨k, hk⟩ : ∃ k, word.length = text.length + (k + 1) :=
        ⟨word.length - text.length - 1, by omega⟩
      rw [hk, List.take_length_add_append, List.take_succ_cons]
      simp [show tolower 13 = 13 from by decide]
    have hleft : ((text ++ 13 :: rest).take word.length).map tolower ≠
        word.map tolower := fun heq => hword (heq ▸ hcr)
    have hright : (text.take word.length).map tolower ≠ word.map tolower := by
      intro heq
      have hsame := congrArg List.length heq
      simp only [List.length_map, List.length_take] at hsame
      omega
    rw [decide_eq_false hleft, decide_eq_false hright]

theorem connection_read_append_cr (text rest : Bytes) :
    connectionReader.read (text ++ 13 :: rest) = connectionReader.read text := by
  have hskip : (text ++ 13 :: rest).dropWhile (· = 32) =
      text.dropWhile (· = 32) ++ 13 :: rest := by
    induction text with
    | nil => rfl
    | cons c text ih =>
        by_cases hc : c = 32
        · simpa [hc] using ih
        · simp [hc]
  simp only [connectionReader, hskip]
  rw [caseMatches_append_cr (by decide)]

namespace Message

variable {message other : Message}

theorem framing_eq_of_anchored (hsame : SameHead message other)
    (hanchored : message.Anchored) (hanchored' : other.Anchored) :
    message.framing = other.framing := by
  have hlength : contentLengthReader.value message.seen =
      contentLengthReader.value other.seen := by
    apply value_eq_of_headDecides contentLengthReader hsame.head
      hanchored.length hanchored'.length
    intro front hfound rest
    apply strtol_append_cr
    obtain ⟨c, hc, hspace⟩ := hanchored.lengthInHead _ hfound
    rcases List.mem_append.mp hc with hc | hc
    · exact ⟨c, hc, hspace⟩
    · have hblank : ∀ c ∈ blankLine, isspace c = true := by decide
      simp [hblank c hc] at hspace
  have halive : connectionReader.value message.seen =
      connectionReader.value other.seen := by
    apply value_eq_of_headDecides connectionReader hsame.head
      hanchored.connection hanchored'.connection
    intro front _ rest
    exact connection_read_append_cr front rest
  rw [message.framing_eq, other.framing_eq, hlength, halive]

/-! ## Heads that do not decide -/

theorem HeadDecides.of_alike {names : List Bytes} (halike : Alike message other)
    (hnames : ∀ name ∈ names, name ∈ fieldNames)
    (hdecides : message.HeadDecides names) : other.HeadDecides names := by
  induction names with
  | nil => trivial
  | cons name names ih =>
      have hname := hnames name List.mem_cons_self
      obtain ⟨htarget, hdecides⟩ := hdecides
      refine ⟨(halike.target name hname).not.mp htarget, ?_⟩
      rcases hdecides with hhead | ⟨hbody, hdecides⟩
      · exact Or.inl (halike.head ▸ hhead)
      · exact Or.inr ⟨(halike.body name hname).not.mp hbody,
          ih (fun other hother => hnames other (List.mem_cons_of_mem _ hother))
            hdecides⟩

theorem Anchored.of_alike (halike : Alike message other)
    (hanchored : message.Anchored) : other.Anchored where
  length := hanchored.length.of_alike halike (by decide)
  connection := hanchored.connection.of_alike halike (by decide)
  lengthInHead := by
    have hlength := hanchored.lengthInHead
    unfold LengthInHead at hlength ⊢
    rwa [← halike.head]

/-- The name that is found outside the head. -/
theorem exists_of_not_headDecides {names : List Bytes}
    (hnot : ¬message.HeadDecides names) :
    ∃ before name after, names = before ++ name :: after ∧
      (∀ other ∈ before, ¬other <:+: message.target ∧
        ¬other <:+: message.head ∧ ¬other <:+: cstr message.body) ∧
      (name <:+: message.target ∨
        ¬name <:+: message.target ∧ ¬name <:+: message.head ∧
          name <:+: cstr message.body) := by
  induction names with
  | nil => exact absurd trivial hnot
  | cons name names ih =>
      unfold HeadDecides at hnot
      by_cases htarget : name <:+: message.target
      · exact ⟨[], name, names, rfl, by simp, Or.inl htarget⟩
      by_cases hhead : name <:+: message.head
      · exact absurd ⟨htarget, Or.inl hhead⟩ hnot
      by_cases hbody : name <:+: cstr message.body
      · exact ⟨[], name, names, rfl, by simp, Or.inr ⟨htarget, hhead, hbody⟩⟩
      obtain ⟨before, first, after, rfl, hbefore, hfirst⟩ :=
        ih fun hdecides => hnot ⟨htarget, Or.inr ⟨hbody, hdecides⟩⟩
      refine ⟨name :: before, first, after, rfl, ?_, hfirst⟩
      rw [List.forall_mem_cons]
      exact ⟨⟨htarget, hhead, hbody⟩, hbefore⟩

end Message

/-- Values to plant behind a name. -/
def plants : List Bytes := [ascii "1", ascii "2", ascii "close", ascii "keep"]

/-- A name with a value, put before a text. -/
def plant (name value text : Bytes) : Bytes := name ++ (value ++ 47 :: text)

theorem behind_append_slash {name : Bytes} (hname : name ∈ fieldNames)
    (value text : Bytes) :
    behind name (value ++ 47 :: text) =
      ((behind name value).map (· ++ 47 :: text)).or (behind name text) := by
  have hplain : ∀ name ∈ fieldNames, name ≠ [] ∧ 47 ∉ name := by decide
  exact behind_append_mark (hplain name hname).1 (hplain name hname).2 _ _

theorem behind_plant_self {name : Bytes} (hname : name ∈ fieldNames)
    (value text : Bytes) :
    behind name (plant name value text) = some (value ++ 47 :: text) := by
  have hself : ∀ name ∈ fieldNames, behind name name = some [] := by decide
  exact behind_append_of_some (hself name hname) _

theorem behind_plant_of_ne {name other : Bytes} (hname : name ∈ fieldNames)
    (hother : other ∈ fieldNames) (hne : other ≠ name) {value : Bytes}
    (hvalue : value ∈ plants) (text : Bytes) :
    behind other (plant name value text) = behind other text := by
  have hnone : ∀ value ∈ plants, ∀ name ∈ fieldNames, ∀ other ∈ fieldNames,
      other ≠ name → behind other (name ++ value) = none := by decide +kernel
  unfold plant
  rw [← List.append_assoc, behind_append_slash hother,
    hnone value hvalue name hname other hother hne]
  rfl

theorem inside_plant_iff {name other : Bytes} (hname : name ∈ fieldNames)
    (hother : other ∈ fieldNames) {value text : Bytes}
    (hvalue : value ∈ plants) (htext : name <:+: text) :
    other <:+: plant name value text ↔ other <:+: text := by
  by_cases hne : other = name
  · subst hne
    exact iff_of_true (List.prefix_append _ _).isInfix htext
  · rw [← not_iff_not, ← behind_eq_none_iff, ← behind_eq_none_iff,
      behind_plant_of_ne hname hother hne hvalue]

theorem plain_plant {name value text : Bytes} (hname : name ∈ fieldNames)
    (hvalue : value ∈ plants) (htext : ∀ c ∈ text, c ≠ 0 ∧ isspace c = false) :
    ∀ c ∈ plant name value text, c ≠ 0 ∧ isspace c = false := by
  have hnames : ∀ name ∈ fieldNames, ∀ c ∈ name, c ≠ 0 ∧ isspace c = false := by
    decide
  have hvalues : ∀ value ∈ plants, ∀ c ∈ value, c ≠ 0 ∧ isspace c = false := by
    decide
  intro c hc
  unfold plant at hc
  simp only [List.mem_append, List.mem_cons] at hc
  rcases hc with hc | hc | rfl | hc
  · exact hnames name hname c hc
  · exact hvalues value hvalue c hc
  · decide
  · exact htext c hc

theorem cstr_append_plant {value : Bytes} (hvalue : value ∈ plants)
    (text : Bytes) : cstr (value ++ 47 :: text) = value ++ 47 :: cstr text := by
  have hvalues : ∀ value ∈ plants, 0 ∉ value ++ [47] := by decide
  have hsplit := cstr_append (hvalues value hvalue) text
  simpa using hsplit

theorem cstr_plant {name value : Bytes} (hname : name ∈ fieldNames)
    (hvalue : value ∈ plants) (text : Bytes) :
    cstr (plant name value text) = plant name value (cstr text) := by
  have hnames : ∀ name ∈ fieldNames, 0 ∉ name := by decide
  unfold plant
  rw [cstr_append (hnames name hname), cstr_append_plant hvalue]

namespace Message

variable {message other : Message}

theorem found_of_split {β : Type} (reader : FieldReader β)
    {before after : List Bytes} {name rest text : Bytes}
    (hnames : reader.names = before ++ name :: after)
    (hbefore : ∀ other ∈ before, behind other text = none)
    (hname : behind name text = some rest) : reader.found text = some rest := by
  unfold FieldReader.found
  rw [hnames, List.findSome?_append, List.findSome?_eq_none_iff.mpr hbefore,
    List.findSome?_cons, hname]
  rfl

/-- A field that the head does not decide can be given another value. -/
theorem exists_planted {β : Type} (reader : FieldReader β)
    (hnames : ∀ name ∈ reader.names, name ∈ fieldNames)
    (hnodup : reader.names.Nodup)
    (hnot : ¬message.HeadDecides reader.names) {value : Bytes}
    (hvalue : value ∈ plants) :
    ∃ other, Alike message other ∧
      ∃ rest, reader.found other.seen = some (value ++ 47 :: rest) := by
  obtain ⟨before, name, after, hsplit, hbefore, hwhere⟩ :=
    exists_of_not_headDecides hnot
  have hmem : name ∈ reader.names := by simp [hsplit]
  have hname := hnames name hmem
  have hearlier : ∀ first ∈ before, first ∈ reader.names ∧ first ≠ name := by
    intro first hfirst
    refine ⟨by simp [hsplit, hfirst], ?_⟩
    rintro rfl
    rw [hsplit, List.nodup_append] at hnodup
    exact hnodup.2.2 first hfirst first List.mem_cons_self rfl
  rcases hwhere with htarget | ⟨htarget, hhead, hbody⟩
  · refine ⟨{ message with
      target := plant name value message.target
      targetPlain := plain_plant hname hvalue message.targetPlain },
      { method := rfl
        head := rfl
        target := fun first hfirst =>
          (inside_plant_iff hname hfirst hvalue htarget).symm
        body := fun _ _ => Iff.rfl },
      message.target ++ (message.head ++ cstr message.body), ?_⟩
    apply found_of_split reader hsplit
    · intro first hfirst
      obtain ⟨hfirstMem, hne⟩ := hearlier first hfirst
      obtain ⟨hnoTarget, hnoHead, hnoBody⟩ := hbefore first hfirst
      rw [behind_seen _ reader hfirstMem]
      simp only [behind_plant_of_ne hname (hnames first hfirstMem) hne hvalue,
        behind_eq_none hnoTarget, behind_eq_none hnoHead, behind_eq_none hnoBody]
      rfl
    · rw [behind_seen _ reader hmem, behind_plant_self hname]
      simp
  · refine ⟨{ message with body := plant name value message.body },
      { method := rfl
        head := rfl
        target := fun _ _ => Iff.rfl
        body := fun first hfirst => by
          rw [cstr_plant hname hvalue]
          exact (inside_plant_iff hname hfirst hvalue hbody).symm },
      cstr message.body, ?_⟩
    apply found_of_split reader hsplit
    · intro first hfirst
      obtain ⟨hfirstMem, hne⟩ := hearlier first hfirst
      obtain ⟨hnoTarget, hnoHead, hnoBody⟩ := hbefore first hfirst
      rw [behind_seen _ reader hfirstMem]
      simp only [cstr_plant hname hvalue,
        behind_plant_of_ne hname (hnames first hfirstMem) hne hvalue,
        behind_eq_none hnoTarget, behind_eq_none hnoHead, behind_eq_none hnoBody]
      rfl
    · rw [behind_seen _ reader hmem]
      simp only [cstr_plant hname hvalue, behind_plant_self hname,
        behind_eq_none htarget, behind_eq_none hhead]
      rfl

/-- A length that the head leaves blank can be given in the body. -/
theorem exists_filled (hdecides : message.HeadDecides contentLengthNames)
    {blanks : Bytes} (hfound : contentLengthReader.found message.head = some blanks)
    {value : Bytes} (hvalue : value ∈ plants) :
    ∃ other, Alike message other ∧ ∃ rest,
      contentLengthReader.found other.seen =
        some (blanks ++ (value ++ 47 :: rest)) := by
  have hnone : ∀ value ∈ plants, ∀ name ∈ fieldNames,
      behind name value = none := by decide +kernel
  have halike : Alike message { message with body := value ++ 47 :: message.body } :=
    { method := rfl
      head := rfl
      target := fun _ _ => Iff.rfl
      body := fun name hname => by
        rw [cstr_append_plant hvalue, ← not_iff_not, ← behind_eq_none_iff,
          ← behind_eq_none_iff, behind_append_slash hname,
          hnone value hvalue name hname]
        rfl }
  refine ⟨_, halike, cstr message.body, ?_⟩
  rw [found_of_headDecides _ contentLengthReader
    (hdecides.of_alike halike (by decide))]
  simp only [hfound, cstr_append_plant hvalue, Option.map_some]

theorem strtol_plant {blanks : Bytes} (hblanks : ∀ c ∈ blanks, isspace c = true)
    (rest : Bytes) :
    strtol (blanks ++ (ascii "1" ++ 47 :: rest)) = 1 ∧
      strtol (blanks ++ (ascii "2" ++ 47 :: rest)) = 2 := by
  constructor
  · exact (strtol_decimal hblanks 1 (by decide) rest).trans (by decide)
  · exact (strtol_decimal hblanks 2 (by decide) rest).trans (by decide)

theorem value_of_found {β : Type} {reader : FieldReader β} {text rest : Bytes}
    (hfound : reader.found text = some rest) :
    reader.value text = reader.read rest := by
  simp [FieldReader.value, hfound]

theorem exists_lengths (hnot : ¬(message.HeadDecides contentLengthNames ∧
      message.LengthInHead)) :
    ∃ first second, Alike message first ∧ Alike message second ∧
      contentLengthReader.value first.seen = 1 ∧
      contentLengthReader.value second.seen = 2 := by
  by_cases hdecides : message.HeadDecides contentLengthNames
  · obtain ⟨blanks, hfound, hblanks⟩ : ∃ blanks,
        contentLengthReader.found message.head = some blanks ∧
          ∀ c ∈ blanks, isspace c = true := by
      have hblank : ¬message.LengthInHead := fun h => hnot ⟨hdecides, h⟩
      unfold LengthInHead at hblank
      push Not at hblank
      simpa using hblank
    obtain ⟨first, halike, rest, hfirst⟩ := exists_filled hdecides hfound
      (show ascii "1" ∈ plants from by decide)
    obtain ⟨second, halike', rest', hsecond⟩ := exists_filled hdecides hfound
      (show ascii "2" ∈ plants from by decide)
    exact ⟨first, second, halike, halike',
      (value_of_found hfirst).trans (strtol_plant hblanks rest).1,
      (value_of_found hsecond).trans (strtol_plant hblanks rest').2⟩
  · obtain ⟨first, halike, rest, hfirst⟩ := exists_planted contentLengthReader
      (by decide) (by decide) hdecides (show ascii "1" ∈ plants from by decide)
    obtain ⟨second, halike', rest', hsecond⟩ := exists_planted contentLengthReader
      (by decide) (by decide) hdecides (show ascii "2" ∈ plants from by decide)
    exact ⟨first, second, halike, halike',
      (value_of_found hfirst).trans (strtol_plant (List.forall_mem_nil _) rest).1,
      (value_of_found hsecond).trans (strtol_plant (List.forall_mem_nil _) rest').2⟩

theorem exists_connections (hnot : ¬message.HeadDecides connectionNames) :
    ∃ first second, Alike message first ∧ Alike message second ∧
      connectionReader.value first.seen = false ∧
      connectionReader.value second.seen = true := by
  obtain ⟨first, halike, rest, hfirst⟩ := exists_planted connectionReader
    (by decide) (by decide) hnot (show ascii "close" ∈ plants from by decide)
  obtain ⟨second, halike', rest', hsecond⟩ := exists_planted connectionReader
    (by decide) (by decide) hnot (show ascii "keep" ∈ plants from by decide)
  exact ⟨first, second, halike, halike', (value_of_found hfirst).trans rfl,
    (value_of_found hsecond).trans rfl⟩

theorem exists_framings (hnot : ¬message.Anchored) :
    ∃ first second, Alike message first ∧ Alike message second ∧
      first.framing ≠ second.framing := by
  by_cases hlength : message.HeadDecides contentLengthNames ∧ message.LengthInHead
  · have hconnection : ¬message.HeadDecides connectionNames :=
      fun h => hnot ⟨hlength.1, h, hlength.2⟩
    obtain ⟨first, second, hfirst, hsecond, hclose, hkeep⟩ :=
      exists_connections hconnection
    refine ⟨first, second, hfirst, hsecond, ?_⟩
    simp [framing_eq, hclose, hkeep]
  · obtain ⟨first, second, hfirst, hsecond, hone, htwo⟩ := exists_lengths hlength
    refine ⟨first, second, hfirst, hsecond, ?_⟩
    simp [framing_eq, hone, htwo]

/-- Two messages with the same head, and all that mention the names in the same
places, are framed alike exactly if the head decides in both. -/
theorem framing_eq_iff_anchored (hsame : SameHead message other) :
    (∀ first second, Alike message first → Alike other second →
      first.framing = second.framing) ↔ message.Anchored ∧ other.Anchored := by
  constructor
  · intro hequal
    constructor
    · by_contra hnot
      obtain ⟨first, second, hfirst, hsecond, hne⟩ := exists_framings hnot
      exact hne ((hequal first other hfirst (Alike.refl other)).trans
        (hequal second other hsecond (Alike.refl other)).symm)
    · by_contra hnot
      obtain ⟨first, second, hfirst, hsecond, hne⟩ := exists_framings hnot
      exact hne ((hequal message first (Alike.refl message) hfirst).symm.trans
        (hequal message second (Alike.refl message) hsecond))
  · rintro ⟨hanchored, hanchored'⟩ first second hfirst hsecond
    have hheads : SameHead first second :=
      { method := by rw [← hfirst.method, hsame.method, hsecond.method]
        head := by rw [← hfirst.head, hsame.head, hsecond.head] }
    exact framing_eq_of_anchored hheads (hanchored.of_alike hfirst)
      (hanchored'.of_alike hsecond)

/-- `POST` messages with the head of a request for four bytes. -/
def posted (target body : Bytes)
    (hplain : ∀ c ∈ target, c ≠ 0 ∧ isspace c = false) : Message where
  method := .post
  target := target
  head := ascii " HTTP/1.1\r\nContent-Length: 4\r\nConnection: close\r\n\r\n"
  body := body
  known := HttpMethod.post_ne_unknown
  targetPlain := hplain
  headBlank := ⟨32, _, rfl, by decide⟩
  headNulFree := by decide
  headEnds := by decide +kernel

theorem framing_eq_posted :
    SameHead (posted (ascii "/a") (ascii "data") (by decide))
        (posted (ascii "/b?c=d") (ascii "content-length: 9") (by decide)) ∧
      (posted (ascii "/a") (ascii "data") (by decide)).framing =
        (posted (ascii "/b?c=d") (ascii "content-length: 9") (by decide)).framing := by
  have hsame : SameHead (posted (ascii "/a") (ascii "data") (by decide))
      (posted (ascii "/b?c=d") (ascii "content-length: 9") (by decide)) :=
    ⟨rfl, rfl⟩
  have hanchored : (posted (ascii "/a") (ascii "data") (by decide)).Anchored :=
    ⟨by decide +kernel, by decide +kernel, by decide +kernel⟩
  have hanchored' : (posted (ascii "/b?c=d") (ascii "content-length: 9")
      (by decide)).Anchored :=
    ⟨by decide +kernel, by decide +kernel, by decide +kernel⟩
  exact ⟨hsame, (framing_eq_iff_anchored hsame).mpr ⟨hanchored, hanchored'⟩ _ _
    (Alike.refl _) (Alike.refl _)⟩

/-- The same head, and a target that names the field before the head does. -/
theorem framing_ne_posted :
    SameHead (posted (ascii "/a") (ascii "data") (by decide))
        (posted (ascii "/Content-Length:0") (ascii "data") (by decide)) ∧
      (posted (ascii "/a") (ascii "data") (by decide)).framing =
        some (4, false) ∧
      (posted (ascii "/Content-Length:0") (ascii "data") (by decide)).framing =
        some (0, false) :=
  ⟨⟨rfl, rfl⟩, by decide +kernel, by decide +kernel⟩

end Message

end Lith
