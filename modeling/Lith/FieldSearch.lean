import Lith.HeadParsing
import Lith.MarkerSearch

/-!
# The two header fields as searches

`parse_http_request` finds both of its header fields in the same way: the
spellings of the name are tried one after the other, each over the whole text,
and the value is read from the text behind the first one that occurs.  What
differs is the reading and the value of a field that is not found.
-/

namespace Lith

open CString

/-- A field name in its spellings, without the colon, and what is read behind
it.  The spellings contain neither blanks nor colons and are longer than a
method. -/
structure FieldReader (β : Type) where
  stems : List Bytes
  read : Bytes → β
  absent : β
  plain : ∀ stem ∈ stems, 58 ∉ stem ∧ ∀ c ∈ stem, isspace c = false
  wide : ∀ stem ∈ stems, 5 ≤ stem.length

namespace FieldReader

variable {β : Type} (reader : FieldReader β)

def names : List Bytes := reader.stems.map (· ++ [58])

/-- The text behind the first name that is tried and occurs. -/
def found (text : Bytes) : Option Bytes :=
  reader.names.findSome? fun name => behind name text

def value (text : Bytes) : β :=
  ((reader.found text).map reader.read).getD reader.absent

theorem name_ne_nil {name : Bytes} (hname : name ∈ reader.names) :
    name ≠ [] := by
  unfold names at hname
  obtain ⟨stem, -, rfl⟩ := List.mem_map.mp hname
  simp

theorem notMem_name {name : Bytes} (hname : name ∈ reader.names) {c : UInt8}
    (hc : isspace c = true) : c ∉ name := by
  unfold names at hname
  obtain ⟨stem, hstem, rfl⟩ := List.mem_map.mp hname
  intro hmem
  rcases List.mem_append.mp hmem with hmem | hmem
  · simp [(reader.plain stem hstem).2 c hmem] at hc
  · rw [List.mem_singleton.mp hmem] at hc
    revert hc
    decide

theorem lt_length_name {name : Bytes} (hname : name ∈ reader.names) :
    5 < name.length := by
  unfold names at hname
  obtain ⟨stem, hstem, rfl⟩ := List.mem_map.mp hname
  have hwide := reader.wide stem hstem
  simp only [List.length_append, List.length_singleton]
  omega

theorem behind_cons_blank {name : Bytes} (hname : name ∈ reader.names)
    {c : UInt8} (hc : isspace c = true) (rest : Bytes) :
    behind name (c :: rest) = behind name rest := by
  have hsplit := behind_append_mark (reader.name_ne_nil hname)
    (reader.notMem_name hname hc) [] rest
  simpa [behind_nil (reader.name_ne_nil hname)] using hsplit

/-- A name does not reach over the blank at the start of the second text. -/
theorem behind_append_of_blank_head {name : Bytes} (hname : name ∈ reader.names)
    {c : UInt8} (hc : isspace c = true) (text rest : Bytes) :
    behind name (text ++ c :: rest) =
      ((behind name text).map (· ++ c :: rest)).or
        (behind name (c :: rest)) := by
  rw [reader.behind_cons_blank hname hc]
  exact behind_append_mark (reader.name_ne_nil hname)
    (reader.notMem_name hname hc) text rest

/-- A name does not reach over the blank at the end of the first text. -/
theorem behind_append_of_blank_last {name : Bytes} (hname : name ∈ reader.names)
    {c : UInt8} (hc : isspace c = true) (text rest : Bytes) :
    behind name (text ++ [c] ++ rest) =
      ((behind name (text ++ [c])).map (· ++ rest)).or (behind name rest) := by
  have hne := reader.name_ne_nil hname
  have hmark := reader.notMem_name hname hc
  rw [List.append_assoc, List.singleton_append,
    behind_append_mark hne hmark text rest,
    behind_append_mark hne hmark text [], behind_nil hne]
  cases behind name text with
  | none => rfl
  | some found => simp

/-- No spelling of the name occurs. -/
def Silent (text : Bytes) : Prop :=
  ∀ name ∈ reader.names, behind name text = none

theorem found_eq_none {text : Bytes} (hsilent : reader.Silent text) :
    reader.found text = none := by
  unfold found
  rw [List.findSome?_eq_none_iff]
  exact hsilent

theorem found_map {text text' : Bytes} {change : Bytes → Bytes}
    (hsame : ∀ name ∈ reader.names,
      behind name text = (behind name text').map change) :
    reader.found text = (reader.found text').map change := by
  unfold found
  generalize reader.names = names at hsame
  induction names with
  | nil => rfl
  | cons name names ih =>
      have hrec := ih fun other hother =>
        hsame other (List.mem_cons_of_mem _ hother)
      rw [List.findSome?_cons, List.findSome?_cons,
        hsame name List.mem_cons_self, hrec]
      cases behind name text' <;> rfl

theorem found_congr {text text' : Bytes}
    (hsame : ∀ name ∈ reader.names, behind name text = behind name text') :
    reader.found text = reader.found text' := by
  have hmap : reader.found text = (reader.found text').map id := by
    apply reader.found_map
    simpa using hsame
  simpa using hmap

/-- All spellings that are found at all are found at the same place. -/
theorem found_eq_some {text rest : Bytes}
    (hsome : ∃ name ∈ reader.names, behind name text = some rest)
    (hall : ∀ name ∈ reader.names,
      behind name text = none ∨ behind name text = some rest) :
    reader.found text = some rest := by
  unfold found
  cases hfound : reader.names.findSome? fun name => behind name text with
  | none =>
      rw [List.findSome?_eq_none_iff] at hfound
      obtain ⟨name, hname, hrest⟩ := hsome
      rw [hfound name hname] at hrest
      simp at hrest
  | some other =>
      obtain ⟨name, hname, hother⟩ := List.exists_of_findSome?_eq_some hfound
      rcases hall name hname with hnone | hrest
      · rw [hnone] at hother
        simp at hother
      · rw [← hother, hrest]

theorem silent_of_notMem_colon {text : Bytes} (htext : 58 ∉ text) :
    reader.Silent text := by
  intro name hname
  unfold names at hname
  obtain ⟨stem, -, rfl⟩ := List.mem_map.mp hname
  apply behind_eq_none
  intro hinside
  exact htext (hinside.subset (by simp))

end FieldReader

def contentLengthReader : FieldReader ℤ where
  stems := [ascii "Content-Length", ascii "content-length",
    ascii "CONTENT-LENGTH"]
  read := strtol
  absent := 0
  plain := by decide
  wide := by decide

def connectionReader : FieldReader Bool where
  stems := [ascii "Connection", ascii "connection", ascii "CONNECTION"]
  read := fun text => !caseMatches (ascii "close") (text.dropWhile (· = 32))
  absent := true
  plain := by decide
  wide := by decide

theorem strtol_dropWhile_blank (text : Bytes) :
    strtol (text.dropWhile (· = 32)) = strtol text := by
  have hskip : (text.dropWhile (· = 32)).dropWhile isspace =
      text.dropWhile isspace := by
    induction text with
    | nil => rfl
    | cons c text ih =>
        by_cases hc : c = 32
        · subst hc
          have hspace : isspace 32 = true := by decide
          simpa [List.dropWhile_cons, hspace] using ih
        · simp [List.dropWhile_cons, hc]
  unfold strtol
  rw [hskip]

theorem fieldValue_eq_behind {names : List Bytes} {width : ℕ}
    (hwidth : ∀ name ∈ names, name.length = width) (text : Bytes) :
    fieldValue names width text =
      (names.findSome? fun name => behind name text).map
        (List.dropWhile (· = 32)) := by
  unfold fieldValue findName
  induction names with
  | nil => rfl
  | cons name names ih =>
      have hlen : name.length = width := hwidth name List.mem_cons_self
      have hrec := ih fun other hother =>
        hwidth other (List.mem_cons_of_mem _ hother)
      cases hfound : strstr name text with
      | none => simpa [List.findSome?_cons, behind, hfound] using hrec
      | some i => simp [behind, hfound, hlen]

theorem parseContentLength_eq_value (text : Bytes) :
    parseContentLength text = contentLengthReader.value text := by
  have hnames : contentLengthReader.names = contentLengthNames := by decide
  unfold parseContentLength FieldReader.value FieldReader.found
  rw [fieldValue_eq_behind (by decide), hnames]
  cases contentLengthNames.findSome? fun name => behind name text with
  | none => rfl
  | some rest => exact strtol_dropWhile_blank rest

theorem parseKeepAlive_eq_value (text : Bytes) :
    parseKeepAlive text = connectionReader.value text := by
  have hnames : connectionReader.names = connectionNames := by decide
  unfold parseKeepAlive FieldReader.value FieldReader.found
  rw [fieldValue_eq_behind (by decide), hnames]
  cases connectionNames.findSome? fun name => behind name text with
  | none => rfl
  | some rest =>
      simp only [Option.map_some, Option.getD_some, connectionReader]
      cases caseMatches (ascii "close") (rest.dropWhile (· = 32)) <;> simp

end Lith
