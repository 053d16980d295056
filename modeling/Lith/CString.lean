import Mathlib.Data.List.TakeWhile
import Mathlib.Tactic

/-!
# The string functions of the C library

A C string is modelled by the list of the bytes before its terminating NUL.
Pointers into a string are offsets, so `strstr` answers with the index of
the first match.  `CharArray n` is a `char[n]` that holds a terminated string:
the bound and the absence of an inner NUL are fields, so an array that has
overflowed cannot be written down.
-/

namespace Lith

abbrev Bytes := List UInt8

namespace CString

/-- A condition on the bytes of a text is decided along the text. -/
instance (priority := 2000) decidableForallByte (p : UInt8 → Prop)
    [DecidablePred p] (text : Bytes) : Decidable (∀ c ∈ text, p c) :=
  List.decidableBAll p text

/-- The bytes of an ASCII literal of the source. -/
def ascii (literal : String) : Bytes :=
  literal.toList.map fun c => UInt8.ofNat c.toNat

/-- The string that starts at the beginning of a memory area. -/
def cstr (memory : Bytes) : Bytes :=
  memory.takeWhile (· ≠ 0)

def isspace (c : UInt8) : Bool :=
  c = 32 || (9 ≤ c && c ≤ 13)

def tolower (c : UInt8) : UInt8 :=
  if 65 ≤ c ∧ c ≤ 90 then c + 32 else c

section Search

variable {α : Type*} [DecidableEq α]

def strstr (needle : List α) : List α → Option ℕ
  | [] => if needle = [] then some 0 else none
  | c :: rest =>
      if needle <+: c :: rest then some 0
      else (strstr needle rest).map (· + 1)

def strchr (c : α) (text : List α) : Option ℕ :=
  strstr [c] text

def strrchr (c : α) (text : List α) : Option ℕ :=
  (strchr c text.reverse).map fun i => text.length - 1 - i

end Search

/-- `strncasecmp(text, word, n) == 0` for a word of exactly `n` letters. -/
def caseMatches (word text : Bytes) : Bool :=
  (text.take word.length).map tolower = word.map tolower

def isdigit (c : UInt8) : Bool := 48 ≤ c && c ≤ 57

def digitsValue (digits : Bytes) : ℕ :=
  digits.foldl (fun value c => 10 * value + (c.toNat - 48)) 0

def longMax : ℤ := 2 ^ 63 - 1

def longMin : ℤ := -2 ^ 63

/-- `strtol(text, NULL, 10)`: blanks, an optional sign, digits, and the
saturation at the ends of `long`. -/
def strtol (text : Bytes) : ℤ :=
  let unsigned (rest : Bytes) : ℤ := digitsValue (rest.takeWhile isdigit)
  match text.dropWhile isspace with
  | [] => 0
  | c :: rest =>
      if c = 45 then max (-(unsigned rest)) longMin
      else if c = 43 then min (unsigned rest) longMax
      else min (unsigned (c :: rest)) longMax

def toInt (value : ℤ) : ℤ := value.bmod (2 ^ 32)

/-- `atoi`, which the library computes as `(int) strtol(text, NULL, 10)`. -/
def atoi (text : Bytes) : ℤ := toInt (strtol text)

/-- `%d`, `%ld` and `%zu`. -/
def decimal (value : ℤ) : Bytes := ascii (toString value)

/-- `snprintf` into an array of `room` bytes: the text that survives. -/
def snprintf (room : ℕ) (text : Bytes) : Bytes := text.take (room - 1)

@[ext]
structure CharArray (n : ℕ) where
  text : Bytes
  fits : text.length < n
  nulFree : 0 ∉ text
  deriving DecidableEq

theorem nulFree_slash : 0 ∉ ascii "/" := by decide

theorem nulFree_cstr (memory : Bytes) : 0 ∉ cstr memory := by
  intro hmem
  simpa [cstr] using List.mem_takeWhile_imp hmem

/-- `strncpy(target, source, room)` followed by `target[room] = 0`. -/
def strncpy (room : ℕ) (source : Bytes) : CharArray (room + 1) where
  text := (cstr source).take room
  fits := by
    rw [List.length_take]
    omega
  nulFree := fun hmem => nulFree_cstr source (List.mem_of_mem_take hmem)

def CharArray.zero (room : ℕ) : CharArray (room + 1) where
  text := []
  fits := by simp
  nulFree := by simp

theorem cstr_eq_self {text : Bytes} (hfree : 0 ∉ text) : cstr text = text := by
  unfold cstr
  rw [List.takeWhile_eq_self_iff]
  intro c hc
  have hne : c ≠ 0 := by
    rintro rfl
    exact hfree hc
  simpa using hne

theorem cstr_append {text : Bytes} (hfree : 0 ∉ text) (rest : Bytes) :
    cstr (text ++ rest) = text ++ cstr rest := by
  induction text with
  | nil => rfl
  | cons c text ih =>
      have hc : c ≠ 0 := fun h => hfree (by simp [h])
      have htext : 0 ∉ text := fun h => hfree (by simp [h])
      have hrec := ih htext
      unfold cstr at hrec ⊢
      rw [List.cons_append, List.takeWhile_cons, if_pos (by simpa using hc), hrec]
      rfl

theorem strncpy_text {room : ℕ} {source : Bytes} (hfree : 0 ∉ source)
    (hlen : source.length ≤ room) : (strncpy room source).text = source := by
  simp [strncpy, cstr_eq_self hfree, hlen]

theorem snprintf_of_length_lt {room : ℕ} {text : Bytes}
    (hlen : text.length < room) : snprintf room text = text := by
  unfold snprintf
  exact List.take_of_length_le (by omega)

/-- What comes first survives the cut. -/
theorem snprintf_append {room : ℕ} {text : Bytes} (hfits : text.length < room)
    (rest : Bytes) : snprintf room (text ++ rest) =
      text ++ rest.take (room - 1 - text.length) := by
  unfold snprintf
  rw [List.take_append, List.take_of_length_le (by omega)]

section SearchLemmas

variable {α : Type*} [DecidableEq α]

theorem strstr_cons_of_isPrefix {needle rest : List α} {c : α}
    (hmatch : needle <+: c :: rest) : strstr needle (c :: rest) = some 0 := by
  simp [strstr, hmatch]

theorem strstr_cons_of_not_isPrefix {needle rest : List α} {c : α}
    (hmatch : ¬needle <+: c :: rest) :
    strstr needle (c :: rest) = (strstr needle rest).map (· + 1) := by
  simp [strstr, hmatch]

theorem strstr_eq_none_iff {needle : List α} (text : List α) :
    strstr needle text = none ↔ ¬needle <:+: text := by
  induction text with
  | nil =>
      by_cases hneedle : needle = [] <;> simp [strstr, hneedle]
  | cons c rest ih =>
      rw [List.infix_cons_iff]
      by_cases hmatch : needle <+: c :: rest
      · simp [strstr_cons_of_isPrefix hmatch, hmatch]
      · simp [strstr_cons_of_not_isPrefix hmatch, hmatch, ih]

theorem strstr_prefix_drop {needle text : List α} {i : ℕ}
    (hfound : strstr needle text = some i) : needle <+: text.drop i := by
  induction text generalizing i with
  | nil =>
      by_cases hneedle : needle = []
      · simp [hneedle]
      · simp [strstr, hneedle] at hfound
  | cons c rest ih =>
      by_cases hmatch : needle <+: c :: rest
      · rw [strstr_cons_of_isPrefix hmatch, Option.some.injEq] at hfound
        subst hfound
        simpa using hmatch
      · rw [strstr_cons_of_not_isPrefix hmatch, Option.map_eq_some_iff] at hfound
        obtain ⟨j, hj, rfl⟩ := hfound
        simpa using ih hj

theorem strstr_bound {needle text : List α} {i : ℕ}
    (hfound : strstr needle text = some i) :
    i + needle.length ≤ text.length := by
  induction text generalizing i with
  | nil =>
      by_cases hneedle : needle = []
      · simp_all [strstr]
      · simp [strstr, hneedle] at hfound
  | cons c rest ih =>
      by_cases hmatch : needle <+: c :: rest
      · rw [strstr_cons_of_isPrefix hmatch, Option.some.injEq] at hfound
        have hle := hmatch.length_le
        omega
      · rw [strstr_cons_of_not_isPrefix hmatch, Option.map_eq_some_iff] at hfound
        obtain ⟨j, hj, rfl⟩ := hfound
        have hrec := ih hj
        simp only [List.length_cons]
        omega

theorem strstr_append_of_some {needle text : List α} {i : ℕ}
    (hfound : strstr needle text = some i) (rest : List α) :
    strstr needle (text ++ rest) = some i := by
  induction text generalizing i with
  | nil =>
      by_cases hneedle : needle = []
      · subst hneedle
        have hi : i = 0 := by simpa [strstr] using hfound.symm
        cases rest <;> simp [strstr, hi]
      · simp [strstr, hneedle] at hfound
  | cons c text ih =>
      by_cases hmatch : needle <+: c :: text
      · rw [strstr_cons_of_isPrefix hmatch] at hfound
        have hlong : needle <+: c :: (text ++ rest) :=
          hmatch.trans (List.prefix_append (c :: text) rest)
        rw [List.cons_append, strstr_cons_of_isPrefix hlong, hfound]
      · rw [strstr_cons_of_not_isPrefix hmatch, Option.map_eq_some_iff] at hfound
        obtain ⟨j, hj, rfl⟩ := hfound
        have hlong : ¬needle <+: c :: (text ++ rest) := by
          intro h
          have hinside := strstr_prefix_drop hj
          have hbound : needle.length ≤ (c :: text).length := by
            have hle := hinside.length_le
            simp only [List.length_drop] at hle
            simp only [List.length_cons]
            omega
          rw [← List.cons_append] at h
          exact hmatch ((List.isPrefix_append_of_length hbound).mp h)
        rw [List.cons_append, strstr_cons_of_not_isPrefix hlong, ih hj]
        rfl

/-- A needle without the mark is found on one side of the mark or not at all. -/
theorem strstr_append_mark {needle : List α} {mark : α}
    (hneedle : needle ≠ []) (hmark : mark ∉ needle) (text rest : List α) :
    strstr needle (text ++ mark :: rest) =
      (strstr needle text).or
        ((strstr needle rest).map (· + (text.length + 1))) := by
  have hstart (tail : List α) (hpre : needle <+: mark :: tail) : False := by
    obtain ⟨first, others, rfl⟩ := List.exists_cons_of_ne_nil hneedle
    rw [List.cons_prefix_cons] at hpre
    exact hmark (by simp [hpre.1])
  induction text with
  | nil =>
      rw [List.nil_append, strstr_cons_of_not_isPrefix (hstart rest)]
      simp [strstr, hneedle]
  | cons c text ih =>
      by_cases hmatch : needle <+: c :: text
      · have hleft := strstr_cons_of_isPrefix hmatch
        rw [strstr_append_of_some hleft, hleft]
        rfl
      · have hlong : ¬needle <+: (c :: text) ++ mark :: rest := by
          intro hpre
          by_cases hlen : needle.length ≤ (c :: text).length
          · exact hmatch ((List.isPrefix_append_of_length hlen).mp hpre)
          · obtain ⟨tail, rfl⟩ := List.prefix_of_prefix_length_le
              (List.prefix_append (c :: text) (mark :: rest)) hpre (by omega)
            rw [List.prefix_append_right_inj] at hpre
            cases tail with
            | nil => simp at hlen
            | cons first others =>
                rw [List.cons_prefix_cons] at hpre
                exact hmark (by simp [hpre.1])
        rw [List.cons_append] at hlong ⊢
        rw [strstr_cons_of_not_isPrefix hlong, ih,
          strstr_cons_of_not_isPrefix hmatch]
        cases strstr needle text with
        | some i => rfl
        | none =>
            cases strstr needle rest with
            | none => rfl
            | some j =>
                simp only [Option.map_some, Option.map_none, Option.none_or,
                  List.length_cons, Option.some.injEq]
                omega

theorem takeWhile_ne_append {c : α} {text : List α} (hfirst : c ∉ text)
    (rest : List α) : (text ++ c :: rest).takeWhile (· ≠ c) = text := by
  rw [List.takeWhile_append_of_pos]
  · simp
  · intro d hd
    simpa using fun heq : d = c => hfirst (heq ▸ hd)

theorem strchr_eq_none_iff {c : α} (text : List α) :
    strchr c text = none ↔ c ∉ text := by
  unfold strchr
  rw [strstr_eq_none_iff, List.singleton_infix_iff]

theorem strchr_append_cons {c : α} {text : List α} (hfirst : c ∉ text)
    (rest : List α) : strchr c (text ++ c :: rest) = some text.length := by
  induction text with
  | nil => exact strstr_cons_of_isPrefix (by simp)
  | cons d text ih =>
      rw [List.mem_cons, not_or] at hfirst
      have hpre : ¬[c] <+: d :: (text ++ c :: rest) := by
        rw [List.cons_prefix_cons]
        exact fun h => hfirst.1 h.1
      have hrec := ih hfirst.2
      unfold strchr at hrec ⊢
      rw [List.cons_append, strstr_cons_of_not_isPrefix hpre, hrec]
      rfl

theorem strrchr_append {c : α} {name : List α} {i : ℕ}
    (hfound : strrchr c name = some i) (base : List α) :
    strrchr c (base ++ name) = some (base.length + i) := by
  unfold strrchr strchr at hfound ⊢
  rw [Option.map_eq_some_iff] at hfound
  obtain ⟨j, hj, rfl⟩ := hfound
  have hbound := strstr_bound hj
  rw [List.reverse_append, strstr_append_of_some hj, Option.map_some]
  simp only [List.length_singleton, List.length_reverse] at hbound
  simp only [List.length_append, Option.some.injEq]
  omega

end SearchLemmas

end CString

end Lith
