import Lith.CString

/-!
# Letter case

Two texts that differ in the case of letters agree on everything that does not
look at letters: blanks, digits, signs, and hence the numbers that are read
from them; and they match the same words without regard to case.
-/

namespace Lith.CString

theorem forall_byte {p : UInt8 → Prop} (hp : ∀ n : Fin 256, p (UInt8.ofFin n))
    (c : UInt8) : p c :=
  hp c.toFin

@[simp] theorem isspace_tolower (c : UInt8) : isspace (tolower c) = isspace c :=
  forall_byte (p := fun c => isspace (tolower c) = isspace c) (by decide +kernel) c

@[simp] theorem isdigit_tolower (c : UInt8) : isdigit (tolower c) = isdigit c :=
  forall_byte (p := fun c => isdigit (tolower c) = isdigit c) (by decide +kernel) c

theorem tolower_of_isdigit {c : UInt8} (hc : isdigit c = true) : tolower c = c :=
  forall_byte (p := fun c => isdigit c = true → tolower c = c) (by decide +kernel) c hc

@[simp] theorem tolower_tolower (c : UInt8) : tolower (tolower c) = tolower c :=
  forall_byte (p := fun c => tolower (tolower c) = tolower c) (by decide +kernel) c

/-- Bytes that are not letters are the lower case of themselves alone. -/
theorem tolower_eq_iff {c d : UInt8} (hd : d ∈ [0, 32, 43, 45, 58]) :
    tolower c = d ↔ c = d :=
  forall_byte (p := fun c => ∀ d ∈ [0, 32, 43, 45, 58], tolower c = d ↔ c = d)
    (by decide +kernel) c d hd

/-- Equality up to the case of letters. -/
def SameLetters (text other : Bytes) : Prop :=
  text.map tolower = other.map tolower

namespace SameLetters

variable {text text' rest rest' : Bytes}

theorem refl (text : Bytes) : SameLetters text text := Eq.refl _

theorem symm (hsame : SameLetters text text') : SameLetters text' text :=
  Eq.symm hsame

theorem append (hsame : SameLetters text text') (hrest : SameLetters rest rest') :
    SameLetters (text ++ rest) (text' ++ rest') := by
  unfold SameLetters at hsame hrest ⊢
  rw [List.map_append, List.map_append, hsame, hrest]

theorem exists_mem (hsame : SameLetters text text') {c : UInt8}
    (hc : c ∈ text') : ∃ d ∈ text, tolower d = tolower c := by
  have hmem : tolower c ∈ text.map tolower := by
    rw [show text.map tolower = text'.map tolower from hsame]
    exact List.mem_map_of_mem hc
  simpa using hmem

end SameLetters

theorem digitsValue_map_tolower (text : Bytes) :
    digitsValue ((text.map tolower).takeWhile isdigit) =
      digitsValue (text.takeWhile isdigit) := by
  have hdigits : (text.map tolower).takeWhile isdigit =
      text.takeWhile isdigit := by
    induction text with
    | nil => rfl
    | cons c text ih =>
        by_cases hc : isdigit c = true
        · simp [hc, ih, tolower_of_isdigit hc]
        · simp [hc]
  rw [hdigits]

theorem strtol_map_tolower (text : Bytes) :
    strtol (text.map tolower) = strtol text := by
  have hskip : (text.map tolower).dropWhile isspace =
      (text.dropWhile isspace).map tolower := by
    rw [List.dropWhile_map]
    congr 2
    funext c
    exact isspace_tolower c
  have hminus (c : UInt8) : tolower c = 45 ↔ c = 45 :=
    tolower_eq_iff (by decide)
  have hplus (c : UInt8) : tolower c = 43 ↔ c = 43 :=
    tolower_eq_iff (by decide)
  unfold strtol
  rw [hskip]
  cases text.dropWhile isspace with
  | nil => rfl
  | cons c rest =>
      simp only [List.map_cons, hminus, hplus, digitsValue_map_tolower]
      rw [← List.map_cons, digitsValue_map_tolower]

theorem dropWhile_blank_map_tolower (text : Bytes) :
    (text.map tolower).dropWhile (· = 32) =
      (text.dropWhile (· = 32)).map tolower := by
  rw [List.dropWhile_map]
  congr 2
  funext c
  simp only [Function.comp_apply, tolower_eq_iff (c := c) (d := 32) (by decide)]

theorem caseMatches_map_tolower (word text : Bytes) :
    caseMatches word (text.map tolower) = caseMatches word text := by
  unfold caseMatches
  rw [← List.map_take, List.map_map]
  congr 3
  funext c
  exact tolower_tolower c

end Lith.CString
