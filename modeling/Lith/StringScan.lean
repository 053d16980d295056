import Lith.ByteArea

/-!
# Scanning a string in memory

The loops that walk along a string and stop at a byte of their own choice: the
skipping of blanks, the reading of a number, the comparison without regard to
case.  None of them knows the length of the array.  On memory that holds a
terminated string each stops at its NUL or before, and computes what the
function on texts of the same name says.
-/

namespace Lith.CString

/-- `while (p(*ptr)) ptr++`, with the memory behind the pointer. -/
def skipWhile (p : UInt8 → Bool) : Bytes → Option Bytes
  | [] => none
  | b :: rest => if p b then skipWhile p rest else some (b :: rest)

/-- The bytes that such a loop passes. -/
def readWhile (p : UInt8 → Bool) : Bytes → Option Bytes
  | [] => none
  | b :: rest => if p b then (readWhile p rest).map (b :: ·) else some []

/-- `strtol(ptr, NULL, 10)`. -/
def scanLong (memory : Bytes) : Option ℤ := do
  let number ← skipWhile isspace memory
  let sign ← number.head?
  let digits ← readWhile isdigit (if sign = 45 ∨ sign = 43 then number.tail else number)
  if sign = 45 then some (max (-(digitsValue digits : ℤ)) longMin)
  else some (min (digitsValue digits : ℤ) longMax)

/-- `strncasecmp(ptr, word, n) == 0` for a word of `n` letters: the comparison
ends with the first difference. -/
def compareCaseAt : Bytes → Bytes → Option Bool
  | [], _ => some true
  | _ :: _, [] => none
  | d :: word, b :: rest =>
      if tolower b = tolower d then compareCaseAt word rest else some false

theorem readString_skipWhile {p : UInt8 → Bool} (hp : p 0 = false) {memory text : Bytes}
    (hread : readString memory = some text) :
    ∃ rest, skipWhile p memory = some rest ∧
      readString rest = some (text.dropWhile p) := by
  obtain ⟨hfree, tail, rfl⟩ := readString_eq_some_iff.mp hread
  clear hread
  induction text with
  | nil =>
      refine ⟨0 :: tail, ?_, ?_⟩
      · simp [skipWhile, hp]
      · simp [readString]
  | cons c text ih =>
      by_cases hc : p c
      · simpa [skipWhile, hc] using ih fun hmem => hfree (List.mem_cons_of_mem c hmem)
      · refine ⟨c :: (text ++ 0 :: tail), by simp [skipWhile, hc], ?_⟩
        rw [List.dropWhile_cons_of_neg hc]
        exact readString_append hfree tail

theorem readWhile_eq {p : UInt8 → Bool} (hp : p 0 = false) {memory text : Bytes}
    (hread : readString memory = some text) :
    readWhile p memory = some (text.takeWhile p) := by
  obtain ⟨-, tail, rfl⟩ := readString_eq_some_iff.mp hread
  clear hread
  induction text with
  | nil => simp [readWhile, hp]
  | cons c text ih =>
      by_cases hc : p c
      · simp [readWhile, hc, ih]
      · simp [readWhile, hc]

theorem scanLong_eq {memory text : Bytes} (hread : readString memory = some text) :
    scanLong memory = some (strtol text) := by
  have hspace : isspace 0 = false := by decide
  have hdigit : isdigit 0 = false := by decide
  obtain ⟨number, hskip, hnumber⟩ := readString_skipWhile hspace hread
  unfold scanLong strtol
  cases htext : text.dropWhile isspace with
  | nil =>
      rw [htext] at hnumber
      obtain ⟨-, rest, rfl⟩ := readString_eq_some_iff.mp hnumber
      simp [hskip, readWhile, hdigit, digitsValue, longMax]
  | cons c digits =>
      rw [htext] at hnumber
      obtain ⟨hfree, rest, rfl⟩ := readString_eq_some_iff.mp hnumber
      rw [List.mem_cons, not_or] at hfree
      have hbehind : readString (digits ++ 0 :: rest) = some digits :=
        readString_append hfree.2 rest
      have hall := readWhile_eq hdigit hnumber
      rw [List.cons_append] at hall
      by_cases hminus : c = 45
      · simp [hskip, hminus, readWhile_eq hdigit hbehind]
      · by_cases hplus : c = 43
        · simp [hskip, hplus, readWhile_eq hdigit hbehind]
        · simp [hskip, hminus, hplus, hall]

theorem tolower_eq_zero_iff (c : UInt8) : tolower c = 0 ↔ c = 0 := by
  unfold tolower
  split
  · rename_i hupper
    constructor
    · intro hzero
      have hnat := congrArg UInt8.toNat hzero
      have hlow := UInt8.le_iff_toNat_le.mp hupper.1
      have hhigh := UInt8.le_iff_toNat_le.mp hupper.2
      rw [UInt8.toNat_add] at hnat
      simp only [UInt8.reduceToNat] at hnat hlow hhigh
      omega
    · rintro rfl
      simp at hupper
  · rfl

theorem compareCaseAt_eq {word : Bytes} (hword : 0 ∉ word) {memory text : Bytes}
    (hread : readString memory = some text) :
    compareCaseAt word memory = some (caseMatches word text) := by
  induction word generalizing memory text with
  | nil => simp [compareCaseAt, caseMatches]
  | cons d word ih =>
      rw [List.mem_cons, not_or] at hword
      obtain ⟨hfree, rest, rfl⟩ := readString_eq_some_iff.mp hread
      cases text with
      | nil =>
          have hd : tolower d ≠ 0 := fun h => hword.1 ((tolower_eq_zero_iff d).mp h).symm
          have hzero : tolower 0 = 0 := by decide
          simp [compareCaseAt, caseMatches, hzero, Ne.symm hd]
      | cons c text =>
          rw [List.mem_cons, not_or] at hfree
          have hrec := ih hword.2 (readString_append hfree.2 rest)
          unfold caseMatches at hrec ⊢
          by_cases hletter : tolower c = tolower d
          · simp [compareCaseAt, hletter, hrec]
          · simp [compareCaseAt, hletter]

end Lith.CString
