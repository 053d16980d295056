import Lith.CString

/-!
# Decimal numbers in texts

What `%d` and its relatives print, `strtol` reads back: the printed digits are
digits, their value is the number, and scanning stops at the first byte that
is not a digit.
-/

namespace Lith.CString

theorem isdigit_ofNat_toNat {c : Char} (hc : c.isDigit = true) :
    isdigit (UInt8.ofNat c.toNat) = true ∧
      (UInt8.ofNat c.toNat).toNat = c.toNat := by
  have hrange : 48 ≤ c.toNat ∧ c.toNat ≤ 57 := by
    simp only [Char.isDigit, Bool.and_eq_true, decide_eq_true_eq] at hc
    exact ⟨UInt32.le_iff_toNat_le.mp hc.1, UInt32.le_iff_toNat_le.mp hc.2⟩
  have hnat : (UInt8.ofNat c.toNat).toNat = c.toNat := by
    rw [UInt8.toNat_ofNat']
    omega
  refine ⟨?_, hnat⟩
  simp only [isdigit, Bool.and_eq_true, decide_eq_true_eq,
    UInt8.le_iff_toNat_le, hnat]
  exact hrange

theorem decimal_natCast (n : ℕ) :
    decimal n = (Nat.toDigits 10 n).map fun c => UInt8.ofNat c.toNat := by
  change ascii n.repr = _
  unfold ascii
  rw [Nat.toList_repr]

theorem isdigit_of_mem_decimal {n : ℕ} {c : UInt8} (hc : c ∈ decimal n) :
    isdigit c = true := by
  rw [decimal_natCast, List.mem_map] at hc
  obtain ⟨d, hd, rfl⟩ := hc
  exact (isdigit_ofNat_toNat
    (Nat.isDigit_of_mem_toDigits (by omega) (by omega) hd)).1

theorem decimal_ne_nil (n : ℕ) : decimal n ≠ [] := by
  rw [decimal_natCast]
  simp

theorem length_decimal_le {n k : ℕ} (hk : 0 < k) (hn : n < 10 ^ k) :
    (decimal n).length ≤ k := by
  rw [decimal_natCast, List.length_map]
  exact (Nat.length_toDigits_le_iff (by omega) hk).mpr hn

theorem digitsValue_decimal (n : ℕ) : digitsValue (decimal n) = n := by
  have hfold (digits : List Char) (hdigits : ∀ c ∈ digits, c.isDigit = true)
      (start : ℕ) :
      (digits.map fun c => UInt8.ofNat c.toNat).foldl
          (fun value c => 10 * value + (c.toNat - 48)) start =
        Nat.ofDigitChars 10 digits start := by
    induction digits generalizing start with
    | nil => simp
    | cons c digits ih =>
        have hc := (isdigit_ofNat_toNat (hdigits c List.mem_cons_self)).2
        have hrec := ih fun d hd => hdigits d (List.mem_cons_of_mem _ hd)
        rw [List.map_cons, List.foldl_cons, hc, hrec, Nat.ofDigitChars_cons]
        rfl
  unfold digitsValue
  rw [decimal_natCast, hfold _ fun c hc =>
    Nat.isDigit_of_mem_toDigits (by omega) (by omega) hc]
  exact Nat.ofDigitChars_ten_toDigits

theorem isspace_of_isdigit {c : UInt8} (hc : isdigit c = true) :
    isspace c = false ∧ c ≠ 45 ∧ c ≠ 43 := by
  simp only [isdigit, Bool.and_eq_true, decide_eq_true_eq,
    UInt8.le_iff_toNat_le] at hc
  have hlow : 48 ≤ c.toNat := hc.1
  have hne (d : UInt8) (hd : d.toNat < 48) : c ≠ d := by
    rintro rfl
    omega
  refine ⟨?_, hne 45 (by decide), hne 43 (by decide)⟩
  simp only [isspace, Bool.or_eq_false_iff, Bool.and_eq_false_iff,
    decide_eq_false_iff_not, UInt8.le_iff_toNat_le]
  refine ⟨hne 32 (by decide), Or.inr ?_⟩
  have hthirteen : (13 : UInt8).toNat = 13 := by decide
  omega

theorem decimal_negSucc (n : ℕ) :
    decimal (Int.negSucc n) = 45 :: decimal (n + 1 : ℕ) := by
  change ascii ("-" ++ (n + 1).repr) = 45 :: ascii (n + 1).repr
  unfold ascii
  rw [String.toList_append, List.map_append]
  rfl

theorem eq_natCast_of_decimal_eq {value : ℤ} {n : ℕ}
    (hsame : decimal value = decimal n) : value = n := by
  cases value with
  | ofNat m =>
      have hdigits := congrArg digitsValue hsame
      change digitsValue (decimal (m : ℤ)) = _ at hdigits
      rw [digitsValue_decimal, digitsValue_decimal] at hdigits
      rw [hdigits]
      rfl
  | negSucc m =>
      rw [decimal_negSucc] at hsame
      have hminus : isdigit 45 = true :=
        isdigit_of_mem_decimal (hsame ▸ List.mem_cons_self)
      exact absurd hminus (by decide)

theorem decimal_injective : Function.Injective decimal := by
  intro left right hsame
  cases right with
  | ofNat n => exact eq_natCast_of_decimal_eq hsame
  | negSucc n =>
      cases left with
      | ofNat m => exact (eq_natCast_of_decimal_eq hsame.symm).symm
      | negSucc m =>
          rw [decimal_negSucc, decimal_negSucc, List.cons.injEq] at hsame
          have hnat := eq_natCast_of_decimal_eq hsame.2
          rw [Int.negSucc_eq, Int.negSucc_eq]
          omega

theorem isdigit_or_minus_of_mem_decimal {value : ℤ} {c : UInt8}
    (hc : c ∈ decimal value) : isdigit c = true ∨ c = 45 := by
  cases value with
  | ofNat n => exact Or.inl (isdigit_of_mem_decimal hc)
  | negSucc n =>
      rw [decimal_negSucc, List.mem_cons] at hc
      rcases hc with hc | hc
      · exact Or.inr hc
      · exact Or.inl (isdigit_of_mem_decimal hc)

theorem notMem_decimal {c : UInt8} (hdigit : isdigit c = false) (hminus : c ≠ 45)
    (value : ℤ) : c ∉ decimal value := by
  intro hmem
  rcases isdigit_or_minus_of_mem_decimal hmem with hc | hc
  · rw [hdigit] at hc
    exact absurd hc (by decide)
  · exact hminus hc

/-- A number that fits into a `long` is printed in at most twenty bytes. -/
theorem length_decimal_long {value : ℤ} (hlow : longMin ≤ value)
    (hhigh : value ≤ longMax) : (decimal value).length ≤ 20 := by
  unfold longMin longMax at *
  cases value with
  | ofNat n =>
      have hn : n < 10 ^ 20 := by
        rw [Int.ofNat_eq_natCast] at hhigh
        omega
      exact length_decimal_le (by omega) hn
  | negSucc n =>
      have hn : n + 1 < 10 ^ 19 := by
        rw [Int.negSucc_eq] at hlow
        omega
      rw [decimal_negSucc, List.length_cons]
      have hlen := length_decimal_le (by omega) hn
      omega

theorem toInt_eq_self_iff (size : ℤ) :
    toInt size = size ↔ -2 ^ 31 ≤ size ∧ size ≤ 2 ^ 31 - 1 := by
  unfold toInt
  rw [Int.bmod_eq_iff (by decide)]
  norm_num
  omega

/-- Blanks, a printed number and a byte that ends it. -/
theorem strtol_decimal {blanks : Bytes} (hblanks : ∀ c ∈ blanks, isspace c = true)
    (n : ℕ) {c : UInt8} (hc : isdigit c = false) (rest : Bytes) :
    strtol (blanks ++ (decimal n ++ c :: rest)) = min (n : ℤ) longMax := by
  obtain ⟨first, others, hdecimal⟩ :=
    List.exists_cons_of_ne_nil (decimal_ne_nil n)
  have hfirst : isdigit first = true :=
    isdigit_of_mem_decimal (hdecimal ▸ List.mem_cons_self)
  obtain ⟨hspace, hminus, hplus⟩ := isspace_of_isdigit hfirst
  have hskip : (blanks ++ (decimal n ++ c :: rest)).dropWhile isspace =
      first :: (others ++ c :: rest) := by
    rw [List.dropWhile_append_of_pos hblanks, hdecimal, List.cons_append,
      List.dropWhile_cons_of_neg (by simp [hspace])]
  have hdigits : (first :: (others ++ c :: rest)).takeWhile isdigit =
      decimal n := by
    rw [← List.cons_append, ← hdecimal,
      List.takeWhile_append_of_pos fun d hd => isdigit_of_mem_decimal hd]
    simp [hc]
  unfold strtol
  simp only [hskip, if_neg hminus, if_neg hplus, hdigits, digitsValue_decimal]

end Lith.CString
