import HebrewCorpus.Numeral.Decimal
import HebrewCorpus.Proofs.Text.Digit

/-! # Decimal numerals among other text

A numeral is read again where it was written, if it is short enough to be read at all.

* **`readNumeral_decimalNat`**: a number is read from its numeral.
* **`colon_not_mem_decimalNat`**: numbers that are joined by colons can be told apart.
* **`decimal_injective`**: so can numbers below zero and others.
* **`length_decimalNat_half_le`**: the leaf of a side has no more digits than the side. -/

namespace HebrewCorpus

open Text

/-- A number holds no colon. -/
theorem colon_not_mem_decimalNat (n : Nat) : ':' ∉ decimalNat n :=
  fun hc => absurd (isDigit_of_mem_decimalNat hc) (by decide)

/-- **Different whole numbers have different numerals.** -/
theorem decimal_injective {m n : Int} (h : decimal m = decimal n) : m = n := by
  -- the hyphen of a negative number is no digit
  have hyphen (n : Nat) (s : Text) : decimalNat n ≠ '-' :: s := by
    intro hn
    exact absurd (isDigit_of_mem_decimalNat (hn ▸ List.mem_cons_self)) (by decide)
  cases m with
  | ofNat m =>
    cases n with
    | ofNat n => rw [decimalNat_injective h]
    | negSucc n => exact absurd h (hyphen m _)
  | negSucc m =>
    cases n with
    | ofNat n => exact absurd h.symm (hyphen n _)
    | negSucc n =>
      injection h with _ h
      rw [Nat.succ.inj (decimalNat_injective h)]

/-- The digits of a numeral are decimal digits, all of them. -/
theorem all_isDecimalDigit_decimalNat (n : Nat) : (decimalNat n).all isDecimalDigit = true :=
  List.all_eq_true.2 fun _ hc => isDecimalDigit_of_mem_decimalNat hc

/-- A numeral is left alone, whatever is trimmed away, unless digits are. -/
theorem trimWhere_decimalNat {p : Char → Bool} (hp : ∀ c, c.isDigit = true → p c = false) (n : Nat) :
    trimWhere p (decimalNat n) = decimalNat n := by
  have hkeep {s : Text} (hs : ∀ c ∈ s, c.isDigit = true) : s.dropWhile p = s := by
    cases s with
    | nil => rfl
    | cons c s => exact List.dropWhile_cons_of_neg (by simp [hp c (hs c List.mem_cons_self)])
  have hdigits : ∀ c ∈ decimalNat n, c.isDigit = true := fun c hc => isDigit_of_mem_decimalNat hc
  rw [trimWhere, hkeep hdigits, hkeep fun c hc => hdigits c (List.mem_reverse.1 hc),
    List.reverse_reverse]

/-- A digit is a digit sign. -/
theorem isDigitSign_of_isDigit {c : Char} (h : c.isDigit = true) : isDigitSign c = true := by
  simp [isDigitSign, isDecimalDigit, digitValue?_of_isDigit h]

/-- **A number of at most `maxDigits` digits is read from its numeral**, where white space is
allowed around it too. -/
theorem readNumeral_decimalNat {n : Nat} (h : (decimalNat n).length ≤ maxDigits) :
    readNumeral (decimalNat n) = .ok n := by
  have hblank (c : Char) (hc : c.isDigit = true) : isNumeralBlank c = false := by
    rw [isNumeralBlank, isBlankChar_of_isDigitSign (isDigitSign_of_isDigit hc), Bool.false_and]
  rw [readNumeral, trimWhere_decimalNat hblank, all_isDecimalDigit_decimalNat]
  simp [decimalNat_ne_nil, readDigits_decimalNat h]

/-- Half of a number has no more digits than the number. -/
theorem length_decimalNat_half_le {n : Nat} (h : (decimalNat n).length ≤ maxDigits) :
    (decimalNat (n / 2)).length ≤ maxDigits := by
  have hpos : 0 < maxDigits := by decide
  rw [decimalNat, Nat.length_toDigits_le_iff (by decide) hpos] at h ⊢
  exact Nat.lt_of_le_of_lt (Nat.div_le_self n 2) h

end HebrewCorpus
