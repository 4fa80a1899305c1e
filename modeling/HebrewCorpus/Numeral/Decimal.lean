import HebrewCorpus.Text.Blank
import HebrewCorpus.Text.Digit

/-! # Decimal numerals

* **`decimal`**: a whole number in decimal digits.
* **`readDigits`**, **`readNumeral`**: the number of a run of decimal digits of any script, the
  second with white space around it. A numeral longer than `maxDigits` is refused.
* **`NumeralFault`**: why a number cannot be read or written as asked. -/

namespace HebrewCorpus

/-- Why a numeral or an address has no value. -/
inductive NumeralFault
  /-- The numeral has more digits than are read or written. -/
  | tooLong
  /-- Some sign of the numeral is no decimal digit. -/
  | notDecimal
  /-- A page side is asked for before the first one. -/
  | positionBelowOne (position : Int)
  deriving DecidableEq, Repr

/-- The greatest number of digits of a numeral that is read or written. -/
def maxDigits : Nat := 4300

/-- The decimal digits of a natural number. -/
def decimalNat (n : Nat) : Text := Nat.toDigits 10 n

/-- **A whole number in decimal digits**, with a hyphen in front when it is negative. -/
def decimal : Int → Text
  | .ofNat n => decimalNat n
  | .negSucc n => '-' :: decimalNat (n + 1)

/-- Whether a whole number has too many digits to be written; a hyphen is not counted. -/
def isTooLong (n : Int) : Bool := maxDigits < (decimalNat n.natAbs).length

/-- The value of a run of decimal digits. -/
def digitsValue (s : Text) : Nat := s.foldl (fun n c => 10 * n + (Text.digitValue? c).getD 0) 0

/-- The number of a run of decimal digits. -/
def readDigits (s : Text) : Except NumeralFault Nat :=
  if maxDigits < s.length then .error .tooLong else .ok (digitsValue s)

/-- White space that may stand around a numeral: all but the four information separators. -/
def isNumeralBlank (c : Char) : Bool :=
  Text.isBlankChar c && !(0x1c ≤ c.toNat && c.toNat ≤ 0x1f)

/-- The number of a numeral with white space around it. -/
def readNumeral (s : Text) : Except NumeralFault Nat :=
  let digits := Text.trimWhere isNumeralBlank s
  if digits.isEmpty || !digits.all Text.isDecimalDigit then .error .notDecimal else readDigits digits

@[simp] theorem decimal_natCast (n : Nat) : decimal n = decimalNat n := rfl

/-- A number that is written with few characters has few digits. -/
theorem isTooLong_eq_false {n : Int} (h : (decimal n).length ≤ maxDigits) : isTooLong n = false := by
  have hdigits : (decimalNat n.natAbs).length ≤ (decimal n).length := by
    cases n with
    | ofNat n => exact Nat.le_refl _
    | negSucc n => exact Nat.le_succ _
  exact decide_eq_false (Nat.not_lt.2 (Nat.le_trans hdigits h))

/-- A numeral has at least one digit. -/
theorem decimalNat_ne_nil (n : Nat) : decimalNat n ≠ [] := Nat.toDigits_ne_nil

/-- A numeral is written with ASCII digits alone. -/
theorem isDigit_of_mem_decimalNat {n : Nat} {c : Char} (h : c ∈ decimalNat n) : c.isDigit = true :=
  Nat.isDigit_of_mem_toDigits (by decide) (by decide) h

/-- The digits of a numeral are decimal digits. -/
theorem isDecimalDigit_of_mem_decimalNat {n : Nat} {c : Char} (h : c ∈ decimalNat n) :
    Text.isDecimalDigit c = true := by
  simp [Text.isDecimalDigit, Text.digitValue?_of_isDigit (isDigit_of_mem_decimalNat h)]

/-- **Reading undoes writing**: the digits of a number have that number as value. -/
@[simp] theorem digitsValue_decimalNat (n : Nat) : digitsValue (decimalNat n) = n := by
  have go (s : Text) (hs : ∀ c ∈ s, c.isDigit = true) (acc : Nat) :
      s.foldl (fun n c => 10 * n + (Text.digitValue? c).getD 0) acc = Nat.ofDigitChars 10 s acc := by
    induction s generalizing acc with
    | nil => rfl
    | cons c s ih =>
      rw [List.foldl_cons, Nat.ofDigitChars_cons, ih (fun c hc => hs c (by simp [hc])),
        Text.digitValue?_of_isDigit (hs c (by simp))]
      rfl
  unfold digitsValue
  rw [go _ (fun c hc => isDigit_of_mem_decimalNat hc)]
  exact Nat.ofDigitChars_ten_toDigits

/-- Different numbers have different numerals. -/
theorem decimalNat_injective {m n : Nat} (h : decimalNat m = decimalNat n) : m = n := by
  rw [← digitsValue_decimalNat m, h, digitsValue_decimalNat]

/-- A number of at most `maxDigits` digits is read back from its numeral. -/
theorem readDigits_decimalNat {n : Nat} (h : (decimalNat n).length ≤ maxDigits) :
    readDigits (decimalNat n) = .ok n := by
  simp [readDigits, Nat.not_lt.2 h]

end HebrewCorpus
