import HebrewCorpus.Text.Basic

/-! # Digits

Two classes of characters count as digits. A *decimal digit* has a value from 0 to 9 and may stand
in a numeral; every script's ten decimal digits are neighbours in ascending order. A *digit sign*
also covers superscripts, circled figures and their kin, which look like digits but make no numeral.

* **`Text.digitValue? c`**: the value of a decimal digit.
* **`Text.isDecimalDigit`**, **`Text.isDigitSign`**: the two classes, the first within the second. -/

namespace HebrewCorpus.Text

/-- The zeros of the scripts that have decimal digits; the nine after each are its other digits. -/
def digitZeros : List Nat :=
  [0x30, 0x660, 0x6f0, 0x7c0, 0x966, 0x9e6, 0xa66, 0xae6, 0xb66, 0xbe6, 0xc66, 0xce6, 0xd66,
    0xde6, 0xe50, 0xed0, 0xf20, 0x1040, 0x1090, 0x17e0, 0x1810, 0x1946, 0x19d0, 0x1a80, 0x1a90,
    0x1b50, 0x1bb0, 0x1c40, 0x1c50, 0xa620, 0xa8d0, 0xa900, 0xa9d0, 0xa9f0, 0xaa50, 0xabf0,
    0xff10, 0x104a0, 0x10d30, 0x11066, 0x110f0, 0x11136, 0x111d0, 0x112f0, 0x11450, 0x114d0,
    0x11650, 0x116c0, 0x11730, 0x118e0, 0x11950, 0x11c50, 0x11d50, 0x11da0, 0x16a60, 0x16ac0,
    0x16b50, 0x1d7ce, 0x1d7d8, 0x1d7e2, 0x1d7ec, 0x1d7f6, 0x1e140, 0x1e2f0, 0x1e950, 0x1fbf0]

/-- The digit signs that are no decimal digits: superscripts, subscripts, circled and bracketed
figures. -/
def figureRanges : List (Nat × Nat) :=
  [(0xb2, 0xb3), (0xb9, 0xb9), (0x1369, 0x1371), (0x19da, 0x19da), (0x2070, 0x2070),
    (0x2074, 0x2079), (0x2080, 0x2089), (0x2460, 0x2468), (0x2474, 0x247c), (0x2488, 0x2490),
    (0x24ea, 0x24ea), (0x24f5, 0x24fd), (0x24ff, 0x24ff), (0x2776, 0x277e), (0x2780, 0x2788),
    (0x278a, 0x2792), (0x10a40, 0x10a43), (0x10e60, 0x10e68), (0x11052, 0x1105a),
    (0x1f100, 0x1f10a)]

/-- The value of a code point among the digits that start at the given zeros, in ascending order. -/
def valueAmong : (zeros : List Nat) → (code : Nat) → Option Nat
  | [], _ => none
  | first :: zeros, code =>
    if code < first then none
    else if code ≤ first + 9 then some (code - first)
    else valueAmong zeros code

/-- The value of a decimal digit of any script. -/
def digitValue? (c : Char) : Option Nat := valueAmong digitZeros c.toNat

/-- A decimal digit of any script. -/
def isDecimalDigit (c : Char) : Bool := (digitValue? c).isSome

/-- A decimal digit, or another sign that stands for a digit. -/
def isDigitSign (c : Char) : Bool := isDecimalDigit c || inRanges figureRanges c.toNat

/-- The ASCII digits are decimal digits and have their own values. -/
theorem digitValue?_of_isDigit {c : Char} (h : c.isDigit = true) :
    digitValue? c = some (c.toNat - 48) := by
  have h₁ : 48 ≤ c.toNat ∧ c.toNat ≤ 57 := by
    unfold Char.isDigit at h
    simp only [Bool.and_eq_true, decide_eq_true_eq] at h
    exact ⟨UInt32.le_iff_toNat_le.1 h.1, UInt32.le_iff_toNat_le.1 h.2⟩
  unfold digitValue? digitZeros valueAmong
  rw [if_neg (by omega), if_pos (by omega)]

end HebrewCorpus.Text
