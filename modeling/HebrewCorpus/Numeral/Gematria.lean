import HebrewCorpus.Numeral.Decimal

/-! # Hebrew numerals

A number is written in groups below a thousand, the highest first, with a space between groups.
Inside a group the letters stand for hundreds, tens and units in descending order; the hundreds
repeat as needed. Fifteen and sixteen are written nine and six, nine and seven.

* **`gematria`**: the Hebrew numeral of a number; numbers below one keep their decimal digits.
* **`gematriaGroup`**: the letters of a number below a thousand. -/

namespace HebrewCorpus

/-- The letters for hundreds, the greatest value first. -/
def hundredLetters : List (Nat × Char) := [(400, 'ת'), (300, 'ש'), (200, 'ר'), (100, 'ק')]

/-- The letters for tens and units, the greatest value first. -/
def tensAndUnitLetters : List (Nat × Char) :=
  [(90, 'צ'), (80, 'פ'), (70, 'ע'), (60, 'ס'), (50, 'נ'), (40, 'מ'), (30, 'ל'), (20, 'כ'), (10, 'י'),
    (9, 'ט'), (8, 'ח'), (7, 'ז'), (6, 'ו'), (5, 'ה'), (4, 'ד'), (3, 'ג'), (2, 'ב'), (1, 'א')]

/-- The letters of a number by the greatest values first, each repeated as often as it fits. -/
def spell : List (Nat × Char) → Nat → Text
  | [], _ => []
  | (value, letter) :: letters, n => List.replicate (n / value) letter ++ spell letters (n % value)

/-- The letters of a number below a hundred. Fifteen and sixteen avoid the spellings that would
write a divine name. -/
def spellTens : Nat → Text
  | 15 => ['ט', 'ו']
  | 16 => ['ט', 'ז']
  | n => spell tensAndUnitLetters n

/-- The letters of a number below a thousand. -/
def gematriaGroup (n : Nat) : Text := spell hundredLetters n ++ spellTens (n % 100)

/-- The groups of a number, the highest first; each stands for one digit in base thousand. -/
def gematriaGroups (n : Nat) : List Text :=
  if n < 1000 then [gematriaGroup n] else gematriaGroups (n / 1000) ++ [gematriaGroup (n % 1000)]
termination_by n
decreasing_by omega

/-- **The Hebrew numeral of a number.** -/
def gematria (n : Int) : Text :=
  if n ≤ 0 then decimal n else Text.joinWith [' '] (gematriaGroups n.toNat)

end HebrewCorpus
