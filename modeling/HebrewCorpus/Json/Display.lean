import HebrewCorpus.Json.Basic
import HebrewCorpus.Text.Printable

/-! # Values in running text

A value that stands where a text is expected is shown rather than refused: numbers in digits, words
for the constants, lists and tables in brackets with their texts in quotes.

* **`Json.display`**: the text that stands for a value; a text stands for itself.
* **`Json.displayPart`**: a value inside brackets. -/

namespace HebrewCorpus.Json

/-- A number in hexadecimal digits with zeros in front up to a width. -/
def hexPadded (width n : Nat) : Text :=
  let digits := Nat.toDigits 16 n
  List.replicate (width - digits.length) '0' ++ digits

/-- A character inside quotes; `quote` is the quote in use. -/
def displayChar (quote c : Char) : Text :=
  if c = quote ∨ c = '\\' then ['\\', c]
  else if c = '\n' then ['\\', 'n']
  else if c = '\r' then ['\\', 'r']
  else if c = '\t' then ['\\', 't']
  else if Text.isPrintable c then [c]
  else if c.toNat < 0x100 then '\\' :: 'x' :: hexPadded 2 c.toNat
  else if c.toNat < 0x10000 then '\\' :: 'u' :: hexPadded 4 c.toNat
  else '\\' :: 'U' :: hexPadded 8 c.toNat

/-- A text in quotes: single ones, or double ones when that saves escaping. -/
def displayQuoted (s : Text) : Text :=
  let quote := if s.elem '\'' && !s.elem '"' then '"' else '\''
  quote :: s.flatMap (displayChar quote) ++ [quote]

mutual

/-- A value inside brackets. -/
def displayPart : Json → Text
  | .null => "None".toList
  | .bool true => "True".toList
  | .bool false => "False".toList
  | .int n => decimal n
  | .real x => x.text
  | .text s => displayQuoted s
  | .array items => '[' :: Text.joinWith ", ".toList (displayItems items) ++ [']']
  | .object members => '\x7b' :: Text.joinWith ", ".toList (displayMembers members) ++ ['\x7d']

/-- The items of an array inside brackets. -/
def displayItems : List Json → List Text
  | [] => []
  | item :: items => displayPart item :: displayItems items

/-- The members of an object inside brackets. -/
def displayMembers : List (Text × Json) → List Text
  | [] => []
  | (key, value) :: members =>
    (displayQuoted key ++ ": ".toList ++ displayPart value) :: displayMembers members

end

/-- **The text that stands for a value.** -/
def display : Json → Text
  | .text s => s
  | value => displayPart value

end HebrewCorpus.Json
