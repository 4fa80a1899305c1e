import HebrewCorpus.Record.Fault
import HebrewCorpus.Text.Blank

/-! # Fields of records

How a field of each type is read from a JSON value, and how a field is found in a record.

* **`readText`**, **`readWhole`**, **`readTruth`**, **`readList`**, **`readOptional`**: the values of
  a field's type. Whole numbers and truth values are also read from texts and from each other.
* **`Fields.required`**, **`Fields.withDefault`**: a named field of a record; fields that a record
  does not know are passed over. -/

namespace HebrewCorpus

/-- A text. -/
def readText : Json → Checked Text
  | .text s => .ok s
  | _ => .fault .notText

/-- A text of a whole number without the sign of its first digit: underscores may stand singly
between digits. -/
def ungroupDigits (s : Text) : Text :=
  let parts := s.splitOn '_'
  if parts.any List.isEmpty then s else parts.flatten

/-- The text of a number without a fraction of zeros. -/
def dropZeroFraction (s : Text) : Text :=
  match Text.cutAt '.' s with
  | (whole, some fraction) => if fraction.all (· = '0') then whole else s
  | _ => s

/-- The whole number of a text with white space around it. -/
def readWholeText (s : Text) : Checked Int :=
  let s := Text.trimWhere isNumeralBlank s
  if maxDigits < s.length then .fault .numeralTooLong
  else
    let (negative, s) := match s with
      | '-' :: t => (true, t)
      | '+' :: t => (false, t)
      | t => (false, t)
    let digits := ungroupDigits (dropZeroFraction s)
    if digits.isEmpty || !digits.all Char.isDigit then .fault .notNumeral
    else
      let n : Int := digitsValue digits
      .ok (if negative then -n else n)

/-- A whole number, also from a text, a truth value, or a number without fraction. -/
def readWhole : Json → Checked Int
  | .int n => .ok n
  | .bool b => .ok (if b then 1 else 0)
  | .text s => readWholeText s
  | .real (.finite sign m e) =>
    match Binary64.toInt? (.finite sign m e) with
    | some n => .ok n
    | none => .fault .fractional
  | .real _ => .fault .notFinite
  | _ => .fault .notWhole

/-- The texts that stand for true. -/
def trueWords : List Text := ["1", "on", "t", "true", "y", "yes"].map String.toList

/-- The texts that stand for false. -/
def falseWords : List Text := ["0", "off", "f", "false", "n", "no"].map String.toList

/-- A truth value, also from one of its words or from the numbers one and zero. -/
def readTruth : Json → Checked Bool
  | .bool b => .ok b
  | .int 1 => .ok true
  | .int 0 => .ok false
  | .int _ => .fault .unclearTruth
  | .text s =>
    let word := s.map Char.toLower
    if word ∈ trueWords then .ok true
    else if word ∈ falseWords then .ok false
    else .fault .unclearTruth
  | .real x =>
    match x.toInt? with
    | some 1 => .ok true
    | some 0 => .ok false
    | _ => .fault .unclearTruth
  | _ => .fault .notTruth

/-- A list whose items are all of one type. -/
def readList {α : Type} (read : Json → Checked α) : Json → Checked (List α)
  | .array items => .all 0 (items.map read)
  | _ => .fault .notList

/-- A value that may be null. -/
def readOptional {α : Type} (read : Json → Checked α) : Json → Checked (Option α)
  | .null => .ok none
  | value => (read value).map some

/-- The fields of a record. -/
abbrev Fields := List (Text × Json)

namespace Fields

/-- A field that must be there. -/
def required {α : Type} (fields : Fields) (name : String) (read : Json → Checked α) : Checked α :=
  match fields.lookup name.toList with
  | some value => (read value).within name.toList
  | none => (Checked.fault .missing).within name.toList

/-- A field with a value to take when it is not there. -/
def withDefault {α : Type} (fields : Fields) (name : String) (read : Json → Checked α)
    (default : α) : Checked α :=
  match fields.lookup name.toList with
  | some value => (read value).within name.toList
  | none => .ok default

end Fields

/-- A record of any object; other values are no record. -/
def readRecord {α : Type} (read : Fields → Checked α) : Json → Checked α
  | .object fields => read fields
  | _ => .fault .notRecord

end HebrewCorpus
