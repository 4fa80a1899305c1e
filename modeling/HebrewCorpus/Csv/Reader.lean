import HebrewCorpus.Text.Basic

/-! # Comma-separated values

A table is written line by line, with commas between the fields of a record. A field that starts with
a quotation mark reads on to the next single one, over commas and line ends; inside it two marks
stand for one. Text after the closing mark belongs to the field, and a field that is never closed
reads on to the end. The text is read one character at a time.

* **`Csv.Reader.feed`**: the reader after one more character.
* **`Csv.readRecords`**: the records of a text, up to the first fault.
* **`CsvFault`**: why reading ends early. -/

namespace HebrewCorpus

/-- Why a table cannot be read to its end. -/
inductive CsvFault
  /-- A field has more characters than are read. -/
  | fieldTooLong
  /-- A carriage return stands inside a line. -/
  | strayReturn
  deriving DecidableEq, Repr

namespace Csv

/-- The greatest number of characters of a field that is read. -/
def maxFieldLength : Nat := 131072

/-- Where the reader stands. -/
inductive Mode
  | recordStart
  | fieldStart
  | plain
  | quoted
  /-- After a quotation mark in a quoted field: its end, or the first of two marks. -/
  | afterQuote
  | lineEnd
  | failed (fault : CsvFault)
  deriving DecidableEq, Repr

/-- **The reader of a table**: where it stands, the field and the record being read, and the records
that are complete, each the last part first. -/
structure Reader where
  mode : Mode
  field : Text
  fieldLength : Nat
  fields : List Text
  records : List (List Text)

namespace Reader

/-- The reader before the first character. -/
def start : Reader := ⟨.recordStart, [], 0, [], []⟩

/-- A line feed or a carriage return. -/
def isLineEnd (c : Char) : Bool := c = '\n' || c = '\r'

/-- The reader after the end of a field. -/
def endField (r : Reader) (mode : Mode) : Reader :=
  { r with mode, field := [], fieldLength := 0, fields := r.field.reverse :: r.fields }

/-- The reader after the end of a record. -/
def endRecord (r : Reader) : Reader :=
  { r with mode := .recordStart, fields := [], records := r.fields.reverse :: r.records }

/-- The reader after a character of a field. -/
def push (r : Reader) (c : Char) (mode : Mode) : Reader :=
  if maxFieldLength ≤ r.fieldLength then { r with mode := .failed .fieldTooLong }
  else { r with mode, field := c :: r.field, fieldLength := r.fieldLength + 1 }

/-- The reader after the first character of a field. -/
def openField (r : Reader) (c : Char) : Reader :=
  if isLineEnd c then r.endField .lineEnd
  else if c = '"' then { r with mode := .quoted }
  else if c = ',' then r.endField .fieldStart
  else r.push c .plain

/-- The reader after a character within a line. -/
def step (r : Reader) (c : Char) : Reader :=
  match r.mode with
  | .recordStart => if isLineEnd c then { r with mode := .lineEnd } else r.openField c
  | .fieldStart => r.openField c
  | .plain =>
    if isLineEnd c then r.endField .lineEnd
    else if c = ',' then r.endField .fieldStart
    else r.push c .plain
  | .quoted => if c = '"' then { r with mode := .afterQuote } else r.push c .quoted
  | .afterQuote =>
    if c = '"' then r.push c .quoted
    else if isLineEnd c then r.endField .lineEnd
    else if c = ',' then r.endField .fieldStart
    else r.push c .plain
  | .lineEnd => if isLineEnd c then r else { r with mode := .failed .strayReturn }
  | .failed _ => r

/-- The reader after the end of a line; a quoted field reads on. -/
def endLine (r : Reader) : Reader :=
  match r.mode with
  | .recordStart | .lineEnd => r.endRecord
  | .fieldStart | .plain | .afterQuote => (r.endField .lineEnd).endRecord
  | .quoted | .failed _ => r

/-- **The reader after one more character.** A line feed ends its line. -/
def feed (r : Reader) (c : Char) : Reader := if c = '\n' then (r.step c).endLine else r.step c

/-- The reader after the last character. A quoted field that is still open ends here. -/
def finish (r : Reader) (last : Option Char) : Reader :=
  -- a last line without line feed ends here too
  let r := if last.isNone || last = some '\n' then r else r.endLine
  match r.mode with
  | .quoted => (r.endField .lineEnd).endRecord
  | _ => r

end Reader

/-- **The records of a text**, and the fault at which reading ended early. -/
def readRecords (s : Text) : List (List Text) × Option CsvFault :=
  let r := (s.foldl Reader.feed .start).finish s.getLast?
  (r.records.reverse, match r.mode with
    | .failed fault => some fault
    | _ => none)

end Csv

end HebrewCorpus
