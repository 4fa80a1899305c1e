import HebrewCorpus.Csv.Reader
import HebrewCorpus.Link.Basic
import HebrewCorpus.Text.Blank

/-! # Link files

A link file is a table whose first record names the columns. Two columns hold citations and a third,
which may be missing, a label.

* **`LinkColumns.of?`**: the places of these columns.
* **`readLinks`**: the links of a file. -/

namespace HebrewCorpus

/-- The names of the two columns with citations. -/
def citationColumns : Text × Text := ("Citation 1".toList, "Citation 2".toList)

/-- The names that the column with labels may have, the first choice first. -/
def labelColumns : List Text := ["Conection Type".toList, "Connection Type".toList]

/-- The quotation marks that may stand around a cell. -/
def isCellQuote (c : Char) : Bool := c = '"' || c = '\''

/-- The name of a column, without what stands around it. -/
def columnName (cell : Text) : Text := Text.trimWhere isCellQuote (Text.trim cell)

/-- The text of a cell, without what stands around it and with single spaces between its words. -/
def cleanCell (cell : Text) : Text := Text.squeeze (columnName cell)

/-- The text of a record's cell; a record that ends before it has an empty one. -/
def cellAt (record : List Text) (i : Nat) : Text := (record[i]?.map cleanCell).getD []

/-- **The places of the columns** of a link file. -/
structure LinkColumns where
  first : Nat
  second : Nat
  label : Option Nat
  deriving DecidableEq, Repr

namespace LinkColumns

/-- The places of the columns that a header names, when it names both citations. -/
def of? (header : List Text) : Option LinkColumns := do
  let names := header.map columnName
  let first ← names.idxOf? citationColumns.1
  let second ← names.idxOf? citationColumns.2
  return ⟨first, second, labelColumns.findSome? names.idxOf?⟩

/-- The link of a record, when both its citations are there. -/
def link? (columns : LinkColumns) (record : List Text) : Option RawLink :=
  let first := cellAt record columns.first
  let second := cellAt record columns.second
  if first.isEmpty || second.isEmpty then none
  else some ⟨first, second, (columns.label.map (cellAt record)).getD []⟩

end LinkColumns

/-- **The links of a link file.** A file without the columns of citations has none, whatever comes
after its first record. -/
def readLinks (s : Text) : Except CsvFault (List RawLink) :=
  match Csv.readRecords s with
  | ([], some fault) => .error fault
  | ([], none) => .ok []
  | (header :: records, fault) =>
    match LinkColumns.of? header, fault with
    | none, _ => .ok []
    | some _, some fault => .error fault
    | some columns, none => .ok (records.filterMap columns.link?)

end HebrewCorpus
