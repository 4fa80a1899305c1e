import HebrewCorpus.Store.Row
import HebrewCorpus.Store.Table

/-! # Databases

A database keeps deliveries as rows of tables. Every delivery is a sequence of row changes. When one
of them is refused the delivery ends there, and the rows changed before it stay unsettled: the next
delivery that succeeds settles them with its own.

* **`RowChange`**, **`Delivery.changes`**: the changes that make up a delivery.
* **`Tables.change?`**: the tables after a change, unless it is refused.
* **`Tables.contents`**: the tables with their names, and the rows as cells of named columns.
* **`Database.deliver`**: the database after one more delivery, and whether that succeeded. -/

namespace HebrewCorpus

/-- **The tables of a database.** -/
structure Tables where
  books : Table BookRow
  lines : Table LineRow
  outlineEntries : Table OutlineRow
  /-- The outline entry of each line. -/
  lineOutlines : Table Int
  overlays : Table OverlayRow
  overlayEntries : Table OverlayEntryRow
  /-- For each line, its entry in each overlay. -/
  lineOverlays : Table (Table Int)
  links : Table Link
  deriving Repr

/-- The tables of a new database. -/
def Tables.empty : Tables := ⟨[], [], [], [], [], [], [], []⟩

/-- **A change of one row.** -/
inductive RowChange
  | book (id : Int) (row : BookRow)
  /-- A line without a number takes the next one. -/
  | line (id : Option Int) (row : LineRow)
  | outlineEntry (id : Int) (row : OutlineRow)
  | lineOutline (line entry : Int)
  | overlay (id : Int) (row : OverlayRow)
  | overlayEntry (id : Int) (row : OverlayEntryRow)
  | lineOverlay (line overlay entry : Int)
  | link (link : Link)
  | overlayMark (book : Int) (value : Bool)
  deriving DecidableEq, Repr

/-- **The changes that make up a delivery**, in order. -/
def Delivery.changes : Delivery → List RowChange
  | .book record => [.book record.id record.row]
  | .lines ls => ls.map fun l => .line l.id l.row
  | .outline o =>
    (o.entries.map fun e => .outlineEntry e.id e.row) ++ o.lineMap.map fun (l, e) => .lineOutline l e
  | .overlay tree =>
    .overlay tree.head.id tree.head.row :: (tree.entries.map fun e => .overlayEntry e.id e.row) ++
      tree.lineMap.map fun (l, e) => .lineOverlay l tree.head.id e
  | .links ls => ls.map .link
  | .overlayMark id value => [.overlayMark id value]

namespace Tables

/-- **The tables after a change.** A book and the entry of a line replace the row with their key; the
other rows must be new. A mark on a book without row changes nothing. -/
def change? (t : Tables) : RowChange → Option Tables
  | .book id row => some { t with books := t.books.put id row }
  | .line id row =>
    (t.lines.insert? (id.getD t.lines.nextKey) row).map fun lines => { t with lines }
  | .outlineEntry id row =>
    (t.outlineEntries.insert? id row).map fun outlineEntries => { t with outlineEntries }
  | .lineOutline line entry => some { t with lineOutlines := t.lineOutlines.put line entry }
  | .overlay id row => (t.overlays.insert? id row).map fun overlays => { t with overlays }
  | .overlayEntry id row =>
    (t.overlayEntries.insert? id row).map fun overlayEntries => { t with overlayEntries }
  | .lineOverlay line overlay entry =>
    let row := (t.lineOverlays.find? line).getD []
    some { t with lineOverlays := t.lineOverlays.put line (row.put overlay entry) }
  | .link link => (t.links.insert? t.links.nextKey link).map fun links => { t with links }
  | .overlayMark book value =>
    match t.books.find? book with
    | some row => some { t with books := t.books.put book { row with hasOverlays := value } }
    | none => some t

/-- The tables after the changes up to the first one that is refused, and whether none was. -/
def applyAll (t : Tables) : List RowChange → Tables × Bool
  | [] => (t, true)
  | change :: changes =>
    match t.change? change with
    | some t => applyAll t changes
    | none => (t, false)

end Tables

/-! ### Contents -/

/-- **A table as it is kept**: its name, the names of its columns, and its rows. -/
structure StoredTable where
  name : Text
  columns : List Text
  rows : List (List Cell)
  deriving DecidableEq, Repr

/-- The table of rows that stand under keys. -/
def StoredTable.keyed {α : Type} (name : String) (columns : List String) (cells : α → List Cell)
    (t : Table α) : StoredTable :=
  ⟨name.toList, columns.map (·.toList), t.map fun (key, row) => .whole key :: cells row⟩

/-- The entries of lines in overlays, one row for each pair. -/
def Table.pairs (t : Table (Table Int)) : List (Int × Int × Int) :=
  t.flatMap fun (line, row) => row.map fun (overlay, entry) => (line, overlay, entry)

/-- **What the tables hold**, as cells of named columns. -/
def Tables.contents (t : Tables) : List StoredTable :=
  [.keyed "book" ["id", "title", "title_en", "categories", "authors", "is_base_book", "total_lines",
      "has_alt_structures"] BookRow.cells t.books,
    .keyed "line" ["id", "book_id", "line_index", "content", "ref", "he_ref"] LineRow.cells t.lines,
    .keyed "toc_entry" ["id", "book_id", "parent_id", "text", "level", "line_id", "has_children",
      "is_last_child"] OutlineRow.cells t.outlineEntries,
    .keyed "line_toc" ["line_id", "toc_entry_id"] (fun entry => [.whole entry]) t.lineOutlines,
    .keyed "alt_toc_structure" ["id", "book_id", "key", "title", "he_title"] OverlayRow.cells
      t.overlays,
    .keyed "alt_toc_entry" ["id", "structure_id", "parent_id", "text", "level", "line_id",
      "has_children", "is_last_child"] OverlayEntryRow.cells t.overlayEntries,
    ⟨"line_alt_toc".toList, ["line_id", "structure_id", "alt_toc_entry_id"].map (·.toList),
      t.lineOverlays.pairs.map fun (line, overlay, entry) =>
        [.whole line, .whole overlay, .whole entry]⟩,
    .keyed "link" ["id", "source_book_id", "source_line_id", "target_book_id", "target_line_id",
      "connection_type"] Link.cells t.links]

/-- **A database**: its tables as they are, and as they were settled last. -/
structure Database where
  current : Tables
  settled : Tables
  deriving Repr

namespace Database

/-- A new database. -/
def empty : Database := ⟨.empty, .empty⟩

/-- **The database after one more delivery**, and whether that succeeded. -/
def deliver (db : Database) (d : Delivery) : Database × Bool :=
  match db.current.applyAll d.changes with
  | (t, true) => (⟨t, t⟩, true)
  -- what was changed before the refusal stays, unsettled
  | (t, false) => (⟨t, db.settled⟩, false)

end Database

end HebrewCorpus
