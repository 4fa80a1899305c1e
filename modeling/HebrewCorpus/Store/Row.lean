import HebrewCorpus.Json.Writer
import HebrewCorpus.Store.Delivery

/-! # Rows

A database keeps what is delivered as rows of cells. A row leaves out the number that it stands under,
and the rows of entries leave out the index of the entry's line, of which they keep the number.

* **`BookRow`**, **`LineRow`**, **`OutlineRow`**, **`OverlayRow`**, **`OverlayEntryRow`**: what is kept
  of a record; a link is kept as it is.
* **`BookRecord.row`** and its companions: the row of a record.
* **`Cell`**: a value in a column; **`BookRow.cells`** and its companions give those of a row. -/

namespace HebrewCorpus

/-! ### Cells -/

/-- **A value in a column.** -/
inductive Cell
  | null
  | whole (value : Int)
  | text (value : Text)
  deriving DecidableEq, Repr

namespace Cell

/-- A truth value as one or zero. -/
def flag (b : Bool) : Cell := .whole (if b then 1 else 0)

/-- A whole number, or null when there is none. -/
def optionalWhole (n : Option Int) : Cell := (n.map whole).getD .null

/-- A text, or null when there is none. -/
def optionalText (s : Option Text) : Cell := (s.map text).getD .null

/-- A list of texts, as the JSON text of an array. -/
def texts (ss : List Text) : Cell := .text (Json.array (ss.map .text)).render

end Cell

/-! ### Books -/

/-- **What is kept of a book.** -/
structure BookRow where
  title : Text
  titleEn : Text
  categories : List Text
  authors : List Text
  isBase : Bool
  lineCount : Int
  hasOverlays : Bool
  deriving DecidableEq, Repr

/-- The row of a book. -/
def BookRecord.row (b : BookRecord) : BookRow :=
  ⟨b.title, b.titleEn, b.categories, b.authors, b.isBase, b.lineCount, b.hasOverlays⟩

/-- The cells of a book. -/
def BookRow.cells (b : BookRow) : List Cell :=
  [.text b.title, .text b.titleEn, .texts b.categories, .texts b.authors, .flag b.isBase,
    .whole b.lineCount, .flag b.hasOverlays]

/-! ### Lines -/

/-- **What is kept of a line.** -/
structure LineRow where
  book : Int
  index : Int
  content : Text
  ref : Option Text
  heRef : Option Text
  deriving DecidableEq, Repr

/-- The row of a line. -/
def Line.row (l : Line) : LineRow := ⟨l.book, l.index, l.content, l.ref, l.heRef⟩

/-- The cells of a line. -/
def LineRow.cells (l : LineRow) : List Cell :=
  [.whole l.book, .whole l.index, .text l.content, .optionalText l.ref, .optionalText l.heRef]

/-! ### Entries and overlays -/

/-- What is kept of an entry, of an outline as of an overlay. -/
structure EntryRow where
  parent : Option Int
  text : Text
  level : Int
  line : Option Int
  hasChildren : Bool
  isLastChild : Bool
  deriving DecidableEq, Repr

/-- The cells of an entry. -/
def EntryRow.cells (e : EntryRow) : List Cell :=
  [.optionalWhole e.parent, .text e.text, .whole e.level, .optionalWhole e.line,
    .flag e.hasChildren, .flag e.isLastChild]

/-- **What is kept of an entry of an outline.** -/
structure OutlineRow extends EntryRow where
  book : Int
  deriving DecidableEq, Repr

/-- The row of an entry of an outline. -/
def OutlineEntry.row (e : OutlineEntry) : OutlineRow :=
  ⟨⟨e.parent, e.text, e.level, e.line, e.hasChildren, e.isLastChild⟩, e.book⟩

/-- The cells of an entry of an outline. -/
def OutlineRow.cells (e : OutlineRow) : List Cell := .whole e.book :: e.toEntryRow.cells

/-- **What is kept of an entry of an overlay.** -/
structure OverlayEntryRow extends EntryRow where
  overlay : Int
  deriving DecidableEq, Repr

/-- The row of an entry of an overlay. -/
def OverlayEntry.row (e : OverlayEntry) : OverlayEntryRow :=
  ⟨⟨e.parent, e.text, e.level, e.line, e.hasChildren, e.isLastChild⟩, e.overlay⟩

/-- The cells of an entry of an overlay. -/
def OverlayEntryRow.cells (e : OverlayEntryRow) : List Cell := .whole e.overlay :: e.toEntryRow.cells

/-- **What is kept of an overlay.** -/
structure OverlayRow where
  book : Int
  key : Text
  title : Option Text
  heTitle : Option Text
  deriving DecidableEq, Repr

/-- The row of an overlay. -/
def OverlayHead.row (h : OverlayHead) : OverlayRow := ⟨h.book, h.key, h.title, h.heTitle⟩

/-- The cells of an overlay. -/
def OverlayRow.cells (h : OverlayRow) : List Cell :=
  [.whole h.book, .text h.key, .optionalText h.title, .optionalText h.heTitle]

/-! ### Links -/

/-- The cells of a link. -/
def Link.cells (l : Link) : List Cell :=
  [.whole l.sourceBook, .whole l.sourceLine, .whole l.targetBook, .whole l.targetLine,
    .text l.kind.name]

end HebrewCorpus
