import HebrewCorpus.Book.Flat
import HebrewCorpus.Book.LineMap

/-! # Outlines

The outline of a book arranges its headings as a tree: the parent of a heading is the last heading
before it on a higher level that is still open.

* **`OutlineEntry`**, **`Outline`**: the entries of the tree, and the entry of each line.
* **`parents`**: the parent of each heading.
* **`Outline.ofHeadings`**: the outline of a sequence of headings. -/

namespace HebrewCorpus

/-- **An entry of an outline.** -/
structure OutlineEntry where
  id : Int
  book : Int
  parent : Option Int
  text : Text
  level : Int
  lineIndex : Int
  line : Option Int
  hasChildren : Bool
  isLastChild : Bool
  deriving DecidableEq, Repr

/-- **The outline of a book.** -/
structure Outline where
  book : Int
  entries : List OutlineEntry
  /-- The number of each line in the corpus, with its entry. -/
  lineMap : List (Int × Int)
  deriving DecidableEq, Repr

/-- The slots that stay open under a heading of a level: as many as the level says, a negative level
counting back from the deepest slot. -/
def keepOpen (level : Int) (slots : List (Option Int)) : List (Option Int) :=
  slots.take (if level < 0 then slots.length + level else level).toNat

/-- The slots after a heading: empty ones down to its level, then its own. -/
def openSlot (level id : Int) (slots : List (Option Int)) : List (Option Int) :=
  slots ++ List.replicate (level - slots.length).toNat none ++ [some id]

/-- The deepest entry among open slots. -/
def deepest? (slots : List (Option Int)) : Option Int := slots.reverse.findSome? id

/-- **The parents of headings with the given levels**, the first of which has number `id`. Slot
`n` holds the entry open on level `n`. -/
def parentsFrom (slots : List (Option Int)) (id : Int) : List Int → List (Option Int)
  | [] => []
  | level :: levels =>
    -- what was open on the heading's level or below it closes
    let kept := keepOpen level slots
    deepest? kept :: parentsFrom (openSlot level id kept) (id + 1) levels

/-- Whether an entry after the first has the same parent as the first. -/
def repeatsParent (parent : Option Int) (later : List (Option Int)) : Bool := later.elem parent

namespace Outline

/-- The entries of headings with their parents, the first of which has number `id`; `all` holds the
parents of the whole outline. -/
def entriesFrom (book firstLine total : Int) (all : List (Option Int)) (id : Int) :
    List Heading → List (Option Int) → List OutlineEntry
  | h :: hs, parent :: parents =>
    { id, book, parent
      text := h.title
      level := h.level
      lineIndex := h.lineIndex
      line := if h.lineIndex < total then some (firstLine + h.lineIndex) else none
      hasChildren := all.elem (some id)
      isLastChild := !repeatsParent parent parents } ::
        entriesFrom book firstLine total all (id + 1) hs parents
  | _, _ => []

/-- **The outline of a sequence of headings.** Entries are numbered in order from `firstEntry`; the
book's first line has number `firstLine` in the corpus. -/
def ofHeadings (book : Int) (headings : List Heading) (firstLine total firstEntry : Int) : Outline :=
  let parents := parentsFrom [] firstEntry (headings.map (·.level))
  let entries := entriesFrom book firstLine total parents firstEntry headings parents
  ⟨book, entries, mapLines (entries.map fun e => (e.lineIndex, e.id)) firstLine total⟩

end Outline

end HebrewCorpus
