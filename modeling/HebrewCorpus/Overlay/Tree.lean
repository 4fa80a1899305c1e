import HebrewCorpus.Book.LineMap
import HebrewCorpus.Overlay.Branch
import HebrewCorpus.Settings.Basic

/-! # Overlay trees

A placed overlay is handed on as a list of entries. They are numbered in the order of the branches,
every entry before those below it.

* **`OverlayEntry`**, **`OverlayTree`**: the entries of a placed overlay, and the entry of each line.
* **`entriesOf`**, **`entriesBelow`**: the entries of a branch, and of neighbours.
* **`OverlayTree.build`**: the placed overlay of a book.
* **`OverlayTree.rebased`**: the same with numbers that are unique in the corpus. -/

namespace HebrewCorpus

/-- **An entry of a placed overlay.** -/
structure OverlayEntry where
  id : Int
  /-- The number of the overlay. -/
  overlay : Int
  parent : Option Int
  text : Text
  level : Int
  line : Option Int
  lineIndex : Option Int
  hasChildren : Bool
  isLastChild : Bool
  deriving DecidableEq, Repr

/-- The number and the names of a placed overlay, and its book. -/
structure OverlayHead where
  id : Int
  book : Int
  key : Text
  title : Option Text
  heTitle : Option Text
  deriving DecidableEq, Repr

/-- **A placed overlay.** -/
structure OverlayTree where
  head : OverlayHead
  entries : List OverlayEntry
  /-- The number of each line in the corpus, with its entry. -/
  lineMap : List (Int × Int)
  deriving DecidableEq, Repr

mutual

/-- The number of entries of a branch. -/
def Branch.size : Branch → Nat
  | .branch _ _ below => sizes below + 1

/-- The number of entries of a list of branches. -/
def Branch.sizes : List Branch → Nat
  | [] => 0
  | first :: rest => size first + sizes rest

end

mutual

/-- **The entries of a branch**, the first of which has number `id`. -/
def entriesOf (level : Nat) (parent : Option Int) (isLast : Bool) (id : Int) :
    Branch → List OverlayEntry
  | .branch text target below =>
    { id, overlay := 0, parent, text, level
      line := some target.line
      lineIndex := some target.index
      hasChildren := !below.isEmpty
      isLastChild := isLast } :: entriesBelow (level + 1) (some id) (id + 1) below

/-- **The entries of neighbours**, the first of which has number `id`. -/
def entriesBelow (level : Nat) (parent : Option Int) (id : Int) : List Branch → List OverlayEntry
  | [] => []
  | branch :: branches =>
    entriesOf level parent branches.isEmpty id branch ++
      entriesBelow level parent (id + branch.size) branches

end

namespace OverlayTree

/-- A placed overlay without entries. -/
def isEmpty (t : OverlayTree) : Bool := t.entries.isEmpty

/-- The placed overlay of a forest of branches, its entries numbered from 1. -/
def ofBranches (head : OverlayHead) (branches : List Branch) (firstLine total : Int) : OverlayTree :=
  let entries := entriesBelow 0 none 1 branches
  let starts := entries.filterMap fun e => e.lineIndex.map (·, e.id)
  ⟨head, entries, mapLines starts firstLine total⟩

/-- The rules for an overlay of a book with the given categories. -/
def placement (rules : PlacementRules) (index : RefIndex) (book : Int) (categories : List Text)
    (overlay : Overlay) : Placement :=
  let multiSection := rules.isMultiSection categories
  { index
    book
    multiSection
    suppressParts :=
      rules.isPaginated categories || multiSection || rules.suppressed.elem overlay.key }

/-- **The placed overlay of a book.** It has number 0 and its entries are numbered from 1. -/
def build (rules : PlacementRules) (index : RefIndex) (book : Int) (categories : List Text)
    (firstLine total : Int) (overlay : Overlay) : Except NumeralFault OverlayTree := do
  let p := placement rules index book categories overlay
  let (branches, _) ← p.placeNodes 0 [] overlay.nodes
  let head : OverlayHead := ⟨0, book, overlay.key, overlay.title, overlay.heTitle⟩
  return .ofBranches head branches firstLine total

/-- **The tree with another number**, and with the numbers of its entries moved by an offset. -/
def rebased (t : OverlayTree) (id offset : Int) : OverlayTree where
  head := { t.head with id }
  entries := t.entries.map fun e =>
    { e with id := e.id + offset, overlay := id, parent := e.parent.map (· + offset) }
  lineMap := t.lineMap.map fun (line, entry) => (line, entry + offset)

end OverlayTree

mutual

/-- A branch has as many entries as its size says. -/
theorem length_entriesOf (level : Nat) (parent : Option Int) (isLast : Bool) (id : Int) :
    (b : Branch) → (entriesOf level parent isLast id b).length = b.size
  | .branch _ _ below => by
    simp [entriesOf, Branch.size, length_entriesBelow (level + 1) (some id) (id + 1) below]

/-- Neighbours have as many entries as their sizes say. -/
theorem length_entriesBelow (level : Nat) (parent : Option Int) (id : Int) :
    (bs : List Branch) → (entriesBelow level parent id bs).length = Branch.sizes bs
  | [] => by simp [entriesBelow, Branch.sizes]
  | b :: bs => by
    simp [entriesBelow, Branch.sizes, length_entriesOf level parent bs.isEmpty id b,
      length_entriesBelow level parent (id + b.size) bs]

end

end HebrewCorpus
