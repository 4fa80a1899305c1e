import HebrewCorpus.Citation.Resolve
import HebrewCorpus.Overlay.Label

/-! # Placing overlays

The nodes of an overlay are placed at lines of the book by resolving what they cite. A node that
cites nothing of its own, or nothing that can be found, only groups the nodes below it, and is left
out when none of those is placed. No two nodes under one parent are placed at the same line, unless
one of them only groups others.

* **`Branch`**: a placed node with the placed nodes below it.
* **`Placement`**: the rules by which the nodes of one overlay are placed.
* **`Placement.placeNode`**, **`Placement.placeNodes`**: the branches of a node, and of neighbours. -/

namespace HebrewCorpus

/-- **A placed node**: its label, the line it is placed at, and the placed nodes below it. -/
inductive Branch
  | branch (text : Text) (target : LineTarget) (below : List Branch)
  deriving Repr

namespace Branch

/-- The line of a placed node. -/
def target : Branch → LineTarget
  | .branch _ target _ => target

/-- The branches that group others under a label: one at the line of the first of them, or none when
there is nothing to group. -/
def grouping (text : Text) : List Branch → List Branch
  | [] => []
  | first :: rest => [.branch text first.target (first :: rest)]

@[simp] theorem grouping_nil (text : Text) : grouping text [] = [] := rfl

/-- Grouping leaves nothing out. -/
@[simp] theorem grouping_eq_nil_iff {text : Text} {branches : List Branch} :
    grouping text branches = [] ↔ branches = [] := by
  cases branches <;> simp [grouping]

end Branch

/-- **The rules by which the nodes of one overlay are placed.** -/
structure Placement where
  index : RefIndex
  book : Int
  /-- Whether the book has several sections, so that an address alone says too little. -/
  multiSection : Bool
  /-- Whether the parts of titled nodes are left out. -/
  suppressParts : Bool

/-- The lines already taken by neighbours. -/
abbrev Taken := List Int

namespace Placement

/-- How freely the citations of a node are resolved. -/
def leeway (p : Placement) (item : OverlayItem) : RefIndex.Leeway :=
  ⟨!item.isDaf, !item.isDaf && !p.multiSection⟩

/-- The line that a citation of a node leads to within the book. -/
def target? (p : Placement) (item : OverlayItem) (citation : Text) : Option LineTarget :=
  p.index.resolve citation (some p.book) (p.leeway item)

/-- The line of a node: that of its first citation that leads to one. -/
def nodeTarget? (p : Placement) (item : OverlayItem) : Option LineTarget :=
  item.citations.findSome? (p.target? item)

/-- **The parts of a node**, from part `k` on, at the lines that its citations lead to. A part
without a line, or with one that is taken, is left out. -/
def placeParts (p : Placement) (item : OverlayItem) : (k : Nat) → (refs : List Text) → Taken →
    Except NumeralFault (List Branch × Taken)
  | _, [], taken => .ok ([], taken)
  | k, ref :: refs, taken =>
    match p.target? item ref with
    | none => placeParts p item (k + 1) refs taken
    | some target =>
      if taken.elem target.line then placeParts p item (k + 1) refs taken
      else do
        let label := item.partLabel k (← item.addressAt k)
        let (parts, taken) ← placeParts p item (k + 1) refs (target.line :: taken)
        return (.branch label target [] :: parts, taken)

/-- The parts of a node under the node itself. -/
def ownParts (p : Placement) (item : OverlayItem) : Except NumeralFault (List Branch × Taken) :=
  if p.suppressParts then .ok ([], []) else p.placeParts item 0 item.refs []

mutual

/-- **The branches of a node** at a place among its siblings, and the lines taken after it. The parts
of an untitled node with pages take its own place. -/
def placeNode (p : Placement) (position : Nat) (taken : Taken) :
    OverlayNode → Except NumeralFault (List Branch × Taken)
  | .node item children =>
    if item.isDaf && !item.refs.isEmpty && !item.hasTitle then do
      -- the parts and the nodes below become neighbours, and share the lines taken
      let (parts, taken) ← p.placeParts item 0 item.refs taken
      let (below, taken) ← placeNodes p 0 taken children
      return (parts ++ below, taken)
    else
      match (p.nodeTarget? item).filter fun t => !taken.elem t.line with
      | some target => do
        -- below the node, lines are taken afresh
        let label ← item.nodeLabel position
        let (parts, inner) ← p.ownParts item
        let (below, _) ← placeNodes p 0 inner children
        return ([.branch label target (parts ++ below)], target.line :: taken)
      | none => do
        let (below, _) ← placeNodes p 0 [] children
        return (Branch.grouping (item.groupLabel position) below, taken)

/-- **The branches of neighbours**, the first of which stands at the given place among its
siblings. -/
def placeNodes (p : Placement) (position : Nat) (taken : Taken) :
    List OverlayNode → Except NumeralFault (List Branch × Taken)
  | [] => .ok ([], taken)
  | node :: nodes => do
    let (first, taken) ← placeNode p position taken node
    let (rest, taken) ← placeNodes p (position + 1) taken nodes
    return (first ++ rest, taken)

end

end Placement

end HebrewCorpus
