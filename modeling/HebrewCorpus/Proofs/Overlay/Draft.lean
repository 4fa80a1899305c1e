import HebrewCorpus.Overlay.Tree

/-! # Drafts of overlays

An overlay can be placed by writing: the nodes are walked in order, and each leaves drafts of entries
on a sheet. A draft of a node that only groups others is written before anything below it is known;
when the walk leaves the node, the draft takes over the line of the first one below it, or is struck
out again. What is left on the sheet at the end is numbered.

Nothing of this needs branches, but a draft is looked up by its number, and might not be there.

* **`DraftSheet`**: the drafts, and the operations on them; each fails with `DraftFault.absent` when a
  draft is not there.
* **`Drafting`**: a sheet, the lines taken, and the number of the next draft.
* **`Drafting.walkNode`**, **`Drafting.walkNodes`**: what the nodes of an overlay write.
* **`DraftSheet.entries`**: the entries of a sheet.
* **`OverlayTree.draft`**: the placed overlay of a book, as it is written. -/

namespace HebrewCorpus

/-- **A draft of an entry**, with the numbers of the drafts right below it. -/
structure Draft where
  id : Nat
  parent : Option Nat
  text : Text
  level : Nat
  /-- The line of the draft; one that only groups others has none until its node is left. -/
  target : Option LineTarget
  children : List Nat
  deriving DecidableEq, Repr

/-- Why a sheet cannot be written. -/
inductive DraftFault
  /-- An address in a label has no value. -/
  | numeral (fault : NumeralFault)
  /-- A draft is not on the sheet, or not among its siblings. -/
  | absent (id : Nat)
  deriving DecidableEq, Repr

/-! ### Sheets -/

/-- **The drafts**, in the order in which they were written, and the numbers of those without a
parent. -/
structure DraftSheet where
  drafts : List Draft
  roots : List Nat
  deriving DecidableEq, Repr

namespace DraftSheet

/-- The draft with a number. -/
def find (s : DraftSheet) (id : Nat) : Except DraftFault Draft :=
  match s.drafts.find? (·.id = id) with
  | some d => .ok d
  | none => .error (.absent id)

/-- The numbers of the drafts right below a parent. -/
def siblings (s : DraftSheet) : (parent : Option Nat) → Except DraftFault (List Nat)
  | none => .ok s.roots
  | some id => (s.find id).map (·.children)

/-- The sheet with something done to the draft with a number. -/
def edit (s : DraftSheet) (id : Nat) (f : Draft → Draft) : DraftSheet :=
  { s with drafts := s.drafts.map fun d => if d.id = id then f d else d }

/-- The sheet with something done to the numbers right below a parent. -/
def editSiblings (s : DraftSheet) (parent : Option Nat) (f : List Nat → List Nat) :
    Except DraftFault DraftSheet :=
  match parent with
  | none => .ok { s with roots := f s.roots }
  | some id => (s.find id).map fun _ => s.edit id fun d => { d with children := f d.children }

/-- **A draft is written**, as the last one below its parent. -/
def write (s : DraftSheet) (d : Draft) : Except DraftFault DraftSheet :=
  editSiblings { s with drafts := s.drafts ++ [d] } d.parent (· ++ [d.id])

/-- **A draft is struck out.** -/
def strike (s : DraftSheet) (id : Nat) : Except DraftFault DraftSheet := do
  let d ← s.find id
  let ids ← s.siblings d.parent
  if ids.elem id then
    let s ← s.editSiblings d.parent (·.erase id)
    return { s with drafts := s.drafts.filter (·.id ≠ id) }
  else .error (.absent id)

/-- **A draft that groups others is closed**: it takes over the line of the first one below it, or is
struck out when there is none. -/
def close (s : DraftSheet) (id : Nat) : Except DraftFault DraftSheet := do
  let d ← s.find id
  match d.children with
  | [] => s.strike id
  | first :: _ =>
    let f ← s.find first
    return s.edit id fun d => { d with target := f.target }

end DraftSheet

/-! ### Walks -/

/-- **A sheet that is being written**, the lines taken below each parent, and the number of the next
draft. -/
structure Drafting where
  sheet : DraftSheet
  taken : List (Option Nat × Int)
  next : Nat
  deriving DecidableEq, Repr

namespace Drafting

/-- An empty sheet. -/
def start : Drafting := ⟨⟨[], []⟩, [], 1⟩

/-- The next draft. -/
def nextDraft (s : Drafting) (parent : Option Nat) (text : Text) (level : Nat)
    (target : Option LineTarget) : Draft := ⟨s.next, parent, text, level, target, []⟩

/-- The next draft is written; its number comes first. -/
def add (s : Drafting) (parent : Option Nat) (text : Text) (level : Nat)
    (target : Option LineTarget) : Except DraftFault (Nat × Drafting) :=
  (s.sheet.write (s.nextDraft parent text level target)).map fun sheet =>
    (s.next, { s with sheet, next := s.next + 1 })

/-- A line is taken below a parent, unless a sibling has taken it. -/
def claim? (s : Drafting) (parent : Option Nat) (line : Int) : Option Drafting :=
  if s.taken.elem (parent, line) then none else some { s with taken := (parent, line) :: s.taken }

/-- **The parts of a node**, from part `k` on, are written below a parent. Whether there are any comes
first. -/
def addParts (p : Placement) (item : OverlayItem) (level : Nat) (parent : Option Nat) :
    (k : Nat) → (refs : List Text) → Drafting → Except DraftFault (Bool × Drafting)
  | _, [], s => .ok (false, s)
  | k, ref :: refs, s =>
    match p.target? item ref with
    | none => addParts p item level parent (k + 1) refs s
    | some target =>
      match s.claim? parent target.line with
      | none => addParts p item level parent (k + 1) refs s
      | some s => do
        let address ← (item.addressAt k).mapError .numeral
        let (_, s) ← s.add parent (item.partLabel k address) level (some target)
        let (_, s) ← addParts p item level parent (k + 1) refs s
        return (true, s)

/-- The parts of a node are written below the node itself, unless they are left out. -/
def addOwnParts (p : Placement) (item : OverlayItem) (level id : Nat) (s : Drafting) :
    Except DraftFault (Bool × Drafting) :=
  if p.suppressParts then .ok (false, s) else addParts p item level (some id) 0 item.refs s

/-- **A node with a line of its own** is written with its parts. Its number comes first; there is none
when the node has no line, or one that is taken. -/
def addPlaced (p : Placement) (item : OverlayItem) (level : Nat) (parent : Option Nat)
    (position : Nat) (s : Drafting) : Except DraftFault (Option Nat × Drafting) :=
  match p.nodeTarget? item with
  | none => .ok (none, s)
  | some target =>
    match s.claim? parent target.line with
    | none => .ok (none, s)
    | some s => do
      let label ← (item.nodeLabel position).mapError .numeral
      let (id, s) ← s.add parent label level (some target)
      let (_, s) ← addOwnParts p item (level + 1) id s
      return (some id, s)

/-- A node that was written: the draft that groups the nodes below it, the parent of those, and
whether the node has a line or parts. -/
structure Opened where
  group : Option Nat
  current : Option Nat
  placed : Bool

/-- A draft that groups the nodes below it. -/
def openGroup (item : OverlayItem) (level : Nat) (parent : Option Nat) (position : Nat)
    (s : Drafting) : Except DraftFault (Opened × Drafting) :=
  (s.add parent (item.groupLabel position) level none).map fun (id, s) =>
    (⟨some id, some id, false⟩, s)

/-- **A node is written**, before the nodes below it. -/
def openNode (p : Placement) (item : OverlayItem) (hasBelow : Bool) (level : Nat)
    (parent : Option Nat) (position : Nat) (s : Drafting) :
    Except DraftFault (Opened × Drafting) :=
  if !item.hasOwnRefs then
    if hasBelow then openGroup item level parent position s else .ok (⟨none, parent, false⟩, s)
  else if item.isDaf && !item.refs.isEmpty && !item.hasTitle then do
    let (any, s) ← addParts p item level parent 0 item.refs s
    return (⟨none, parent, any⟩, s)
  else do
    let (placed, s) ← addPlaced p item level parent position s
    match placed with
    | some id => return (⟨none, if hasBelow then some id else parent, true⟩, s)
    | none =>
      if hasBelow then openGroup item level parent position s
      else return (⟨none, parent, false⟩, s)

/-- A node is left, when all nodes below it were written. -/
def closeNode (o : Opened) (s : Drafting) : Except DraftFault Drafting :=
  match o.group with
  | none => .ok s
  | some id => (s.sheet.close id).map fun sheet => { s with sheet }

mutual

/-- **What a node writes** below a parent. Whether anything was placed comes first. -/
def walkNode (p : Placement) (level : Nat) (parent : Option Nat) (position : Nat) (s : Drafting) :
    OverlayNode → Except DraftFault (Bool × Drafting)
  | .node item children => do
    let (o, s) ← openNode p item (!children.isEmpty) level parent position s
    let below := if o.current = parent then level else level + 1
    let (any, s) ← walkNodes p below o.current 0 s children
    let s ← closeNode o s
    return (o.placed || any, s)

/-- **What neighbours write**, the first of which stands at the given place among its siblings. -/
def walkNodes (p : Placement) (level : Nat) (parent : Option Nat) (position : Nat) (s : Drafting) :
    List OverlayNode → Except DraftFault (Bool × Drafting)
  | [] => .ok (false, s)
  | node :: nodes => do
    let (first, s) ← walkNode p level parent position s node
    let (rest, s) ← walkNodes p level parent (position + 1) s nodes
    return (first || rest, s)

end

end Drafting

/-! ### Entries -/

namespace DraftSheet

/-- The place of a number in a list, counted from 1. -/
def numberIn (ids : List Nat) (id : Nat) : Except DraftFault Int :=
  match ids.idxOf? id with
  | some i => .ok (i + 1)
  | none => .error (.absent id)

/-- The number of a parent, if there is one. -/
def parentNumberIn (ids : List Nat) : Option Nat → Except DraftFault (Option Int)
  | none => .ok none
  | some id => (numberIn ids id).map some

/-- The entry of a draft, when drafts are numbered by their places in a list and some are the last
ones below their parents. -/
def entryOf (ids last : List Nat) (d : Draft) : Except DraftFault OverlayEntry := do
  let id ← numberIn ids d.id
  let parent ← parentNumberIn ids d.parent
  return {
    id, overlay := 0, parent, text := d.text, level := d.level
    line := d.target.map (·.line)
    lineIndex := d.target.map (·.index)
    hasChildren := !d.children.isEmpty
    isLastChild := last.elem d.id }

/-- The drafts in the order of their numbers. -/
def sorted (s : DraftSheet) : List Draft := s.drafts.mergeSort fun d e => d.id ≤ e.id

/-- The numbers of the last drafts below each parent. -/
def lasts (s : DraftSheet) : List Nat :=
  (s.roots :: s.sorted.map (·.children)).filterMap (·.getLast?)

/-- **The entries of a sheet**, numbered from 1 in the order of the drafts. -/
def entries (s : DraftSheet) : Except DraftFault (List OverlayEntry) :=
  s.sorted.mapM (entryOf (s.sorted.map (·.id)) s.lasts)

end DraftSheet

/-- **The placed overlay of a book, as it is written.** -/
def OverlayTree.draft (rules : PlacementRules) (index : RefIndex) (book : Int)
    (categories : List Text) (firstLine total : Int) (overlay : Overlay) :
    Except DraftFault OverlayTree := do
  let p := placement rules index book categories overlay
  let (_, s) ← Drafting.walkNodes p 0 none 0 .start overlay.nodes
  let entries ← s.sheet.entries
  let starts := entries.filterMap fun e => e.lineIndex.map (·, e.id)
  return ⟨⟨0, book, overlay.key, overlay.title, overlay.heTitle⟩, entries,
    mapLines starts firstLine total⟩

end HebrewCorpus
