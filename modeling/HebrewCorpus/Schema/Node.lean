import HebrewCorpus.Schema.AddressKind

/-! # Schema nodes

The schema of a book is a tree. A container holds an object keyed by its children's titles; a leaf
holds arrays of texts nested to a fixed depth, with one name, one kind of address and one flag for
each of its levels.

* **`SchemaNode`**: containers and leaves; **`NodeName`** names a node, **`LeafLayout`** describes
  the levels of a leaf.
* **`LeafLayout.level?`**, **`LeafLayout.levels?`**: what the lists of a leaf say of its levels.
* **`LeafLayout.rejection?`**, **`duplicateChild?`**: the checks of a whole node. -/

namespace HebrewCorpus

/-- The key and the titles of a node. -/
structure NodeName where
  key : Text
  title : Text
  heTitle : Text
  deriving DecidableEq, Repr

namespace NodeName

/-- Untitled nodes and those with the key `default` add no heading and no part of a reference. -/
def isDefault (n : NodeName) : Bool := Text.lower n.key = "default".toList || Text.isBlank n.title

/-- The title shown in headings, the Hebrew one first. -/
def displayTitle (n : NodeName) : Text :=
  let he := Text.trim n.heTitle
  if he.isEmpty then Text.trim n.title else he

/-- The key under which a node counts among its siblings: its key, else its title. -/
def childKey (n : NodeName) : Text := if n.key.isEmpty then n.title else n.key

end NodeName

/-- What a leaf says of one of its levels. -/
structure Level where
  kind : AddressKind
  /-- The section name used in headings. -/
  heading : Text
  referenceable : Bool
  deriving DecidableEq, Repr

/-- **The levels of a leaf**: their number, and lists with one entry per level. The Hebrew names and
the flags may be left out altogether. -/
structure LeafLayout where
  depth : Nat
  sectionNames : List Text
  heSectionNames : List Text
  addressKinds : List AddressKind
  referenceable : List Bool
  deriving DecidableEq, Repr

namespace LeafLayout

/-- Whether a level may be referred to; without flags every level may. -/
def isReferenceable? (l : LeafLayout) (i : Nat) : Option Bool :=
  if l.referenceable.isEmpty then some true else l.referenceable[i]?

/-- The section name of a level in headings, the Hebrew one first. -/
def headingName? (l : LeafLayout) (i : Nat) : Option Text :=
  if l.heSectionNames.isEmpty then l.sectionNames[i]?.map Text.trim
  else do
    let he ← l.heSectionNames[i]?
    if Text.isBlank he then l.sectionNames[i]?.map Text.trim else some (Text.trim he)

/-- What the lists say of a level; nothing when one of them is too short. -/
def level? (l : LeafLayout) (i : Nat) : Option Level := do
  let kind ← l.addressKinds[i]?
  let referenceable ← l.isReferenceable? i
  let heading ← l.headingName? i
  return ⟨kind, heading, referenceable⟩

/-- What the lists say of all levels, the outermost first. -/
def levels? (l : LeafLayout) : Option (List Level) := (List.range l.depth).mapM l.level?

/-- The per-level lists by name: how long each is, and whether it may be left out. -/
def counts (l : LeafLayout) : List (String × Nat × Bool) :=
  [("section_names", l.sectionNames.length, false), ("address_types", l.addressKinds.length, false),
    ("he_section_names", l.heSectionNames.length, true),
    ("referenceable", l.referenceable.length, true)]

/-- Why the levels are refused: the first list without one entry per level. -/
def rejection? (l : LeafLayout) : Option Rejection :=
  l.counts.findSome? fun (name, entries, mayBeEmpty) =>
    if entries = l.depth ∨ (mayBeEmpty ∧ entries = 0) then none
    else some (.levelCount name.toList entries l.depth)

end LeafLayout

/-- **A node of a schema.** -/
inductive SchemaNode
  | container (name : NodeName) (children : List SchemaNode)
  | leaf (name : NodeName) (layout : LeafLayout)
  deriving Repr

namespace SchemaNode

/-- The key and the titles of a node. -/
def name : SchemaNode → NodeName
  | .container name _ => name
  | .leaf name _ => name

end SchemaNode

/-- The first key that occurs a second time, empty keys apart. -/
def firstRepeated? (seen : List Text) : List Text → Option Text
  | [] => none
  | key :: keys =>
    if key.isEmpty then firstRepeated? seen keys
    else if key ∈ seen then some key
    else firstRepeated? (key :: seen) keys

/-- Why the children of a container are refused: two of them answer to one key. -/
def duplicateChild? (parent : NodeName) (children : List SchemaNode) : Option Rejection :=
  (firstRepeated? [] (children.map (·.name.childKey))).map (.duplicateChild · parent.title)

end HebrewCorpus
