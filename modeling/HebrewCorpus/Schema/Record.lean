import HebrewCorpus.Schema.Node

/-! # Schema nodes as records

The written form of a schema node is an object whose member `kind` says whether it is a container or
a leaf.

* **`SchemaNode.ofJson`**: the node of a value, checked at every depth.
* **`SchemaNode.toJson`**: the value of a node. -/

namespace HebrewCorpus

namespace NodeName

/-- The key and the titles of a record, each empty when it is not there. -/
def ofFields (fields : Fields) : Checked NodeName :=
  ((fields.withDefault "key" readText []).zip
    ((fields.withDefault "title" readText []).zip (fields.withDefault "he_title" readText []))).map
      fun (key, title, heTitle) => ⟨key, title, heTitle⟩

end NodeName

namespace LeafLayout

/-- A depth is a whole number not below zero. -/
def readDepth (value : Json) : Checked Nat := do
  let depth ← readWhole value
  if depth < 0 then .fault .belowMinimum else return depth.toNat

/-- The kinds of address that the section names of a record imply, when it names none itself. -/
def impliedKinds? (fields : Fields) : Checked (Option (List AddressKind)) :=
  if ((fields.lookup "address_types".toList).getD .null).isVacuous then
    match (((fields.lookup "section_names".toList).getD .null).orElse (.array [])).elements? with
    | some names => (names.mapM AddressKind.ofLabelValue).map some
    | none => .misuse .notIterable
  else .ok none

/-- The kinds of address of a record. -/
def readKinds (fields : Fields) (implied : Option (List AddressKind)) : Checked (List AddressKind) :=
  match implied with
  | some kinds => .ok kinds
  | none => fields.withDefault "address_types" (readList AddressKind.ofJson) []

end LeafLayout

namespace SchemaNode

/-- A leaf with the given fields. Its lists are checked when all fields are valid. -/
def leafOfFields (fields : Fields) : Checked SchemaNode := do
  let implied ← LeafLayout.impliedKinds? fields
  let (name, depth, names, heNames, kinds, flags) ← (NodeName.ofFields fields).zip
    ((fields.required "depth" LeafLayout.readDepth).zip
      ((fields.withDefault "section_names" (readList readText) []).zip
        ((fields.withDefault "he_section_names" (readList readText) []).zip
          ((LeafLayout.readKinds fields implied).zip
            (fields.withDefault "referenceable" (readList readTruth) [])))))
  let layout : LeafLayout := ⟨depth, names, heNames, kinds, flags⟩
  match layout.rejection? with
  | some reason => .fault (.rejected reason)
  | none => return .leaf name layout

/-- A container with the given fields and the reading of its children. -/
def containerOfFields (fields : Fields) (children : Checked (List SchemaNode)) :
    Checked SchemaNode := do
  let (name, children) ← (NodeName.ofFields fields).zip children
  match duplicateChild? name children with
  | some reason => .fault (.rejected reason)
  | none => return .container name children

mutual

/-- **The schema node of a value.** -/
def ofJson : Json → Checked SchemaNode
  | .object fields =>
    match fields.lookup "kind".toList with
    | none => .fault .missingTag
    | some (.text tag) =>
      if tag = "container".toList then
        (containerOfFields fields (childrenOf fields)).within tag
      else if tag = "leaf".toList then (leafOfFields fields).within tag
      else .fault .unknownTag
    | some _ => .fault .unknownTag
  | _ => .fault .notTagged

/-- The children of a record, none when it does not name any. -/
def childrenOf : Fields → Checked (List SchemaNode)
  | [] => .ok []
  | (key, .array items) :: fields =>
    if key = "children".toList then (childrenFrom 0 items).within key else childrenOf fields
  | (key, _) :: fields =>
    if key = "children".toList then (Checked.fault .notList).within key else childrenOf fields

/-- The nodes of a list of values, the first of which stands at position `i`. -/
def childrenFrom (i : Nat) : List Json → Checked (List SchemaNode)
  | [] => .ok []
  | item :: items =>
    (((ofJson item).within (decimalNat i)).zip (childrenFrom (i + 1) items)).map
      fun (node, nodes) => node :: nodes

end

/-- The members that name a node. -/
def nameMembers (name : NodeName) : Fields :=
  [("key".toList, .text name.key), ("title".toList, .text name.title),
    ("he_title".toList, .text name.heTitle)]

/-- The members of a leaf that describe its levels. -/
def layoutMembers (l : LeafLayout) : Fields :=
  [("depth".toList, .int l.depth),
    ("section_names".toList, .array (l.sectionNames.map .text)),
    ("he_section_names".toList, .array (l.heSectionNames.map .text)),
    ("address_types".toList, .array (l.addressKinds.map fun k => .text k.name)),
    ("referenceable".toList, .array (l.referenceable.map .bool))]

mutual

/-- **The written form of a node.** -/
def toJson : SchemaNode → Json
  | .container name children =>
    .object (nameMembers name ++
      [("kind".toList, .text "container".toList), ("children".toList, .array (toJsons children))])
  | .leaf name layout =>
    .object (nameMembers name ++ ("kind".toList, .text "leaf".toList) :: layoutMembers layout)

/-- The written forms of a list of nodes. -/
def toJsons : List SchemaNode → List Json
  | [] => []
  | node :: nodes => toJson node :: toJsons nodes

end

end SchemaNode

end HebrewCorpus
