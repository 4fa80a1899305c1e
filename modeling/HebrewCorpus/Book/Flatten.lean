import HebrewCorpus.Book.Flat

/-! # Flattening

The schema of a book and its content are walked together, depth first. Blank parts are passed over;
a part without the shape that the schema asks for is left out and counted.

* **`emitLeaf`**: what the content of a leaf emits.
* **`emitNode`**, **`emitChildren`**: what the content of any node, and of a container's children,
  emits.
* **`flatten`**: the flat book of a schema and a content. -/

namespace HebrewCorpus

/-- Why a content cannot be walked. -/
inductive FlattenFault
  /-- A leaf has no entry for one of its levels in one of its lists. -/
  | levelMissing (leaf : NodeName)
  deriving DecidableEq, Repr

/-- Whether the lines of an array carry their labels: on a last level that may be referred to and is
not merely counted, when more than one item is there to be told apart. -/
def labelsInline (level : Level) (items : List Json) : Bool :=
  level.referenceable && level.kind ≠ .integer && 1 < items.countP (!·.isBlank)

/-- The heading that opens an item of a level above the last; nothing when the level has no name or
may not be referred to. -/
def levelHeading? (level : Level) (labels : Labels) : Option Text :=
  if level.referenceable && !level.heading.isEmpty then
    some (level.heading ++ ' ' :: labels.hebrew)
  else none

/-- **What the content of a leaf emits** on the given levels: one line for each text at their
depth. -/
def emitLeaf : (levels : List Level) → (depth : Nat) → RefPath → (lead : Text) → Json →
    List Emission
  | [], _, path, lead, .text s =>
    if Text.isBlank s then [] else [.line (lead ++ s.filter (· ≠ '\n')) path]
  | [], _, _, _, _ => [.mismatch]
  | level :: levels, depth, path, _, .array items =>
    items.zipIdx.flatMap fun (item, i) =>
      if item.isBlank then []
      else
        let labels := level.kind.labelsAt i
        let path := path.withAddress labels
        if levels.isEmpty then
          -- the last level: each item is a line
          emitLeaf levels depth path
            (if labelsInline level items then '(' :: labels.hebrew ++ ") ".toList else []) item
        else
          -- a level above it: an item may open with a heading
          match levelHeading? level labels with
          | some title => .heading title depth :: emitLeaf levels (depth + 1) path [] item
          | none => emitLeaf levels depth path [] item
  | _ :: _, _, _, _, _ => [.mismatch]

mutual

/-- **What the content of a node emits**; headings start at the given depth. -/
def emitNode (depth : Nat) (path : RefPath) (content : Json) :
    SchemaNode → Except FlattenFault (List Emission)
  | .container _ children =>
    match content with
    | .object members => emitChildren depth path members children
    | _ => .ok [.mismatch]
  | .leaf name layout =>
    match layout.levels? with
    | some levels => .ok (emitLeaf levels depth path [] content)
    | none => .error (.levelMissing name)

/-- What the content of a container's children emits, in the order of the schema. -/
def emitChildren (depth : Nat) (path : RefPath) (members : Fields) :
    List SchemaNode → Except FlattenFault (List Emission)
  | [] => .ok []
  | child :: children => do
    let content := selectChild child.name members
    let own ←
      if content.isBlank then .ok []
      else if child.name.isDefault then emitNode depth path content child
      else
        (emitNode (depth + 1) (path.withTitle child.name.title child.name.heTitle) content child).map
          (.heading child.name.displayTitle depth :: ·)
    return own ++ (← emitChildren depth path members children)

end

/-- **The flat book of a schema and a content.** It opens with the book's title as heading of level
0; without a Hebrew title the English one stands for both. -/
def flatten (schema : SchemaNode) (content : Json) (titleEn titleHe : Text) (book : Int) :
    Except FlattenFault FlatBook := do
  let titleHe := if titleHe.isEmpty then titleEn else titleHe
  let es ← emitNode 1 (.root titleEn titleHe) content schema
  return .ofEmissions book titleEn titleHe (.heading titleHe 0 :: es)

end HebrewCorpus
