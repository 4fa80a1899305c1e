import HebrewCorpus.Schema.Record

/-! # Schemas of a corpus export

A corpus export writes schemas more loosely than records: keys may be left out, and the lists of a
leaf need not fit its depth. Reading one pads or cuts every list to the depth, so no leaf that is
read can have lists of the wrong length.

* **`SchemaNode.ofSource`**: the node of an exported schema object.
* **`fitTo`**: a list cut or padded to a length. -/

namespace HebrewCorpus

/-- The list cut, or padded with a filler, to the given length. -/
def fitTo {α : Type} (length : Nat) (filler : α) (values : List α) : List α :=
  (values ++ List.replicate length filler).take length

/-- A fitted list has the asked length. -/
@[simp] theorem length_fitTo {α : Type} (length : Nat) (filler : α) (values : List α) :
    (fitTo length filler values).length = length := by
  simp [fitTo]

/-- The value under a key of an object, null when it is not there. -/
def Fields.get (fields : Fields) (name : String) : Json := (fields.lookup name.toList).getD .null

namespace NodeName

/-- The key and the titles of an exported object: titles may be left out, and a key defaults to the
title. Each must be a text. -/
def ofSource (fields : Fields) : Checked NodeName :=
  let title := (fields.get "title").orElse (.text [])
  let heTitle := (fields.get "heTitle").orElse (.text [])
  let key := (fields.get "key").orElse title
  (((readText key).within "key".toList).zip
    (((readText title).within "title".toList).zip ((readText heTitle).within "he_title".toList))).map
      fun (key, title, heTitle) => ⟨key, title, heTitle⟩

end NodeName

namespace LeafLayout

/-- The depth of an exported leaf: a whole number not below zero, or a truth value as one or zero;
failing that, the number of its section names. -/
def sourceDepth (fields : Fields) : Nat :=
  let names := (fields.get "sectionNames").texts
  let counted :=
    if names.isEmpty then (fields.get "heSectionNames").texts.length else names.length
  match fields.get "depth" with
  | .int n => if n < 0 then counted else n.toNat
  | .bool b => if b then 1 else 0
  | _ => counted

/-- The flags of an exported leaf, values other than flags passed over. -/
def sourceFlags (fields : Fields) : Checked (List Bool) :=
  match ((fields.get "referenceableSections").orElse (.array [])).elements? with
  | some items => .ok (items.filterMap fun | .bool b => some b | _ => none)
  | none => .misuse .notIterable

/-- The greatest number of entries that a list can be asked for. -/
def maxEntries : Nat := 0x7fffffffffffffff

/-- The depth of an exported leaf, when a list can be asked for that many entries. -/
def listDepth (fields : Fields) : Checked Nat :=
  if maxEntries < sourceDepth fields then .misuse .tooLong else .ok (sourceDepth fields)

/-- **The levels of an exported leaf**, every list fitted to the depth. The kinds of address fall back
to what the section names imply. -/
def ofSource (fields : Fields) : Checked LeafLayout := do
  let flags ← sourceFlags fields
  let depth ← listDepth fields
  let names := (fields.get "sectionNames").texts
  let heNames := (fields.get "heSectionNames").texts
  let own := (fields.get "addressTypes").texts
  let labels := if own.isEmpty then names else own
  return {
    depth
    sectionNames := fitTo depth [] names
    heSectionNames := if heNames.isEmpty then [] else fitTo depth [] heNames
    addressKinds := (fitTo depth [] labels).map AddressKind.ofLabel
    referenceable := if flags.isEmpty then [] else fitTo depth true flags }

end LeafLayout

namespace SchemaNode

mutual

/-- **The node of an exported schema object.** An object with the member `nodes` is a container, every
other object a leaf. The children are read first, and the first one that is refused ends the
reading. -/
def ofSource : Json → Checked SchemaNode
  | .object fields => do
    match ← childrenOfSource fields with
    | some children =>
      let name ← NodeName.ofSource fields
      match duplicateChild? name children with
      | some reason => .fault (.rejected reason)
      | none => return .container name children
    | none =>
      let layout ← LeafLayout.ofSource fields
      let name ← NodeName.ofSource fields
      match layout.rejection? with
      | some reason => .fault (.rejected reason)
      | none => return .leaf name layout
  | _ => .misuse .notObject

/-- The children under the member `nodes`, when the object has that member. -/
def childrenOfSource : Fields → Checked (Option (List SchemaNode))
  | [] => .ok none
  | (key, .array items) :: fields =>
    if key = "nodes".toList then (childrenFromSource items).map some else childrenOfSource fields
  | (key, value) :: fields =>
    if key = "nodes".toList then
      if value.isVacuous || value.elements?.isSome then .ok (some []) else .misuse .notIterable
    else childrenOfSource fields

/-- The nodes of the objects in a list; other items are passed over. -/
def childrenFromSource : List Json → Checked (List SchemaNode)
  | [] => .ok []
  | .object fields :: items => do
    let node ← ofSource (.object fields)
    return node :: (← childrenFromSource items)
  | _ :: items => childrenFromSource items

end

end SchemaNode

end HebrewCorpus
