import HebrewCorpus.Overlay.Node
import HebrewCorpus.Record.Field

/-! # Overlays as records

* **`OverlayNode.ofJson`**, **`Overlay.ofJson`**: the node or overlay of a value, checked at every
  depth. Every member may be left out, the key of an overlay apart.
* **`OverlayNode.toJson`**, **`Overlay.toJson`**: the value of a node or overlay. -/

namespace HebrewCorpus

/-- Distinct numbers from a list, in ascending order. -/
def readNumberSet : Json → Checked Ascending
  | .array items => (Checked.all 0 (items.map readWhole)).map ascending
  | _ => .fault .notSet

namespace OverlayItem

/-- The titles and citations of a record, then its labels. -/
def ofFields (fields : Fields) : Checked OverlayItem := do
  let text (name : String) := fields.withDefault name (readOptional readText) none
  let texts (name : String) := fields.withDefault name (readList readText) []
  let (title, heTitle, wholeRef, refs, addressTypes, childLabel, addresses, skipped,
      startingAddress, offset) ←
    (text "title").zip ((text "he_title").zip ((text "whole_ref").zip ((texts "refs").zip
      ((texts "address_types").zip ((text "child_label").zip
        ((fields.withDefault "addresses" (readList readWhole) []).zip
          ((fields.withDefault "skipped_addresses" readNumberSet ∅).zip
            ((text "starting_address").zip
              (fields.withDefault "offset" (readOptional readWhole) none)))))))))
  return { title, heTitle, wholeRef, refs, addressTypes, childLabel, addresses, skipped,
           startingAddress, offset }

end OverlayItem

namespace OverlayNode

mutual

/-- **The overlay node of a value.** -/
def ofJson : Json → Checked OverlayNode
  | .object fields =>
    ((OverlayItem.ofFields fields).zip (childrenOf fields)).map fun (item, nodes) =>
      .node item nodes
  | _ => .fault .notRecord

/-- The nodes below a record, none when it does not name any. -/
def childrenOf : Fields → Checked (List OverlayNode)
  | [] => .ok []
  | (key, .array items) :: fields =>
    if key = "children".toList then (childrenFrom 0 items).within key else childrenOf fields
  | (key, _) :: fields =>
    if key = "children".toList then (Checked.fault .notList).within key else childrenOf fields

/-- The nodes of a list of values, the first of which stands at position `i`. -/
def childrenFrom (i : Nat) : List Json → Checked (List OverlayNode)
  | [] => .ok []
  | item :: items =>
    (((ofJson item).within (decimalNat i)).zip (childrenFrom (i + 1) items)).map
      fun (first, rest) => first :: rest

end

end OverlayNode

/-- A text, or null when there is none. -/
def Json.optionalText (s : Option Text) : Json := (s.map Json.text).getD .null

/-- A whole number, or null when there is none. -/
def Json.optionalInt (n : Option Int) : Json := (n.map Json.int).getD .null

/-- The members of a node other than the nodes below it. -/
def OverlayItem.members (i : OverlayItem) : Fields :=
  [("title".toList, .optionalText i.title), ("he_title".toList, .optionalText i.heTitle),
    ("whole_ref".toList, .optionalText i.wholeRef), ("refs".toList, .array (i.refs.map .text)),
    ("address_types".toList, .array (i.addressTypes.map .text)),
    ("child_label".toList, .optionalText i.childLabel),
    ("addresses".toList, .array (i.addresses.map .int)),
    ("skipped_addresses".toList, .array (i.skipped.numbers.map .int)),
    ("starting_address".toList, .optionalText i.startingAddress),
    ("offset".toList, .optionalInt i.offset)]

namespace OverlayNode

mutual

/-- **The written form of a node.** -/
def toJson : OverlayNode → Json
  | .node item children =>
    .object (item.members ++ [("children".toList, .array (toJsons children))])

/-- The written forms of a list of nodes. -/
def toJsons : List OverlayNode → List Json
  | [] => []
  | first :: rest => toJson first :: toJsons rest

end

end OverlayNode

namespace Overlay

/-- **The overlay of a value.** -/
def ofJson : Json → Checked Overlay :=
  readRecord fun fields => do
    let (key, title, heTitle, nodes) ← (fields.required "key" readText).zip
      ((fields.withDefault "title" (readOptional readText) none).zip
        ((fields.withDefault "he_title" (readOptional readText) none).zip
          (fields.withDefault "nodes" (readList OverlayNode.ofJson) [])))
    return { key, title, heTitle, nodes }

/-- **The written form of an overlay.** -/
def toJson (o : Overlay) : Json :=
  .object [("key".toList, .text o.key), ("title".toList, .optionalText o.title),
    ("he_title".toList, .optionalText o.heTitle), ("nodes".toList, .array (OverlayNode.toJsons o.nodes))]

end Overlay

end HebrewCorpus
