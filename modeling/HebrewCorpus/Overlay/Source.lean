import HebrewCorpus.Json.Display
import HebrewCorpus.Overlay.Record
import HebrewCorpus.Schema.Source

/-! # Overlays of a corpus export

The schema file of a book may hold overlays of it. They are written loosely: what is of another type
than expected is mostly passed over.

* **`OverlayNode.ofSource`**: the node of an exported object.
* **`overlaysOfSource`**: the overlays of a schema file, in the order in which they are written. -/

namespace HebrewCorpus

namespace OverlayItem

/-- The first Hebrew section name of an exported object, else its first English one. -/
def sourceLabel (fields : Fields) : Option Text :=
  (fields.get "heSectionNames").texts.head?.or (fields.get "sectionNames").texts.head?

/-- The starting address of an exported object, whatever its type, as a text. -/
def sourceStart (fields : Fields) : Option Text :=
  match fields.get "startingAddress" with
  | .null => none
  | value => some value.display

/-- The offset of an exported object, when it is a whole number. -/
def sourceOffset (fields : Fields) : Option Int :=
  match fields.get "offset" with
  | .int n => some n
  | _ => none

/-- **What an exported object says of itself.** Only its titles and its citation must be texts. -/
def ofSource (fields : Fields) : Checked OverlayItem := do
  let (title, heTitle, wholeRef) ←
    ((readOptional readText (fields.get "title")).within "title".toList).zip
      (((readOptional readText (fields.get "heTitle")).within "he_title".toList).zip
        ((readOptional readText (fields.get "wholeRef")).within "whole_ref".toList))
  return {
    title
    heTitle
    wholeRef
    refs := (fields.get "refs").texts.filter (!Text.isBlank ·)
    addressTypes := (fields.get "addressTypes").texts
    childLabel := sourceLabel fields
    addresses := (fields.get "addresses").ints
    skipped := ascending (fields.get "skipped_addresses").ints
    startingAddress := sourceStart fields
    offset := sourceOffset fields }

end OverlayItem

namespace OverlayNode

mutual

/-- **The overlay node of an exported object.** The nodes below it are read first, and the first one
that is refused ends the reading. -/
def ofSource : Json → Checked OverlayNode
  | .object fields => do
    let children ← childrenOfSource fields
    let item ← OverlayItem.ofSource fields
    return .node item children
  | _ => .misuse .notObject

/-- The nodes under the member `nodes` of an object. -/
def childrenOfSource : Fields → Checked (List OverlayNode)
  | [] => .ok []
  | (key, .array items) :: fields =>
    if key = "nodes".toList then childrenFromSource items else childrenOfSource fields
  | (key, value) :: fields =>
    if key = "nodes".toList then
      if value.isVacuous || value.elements?.isSome then .ok [] else .misuse .notIterable
    else childrenOfSource fields

/-- The nodes of the objects in a list; other items are passed over. -/
def childrenFromSource : List Json → Checked (List OverlayNode)
  | [] => .ok []
  | .object fields :: items => do
    let first ← ofSource (.object fields)
    return first :: (← childrenFromSource items)
  | _ :: items => childrenFromSource items

end

end OverlayNode

/-- The overlay of an exported member, when its value is an object with a list of nodes. -/
def overlayOfSource? : Text × Json → Checked (Option Overlay)
  | (key, .object fields) =>
    match Fields.get fields "nodes" with
    | .array items => do
      let nodes ← OverlayNode.childrenFromSource items
      let (title, heTitle) ←
        ((readOptional readText (Fields.get fields "title")).within "title".toList).zip
          ((readOptional readText (Fields.get fields "heTitle")).within "he_title".toList)
      return some { key, title, heTitle, nodes }
    | _ => return none
  | _ => return none

/-- **The overlays of a schema file.** -/
def overlaysOfSource : Json → Checked (List Overlay)
  | .object fields =>
    match (Fields.get fields "alts").orElse ((Fields.get fields "alt_structs").orElse (.object [])) with
    | .object members => do
      let overlays ← members.mapM overlayOfSource?
      return overlays.filterMap id
    | _ => .ok []
  | _ => .misuse .notObject

end HebrewCorpus
