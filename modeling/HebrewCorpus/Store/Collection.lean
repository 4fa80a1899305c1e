import HebrewCorpus.Store.Delivery

/-! # Collections

A collection keeps deliveries as they come.

* **`Collection`**: the books by number, and lines, outlines, overlays and links in order.
* **`Collection.deliver`**: the collection after one more delivery.
* **`Collection.ofDeliveries`**: the collection of a sequence of deliveries. -/

namespace HebrewCorpus

/-- **What was delivered.** Each book stands where it was delivered first. -/
structure Collection where
  books : List BookRecord
  lines : List Line
  outlines : List Outline
  overlays : List OverlayTree
  links : List Link
  isClosed : Bool
  deriving DecidableEq, Repr

/-- A delivery that a collection cannot take: it marks a book that was not delivered. -/
inductive CollectionFault
  | unknownBook (book : Int)
  deriving DecidableEq, Repr

/-- A book put in place of the one with its number, or after all others. -/
def putBook (record : BookRecord) : List BookRecord → List BookRecord
  | [] => [record]
  | b :: books => if b.id = record.id then record :: books else b :: putBook record books

namespace Collection

/-- The collection before any delivery. -/
def empty : Collection := ⟨[], [], [], [], [], false⟩

/-- **The collection after one more delivery.** -/
def deliver (c : Collection) : Delivery → Except CollectionFault Collection
  | .book record => .ok { c with books := putBook record c.books }
  | .lines lines => .ok { c with lines := c.lines ++ lines }
  | .outline outline => .ok { c with outlines := c.outlines ++ [outline] }
  | .overlay tree => .ok { c with overlays := c.overlays ++ [tree] }
  | .links links => .ok { c with links := c.links ++ links }
  | .overlayMark book value =>
    match c.books.find? (·.id = book) with
    | some record =>
      .ok { c with books := putBook { record with hasOverlays := value } c.books }
    | none => .error (.unknownBook book)

/-- The collection after the last delivery. -/
def close (c : Collection) : Collection := { c with isClosed := true }

/-- The collection after a delivery, or as it was when it cannot take it. -/
def deliverOrKeep (c : Collection) (d : Delivery) : Collection :=
  match c.deliver d with
  | .ok c => c
  | .error _ => c

/-- **The collection of a sequence of deliveries.** -/
def ofDeliveries (ds : List Delivery) : Collection := ds.foldl deliverOrKeep empty

end Collection

end HebrewCorpus
