import HebrewCorpus.Citation.Index
import HebrewCorpus.Import.Counters
import HebrewCorpus.Import.Document
import HebrewCorpus.Link.Resolve
import HebrewCorpus.Store.Delivery

/-! # Progress of imports

* **`ImportReport`**: the counts of an import.
* **`DeliveredBook`**: a book that was delivered, and where its lines are.
* **`Progress`**: what an import has done so far.
* **`Halt`**: when an import is to stop. -/

namespace HebrewCorpus

/-- **The counts of an import.** -/
structure ImportReport where
  processed : Nat
  failed : Nat
  lines : Nat
  outlineEntries : Nat
  overlayEntries : Nat
  mismatches : Nat
  links : LinkTally
  linkFilesFailed : Nat
  cancelled : Bool
  deriving DecidableEq, Repr

/-- The counts before anything is done. -/
def ImportReport.empty : ImportReport := ⟨0, 0, 0, 0, 0, 0, .empty, 0, false⟩

/-- A delivered book: its number, the number of its first line, and how many lines it has. -/
structure DeliveredBook where
  id : Int
  document : Document
  firstLine : Int
  lineCount : Nat

/-- **What an import has done so far.** -/
structure Progress where
  counters : IdCounters
  /-- What was handed over, in order. -/
  deliveries : List Delivery
  books : List DeliveredBook
  /-- The references of all delivered books, in order. -/
  refs : List RefEntry
  report : ImportReport

namespace Progress

/-- The progress before anything is done. -/
def start : Progress := ⟨{}, [], [], [], .empty⟩

/-- The progress with more deliveries. -/
def hand (p : Progress) (ds : List Delivery) : Progress :=
  { p with deliveries := p.deliveries ++ ds }

/-- The progress of an import that is halted. -/
def cancel (p : Progress) : Progress := { p with report := { p.report with cancelled := true } }

end Progress

/-- Whether to halt, by what was delivered so far. -/
abbrev Halt := List Delivery → Bool

/-- The reference index of the delivered books. -/
def Progress.index (p : Progress) : RefIndex :=
  .build p.refs (p.books.map fun b => (b.id, b.document.titles))
    (p.books.map fun b => (b.id, b.firstLine))

end HebrewCorpus
