import HebrewCorpus.Book.Flatten
import HebrewCorpus.Import.Batch
import HebrewCorpus.Import.Progress

/-! # Imports

An import takes documents and link files to a sequence of deliveries. It has three stages: the books
are flattened and delivered, their overlays are placed, and the links are resolved. Overlays and
links are resolved by the references of all books together.

* **`deliverBook`**, **`deliverOverlays`**, **`deliverLinks`**: the work on one book or link file.
* **`runImport`**: a whole import.

An import may be halted. It asks whether to go on before each book, before the overlays of each book
and before each link file; what was delivered until then decides the answer. -/

namespace HebrewCorpus

/-! ### Books -/

/-- A line with its number in the corpus. -/
def Line.numbered (firstLine : Int) (l : Line) : Line := { l with id := some (firstLine + l.index) }

/-- The record of a document that was flattened. -/
def Document.record (d : Document) (flat : FlatBook) : BookRecord where
  id := flat.book
  title := flat.titleHe
  titleEn := flat.titleEn
  categories := d.categories
  authors := d.authors
  isBase := d.isBaseText
  lineCount := flat.lines.length
  hasOverlays := false

/-- **The work on one book**: its record, its lines and its outline are delivered. -/
def deliverBook (lineBatch : Int) (d : Document) (flat : FlatBook) (p : Progress) :
    Except ImportFault Progress := do
  let total := flat.lines.length
  let (firstLine, counters) := p.counters.take .line total
  let pieces ← batches lineBatch (flat.lines.map (·.numbered firstLine))
  let (firstEntry, counters) := counters.take .outlineEntry flat.headings.length
  let outline := Outline.ofHeadings flat.book flat.headings firstLine total firstEntry
  return {
    counters
    deliveries :=
      p.deliveries ++ .book (d.record flat) :: pieces.map .lines ++ [.outline outline]
    books := p.books ++ [⟨flat.book, d, firstLine, total⟩]
    refs := p.refs ++ flat.refs
    report := { p.report with
      processed := p.report.processed + 1
      lines := p.report.lines + total
      outlineEntries := p.report.outlineEntries + outline.entries.length
      mismatches := p.report.mismatches + flat.mismatches } }

/-- The work on all books, each with its number. A book that cannot be flattened is left out. -/
def deliverBooks (lineBatch : Int) (halt : Halt) (p : Progress) :
    List (Document × Int) → Except ImportFault Progress
  | [] => .ok p
  | (d, id) :: rest =>
    if halt p.deliveries then .ok p.cancel
    else
      match flatten d.schema d.content d.titleEn d.titleHe id with
      | .error _ =>
        deliverBooks lineBatch halt
          { p with report := { p.report with failed := p.report.failed + 1 } } rest
      | .ok flat => do deliverBooks lineBatch halt (← deliverBook lineBatch d flat p) rest

/-- The documents with their numbers, and the counters after them. -/
def numberDocuments (counters : IdCounters) : List Document → List (Document × Int) × IdCounters
  | [] => ([], counters)
  | d :: ds =>
    let (id, counters) := counters.take .book 1
    let (rest, counters) := numberDocuments counters ds
    ((d, id) :: rest, counters)

/-! ### Overlays -/

/-- The progress with one more overlay tree. -/
def deliverTree (tree : OverlayTree) (p : Progress) : Progress :=
  let (id, counters) := p.counters.take .overlay 1
  let (firstEntry, counters) := counters.take .overlayEntry tree.entries.length
  { p with
    counters
    deliveries := p.deliveries ++ [.overlay (tree.rebased id (firstEntry - 1))]
    report := { p.report with
      overlayEntries := p.report.overlayEntries + tree.entries.length } }

/-- The overlay trees of a book that have entries. An overlay that cannot be placed is left out. -/
def overlayTrees (rules : PlacementRules) (index : RefIndex) (b : DeliveredBook) :
    List OverlayTree :=
  b.document.overlays.filterMap fun overlay =>
    match OverlayTree.build rules index b.id b.document.categories b.firstLine b.lineCount overlay with
    | .ok tree => if tree.isEmpty then none else some tree
    | .error _ => none

/-- **The work on the overlays of one book**: they are delivered, and when there are any the book is
marked. -/
def deliverOverlays (rules : PlacementRules) (index : RefIndex) (b : DeliveredBook) (p : Progress) :
    Progress :=
  match overlayTrees rules index b with
  | [] => p
  | trees => (trees.foldl (fun p tree => deliverTree tree p) p).hand [.overlayMark b.id true]

/-- The work on the overlays of all books that have any. -/
def deliverAllOverlays (rules : PlacementRules) (index : RefIndex) (halt : Halt) (p : Progress) :
    List DeliveredBook → Progress
  | [] => p
  | b :: rest =>
    if b.document.overlays.isEmpty then deliverAllOverlays rules index halt p rest
    else if halt p.deliveries then p.cancel
    else deliverAllOverlays rules index halt (deliverOverlays rules index b p) rest

/-! ### Links -/

/-- The standing of a delivered book. -/
def DeliveredBook.standing (b : DeliveredBook) : BookStanding where
  isBase := b.document.isBaseText
  categoryLevel := (b.document.categories.length - 1 : Nat)
  dependence := b.document.dependence

/-- The progress of an import whose links are to be resolved. -/
def Progress.linkContext (p : Progress) (index : RefIndex) : LinkContext :=
  ⟨index, p.books.map fun b => (b.id, b.standing)⟩

/-- **The work on one link file.** A file that could not be read is counted. -/
def deliverLinks (linkBatch : Int) (ctx : LinkContext) (file : Option (List RawLink))
    (p : Progress) : Except ImportFault Progress :=
  match file with
  | none =>
    .ok { p with report := { p.report with linkFilesFailed := p.report.linkFilesFailed + 1 } }
  | some raws => do
    let (links, tally) := ctx.resolveAll raws
    let pieces ← batches linkBatch links
    return { p with
      deliveries := p.deliveries ++ pieces.map .links
      report := { p.report with links := p.report.links.merge tally } }

/-- The work on all link files. -/
def deliverAllLinks (linkBatch : Int) (ctx : LinkContext) (halt : Halt) (p : Progress) :
    List (Option (List RawLink)) → Except ImportFault Progress
  | [] => .ok p
  | file :: rest =>
    if halt p.deliveries then .ok p.cancel
    else do deliverAllLinks linkBatch ctx halt (← deliverLinks linkBatch ctx file p) rest

/-! ### The whole -/

/-- **A whole import** of documents and link files. A link file that could not be read is given as
`none`. -/
def runImport (settings : Settings) (halt : Halt) (documents : List Document)
    (linkFiles : List (Option (List RawLink))) : Except ImportFault (Progress × RefIndex) := do
  -- books are numbered before any is flattened, so that one left out leaves a gap
  let (numbered, counters) := numberDocuments {} documents
  let p ← deliverBooks settings.importer.lineBatch halt { Progress.start with counters } numbered
  let index := p.index
  if p.report.cancelled then return (p, index)
  let p := deliverAllOverlays settings.placement index halt p p.books
  if p.report.cancelled then return (p, index)
  let p ← deliverAllLinks settings.importer.linkBatch (p.linkContext index) halt p linkFiles
  return (p, index)

end HebrewCorpus
