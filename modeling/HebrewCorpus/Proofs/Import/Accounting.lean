import HebrewCorpus.Proofs.Import.Integrity
import HebrewCorpus.Proofs.Link.Accounting

/-! # Accounts of an import

The report of an import counts what the import has left, and every pair of every link file is
accounted for. The files are resolved one by one, each with a tally of its own; together they leave
what one file with all pairs would leave.

* **`rawLinks`**: the pairs of all link files that could be read.
* **`LinkContext.resolveAll_rawLinks`**: files may be resolved one by one.
* **`ImportReport.Accounts`**: a report that is right about a collection; `accounts_of_runImport`
  finds the report of every import right. -/

namespace HebrewCorpus

/-! ### Link files -/

/-- **The pairs of all link files** that could be read, one file after the other. -/
def rawLinks (files : List LinkFile) : List RawLink := files.flatMap (·.getD [])

/-- **Files may be resolved one by one**: their links follow one another, and their tallies are
merged. -/
theorem LinkContext.resolveAll_rawLinks (ctx : LinkContext) (files : List LinkFile) :
    ctx.resolveAll (rawLinks files) = (files.flatMap ctx.linksOf, ctx.tallyOf files) := by
  induction files with
  | nil => exact ctx.resolveAll_nil
  | cons file files ih =>
    have hfile : ctx.resolveAll (file.getD []) =
        (ctx.linksOf file, (file.map fun raws => (ctx.resolveAll raws).2).getD .empty) := by
      -- a file that could not be read holds no pairs
      cases file with
      | none => exact ctx.resolveAll_nil
      | some raws => rfl
    rw [rawLinks, List.flatMap_cons, resolveAll_append, ← rawLinks, ih, hfile, List.flatMap_cons,
      tallyOf]

/-! ### Lists of counts -/

/-- Items that are listed one after the other are as many as their counts come to. -/
theorem length_flatMap_eq_totalOf {α β : Type} {count : α → Nat} {rows : α → List β}
    (h : ∀ a, (rows a).length = count a) (as : List α) :
    (as.flatMap rows).length = totalOf count as := by
  induction as with
  | nil => rfl
  | cons a as ih => rw [List.flatMap_cons, List.length_append, ih, h, totalOf_cons]

/-! ### Reports -/

/-- **A report that is right about a collection**, whose links were resolved in a context from some
link files. -/
structure ImportReport.Accounts (report : ImportReport) (ctx : LinkContext) (files : List LinkFile)
    (c : Collection) : Prop where
  lines : report.lines = c.lines.length
  outlineEntries : report.outlineEntries = (c.outlines.flatMap (·.entries)).length
  overlayEntries : report.overlayEntries = (c.overlays.flatMap (·.entries)).length
  links : report.links.created = c.links.length
  /-- Every pair has made two links, or was dropped for one of the reasons that occur. -/
  pairs : report.links.created + 2 * ((report.links.occurring.map (·.2)).sum : Nat) =
    2 * (rawLinks files).length
  /-- Links and counts are those of one file with all pairs. -/
  resolved : (c.links, report.links) = ctx.resolveAll (rawLinks files)
  unread : report.linkFilesFailed = files.countP (·.isNone)

section Import

variable {settings : Settings} (documents : List Document) (linkFiles : List LinkFile)

/-- The report of an import, by its books, overlays and link files. -/
theorem report_importProgress :
    (importProgress settings documents linkFiles).report =
      { processed := (importBooks documents).length
        failed := failures (numberDocuments {} documents).1
        lines := BookPart.lineTotal (importBooks documents)
        outlineEntries := BookPart.headingTotal (importBooks documents)
        overlayEntries :=
          OverlayTree.entryTotal ((importOverlays settings.placement documents).flatMap (·.trees))
        mismatches := BookPart.mismatchTotal (importBooks documents)
        links := (importContext documents).tallyOf linkFiles
        linkFilesFailed := LinkContext.unreadable linkFiles
        cancelled := false } := by
  simp [importProgress, booksProgress, Progress.withLinks, Progress.withOverlays, Progress.overlaid,
    Progress.withBooks, Progress.start, ImportReport.empty]

/-- **The report of every import is right.** -/
theorem accounts_importProgress (hline : 0 < settings.importer.lineBatch)
    (hlink : 0 < settings.importer.linkBatch) :
    (importProgress settings documents linkFiles).report.Accounts (importContext documents)
      linkFiles (importCollection settings documents linkFiles) := by
  have hlinks : (importCollection settings documents linkFiles).links =
      linkFiles.flatMap (importContext documents).linksOf := links_importCollection hlink
  have hresolved := (importContext documents).resolveAll_rawLinks linkFiles
  have haccounts := (importContext documents).accounts_resolveAll (rawLinks linkFiles)
  rw [hresolved] at haccounts
  rw [report_importProgress]
  refine
    { lines := ?_
      outlineEntries := ?_
      overlayEntries := ?_
      links := ?_
      pairs := ?_
      resolved := ?_
      unread := rfl }
  · rw [lines_importCollection hline]
    exact (length_flatMap_eq_totalOf (fun b => List.length_map ..) _).symm
  · rw [outlines_importCollection, List.flatMap_map]
    exact (length_flatMap_eq_totalOf (fun b => Outline.length_entries_ofHeadings ..) _).symm
  · rw [overlays_importCollection]
    exact (length_flatMap_eq_totalOf (fun t => rfl) _).symm
  · rw [hlinks]
    exact haccounts.created
  · rw [LinkTally.sum_occurring]
    exact haccounts.pairs
  · rw [hlinks, hresolved]

/-- The links of an import are resolved with what it knows of its books. -/
theorem linkContext_importProgress :
    (importProgress settings documents linkFiles).linkContext (importIndex documents) =
      importContext documents :=
  @linkContext_withOverlays settings documents (importOverlays settings.placement documents)

/-- **The accounts of a whole import.** An import that is never halted comes to its end, and the
report of one that was not halted is right about what it left: about the numbers of its lines and
entries, and about all pairs of its link files, as if they had been one file. -/
theorem accounts_of_runImport (hline : 0 < settings.importer.lineBatch)
    (hlink : 0 < settings.importer.linkBatch) :
    (∃ p index, runImport settings .never documents linkFiles = .ok (p, index) ∧
      p.report.cancelled = false) ∧
    ∀ halt p index, runImport settings halt documents linkFiles = .ok (p, index) →
      p.report.cancelled = false →
        p.report.Accounts (p.linkContext index) linkFiles (Collection.ofDeliveries p.deliveries) := by
  constructor
  · have hlines : settings.importer.lineBatch ≠ 0 := by omega
    have hlinks : settings.importer.linkBatch ≠ 0 := by omega
    exact ⟨_, _, runImport_never documents linkFiles hlines hlinks, rfl⟩
  · intro halt p index h running
    obtain ⟨rfl, rfl⟩ := eq_importProgress_of_runImport documents linkFiles h running
    rw [linkContext_importProgress]
    exact accounts_importProgress documents linkFiles hline hlink

/-- The small book and its notes, with one pair that makes two links and one that is dropped. -/
theorem accounts_of_runImport_ruth :
    ∃ p index, runImport {} .never [ruthDocument, notesDocument] ruthLinks = .ok (p, index) ∧
      p.report.Accounts (p.linkContext index) ruthLinks (Collection.ofDeliveries p.deliveries) ∧
        p.report.links.created = 2 ∧ p.report.links.totalDropped = 1 := by
  have hline : 0 < ({} : Settings).importer.lineBatch := by decide
  have hlink : 0 < ({} : Settings).importer.linkBatch := by decide
  obtain ⟨⟨p, index, hrun, running⟩, haccounts⟩ :=
    accounts_of_runImport [ruthDocument, notesDocument] ruthLinks hline hlink
  have haccounts := haccounts .never p index hrun running
  refine ⟨p, index, hrun, haccounts, ?_⟩
  obtain ⟨rfl, -⟩ := eq_importProgress_of_runImport _ _ hrun running
  rw [report_importProgress]
  exact ⟨by decide +kernel, by decide +kernel⟩

end Import

end HebrewCorpus
