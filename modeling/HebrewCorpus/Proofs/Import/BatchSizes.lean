import HebrewCorpus.Proofs.Import.Accounting
import HebrewCorpus.Settings.Record

/-! # Batch sizes

Lines and links are handed over in batches, and as long as the sizes of these are positive they do
not matter. An import with batches of size 0 stops at its first book or readable link file, and with
batches of a negative size it hands over no lines or no links at all, though its report counts
them.

* **`exists_deliverBooks_iff`**, **`exists_deliverAllLinks_iff`**: when a stage comes to its end.
* **`exists_runImport_iff`**: when an import does.
* **`output_of_batchSizes`**: what two imports with different batch sizes leave. -/

namespace HebrewCorpus

/-- **All books are delivered** unless there are any and their lines are to be handed over in empty
batches. -/
theorem exists_deliverBooks_iff {lineBatch : Int} (p : Progress) (numbered : List (Document × Int))
    (line entry : Int) :
    (∃ q, deliverBooks lineBatch .never p numbered = .ok q) ↔
      (lineBatch = 0 → layBooks line entry numbered = []) := by
  by_cases hbatch : lineBatch = 0
  · subst hbatch
    rw [eq_self_iff_true, true_imp_iff]
    induction numbered generalizing p with
    | nil => exact ⟨fun _ => rfl, fun _ => ⟨p, rfl⟩⟩
    | cons x rest ih =>
      obtain ⟨d, id⟩ := x
      rw [deliverBooks, if_neg (by simp [Halt.never]), layBooks, ← Document.flat]
      -- only a book that can be flattened has lines to hand over
      cases d.flat id with
      | error fault => exact ih _
      | ok flat => simp [deliverBook, batches, bind, Except.bind]
  · exact iff_of_true ⟨_, deliverBooks_never hbatch p numbered⟩ fun h => absurd h hbatch

/-- **All link files are delivered** unless one can be read and its links are to be handed over in
empty batches. -/
theorem exists_deliverAllLinks_iff {linkBatch : Int} (ctx : LinkContext) (p : Progress)
    (files : List LinkFile) :
    (∃ q, deliverAllLinks linkBatch ctx .never p files = .ok q) ↔
      (linkBatch = 0 → ∀ file ∈ files, file = none) := by
  by_cases hbatch : linkBatch = 0
  · subst hbatch
    rw [eq_self_iff_true, true_imp_iff]
    induction files generalizing p with
    | nil => exact ⟨fun _ _ h => (List.not_mem_nil h).elim, fun _ => ⟨p, rfl⟩⟩
    | cons file files ih =>
      rw [deliverAllLinks, if_neg (by simp [Halt.never]), List.forall_mem_cons]
      cases file with
      | none =>
        simp only [deliverLinks, bind, Except.bind, true_and]
        exact ih _
      | some raws => simp [deliverLinks, batches, bind, Except.bind]
  · exact iff_of_true ⟨_, deliverAllLinks_never ctx hbatch files p⟩ fun h => absurd h hbatch

section Import

variable {settings : Settings} {documents : List Document} {linkFiles : List LinkFile}

/-- **An import that is never halted comes to its end** unless it would have to hand something over
in empty batches. -/
theorem exists_runImport_iff (settings : Settings) (documents : List Document)
    (linkFiles : List LinkFile) :
    (∃ p index, runImport settings .never documents linkFiles = .ok (p, index) ∧
      p.report.cancelled = false) ↔
        (settings.importer.lineBatch = 0 → importBooks documents = []) ∧
          (settings.importer.linkBatch = 0 → ∀ file ∈ linkFiles, file = none) := by
  rw [importBooks, ← exists_deliverBooks_iff
      { Progress.start with counters := (numberDocuments {} documents).2 },
    ← exists_deliverAllLinks_iff (importContext documents)
      ((booksProgress settings documents).withOverlays
        (importOverlays settings.placement documents))]
  constructor
  · rintro ⟨p, index, h, -⟩
    obtain ⟨q, hq, -⟩ := exists_of_bind_eq_ok h
    refine ⟨⟨q, hq⟩, ?_⟩
    -- after the books only the links can stop it
    rw [runImport_of_books documents linkFiles hq] at h
    cases hlinks : deliverAllLinks settings.importer.linkBatch (importContext documents) .never
        ((booksProgress settings documents).withOverlays
          (importOverlays settings.placement documents)) linkFiles with
    | error fault =>
      rw [hlinks] at h
      cases h
    | ok r => exact ⟨r, rfl⟩
  · rintro ⟨⟨q, hq⟩, r, hr⟩
    refine ⟨r, importIndex documents, ?_, ?_⟩
    · rw [runImport_of_books documents linkFiles hq, hr]
      rfl
    · rw [withLinks_of_deliverAllLinks _ hr]
      rfl

/-- **What is handed over of several lists** is all of them, or nothing when the size is
negative. -/
theorem flatMap_flatten_pieces {α β : Type} (size : Int) (f : α → List β) (as : List α) :
    (as.flatMap fun a => (pieces size (f a)).flatten) = if size < 0 then [] else as.flatMap f := by
  unfold pieces
  split
  · exact List.flatMap_eq_nil_iff.2 fun _ _ => rfl
  · simp only [flatten_chunks]

/-- **The collection of an import by the sizes of its batches.** It is the one that any sizes which
are not negative leave, without the lines or the links when their size is negative. -/
theorem importCollection_eq (settings : Settings) (documents : List Document)
    (linkFiles : List LinkFile) (i : ImportSettings) {j : ImportSettings} (hline : 0 ≤ j.lineBatch)
    (hlink : 0 ≤ j.linkBatch) :
    importCollection { settings with importer := i } documents linkFiles =
      { importCollection { settings with importer := j } documents linkFiles with
        lines := if i.lineBatch < 0 then [] else
          (importCollection { settings with importer := j } documents linkFiles).lines
        links := if i.linkBatch < 0 then [] else
          (importCollection { settings with importer := j } documents linkFiles).links } := by
  have hrows (k : ImportSettings) :=
    rows_importCollection { settings with importer := k } documents linkFiles
  have hlinks (k : ImportSettings) :=
    linkRows_importCollection { settings with importer := k } documents linkFiles
  simp only [flatMap_flatten_pieces] at hrows hlinks
  refine Collection.ext ?_ ?_ ?_ ?_ ?_ ?_
  · show (importCollection _ _ _).books = (importCollection _ _ _).books
    rw [books_importCollection, books_importCollection]
  · show (importCollection _ _ _).lines = if i.lineBatch < 0 then [] else _
    rw [(hrows i).1, (hrows j).1, if_neg (Int.not_lt.2 hline)]
  · exact (hrows i).2.1.trans (hrows j).2.1.symm
  · exact (hrows i).2.2.trans (hrows j).2.2.symm
  · show (importCollection _ _ _).links = if i.linkBatch < 0 then [] else _
    rw [hlinks i, hlinks j, if_neg (Int.not_lt.2 hlink)]
  · exact (Collection.isClosed_ofDeliveries _).trans (Collection.isClosed_ofDeliveries _).symm

/-- **Batch sizes change nothing as long as they are positive.** An import that is never halted comes
to its end unless it would have to hand something over in batches of size 0. Two that were not
halted, one of them with no negative size, made the same report and left the same collection, but
that the other left no lines or no links when it was to hand them over in batches of a negative
size. -/
theorem output_of_batchSizes (settings : Settings) (documents : List Document)
    (linkFiles : List LinkFile) (i j : ImportSettings) :
    ((∃ p index,
        runImport { settings with importer := i } .never documents linkFiles = .ok (p, index) ∧
          p.report.cancelled = false) ↔
        (i.lineBatch = 0 → importBooks documents = []) ∧
          (i.linkBatch = 0 → ∀ file ∈ linkFiles, file = none)) ∧
    ∀ halt halt' p index p' index', 0 ≤ j.lineBatch → 0 ≤ j.linkBatch →
      runImport { settings with importer := i } halt documents linkFiles = .ok (p, index) →
        p.report.cancelled = false →
          runImport { settings with importer := j } halt' documents linkFiles = .ok (p', index') →
            p'.report.cancelled = false →
              p.report = p'.report ∧
                Collection.ofDeliveries p.deliveries =
                  { Collection.ofDeliveries p'.deliveries with
                    lines := if i.lineBatch < 0 then [] else
                      (Collection.ofDeliveries p'.deliveries).lines
                    links := if i.linkBatch < 0 then [] else
                      (Collection.ofDeliveries p'.deliveries).links } := by
  refine ⟨exists_runImport_iff { settings with importer := i } documents linkFiles, ?_⟩
  intro halt halt' p index p' index' hline hlink h running h' running'
  obtain ⟨rfl, -⟩ := eq_importProgress_of_runImport documents linkFiles h running
  obtain ⟨rfl, -⟩ := eq_importProgress_of_runImport documents linkFiles h' running'
  rw [report_importProgress, report_importProgress]
  exact ⟨rfl, importCollection_eq settings documents linkFiles i hline hlink⟩

/-- The small book, its notes and the links between them, handed over one by one, and by
thousands. -/
theorem output_of_batchSizes_ruth :
    ∃ p index p' index',
      runImport { importer := { lineBatch := 1, linkBatch := 1 } } .never
        [ruthDocument, notesDocument] ruthLinks = .ok (p, index) ∧
      runImport {} .never [ruthDocument, notesDocument] ruthLinks = .ok (p', index') ∧
        p.report = p'.report ∧
          Collection.ofDeliveries p.deliveries = Collection.ofDeliveries p'.deliveries ∧
            p.deliveries.length = 13 ∧ p'.deliveries.length = 9 := by
  obtain ⟨hends, hsame⟩ := output_of_batchSizes {} [ruthDocument, notesDocument] ruthLinks
    { lineBatch := 1, linkBatch := 1 } {}
  obtain ⟨p, index, hrun, running⟩ := hends.2 ⟨by decide, by decide⟩
  obtain ⟨p', index', hrun', running'⟩ :=
    (output_of_batchSizes {} [ruthDocument, notesDocument] ruthLinks {} {}).1.2
      ⟨by decide, by decide⟩
  obtain ⟨hreport, hcollection⟩ := hsame .never .never p index p' index' (by decide) (by decide)
    hrun running hrun' running'
  refine ⟨p, index, p', index', hrun, hrun', hreport, hcollection, ?_⟩
  obtain ⟨rfl, -⟩ := eq_importProgress_of_runImport _ _ hrun running
  obtain ⟨rfl, -⟩ := eq_importProgress_of_runImport _ _ hrun' running'
  exact ⟨by decide +kernel, by decide +kernel⟩

/-- How many lines an import counts, and how many it leaves, if it comes to its end. -/
def linesOfImport (importer : ImportSettings) (documents : List Document) : Option (Nat × Nat) :=
  (runImport { importer } .never documents []).toOption.map fun (p, _) =>
    (p.report.lines, (Collection.ofDeliveries p.deliveries).lines.length)

/-- **Sizes that are accepted and are not positive change the output.** With batches of size -1 the
small book is imported without its lines, which the report counts; with batches of size 0 the import
stops. -/
theorem output_ne_of_batchSizes_ruth :
    ImportSettings.ofJson (.object [("line_batch_size".toList, .int (-1))]) =
        .ok { lineBatch := -1 } ∧
      ImportSettings.ofJson (.object [("line_batch_size".toList, .int 0)]) =
        .ok { lineBatch := 0 } ∧
      linesOfImport {} [ruthDocument] = some (3, 3) ∧
      linesOfImport { lineBatch := -1 } [ruthDocument] = some (3, 0) ∧
      linesOfImport { lineBatch := 0 } [ruthDocument] = none := by
  refine ⟨rfl, rfl, ?_, ?_, ?_⟩ <;> decide +kernel

end Import

end HebrewCorpus
