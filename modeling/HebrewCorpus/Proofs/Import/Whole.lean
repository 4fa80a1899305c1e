import HebrewCorpus.Proofs.Import.Links
import HebrewCorpus.Proofs.Import.Overlays

/-! # Whole imports

An import that is not halted does the same whatever it was asked in between: it delivers all books,
then all overlays, then all links.

* **`deliverBooks_running`** and its companions: a stage that was not halted is the one that never
  halts.
* **`importBooks`**, **`importIndex`**, **`importOverlays`**, **`importContext`**: what the stages
  of an import work with.
* **`runImport_of_books`**: an import whose books are delivered, as its overlays and links.
* **`importProgress`**: the import as a whole; `runImport_never` and `eq_importProgress_of_runImport`
  say when it is the result. -/

namespace HebrewCorpus

/-! ### Imports that are not halted -/

section Running

variable {lineBatch linkBatch : Int} {halt : Halt} {p p' : Progress}

/-- Books that were all delivered are delivered without a halt. -/
theorem deliverBooks_running {numbered : List (Document × Int)}
    (h : deliverBooks lineBatch halt p numbered = .ok p') (running : p'.report.cancelled = false) :
    deliverBooks lineBatch .never p numbered = .ok p' := by
  induction numbered generalizing p with
  | nil => exact h
  | cons x rest ih =>
    obtain ⟨d, id⟩ := x
    rw [deliverBooks] at h
    rw [deliverBooks, if_neg (by simp [Halt.never])]
    split at h
    · cases h
      cases running
    · cases hflat : flatten d.schema d.content d.titleEn d.titleHe id with
      | error fault =>
        rw [hflat] at h
        exact ih h
      | ok flat =>
        rw [hflat] at h
        obtain ⟨q, hq, h⟩ := exists_of_bind_eq_ok h
        dsimp only
        rw [hq]
        exact ih h

/-- Overlays that were all delivered are delivered without a halt. -/
theorem deliverAllOverlays_running {rules : PlacementRules} {index : RefIndex}
    {books : List DeliveredBook}
    (running : (deliverAllOverlays rules index halt p books).report.cancelled = false) :
    deliverAllOverlays rules index halt p books =
      deliverAllOverlays rules index .never p books := by
  induction books generalizing p with
  | nil => rfl
  | cons b books ih =>
    rw [deliverAllOverlays] at running ⊢
    rw [deliverAllOverlays]
    split at running
    · next hnone =>
      rw [if_pos hnone, if_pos hnone]
      exact ih running
    · next hsome =>
      split at running
      · cases running
      · next hgo =>
        rw [if_neg hsome, if_neg hgo, if_neg hsome, if_neg (by simp [Halt.never])]
        exact ih running

/-- Links that were all delivered are delivered without a halt. -/
theorem deliverAllLinks_running {ctx : LinkContext} {files : List LinkFile}
    (h : deliverAllLinks linkBatch ctx halt p files = .ok p')
    (running : p'.report.cancelled = false) :
    deliverAllLinks linkBatch ctx .never p files = .ok p' := by
  induction files generalizing p with
  | nil => exact h
  | cons file files ih =>
    rw [deliverAllLinks] at h
    rw [deliverAllLinks, if_neg (by simp [Halt.never])]
    split at h
    · cases h
      cases running
    · obtain ⟨q, hq, h⟩ := exists_of_bind_eq_ok h
      rw [hq]
      exact ih h

end Running

/-! ### The stages of an import -/

/-- **The books of an import.** -/
def importBooks (documents : List Document) : List BookPart :=
  layBooks 1 1 (numberDocuments {} documents).1

/-- No two books of an import have one number. -/
theorem nodup_book_importBooks (documents : List Document) :
    ((importBooks documents).map (·.flat.book)).Nodup := by
  have hids := (numberDocuments_spec {} documents).2.1
  have hsub := map_book_layBooks_sublist 1 1 (numberDocuments {} documents).1
  rw [hids] at hsub
  exact hsub.nodup (nodup_numbersFrom _ _)

/-- **The reference index of an import.** -/
def importIndex (documents : List Document) : RefIndex :=
  .build ((importBooks documents).flatMap (·.flat.refs))
    ((importBooks documents).map fun b => (b.flat.book, b.document.titles))
    ((importBooks documents).map fun b => (b.flat.book, b.firstLine))

/-- **The overlays of an import.** -/
def importOverlays (rules : PlacementRules) (documents : List Document) : List OverlayPart :=
  layOverlays (overlayTrees rules (importIndex documents)) 1 1
    ((importBooks documents).map (·.delivered))

/-- **What the links of an import are resolved with.** -/
def importContext (documents : List Document) : LinkContext :=
  ⟨importIndex documents, (importBooks documents).map fun b => (b.flat.book, b.delivered.standing)⟩

/-- An import after its books. -/
def booksProgress (settings : Settings) (documents : List Document) : Progress :=
  { Progress.start with counters := (numberDocuments {} documents).2 }.withBooks
    settings.importer.lineBatch (importBooks documents) (failures (numberDocuments {} documents).1)

/-- **The import as a whole.** -/
def importProgress (settings : Settings) (documents : List Document) (linkFiles : List LinkFile) :
    Progress :=
  ((booksProgress settings documents).withOverlays
    (importOverlays settings.placement documents)).withLinks settings.importer.linkBatch
      (importContext documents) linkFiles

section Whole

variable {settings : Settings} (documents : List Document) (linkFiles : List LinkFile)

/-- The first stage of an import. -/
theorem deliverBooks_start (hline : settings.importer.lineBatch ≠ 0) :
    deliverBooks settings.importer.lineBatch .never
        { Progress.start with counters := (numberDocuments {} documents).2 }
        (numberDocuments {} documents).1 = .ok (booksProgress settings documents) := by
  have hcounters := (numberDocuments_spec {} documents).2.2
  rw [deliverBooks_never hline, booksProgress, importBooks]
  rw [hcounters]

/-- The index of an import is that of its books. -/
theorem index_booksProgress : (booksProgress settings documents).index = importIndex documents := by
  simp [Progress.index, booksProgress, Progress.withBooks, Progress.start, importIndex,
    BookPart.delivered, Function.comp_def]

/-- The second stage of an import. -/
theorem deliverAllOverlays_booksProgress :
    deliverAllOverlays settings.placement (importIndex documents) .never
        (booksProgress settings documents) (booksProgress settings documents).books =
      (booksProgress settings documents).withOverlays
        (importOverlays settings.placement documents) := by
  have hcounters := (numberDocuments_spec {} documents).2.2
  rw [deliverAllOverlays_never, importOverlays]
  simp [booksProgress, Progress.withBooks, Progress.start, hcounters]

/-- The third stage of an import. -/
theorem linkContext_withOverlays (os : List OverlayPart) :
    ((booksProgress settings documents).withOverlays os).linkContext (importIndex documents) =
      importContext documents := by
  simp [Progress.linkContext, Progress.withOverlays, Progress.overlaid, booksProgress,
    Progress.withBooks, Progress.start, importContext, BookPart.delivered, Function.comp_def]

/-- Nothing is cancelled by the books. -/
theorem cancelled_booksProgress : (booksProgress settings documents).report.cancelled = false := rfl

/-- Nothing is cancelled by the overlays. -/
theorem cancelled_withOverlays (os : List OverlayPart) :
    ((booksProgress settings documents).withOverlays os).report.cancelled = false := rfl

/-- Books that are delivered are the books of the import. -/
theorem eq_booksProgress_of_deliverBooks {p : Progress}
    (h : deliverBooks settings.importer.lineBatch .never
      { Progress.start with counters := (numberDocuments {} documents).2 }
      (numberDocuments {} documents).1 = .ok p) : p = booksProgress settings documents := by
  have hcounters := (numberDocuments_spec {} documents).2.2
  rw [withBooks_of_deliverBooks h, booksProgress, importBooks]
  dsimp only
  rw [hcounters]

/-- **An import whose books are delivered** goes on to its overlays and its links. -/
theorem runImport_of_books {p : Progress}
    (h : deliverBooks settings.importer.lineBatch .never
      { Progress.start with counters := (numberDocuments {} documents).2 }
      (numberDocuments {} documents).1 = .ok p) :
    runImport settings .never documents linkFiles =
      (deliverAllLinks settings.importer.linkBatch (importContext documents) .never
        ((booksProgress settings documents).withOverlays
          (importOverlays settings.placement documents)) linkFiles).map
        (·, importIndex documents) := by
  rw [runImport]
  dsimp only [bind, Except.bind]
  rw [h, eq_booksProgress_of_deliverBooks documents h]
  dsimp only
  rw [cancelled_booksProgress, if_neg Bool.false_ne_true, index_booksProgress,
    deliverAllOverlays_booksProgress, cancelled_withOverlays, if_neg Bool.false_ne_true,
    linkContext_withOverlays]
  rfl

/-- **An import that never halts** delivers everything. -/
theorem runImport_never (hline : settings.importer.lineBatch ≠ 0)
    (hlink : settings.importer.linkBatch ≠ 0) :
    runImport settings .never documents linkFiles =
      .ok (importProgress settings documents linkFiles, importIndex documents) := by
  rw [runImport_of_books documents linkFiles (deliverBooks_start documents hline),
    deliverAllLinks_never _ hlink]
  rfl

/-- **An import that was not halted** delivered everything. -/
theorem eq_importProgress_of_runImport {halt : Halt}
    {p : Progress} {index : RefIndex}
    (h : runImport settings halt documents linkFiles = .ok (p, index))
    (running : p.report.cancelled = false) :
    p = importProgress settings documents linkFiles ∧ index = importIndex documents := by
  rw [runImport] at h
  obtain ⟨p₁, hbooks, h⟩ := exists_of_bind_eq_ok h
  dsimp only at h
  -- an import that was cancelled in the first or the second stage ends cancelled
  by_cases hc₁ : p₁.report.cancelled = true
  · rw [if_pos hc₁] at h
    cases h
    exact absurd hc₁ (by simp [running])
  · rw [if_neg hc₁] at h
    have hp₁ : p₁ = booksProgress settings documents := eq_booksProgress_of_deliverBooks documents
      (deliverBooks_running hbooks (Bool.eq_false_iff.2 hc₁))
    by_cases hc₂ : (deliverAllOverlays settings.placement p₁.index halt p₁
        p₁.books).report.cancelled = true
    · rw [if_pos hc₂] at h
      cases h
      exact absurd hc₂ (by simp [running])
    · rw [if_neg hc₂, deliverAllOverlays_running (Bool.eq_false_iff.2 hc₂), hp₁,
        index_booksProgress, deliverAllOverlays_booksProgress, linkContext_withOverlays] at h
      obtain ⟨p₃, hlinks, h⟩ := exists_of_bind_eq_ok h
      cases h
      exact ⟨withLinks_of_deliverAllLinks _ (deliverAllLinks_running hlinks running), rfl⟩

end Whole

end HebrewCorpus
