import HebrewCorpus.Proofs.Book.Walk
import HebrewCorpus.Proofs.Import.Layout
import HebrewCorpus.Proofs.Schema.Reading

/-! # Imports without failures

A document counts as failed when it cannot be flattened, and one with an accepted schema always can.
So no import of such documents has failures to report, wherever it was halted.

* **`failed_of_deliverBooks`**, **`failed_of_runImport`**: what becomes of the count of failures.
* **`exists_runImport`**: an import that hands over no empty batches comes to its end, halted or not.
* **`flattening_never_fails`**: schemas that are read, walks through their books, and imports. -/

namespace HebrewCorpus

/-! ### Stages of an import -/

section Stages

variable {lineBatch linkBatch : Int} {halt : Halt} {p q : Progress}

/-- A book that is delivered is no failure. -/
theorem failed_of_deliverBook {d : Document} {flat : FlatBook}
    (h : deliverBook lineBatch d flat p = .ok q) : q.report.failed = p.report.failed := by
  obtain ⟨pieces, -, h⟩ := exists_of_bind_eq_ok h
  cases h
  rfl

/-- **Documents with accepted schemas are no failures.** -/
theorem failed_of_deliverBooks {numbered : List (Document × Int)}
    (accepted : ∀ x ∈ numbered, x.1.schema.Accepted)
    (h : deliverBooks lineBatch halt p numbered = .ok q) : q.report.failed = p.report.failed := by
  induction numbered generalizing p with
  | nil =>
    cases h
    rfl
  | cons x rest ih =>
    obtain ⟨d, id⟩ := x
    obtain ⟨flat, hflat⟩ := flatten_eq_ok (accepted _ List.mem_cons_self) d.content d.titleEn
      d.titleHe id
    rw [deliverBooks, hflat] at h
    split at h
    · cases h
      rfl
    · obtain ⟨p', hp', h⟩ := exists_of_bind_eq_ok h
      rw [ih (fun x hx => accepted x (List.mem_cons_of_mem _ hx)) h, failed_of_deliverBook hp']

/-- Overlays are no failures. -/
theorem failed_deliverAllOverlays (rules : PlacementRules) (index : RefIndex)
    (books : List DeliveredBook) :
    (deliverAllOverlays rules index halt p books).report.failed = p.report.failed := by
  induction books generalizing p with
  | nil => rfl
  | cons b books ih =>
    rw [deliverAllOverlays]
    split
    · exact ih
    · split
      · rfl
      · rw [ih, deliverOverlays_eq]
        rfl

/-- Links are no failures. -/
theorem failed_of_deliverAllLinks {ctx : LinkContext} {files : List LinkFile}
    (h : deliverAllLinks linkBatch ctx halt p files = .ok q) : q.report.failed = p.report.failed := by
  induction files generalizing p with
  | nil =>
    cases h
    rfl
  | cons file files ih =>
    rw [deliverAllLinks] at h
    split at h
    · cases h
      rfl
    · obtain ⟨p', hp', h⟩ := exists_of_bind_eq_ok h
      rw [ih h, withLinks_of_deliverLinks ctx hp']
      rfl

/-- **Books are delivered until the halt**, unless their lines are to be handed over in empty
batches. -/
theorem exists_deliverBooks (hbatch : lineBatch ≠ 0) (halt : Halt) (p : Progress)
    (numbered : List (Document × Int)) : ∃ q, deliverBooks lineBatch halt p numbered = .ok q := by
  induction numbered generalizing p with
  | nil => exact ⟨p, rfl⟩
  | cons x rest ih =>
    obtain ⟨d, id⟩ := x
    rw [deliverBooks]
    split
    · exact ⟨_, rfl⟩
    · split
      · exact ih _
      · rw [deliverBook_eq_ok hbatch]
        exact ih _

/-- **Links are delivered until the halt**, unless they are to be handed over in empty batches. -/
theorem exists_deliverAllLinks (hbatch : linkBatch ≠ 0) (ctx : LinkContext) (halt : Halt)
    (p : Progress) (files : List LinkFile) :
    ∃ q, deliverAllLinks linkBatch ctx halt p files = .ok q := by
  induction files generalizing p with
  | nil => exact ⟨p, rfl⟩
  | cons file files ih =>
    rw [deliverAllLinks]
    split
    · exact ⟨_, rfl⟩
    · rw [deliverLinks_eq_ok ctx hbatch]
      exact ih _

end Stages

/-! ### Whole imports -/

section Import

variable {settings : Settings} {documents : List Document} {linkFiles : List LinkFile} {halt : Halt}

/-- **An import of documents with accepted schemas has no failures**, wherever it was halted. -/
theorem failed_of_runImport {p : Progress} {index : RefIndex}
    (accepted : ∀ d ∈ documents, d.schema.Accepted)
    (h : runImport settings halt documents linkFiles = .ok (p, index)) : p.report.failed = 0 := by
  obtain ⟨p₁, hbooks, h⟩ := exists_of_bind_eq_ok h
  have hfailed : p₁.report.failed = 0 := by
    refine (failed_of_deliverBooks ?_ hbooks).trans rfl
    intro x hx
    have hmem := List.mem_map_of_mem (f := (·.1)) hx
    rw [(numberDocuments_spec {} documents).1] at hmem
    exact accepted x.1 hmem
  dsimp only at h
  split at h
  · cases h
    exact hfailed
  · split at h
    · cases h
      rw [failed_deliverAllOverlays, hfailed]
    · obtain ⟨p₃, hlinks, h⟩ := exists_of_bind_eq_ok h
      cases h
      rw [failed_of_deliverAllLinks hlinks, failed_deliverAllOverlays, hfailed]

/-- **An import comes to its end**, halted or not, unless it is to hand something over in empty
batches. -/
theorem exists_runImport (hline : settings.importer.lineBatch ≠ 0)
    (hlink : settings.importer.linkBatch ≠ 0) (halt : Halt) (documents : List Document)
    (linkFiles : List LinkFile) :
    ∃ p index, runImport settings halt documents linkFiles = .ok (p, index) := by
  rw [runImport]
  obtain ⟨p₁, hbooks⟩ := exists_deliverBooks hline halt
    { Progress.start with counters := (numberDocuments {} documents).2 }
    (numberDocuments {} documents).1
  dsimp only [bind, Except.bind]
  rw [hbooks]
  dsimp only
  split
  · exact ⟨_, _, rfl⟩
  · split
    · exact ⟨_, _, rfl⟩
    · obtain ⟨p₃, hlinks⟩ := exists_deliverAllLinks hlink
        ((deliverAllOverlays settings.placement p₁.index halt p₁ p₁.books).linkContext p₁.index) halt
        (deliverAllOverlays settings.placement p₁.index halt p₁ p₁.books) linkFiles
      rw [hlinks]
      exact ⟨_, _, rfl⟩

end Import

/-- **Nothing fails for its content.** Every schema that is read is accepted. With an accepted schema
the walk through any content comes to its end: no list is read behind its end, every position has
labels, and each mismatch that is raised is caught and counted in the flattened book. So an import of
documents with such schemas comes to its end, unless it is to hand something over in empty batches,
and wherever it ends it has no failures. -/
theorem flattening_never_fails :
    (∀ value schema, SchemaNode.ofJson value = .ok schema ∨ SchemaNode.ofSource value = .ok schema →
      schema.Accepted) ∧
    (∀ schema : SchemaNode, schema.Accepted → ∀ content titleEn titleHe book, ∃ flat raised,
      flatten schema content titleEn titleHe book = .ok flat ∧
        walkBook schema content titleEn titleHe book = (.ok (), ⟨flat, raised⟩) ∧
          flat.mismatches = raised.length) ∧
    ∀ settings halt documents linkFiles, (∀ d ∈ documents, d.schema.Accepted) →
      (settings.importer.lineBatch ≠ 0 → settings.importer.linkBatch ≠ 0 →
        ∃ p index, runImport settings halt documents linkFiles = .ok (p, index)) ∧
      ∀ p index, runImport settings halt documents linkFiles = .ok (p, index) →
        p.report.failed = 0 := by
  refine ⟨?_, fun schema h => walkBook_eq h, ?_⟩
  · rintro value schema (h | h)
    · exact SchemaNode.accepted_of_ofJson value h
    · exact SchemaNode.accepted_of_ofSource value h
  · intro settings halt documents linkFiles accepted
    exact ⟨fun hline hlink => exists_runImport hline hlink halt documents linkFiles,
      fun p index => failed_of_runImport accepted⟩

/-- Leaves with two sides and lines, of which only the sides may be referred to. -/
def shabbatSchema : SchemaNode :=
  .leaf ⟨[], "Shabbat".toList, []⟩
    ⟨2, ["Daf".toList, "Line".toList], ["דף".toList, " ".toList], [.talmudPage, .integer],
      [true, false]⟩

/-- Sides without text, a line that is none, and a side that is no list of lines. -/
def shabbatContent : Json :=
  .array [.array [], .null, .array [.text "yetziot".toList, .int 3], .text "lost".toList]

/-- A walk that goes on behind two mismatches, and an import that is halted at its second book. -/
theorem flattening_never_fails_shabbat :
    SchemaNode.ofJson shabbatSchema.toJson = .ok shabbatSchema ∧
      (∃ flat raised,
        flatten shabbatSchema shabbatContent "Shabbat".toList [] 7 = .ok flat ∧
          walkBook shabbatSchema shabbatContent "Shabbat".toList [] 7 = (.ok (), ⟨flat, raised⟩) ∧
            raised.map (·.message) = ["Shabbat 2a:2: expected string, got int".toList,
              "Shabbat 2b: expected array, got str".toList] ∧ flat.mismatches = 2) ∧
      ∃ p index, runImport {} (fun ds => !ds.isEmpty) [ruthDocument, notesDocument] [none] =
        .ok (p, index) ∧ p.report.failed = 0 := by
  obtain ⟨hreads, hwalks, himports⟩ := flattening_never_fails
  have hread : SchemaNode.ofJson shabbatSchema.toJson = .ok shabbatSchema := rfl
  refine ⟨hread, ?_, ?_⟩
  · have accepted : shabbatSchema.Accepted := hreads shabbatSchema.toJson shabbatSchema (.inl hread)
    obtain ⟨flat, raised, hflat, hwalk, hcount⟩ :=
      hwalks shabbatSchema accepted shabbatContent "Shabbat".toList [] 7
    have hraised : (walkBook shabbatSchema shabbatContent "Shabbat".toList [] 7).2.raised.map
        (·.message) = ["Shabbat 2a:2: expected string, got int".toList,
          "Shabbat 2b: expected array, got str".toList] := by decide +kernel
    rw [hwalk] at hraised
    have htwo := congrArg List.length hraised
    rw [List.length_map] at htwo
    exact ⟨flat, raised, hflat, hwalk, hraised, hcount.trans htwo⟩
  · obtain ⟨hends, hfailed⟩ := himports {} (fun ds => !ds.isEmpty) [ruthDocument, notesDocument]
      [none] accepted_ruthDocuments
    obtain ⟨p, index, hrun⟩ := hends (by decide) (by decide)
    exact ⟨p, index, hrun, hfailed p index hrun⟩

end HebrewCorpus
