import HebrewCorpus.Proofs.Citation.SourceBook
import HebrewCorpus.Proofs.Import.Contents

/-! # The layout of an import

An import of accepted documents makes a book of each. Books, lines and outline entries are numbered
without a gap in the order of the documents, and what refers to a line or an entry refers to one of
the same book.

* **`PublishedBook`**: a book as a collection holds it; **`PublishedBook.Presents`** relates it to
  its document.
* **`Collection.LaidOut`**: a collection of such books.
* **`laidOut_importCollection`**: every import leaves such a collection. -/

namespace HebrewCorpus

/-- **A book as a collection holds it**: its record, its lines and its outline. -/
structure PublishedBook where
  record : BookRecord
  lines : List Line
  outline : Outline

/-- **A book that presents a document**, and whose lines and outline fit together. -/
structure PublishedBook.Presents (d : Document) (b : PublishedBook) : Prop where
  /-- The record and the lines are what flattening makes of the document. -/
  source : ∃ flat, d.flat b.record.id = .ok flat ∧
    b.record = { d.record flat with hasOverlays := b.record.hasOverlays } ∧
      b.lines.map (fun l => { l with id := none }) = flat.lines
  line_book : ∀ l ∈ b.lines, l.book = b.record.id
  line_index : b.lines.map (·.index) = numbersFrom 0 b.lines.length
  line_count : b.record.lineCount = b.lines.length
  outline_book : b.outline.book = b.record.id
  entry_book : ∀ e ∈ b.outline.entries, e.book = b.record.id
  /-- Parents are earlier entries. -/
  entry_parent : ∀ e ∈ b.outline.entries, ∀ q, e.parent = some q →
    ∃ f ∈ b.outline.entries, f.id = q ∧ q < e.id
  entry_line : ∀ e ∈ b.outline.entries, ∀ n, e.line = some n → ∃ l ∈ b.lines, l.id = some n
  /-- Every line is mapped once, in the order of the lines. -/
  lineMap_line : b.outline.lineMap.map (some ·.1) = b.lines.map (·.id)
  lineMap_entry : ∀ m ∈ b.outline.lineMap, ∃ e ∈ b.outline.entries, e.id = m.2

/-- **A collection of the books of some documents**, each a block of its lines. -/
structure Collection.LaidOut (documents : List Document) (books : List PublishedBook)
    (c : Collection) : Prop where
  length_books : books.length = documents.length
  presents : ∀ x ∈ documents.zip books, x.2.Presents x.1
  book_rows : c.books = books.map (·.record)
  line_rows : c.lines = books.flatMap (·.lines)
  outline_rows : c.outlines = books.map (·.outline)
  book_ids : c.books.map (·.id) = numbersFrom 1 documents.length
  line_ids : c.lines.map (·.id) = (numbersFrom 1 c.lines.length).map some
  entry_ids : (c.outlines.flatMap (·.entries)).map (·.id) =
    numbersFrom 1 (c.outlines.flatMap (·.entries)).length

namespace BookPart

/-- The book as a collection holds it, with or without a mark. -/
def published (b : BookPart) (mark : Bool) : PublishedBook :=
  ⟨{ b.record with hasOverlays := mark }, b.lines, b.outline⟩

/-- **A laid book presents its document.** -/
theorem presents {b : BookPart} (h : b.document.flat b.flat.book = .ok b.flat) (mark : Bool) :
    (b.published mark).Presents b.document := by
  have hw := wellFormed_of_flatten h
  have hlength : b.lines.length = b.flat.lines.length := List.length_map _
  refine
    { source := ⟨b.flat, h, rfl, ?_⟩
      line_book := ?_
      line_index := ?_
      line_count := ?_
      outline_book := rfl
      entry_book := fun e he => (Outline.exists_heading_of_mem_entries he).1
      entry_parent := fun e he q hq => Outline.exists_parent_of_mem_entries he hq
      entry_line := ?_
      lineMap_line := ?_
      lineMap_entry := fun m hm => Outline.exists_entry_of_mem_lineMap hm }
  · show (b.flat.lines.map (·.numbered b.firstLine)).map (fun l => { l with id := none }) = _
    rw [List.map_map]
    refine (List.map_congr_left fun l hl => ?_).trans (List.map_id _)
    show ({ l with id := none } : Line) = l
    rw [← hw.line_id l hl]
  · exact fun l hl => book_of_mem_lines h hl
  · show b.lines.map (·.index) = numbersFrom 0 b.lines.length
    rw [map_index_lines h, hlength]
  · exact congrArg Int.ofNat hlength.symm
  · intro e he n hn
    -- an entry has a line only when its heading stands in front of one
    obtain ⟨-, heading, hmem, -, hline⟩ := Outline.exists_heading_of_mem_entries he
    rw [hline] at hn
    split at hn
    · next hlt =>
      have hle := hw.heading_line heading hmem
      cases hn
      have hblock : b.firstLine + heading.lineIndex ∈
          numbersFrom b.firstLine b.flat.lines.length := by
        rw [mem_numbersFrom]
        omega
      obtain ⟨l, hl, hid, -⟩ := exists_line h hblock
      exact ⟨l, hl, hid⟩
    · cases hn
  · obtain ⟨title, rest, hheadings⟩ := hw.first_heading
    show b.outline.lineMap.map (some ·.1) = b.lines.map (·.id)
    rw [map_id_lines h, ← Outline.map_fst_lineMap_ofHeadings hheadings rfl, List.map_map]
    rfl

/-- Laid books present their documents. -/
theorem presents_of_mem_zip {bs : List BookPart}
    (h : ∀ b ∈ bs, b.document.flat b.flat.book = .ok b.flat) (mark : BookPart → Bool) :
    ∀ x ∈ (bs.map (·.document)).zip (bs.map fun b => b.published (mark b)), x.2.Presents x.1 := by
  rw [List.zip_map']
  intro x hx
  obtain ⟨b, hb, rfl⟩ := List.mem_map.1 hx
  exact presents (h b hb) (mark b)

end BookPart

/-! ### Imports -/

section Import

variable {settings : Settings} {documents : List Document}

/-- Accepted documents make a book each, with neighbouring numbers. -/
theorem importBooks_spec (accepted : ∀ d ∈ documents, d.schema.Accepted) :
    (importBooks documents).map (·.document) = documents ∧
      (importBooks documents).map (·.flat.book) = numbersFrom 1 documents.length ∧
      failures (numberDocuments {} documents).1 = 0 := by
  obtain ⟨hdocuments, hids, -⟩ := numberDocuments_spec {} documents
  have haccepted : ∀ x ∈ (numberDocuments {} documents).1, x.1.schema.Accepted := by
    intro x hx
    refine accepted x.1 ?_
    rw [← hdocuments]
    exact List.mem_map_of_mem hx
  obtain ⟨hbooks, hfailed⟩ := layBooks_spec haccepted 1 1
  refine ⟨?_, ?_, hfailed⟩
  · rw [← hbooks, List.map_map] at hdocuments
    exact hdocuments
  · rw [← hbooks, List.map_map] at hids
    exact hids

/-- **Every import of accepted documents leaves their books**, laid out one after the other. -/
theorem laidOut_importCollection (hline : 0 < settings.importer.lineBatch)
    (accepted : ∀ d ∈ documents, d.schema.Accepted) (linkFiles : List LinkFile) :
    ∃ books, (importCollection settings documents linkFiles).LaidOut documents books := by
  obtain ⟨hdocuments, hids, -⟩ := importBooks_spec accepted
  -- the overlays decide the marks, and nothing else of the books
  let mark (b : BookPart) : Bool :=
    hasTrees (importOverlays settings.placement documents) b.flat.book
  refine ⟨(importBooks documents).map fun b => b.published (mark b), ?_⟩
  refine
    { length_books := ?_
      presents := ?_
      book_rows := ?_
      line_rows := ?_
      outline_rows := ?_
      book_ids := ?_
      line_ids := ?_
      entry_ids := ?_ }
  · have hlength := congrArg List.length hdocuments
    rw [List.length_map] at hlength
    rw [List.length_map, hlength]
  · have hflat : ∀ b ∈ importBooks documents, b.document.flat b.flat.book = .ok b.flat :=
      fun b hb => flat_of_mem_layBooks hb
    have hzip := BookPart.presents_of_mem_zip hflat mark
    rw [hdocuments] at hzip
    exact hzip
  · rw [books_importCollection, List.map_map]
    rfl
  · rw [lines_importCollection hline, List.flatMap_map]
    rfl
  · rw [outlines_importCollection, List.map_map]
    rfl
  · rw [books_importCollection, List.map_map]
    exact hids
  · rw [lines_importCollection hline]
    exact map_eq_numbersFrom_length (map_id_lines_layBooks 1 1 (numberDocuments {} documents).1)
  · have hflat : ((importBooks documents).map (·.outline)).flatMap (·.entries) =
        (importBooks documents).flatMap (·.outline.entries) := List.flatMap_map ..
    rw [outlines_importCollection, hflat]
    exact eq_numbersFrom_length (map_id_entries_layBooks 1 1 (numberDocuments {} documents).1)

/-- **The layout of a whole import.** An import that is never halted comes to its end, and one that
was not halted made a book of each document, laid out one after the other. -/
theorem layout_of_runImport (hline : 0 < settings.importer.lineBatch)
    (accepted : ∀ d ∈ documents, d.schema.Accepted) (linkFiles : List LinkFile) :
    (settings.importer.linkBatch ≠ 0 → ∃ p index,
      runImport settings .never documents linkFiles = .ok (p, index) ∧
        p.report.cancelled = false) ∧
    ∀ halt p index, runImport settings halt documents linkFiles = .ok (p, index) →
      p.report.cancelled = false →
        p.report.processed = documents.length ∧ p.report.failed = 0 ∧
          ∃ books, (Collection.ofDeliveries p.deliveries).LaidOut documents books := by
  have hne : settings.importer.lineBatch ≠ 0 := by omega
  constructor
  · intro hlink
    exact ⟨_, _, runImport_never documents linkFiles hne hlink, rfl⟩
  · intro halt p index h running
    obtain ⟨hdocuments, -, hfailed⟩ := importBooks_spec accepted
    obtain ⟨rfl, -⟩ := eq_importProgress_of_runImport documents linkFiles h running
    refine ⟨?_, ?_, laidOut_importCollection hline accepted linkFiles⟩
    · have hlength := congrArg List.length hdocuments
      rw [List.length_map] at hlength
      show 0 + (importBooks documents).length = documents.length
      rw [hlength, Nat.zero_add]
    · show 0 + failures (numberDocuments {} documents).1 = 0
      rw [hfailed]

end Import

/-- The small book as a document, with an overlay of two parts. -/
def ruthDocument : Document where
  titleEn := ruth.titleEn
  titleHe := ruth.titleHe
  categories := ["Writings".toList]
  schema := ruth.schema
  content := ruth.content
  overlays := [⟨"Parts".toList, none, none,
    [.node ⟨some "First".toList, none, some "Ruth 1:1".toList, [], [], none, [], ∅, none, none⟩ [],
      .node ⟨some "Last".toList, none, some "Ruth 3:2".toList, [], [], none, [], ∅, none, none⟩
        []]⟩]
  authors := []
  dependence := none
  isBase := none

/-- Notes on the small book, one of which has the wrong shape. -/
def notesDocument : Document where
  titleEn := "Notes on Ruth".toList
  titleHe := []
  categories := ["Writings".toList, "Notes".toList]
  schema := .leaf ⟨[], "Notes on Ruth".toList, []⟩ ⟨1, ["Note".toList], [], [.integer], []⟩
  content := .array [.text "On the days".toList, .object [], .text "On Boaz".toList]
  overlays := []
  authors := []
  dependence := some .commentary
  isBase := none

/-- Both documents have accepted schemas. -/
theorem accepted_ruthDocuments : ∀ d ∈ [ruthDocument, notesDocument], d.schema.Accepted := by
  intro d hd
  rcases List.mem_cons.1 hd with rfl | hd
  · exact ruth.accepted
  · rw [List.mem_singleton.1 hd]
    exact .leaf (by decide)

/-- The small book and its notes, imported with a link file that could not be read. -/
theorem layout_of_runImport_ruth :
    ∃ p index, runImport {} .never [ruthDocument, notesDocument] [none] = .ok (p, index) ∧
      p.report.processed = 2 ∧ p.report.failed = 0 ∧
        ∃ books,
          (Collection.ofDeliveries p.deliveries).LaidOut [ruthDocument, notesDocument] books := by
  have hline : 0 < ({} : Settings).importer.lineBatch := by decide
  obtain ⟨hends, hlayout⟩ := layout_of_runImport hline accepted_ruthDocuments [none]
  obtain ⟨p, index, hrun, running⟩ := hends (by decide)
  exact ⟨p, index, hrun, hlayout .never p index hrun running⟩

end HebrewCorpus
