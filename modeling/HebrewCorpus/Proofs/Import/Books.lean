import HebrewCorpus.Import.Run
import HebrewCorpus.Proofs.Book.Flat
import HebrewCorpus.Proofs.Book.Outline

/-! # Books of an import

The first stage of an import lays the books one after the other: the lines of each follow those of
the books before it, and so do the entries of its outline.

* **`BookPart`**: a book with the first numbers of its lines and entries, and what is delivered of
  it.
* **`layBooks`**: the books of numbered documents, one after the other.
* **`Progress.withBooks`**: an import after some more books; `deliverBooks_never` is the whole stage.
* **`map_id_lines_layBooks`**, **`map_id_entries_layBooks`**: all lines and all entries are numbered
  one after the other. -/

namespace HebrewCorpus

/-! ### Batches -/

/-- The pieces in which a list is handed over. -/
def pieces {α : Type} (size : Int) (as : List α) : List (List α) :=
  if size < 0 then [] else chunks size.toNat as

/-- A list is handed over in its pieces, unless they are to be empty. -/
theorem batches_eq_ok {α : Type} {size : Int} (h : size ≠ 0) (as : List α) :
    batches size as = .ok (pieces size as) := if_neg h

/-- **Pieces of a positive size are the whole list.** -/
theorem flatten_pieces {α : Type} {size : Int} (h : 0 < size) (as : List α) :
    (pieces size as).flatten = as := by
  rw [pieces, if_neg (by omega), flatten_chunks]

/-! ### Numbers of documents -/

/-- The numbered documents are the documents, and their numbers follow one another. -/
theorem numberDocuments_spec (counters : IdCounters) (documents : List Document) :
    (numberDocuments counters documents).1.map (·.1) = documents ∧
      (numberDocuments counters documents).1.map (·.2) =
        numbersFrom counters.book documents.length ∧
      (numberDocuments counters documents).2 =
        { counters with book := counters.book + documents.length } := by
  induction documents generalizing counters with
  | nil => simp [numberDocuments, numbersFrom]
  | cons d documents ih =>
    obtain ⟨hdocuments, hids, hcounters⟩ := ih (counters.take .book 1).2
    rw [numberDocuments]
    refine ⟨congrArg (d :: ·) hdocuments, congrArg (counters.book :: ·) hids, ?_⟩
    show (numberDocuments (counters.take .book 1).2 documents).2 = _
    rw [hcounters]
    show ({ counters with book := counters.book + 1 + documents.length } : IdCounters) = _
    rw [List.length_cons, Int.natCast_succ, Int.add_assoc, Int.add_comm 1]

/-! ### Books -/

/-- **A book as it is laid**: its document, what flattening made of it, and the first numbers of its
lines and of the entries of its outline. -/
structure BookPart where
  document : Document
  flat : FlatBook
  firstLine : Int
  firstEntry : Int

namespace BookPart

/-- The record of the book. -/
def record (b : BookPart) : BookRecord := b.document.record b.flat

/-- The numbered lines of the book. -/
def lines (b : BookPart) : List Line := b.flat.lines.map (·.numbered b.firstLine)

/-- The outline of the book. -/
def outline (b : BookPart) : Outline :=
  .ofHeadings b.flat.book b.flat.headings b.firstLine b.flat.lines.length b.firstEntry

/-- What is kept of the book for the later stages. -/
def delivered (b : BookPart) : DeliveredBook :=
  ⟨b.flat.book, b.document, b.firstLine, b.flat.lines.length⟩

/-- **What is delivered of the book.** -/
def deliveries (lineBatch : Int) (b : BookPart) : List Delivery :=
  .book b.record :: (pieces lineBatch b.lines).map .lines ++ [.outline b.outline]

/-- The number of lines of some books. -/
def lineTotal : List BookPart → Nat := totalOf (·.flat.lines.length)

/-- The number of headings of some books. -/
def headingTotal : List BookPart → Nat := totalOf (·.flat.headings.length)

/-- The number of parts left out of some books. -/
def mismatchTotal : List BookPart → Nat := totalOf (·.flat.mismatches)

end BookPart

/-- The flattened book of a document with a number. -/
def Document.flat (d : Document) (id : Int) : Except FlattenFault FlatBook :=
  flatten d.schema d.content d.titleEn d.titleHe id

/-- A flattened document has the number that was given to it. -/
theorem Document.book_of_flat {d : Document} {id : Int} {flat : FlatBook} (h : d.flat id = .ok flat) :
    flat.book = id := by
  obtain ⟨title, es, rfl⟩ := exists_of_flatten_eq_ok h
  rfl

/-- **The books of numbered documents, one after the other**, from a first line and a first entry on.
A document that cannot be flattened makes no book. -/
def layBooks (line entry : Int) : List (Document × Int) → List BookPart
  | [] => []
  | (d, id) :: rest =>
    match d.flat id with
    | .error _ => layBooks line entry rest
    | .ok flat =>
      ⟨d, flat, line, entry⟩ ::
        layBooks (line + flat.lines.length) (entry + flat.headings.length) rest

/-- The number of documents that cannot be flattened. -/
def failures : List (Document × Int) → Nat
  | [] => 0
  | (d, id) :: rest =>
    match d.flat id with
    | .error _ => failures rest + 1
    | .ok _ => failures rest

/-- **The progress after some more books**, and some documents that could not be flattened. -/
def Progress.withBooks (lineBatch : Int) (bs : List BookPart) (failed : Nat) (p : Progress) :
    Progress where
  counters := { p.counters with
    line := p.counters.line + BookPart.lineTotal bs
    outlineEntry := p.counters.outlineEntry + BookPart.headingTotal bs }
  deliveries := p.deliveries ++ bs.flatMap (·.deliveries lineBatch)
  books := p.books ++ bs.map (·.delivered)
  refs := p.refs ++ bs.flatMap (·.flat.refs)
  report := { p.report with
    processed := p.report.processed + bs.length
    failed := p.report.failed + failed
    lines := p.report.lines + BookPart.lineTotal bs
    outlineEntries := p.report.outlineEntries + BookPart.headingTotal bs
    mismatches := p.report.mismatches + BookPart.mismatchTotal bs }

/-- No books change nothing. -/
theorem Progress.withBooks_nil (lineBatch : Int) (p : Progress) : p.withBooks lineBatch [] 0 = p := by
  simp [Progress.withBooks, BookPart.lineTotal, BookPart.headingTotal, BookPart.mismatchTotal]

/-- **Books come one after the other.** -/
theorem Progress.withBooks_withBooks (lineBatch : Int) (bs cs : List BookPart) (m n : Nat)
    (p : Progress) :
    (p.withBooks lineBatch bs m).withBooks lineBatch cs n =
      p.withBooks lineBatch (bs ++ cs) (m + n) := by
  simp [Progress.withBooks, BookPart.lineTotal, BookPart.headingTotal, BookPart.mismatchTotal,
    Nat.add_assoc, Int.add_assoc]

/-- **One book is delivered**, unless its lines are to be handed over in empty batches. -/
theorem deliverBook_eq_ok {lineBatch : Int} (hbatch : lineBatch ≠ 0) (d : Document) (flat : FlatBook)
    (p : Progress) :
    deliverBook lineBatch d flat p =
      .ok (p.withBooks lineBatch [⟨d, flat, p.counters.line, p.counters.outlineEntry⟩] 0) := by
  have hentries := Outline.length_entries_ofHeadings flat.book flat.headings p.counters.line
    flat.lines.length p.counters.outlineEntry
  rw [deliverBook]
  dsimp only [IdCounters.take, IdCounters.next, IdCounters.advance]
  rw [batches_eq_ok hbatch]
  simp only [bind, Except.bind, pure, Except.pure, hentries]
  simp [Progress.withBooks, BookPart.lineTotal, BookPart.headingTotal, BookPart.mismatchTotal,
    BookPart.deliveries, BookPart.record, BookPart.lines, BookPart.outline, BookPart.delivered]

/-- An import that never halts. -/
def Halt.never : Halt := fun _ => false

/-- Books are delivered one after the other, or refused because their lines are to be handed over in
empty batches. -/
theorem deliverBooks_never_or (lineBatch : Int) (p : Progress) (numbered : List (Document × Int)) :
    deliverBooks lineBatch .never p numbered =
        .ok (p.withBooks lineBatch (layBooks p.counters.line p.counters.outlineEntry numbered)
          (failures numbered)) ∨
      lineBatch = 0 ∧ deliverBooks lineBatch .never p numbered = .error .emptyBatch := by
  induction numbered generalizing p with
  | nil => exact .inl (congrArg Except.ok (p.withBooks_nil lineBatch).symm)
  | cons x rest ih =>
    obtain ⟨d, id⟩ := x
    rw [deliverBooks, if_neg (by simp [Halt.never]), layBooks, failures, ← Document.flat]
    -- a book that cannot be flattened changes the count of failures only
    cases d.flat id with
    | error fault =>
      dsimp only
      refine (ih { p with report := { p.report with failed := p.report.failed + 1 } }).imp_left ?_
      intro h
      rw [h]
      simp [Progress.withBooks, Nat.add_assoc, Nat.add_comm 1]
    | ok flat =>
      dsimp only
      by_cases hbatch : lineBatch = 0
      · subst hbatch
        exact .inr ⟨rfl, by simp [deliverBook, batches, bind, Except.bind]⟩
      · rw [deliverBook_eq_ok hbatch]
        dsimp only [bind, Except.bind]
        refine (ih (p.withBooks lineBatch
          [⟨d, flat, p.counters.line, p.counters.outlineEntry⟩] 0)).imp_left ?_
        intro h
        rw [h, Progress.withBooks_withBooks]
        simp [Progress.withBooks, BookPart.lineTotal, BookPart.headingTotal]

/-- **All books are delivered**, one after the other. -/
theorem deliverBooks_never {lineBatch : Int} (hbatch : lineBatch ≠ 0) (p : Progress)
    (numbered : List (Document × Int)) :
    deliverBooks lineBatch .never p numbered =
      .ok (p.withBooks lineBatch (layBooks p.counters.line p.counters.outlineEntry numbered)
        (failures numbered)) :=
  (deliverBooks_never_or lineBatch p numbered).resolve_right fun h => hbatch h.1

/-- Books that are delivered are delivered one after the other. -/
theorem withBooks_of_deliverBooks {lineBatch : Int} {p p' : Progress}
    {numbered : List (Document × Int)} (h : deliverBooks lineBatch .never p numbered = .ok p') :
    p' = p.withBooks lineBatch (layBooks p.counters.line p.counters.outlineEntry numbered)
      (failures numbered) := by
  rcases deliverBooks_never_or lineBatch p numbered with hok | ⟨-, hrefused⟩
  · rw [h] at hok
    exact Except.ok.inj hok
  · rw [h] at hrefused
    cases hrefused

/-! ### All books -/

/-- Documents with accepted schemas make a book each. -/
theorem layBooks_spec {numbered : List (Document × Int)}
    (accepted : ∀ x ∈ numbered, x.1.schema.Accepted) (line entry : Int) :
    (layBooks line entry numbered).map (fun b => (b.document, b.flat.book)) = numbered ∧
      failures numbered = 0 := by
  induction numbered generalizing line entry with
  | nil => exact ⟨rfl, rfl⟩
  | cons x rest ih =>
    obtain ⟨d, id⟩ := x
    obtain ⟨flat, hflat⟩ := flatten_eq_ok (accepted _ List.mem_cons_self) d.content d.titleEn
      d.titleHe id
    have hflat : d.flat id = .ok flat := hflat
    obtain ⟨hrest, hfailed⟩ := ih (fun x hx => accepted x (List.mem_cons_of_mem _ hx))
      (line + flat.lines.length) (entry + flat.headings.length)
    rw [layBooks, failures, hflat]
    exact ⟨by rw [List.map_cons, hrest, Document.book_of_flat hflat], hfailed⟩

/-- The numbers of the books are numbers of documents, in their order. -/
theorem map_book_layBooks_sublist (line entry : Int) (numbered : List (Document × Int)) :
    ((layBooks line entry numbered).map (·.flat.book)).Sublist (numbered.map (·.2)) := by
  induction numbered generalizing line entry with
  | nil => exact .slnil
  | cons x rest ih =>
    obtain ⟨d, id⟩ := x
    rw [layBooks]
    cases hflat : d.flat id with
    | error fault => exact (ih line entry).cons id
    | ok flat =>
      rw [List.map_cons, List.map_cons, Document.book_of_flat hflat]
      exact (ih _ _).cons_cons id

/-- Every book is flattened from its document. -/
theorem flat_of_mem_layBooks {line entry : Int} {numbered : List (Document × Int)} {b : BookPart}
    (h : b ∈ layBooks line entry numbered) : b.document.flat b.flat.book = .ok b.flat := by
  induction numbered generalizing line entry with
  | nil => cases h
  | cons x rest ih =>
    obtain ⟨d, id⟩ := x
    rw [layBooks] at h
    cases hflat : d.flat id with
    | error fault =>
      rw [hflat] at h
      exact ih h
    | ok flat =>
      rw [hflat] at h
      rcases List.mem_cons.1 h with rfl | h
      · exact (Document.book_of_flat hflat).symm ▸ hflat
      · exact ih h

namespace BookPart

variable {b : BookPart}

/-- The lines of a book are numbered from 0 on. -/
theorem map_index_lines (h : b.document.flat b.flat.book = .ok b.flat) :
    b.lines.map (·.index) = numbersFrom 0 b.flat.lines.length := by
  rw [lines, List.map_map]
  exact (wellFormed_of_flatten h).line_index

/-- **The lines of a book have neighbouring numbers** in the corpus. -/
theorem map_id_lines (h : b.document.flat b.flat.book = .ok b.flat) :
    b.lines.map (·.id) = (numbersFrom b.firstLine b.flat.lines.length).map some := by
  -- the numbers in the corpus are those in the book, moved behind the books before it
  have hnumbers : (numbersFrom 0 b.flat.lines.length).map (· + b.firstLine) =
      numbersFrom b.firstLine b.flat.lines.length := by
    rw [map_add_numbersFrom, Int.zero_add]
  rw [← hnumbers, ← map_index_lines h, lines, List.map_map, List.map_map, List.map_map, List.map_map]
  refine List.map_congr_left fun l _ => ?_
  show some (b.firstLine + l.index) = some (l.index + b.firstLine)
  rw [Int.add_comm]

/-- The lines of a book belong to it. -/
theorem book_of_mem_lines (h : b.document.flat b.flat.book = .ok b.flat) {l : Line}
    (hl : l ∈ b.lines) : l.book = b.flat.book := by
  obtain ⟨k, hk, rfl⟩ := List.mem_map.1 hl
  exact (wellFormed_of_flatten h).line_book k hk

/-- **Every number of the block is that of a line** of the book. -/
theorem exists_line (h : b.document.flat b.flat.book = .ok b.flat) {n : Int}
    (hn : n ∈ numbersFrom b.firstLine b.flat.lines.length) :
    ∃ l ∈ b.lines, l.id = some n ∧ l.book = b.flat.book := by
  have hmem : some n ∈ b.lines.map (·.id) := by
    rw [map_id_lines h]
    exact List.mem_map_of_mem hn
  obtain ⟨l, hl, hid⟩ := List.mem_map.1 hmem
  exact ⟨l, hl, hid, book_of_mem_lines h hl⟩

/-- The entries of a book's outline have neighbouring numbers. -/
theorem map_id_entries (b : BookPart) :
    b.outline.entries.map (·.id) = numbersFrom b.firstEntry b.flat.headings.length :=
  Outline.map_id_entries_ofHeadings ..

end BookPart

/-- **All lines have neighbouring numbers**, each book's behind those of the books before it. -/
theorem map_id_lines_layBooks (line entry : Int) (numbered : List (Document × Int)) :
    ((layBooks line entry numbered).flatMap (·.lines)).map (·.id) =
      (numbersFrom line (BookPart.lineTotal (layBooks line entry numbered))).map some := by
  induction numbered generalizing line entry with
  | nil => rfl
  | cons x rest ih =>
    obtain ⟨d, id⟩ := x
    rw [layBooks]
    cases hflat : d.flat id with
    | error fault => exact ih line entry
    | ok flat =>
      -- the block of the first book, and the blocks of the others right behind it
      have hfirst := BookPart.map_id_lines (b := ⟨d, flat, line, entry⟩)
        ((Document.book_of_flat hflat).symm ▸ hflat)
      dsimp only at hfirst ⊢
      rw [List.flatMap_cons, List.map_append, ih, hfirst, ← List.map_append, ← numbersFrom_add]
      simp [BookPart.lineTotal]

/-- **All entries have neighbouring numbers**, each book's behind those of the books before it. -/
theorem map_id_entries_layBooks (line entry : Int) (numbered : List (Document × Int)) :
    ((layBooks line entry numbered).flatMap (·.outline.entries)).map (·.id) =
      numbersFrom entry (BookPart.headingTotal (layBooks line entry numbered)) := by
  induction numbered generalizing line entry with
  | nil => rfl
  | cons x rest ih =>
    obtain ⟨d, id⟩ := x
    rw [layBooks]
    cases hflat : d.flat id with
    | error fault => exact ih line entry
    | ok flat =>
      have hfirst := BookPart.map_id_entries ⟨d, flat, line, entry⟩
      dsimp only at hfirst ⊢
      rw [List.flatMap_cons, List.map_append, ih, hfirst, ← numbersFrom_add]
      simp [BookPart.headingTotal]

end HebrewCorpus
