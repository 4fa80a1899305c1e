import HebrewCorpus.Proofs.Import.Whole
import HebrewCorpus.Proofs.Store.Views

/-! # What an import leaves in a collection

The collection of an import holds the lines and outlines of its books, the trees of its overlays and
the links of its files, each in their order.

* **`importCollection`**: the collection of an import.
* **`lines_importCollection`** and its companions: what it holds.
* **`books_importCollection`**: its books, with a mark on each that has overlays. -/

namespace HebrewCorpus

/-! ### Rows of the stages -/

/-- **A book adds the lines that are handed over of it**, and its outline. -/
theorem rows_deliveries (lineBatch : Int) (b : BookPart) :
    (b.deliveries lineBatch).flatMap Delivery.lineRows = (pieces lineBatch b.lines).flatten ∧
      (b.deliveries lineBatch).flatMap Delivery.outlineRows = [b.outline] ∧
      (b.deliveries lineBatch).flatMap Delivery.overlayRows = [] ∧
      (b.deliveries lineBatch).flatMap Delivery.linkRows = [] := by
  have hlines : ((pieces lineBatch b.lines).map Delivery.lines).flatMap Delivery.lineRows =
      (pieces lineBatch b.lines).flatten := by
    rw [List.flatMap_map]
    exact List.flatMap_id'
  simp only [BookPart.deliveries, List.flatMap_append, List.flatMap_cons, hlines]
  simp [Delivery.lineRows, Delivery.outlineRows, Delivery.overlayRows, Delivery.linkRows,
    List.flatMap_map]

/-- **The overlays of a book add their trees.** -/
theorem rows_overlays (o : OverlayPart) :
    o.deliveries.flatMap Delivery.lineRows = [] ∧
      o.deliveries.flatMap Delivery.outlineRows = [] ∧
      o.deliveries.flatMap Delivery.overlayRows = o.trees ∧
      o.deliveries.flatMap Delivery.linkRows = [] := by
  obtain ⟨book, trees⟩ := o
  cases trees with
  | nil => exact ⟨rfl, rfl, rfl, rfl⟩
  | cons t ts =>
    simp [OverlayPart.deliveries, Delivery.lineRows, Delivery.outlineRows, Delivery.overlayRows,
      Delivery.linkRows, List.flatMap_map]

/-- **A link file adds the links that are handed over of it.** -/
theorem rows_links (linkBatch : Int) (ctx : LinkContext) (file : LinkFile) :
    (ctx.deliveriesOf linkBatch file).flatMap Delivery.lineRows = [] ∧
      (ctx.deliveriesOf linkBatch file).flatMap Delivery.outlineRows = [] ∧
      (ctx.deliveriesOf linkBatch file).flatMap Delivery.overlayRows = [] ∧
      (ctx.deliveriesOf linkBatch file).flatMap Delivery.linkRows =
        (pieces linkBatch (ctx.linksOf file)).flatten := by
  cases file with
  | none => simp [LinkContext.deliveriesOf, LinkContext.linksOf, pieces, chunks]
  | some raws =>
    refine ⟨?_, ?_, ?_, ?_⟩
    · simp [LinkContext.deliveriesOf, Delivery.lineRows, List.flatMap_map]
    · simp [LinkContext.deliveriesOf, Delivery.outlineRows, List.flatMap_map]
    · simp [LinkContext.deliveriesOf, Delivery.overlayRows, List.flatMap_map]
    · show ((pieces linkBatch (ctx.resolveAll raws).1).map Delivery.links).flatMap _ = _
      rw [List.flatMap_map]
      exact List.flatMap_id'

/-! ### Books and marks -/

/-- Deliveries that change no book leave the books as they are. -/
theorem foldl_shelve_eq_self {ds : List Delivery}
    (h : ∀ d ∈ ds, ∀ books, Delivery.shelve books d = books) (books : List BookRecord) :
    ds.foldl Delivery.shelve books = books := by
  induction ds with
  | nil => rfl
  | cons d ds ih =>
    rw [List.foldl_cons, h d List.mem_cons_self]
    exact ih fun d hd => h d (List.mem_cons_of_mem _ hd)

/-- A book is put behind the others. -/
theorem foldl_shelve_book (lineBatch : Int) (b : BookPart) (books : List BookRecord) :
    (b.deliveries lineBatch).foldl Delivery.shelve books = putBook b.record books := by
  rw [BookPart.deliveries, List.cons_append, List.foldl_cons]
  refine foldl_shelve_eq_self (fun d hd books => ?_) _
  rcases List.mem_append.1 hd with hd | hd
  · obtain ⟨ls, -, rfl⟩ := List.mem_map.1 hd
    rfl
  · rw [List.mem_singleton.1 hd]
    rfl

/-- Books with different numbers are put one behind the other. -/
theorem foldl_shelve_books (lineBatch : Int) (bs : List BookPart) {books : List BookRecord}
    (distinct : (books.map (·.id) ++ bs.map (·.flat.book)).Nodup) :
    (bs.flatMap (·.deliveries lineBatch)).foldl Delivery.shelve books = books ++ bs.map (·.record) := by
  induction bs generalizing books with
  | nil => exact (List.append_nil books).symm
  | cons b bs ih =>
    -- the book's number is new, so it goes behind the others
    have hnew : b.record.id ∉ books.map (·.id) := fun hmem =>
      (List.nodup_append.1 distinct).2.2 _ hmem b.flat.book List.mem_cons_self rfl
    have hrest : ((books ++ [b.record]).map (·.id) ++ bs.map (·.flat.book)).Nodup := by
      rw [List.map_append, List.append_assoc]
      exact distinct
    rw [List.flatMap_cons, List.foldl_append, foldl_shelve_book, putBook_of_not_mem hnew, ih hrest,
      List.append_assoc]
    rfl

/-- Whether some part holds trees of a book. -/
def hasTrees (os : List OverlayPart) (book : Int) : Bool :=
  os.any fun o => o.book == book && !o.trees.isEmpty

/-- The overlays of a book mark it, if there are any. -/
theorem foldl_shelve_overlay (o : OverlayPart) {books : List BookRecord}
    (distinct : (books.map (·.id)).Nodup) :
    o.deliveries.foldl Delivery.shelve books =
      if o.trees.isEmpty then books else markBook o.book true books := by
  obtain ⟨book, trees⟩ := o
  cases trees with
  | nil => rfl
  | cons t ts =>
    have htrees : ((t :: ts).map Delivery.overlay).foldl Delivery.shelve books = books := by
      refine foldl_shelve_eq_self (fun d hd books => ?_) books
      obtain ⟨u, -, rfl⟩ := List.mem_map.1 hd
      rfl
    rw [OverlayPart.deliveries, List.foldl_append, htrees]
    exact shelve_overlayMark book true distinct

/-- **The overlays of some books mark those that have any.** -/
theorem foldl_shelve_overlays (os : List OverlayPart) {books : List BookRecord}
    (distinct : (books.map (·.id)).Nodup) :
    (os.flatMap (·.deliveries)).foldl Delivery.shelve books =
      books.map fun r => { r with hasOverlays := r.hasOverlays || hasTrees os r.id } := by
  induction os generalizing books with
  | nil => simp [hasTrees]
  | cons o os ih =>
    rw [List.flatMap_cons, List.foldl_append, foldl_shelve_overlay o distinct]
    cases hempty : o.trees.isEmpty with
    | true =>
      rw [if_pos rfl, ih distinct]
      simp [hasTrees, hempty]
    | false =>
      -- a mark changes no number, so the later marks find the same books
      rw [if_neg Bool.false_ne_true, ih (by rwa [map_id_markBook]), markBook, List.map_map]
      refine List.map_congr_left fun r _ => ?_
      by_cases hr : r.id = o.book
      · simp [hasTrees, hempty, hr]
      · have hne : (o.book == r.id) = false := beq_false_of_ne (Ne.symm hr)
        simp [hasTrees, hr, hne]

/-- Links mark no book. -/
theorem foldl_shelve_links (linkBatch : Int) (ctx : LinkContext) (files : List LinkFile)
    (books : List BookRecord) :
    (files.flatMap (ctx.deliveriesOf linkBatch)).foldl Delivery.shelve books = books := by
  refine foldl_shelve_eq_self (fun d hd books => ?_) books
  obtain ⟨file, -, hd⟩ := List.mem_flatMap.1 hd
  cases file with
  | none => cases hd
  | some raws =>
    obtain ⟨ks, -, rfl⟩ := List.mem_map.1 hd
    rfl

/-! ### The collection of an import -/

/-- **The collection of an import.** -/
def importCollection (settings : Settings) (documents : List Document) (linkFiles : List LinkFile) :
    Collection :=
  .ofDeliveries (importProgress settings documents linkFiles).deliveries

/-- The deliveries of an import, stage by stage. -/
theorem deliveries_importProgress (settings : Settings) (documents : List Document)
    (linkFiles : List LinkFile) :
    (importProgress settings documents linkFiles).deliveries =
      (importBooks documents).flatMap (·.deliveries settings.importer.lineBatch) ++
        (importOverlays settings.placement documents).flatMap (·.deliveries) ++
        linkFiles.flatMap ((importContext documents).deliveriesOf settings.importer.linkBatch) :=
  rfl

section Collection

variable {settings : Settings} {documents : List Document} {linkFiles : List LinkFile}

/-- **What an import leaves of its books and overlays**, whatever the size of its batches. -/
theorem rows_importCollection (settings : Settings) (documents : List Document)
    (linkFiles : List LinkFile) :
    (importCollection settings documents linkFiles).lines =
        (importBooks documents).flatMap
          (fun b => (pieces settings.importer.lineBatch b.lines).flatten) ∧
      (importCollection settings documents linkFiles).outlines =
        (importBooks documents).map (·.outline) ∧
      (importCollection settings documents linkFiles).overlays =
        (importOverlays settings.placement documents).flatMap (·.trees) := by
  rw [importCollection, Collection.lines_ofDeliveries, Collection.outlines_ofDeliveries,
    Collection.overlays_ofDeliveries, deliveries_importProgress]
  simp only [List.flatMap_append, List.flatMap_assoc, rows_deliveries, rows_overlays, rows_links]
  simp [List.map_eq_flatMap, List.flatMap_eq_nil_iff.2]

/-- **The lines of an import** are those of its books. -/
theorem lines_importCollection (hline : 0 < settings.importer.lineBatch) :
    (importCollection settings documents linkFiles).lines =
      (importBooks documents).flatMap (·.lines) := by
  rw [(rows_importCollection settings documents linkFiles).1]
  simp only [flatten_pieces hline]

/-- **The outlines of an import** are those of its books. -/
theorem outlines_importCollection :
    (importCollection settings documents linkFiles).outlines =
      (importBooks documents).map (·.outline) :=
  (rows_importCollection settings documents linkFiles).2.1

/-- **The overlay trees of an import** are those of its books. -/
theorem overlays_importCollection :
    (importCollection settings documents linkFiles).overlays =
      (importOverlays settings.placement documents).flatMap (·.trees) :=
  (rows_importCollection settings documents linkFiles).2.2

/-- **What an import leaves of its links**, whatever the size of its batches. -/
theorem linkRows_importCollection (settings : Settings) (documents : List Document)
    (linkFiles : List LinkFile) :
    (importCollection settings documents linkFiles).links =
      linkFiles.flatMap fun file =>
        (pieces settings.importer.linkBatch ((importContext documents).linksOf file)).flatten := by
  rw [importCollection, Collection.links_ofDeliveries, deliveries_importProgress]
  simp only [List.flatMap_append, List.flatMap_assoc, rows_deliveries, rows_overlays, rows_links]
  simp [List.flatMap_eq_nil_iff.2]

/-- **The links of an import** are those of its files. -/
theorem links_importCollection (hlink : 0 < settings.importer.linkBatch) :
    (importCollection settings documents linkFiles).links =
      linkFiles.flatMap (importContext documents).linksOf := by
  rw [linkRows_importCollection]
  simp only [flatten_pieces hlink]

/-- **The books of an import**, with a mark on each that has overlays. -/
theorem books_importCollection :
    (importCollection settings documents linkFiles).books =
      (importBooks documents).map fun b =>
        { b.record with
          hasOverlays := hasTrees (importOverlays settings.placement documents) b.flat.book } := by
  have hdistinct := nodup_book_importBooks documents
  -- books are put first, then marked; links come last and mark none
  have hrecords : (((importBooks documents).map (·.record)).map (·.id)).Nodup := by
    rw [List.map_map]
    exact hdistinct
  rw [importCollection, Collection.books_ofDeliveries, deliveries_importProgress, List.foldl_append,
    List.foldl_append, foldl_shelve_books _ _ (by simpa using hdistinct), List.nil_append,
    foldl_shelve_overlays _ hrecords, foldl_shelve_links, List.map_map]
  rfl

end Collection

end HebrewCorpus
