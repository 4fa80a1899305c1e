import HebrewCorpus.Proofs.Import.Layout
import HebrewCorpus.Proofs.Import.Targets
import HebrewCorpus.Proofs.Overlay.Locality

/-! # More documents

Documents that are added behind others change nothing of what an import makes of those: neither their
numbers nor their lines, and not even the overlays, which are placed by an index of all documents.

* **`importBooks_append`**, **`importOverlays_append`**: the books and the overlays of an import of
  more documents.
* **`Extends`**: rows of later books behind those of the first ones.
* **`Collection.Extends`**: a collection of the same first books; `extends_of_runImport_append` says
  that an import of more documents leaves one. -/

namespace HebrewCorpus

/-! ### Books -/

/-- Documents behind others are numbered behind them. -/
theorem numberDocuments_append (counters : IdCounters) (ds more : List Document) :
    (numberDocuments counters (ds ++ more)).1 = (numberDocuments counters ds).1 ++
      (numberDocuments (numberDocuments counters ds).2 more).1 := by
  induction ds generalizing counters with
  | nil => rfl
  | cons d ds ih =>
    have hrest := ih (counters.take .book 1).2
    exact congrArg ((d, counters.book) :: ·) hrest

/-- Books behind others are laid behind them. -/
theorem layBooks_append (line entry : Int) (xs ys : List (Document × Int)) :
    ∃ line' entry', layBooks line entry (xs ++ ys) =
      layBooks line entry xs ++ layBooks line' entry' ys := by
  induction xs generalizing line entry with
  | nil => exact ⟨line, entry, rfl⟩
  | cons x xs ih =>
    obtain ⟨d, id⟩ := x
    rw [List.cons_append, layBooks, layBooks]
    cases d.flat id with
    | error fault => exact ih line entry
    | ok flat =>
      obtain ⟨line', entry', hrest⟩ := ih (line + flat.lines.length) (entry + flat.headings.length)
      refine ⟨line', entry', ?_⟩
      dsimp only
      rw [hrest, List.cons_append]

/-- The books of an import have numbers of its documents. -/
theorem book_le_of_mem_importBooks {ds : List Document} {b : BookPart} (h : b ∈ importBooks ds) :
    b.flat.book ≤ ds.length := by
  have hids := (numberDocuments_spec {} ds).2.1
  have hmem : b.flat.book ∈ (numberDocuments {} ds).1.map (·.2) :=
    (map_book_layBooks_sublist 1 1 _).subset (List.mem_map_of_mem h)
  rw [hids, mem_numbersFrom] at hmem
  have hfirst : ({} : IdCounters).book = 1 := rfl
  omega

/-- **The books of more documents** stand behind those of the first ones, which stay as they are. -/
theorem importBooks_append (ds more : List Document) :
    ∃ later, importBooks (ds ++ more) = importBooks ds ++ later ∧
      ∀ b ∈ later, (ds.length : Int) < b.flat.book := by
  obtain ⟨-, -, hcounters⟩ := numberDocuments_spec {} ds
  obtain ⟨-, hids, -⟩ := numberDocuments_spec (numberDocuments {} ds).2 more
  obtain ⟨line, entry, hlay⟩ := layBooks_append 1 1 (numberDocuments {} ds).1
    (numberDocuments (numberDocuments {} ds).2 more).1
  refine ⟨layBooks line entry (numberDocuments (numberDocuments {} ds).2 more).1, ?_, ?_⟩
  · rw [importBooks, numberDocuments_append, hlay]
    rfl
  · intro b hb
    -- the later documents are numbered on from where the first ones end
    have hmem : b.flat.book ∈ (numberDocuments (numberDocuments {} ds).2 more).1.map (·.2) :=
      (map_book_layBooks_sublist line entry _).subset (List.mem_map_of_mem hb)
    rw [hids, mem_numbersFrom, hcounters] at hmem
    have hfirst : ({} : IdCounters).book = 1 := rfl
    dsimp only at hmem
    omega

/-! ### Overlays -/

/-- **The trees of a delivered book** depend on that book alone. -/
theorem overlayTrees_of_agree {rules : PlacementRules} {index index' : RefIndex}
    {b : DeliveredBook} (h : RefIndex.Agree b.id index index') :
    overlayTrees rules index b = overlayTrees rules index' b := by
  rw [overlayTrees, overlayTrees]
  simp only [OverlayTree.build_of_agree h]

/-- **The index of more documents** holds the same of the first books. -/
theorem agree_importIndex_append {ds : List Document} (more : List Document) {b : BookPart}
    (hb : b ∈ importBooks ds) :
    RefIndex.Agree b.flat.book (importIndex (ds ++ more)) (importIndex ds) := by
  obtain ⟨later, happend, hlater⟩ := importBooks_append ds more
  have hle := book_le_of_mem_importBooks hb
  rw [importIndex, importIndex, happend, List.flatMap_append, List.map_append, List.map_append]
  apply RefIndex.agree_build_append
  · rw [List.map_map]
    exact List.mem_map_of_mem (f := fun b : BookPart => b.flat.book) hb
  · rw [List.map_map]
    exact List.mem_map_of_mem (f := fun b : BookPart => b.flat.book) hb
  · intro e he
    obtain ⟨c, hc, he⟩ := List.mem_flatMap.1 he
    have hc' : c ∈ importBooks (ds ++ more) := happend ▸ List.mem_append_right _ hc
    have hbook := (wellFormed_of_flatten (flat_of_mem_layBooks hc')).ref_book e he
    have hgt := hlater c hc
    omega

/-- Overlays behind others are laid behind them. -/
theorem layOverlays_append (treesOf : DeliveredBook → List OverlayTree) (id entry : Int)
    (bs cs : List DeliveredBook) :
    ∃ id' entry', layOverlays treesOf id entry (bs ++ cs) =
      layOverlays treesOf id entry bs ++ layOverlays treesOf id' entry' cs := by
  induction bs generalizing id entry with
  | nil => exact ⟨id, entry, rfl⟩
  | cons b bs ih =>
    obtain ⟨id', entry', hrest⟩ := ih (id + (treesOf b).length)
      (entry + OverlayTree.entryTotal (treesOf b))
    refine ⟨id', entry', ?_⟩
    rw [List.cons_append, layOverlays, layOverlays, hrest, List.cons_append]

/-- Books with the same trees are laid alike. -/
theorem layOverlays_congr {treesOf treesOf' : DeliveredBook → List OverlayTree} (id entry : Int)
    {bs : List DeliveredBook} (h : ∀ b ∈ bs, treesOf b = treesOf' b) :
    layOverlays treesOf id entry bs = layOverlays treesOf' id entry bs := by
  induction bs generalizing id entry with
  | nil => rfl
  | cons b bs ih =>
    rw [layOverlays, layOverlays, h b List.mem_cons_self,
      ih _ _ fun c hc => h c (List.mem_cons_of_mem _ hc)]

/-- **The overlays of more documents** stand behind those of the first ones, which stay as they
are. -/
theorem importOverlays_append (rules : PlacementRules) (ds more : List Document) :
    ∃ later, importOverlays rules (ds ++ more) = importOverlays rules ds ++ later ∧
      ∀ o ∈ later, (ds.length : Int) < o.book := by
  obtain ⟨laterBooks, happend, hlater⟩ := importBooks_append ds more
  -- the first books are placed by another index, which holds the same of each of them
  have hfirst : ∀ d ∈ (importBooks ds).map (·.delivered),
      overlayTrees rules (importIndex (ds ++ more)) d = overlayTrees rules (importIndex ds) d := by
    intro d hd
    obtain ⟨b, hb, rfl⟩ := List.mem_map.1 hd
    exact overlayTrees_of_agree (agree_importIndex_append more hb)
  obtain ⟨id', entry', hlay⟩ := layOverlays_append (overlayTrees rules (importIndex (ds ++ more)))
    1 1 ((importBooks ds).map (·.delivered)) (laterBooks.map (·.delivered))
  refine ⟨layOverlays (overlayTrees rules (importIndex (ds ++ more))) id' entry'
    (laterBooks.map (·.delivered)), ?_, ?_⟩
  · rw [importOverlays, happend, List.map_append, hlay, layOverlays_congr 1 1 hfirst]
    rfl
  · intro o ho
    obtain ⟨d, hd, hbook, -⟩ := exists_of_mem_layOverlays ho
    obtain ⟨b, hb, rfl⟩ := List.mem_map.1 hd
    rw [hbook]
    exact hlater b hb

/-! ### Collections -/

/-- **Rows of later books behind those of the first ones**: the first rows belong to books up to a
number, and the others to books past it. -/
structure Extends {α : Type} (bookOf : α → Int) (count : Int) (first all : List α) : Prop where
  first_le : ∀ a ∈ first, bookOf a ≤ count
  later : ∃ later, all = first ++ later ∧ ∀ a ∈ later, count < bookOf a

/-- Rows that are made book by book extend those that are made of the first books. -/
theorem extends_flatMap {α β : Type} {bookOf : α → Int} {count : Int} (keyOf : β → Int)
    {rows rows' : β → List α} {first later : List β}
    (hbook : ∀ b ∈ first ++ later, ∀ a ∈ rows' b, bookOf a = keyOf b)
    (hsame : ∀ b ∈ first, rows' b = rows b) (hfirst : ∀ b ∈ first, keyOf b ≤ count)
    (hlater : ∀ b ∈ later, count < keyOf b) :
    Extends bookOf count (first.flatMap rows) ((first ++ later).flatMap rows') where
  first_le := by
    intro a ha
    obtain ⟨b, hb, ha⟩ := List.mem_flatMap.1 ha
    rw [← hsame b hb] at ha
    rw [hbook b (List.mem_append_left _ hb) a ha]
    exact hfirst b hb
  later := by
    refine ⟨later.flatMap rows', ?_, ?_⟩
    · rw [List.flatMap_append, List.flatMap_def, List.map_congr_left hsame, ← List.flatMap_def]
    · intro a ha
      obtain ⟨b, hb, ha⟩ := List.mem_flatMap.1 ha
      rw [hbook b (List.mem_append_right _ hb) a ha]
      exact hlater b hb

namespace Collection

/-- **A collection of the same first books**, up to a number: their records with the marks on them,
their lines, outlines and overlay trees. -/
structure Extends (count : Int) (first all : Collection) : Prop where
  books : HebrewCorpus.Extends (·.id) count first.books all.books
  lines : HebrewCorpus.Extends (·.book) count first.lines all.lines
  outlines : HebrewCorpus.Extends (·.book) count first.outlines all.outlines
  overlays : HebrewCorpus.Extends (·.head.book) count first.overlays all.overlays

end Collection

/-- What is handed over of a list is in it. -/
theorem mem_of_mem_pieces {α : Type} {size : Int} {as : List α} {a : α}
    (h : a ∈ (pieces size as).flatten) : a ∈ as := by
  rw [pieces] at h
  split at h
  · cases h
  · rwa [flatten_chunks] at h

section Import

variable (settings : Settings) (ds more : List Document) (linkFiles linkFiles' : List LinkFile)

/-- The overlays of later books mark none of the first ones. -/
theorem hasTrees_append {os later : List OverlayPart} {book : Int}
    (h : ∀ o ∈ later, book < o.book) : hasTrees (os ++ later) book = hasTrees os book := by
  have hnone : hasTrees later book = false := by
    rw [hasTrees, List.any_eq_false]
    intro o ho
    have hne : (o.book == book) = false := beq_false_of_ne (Int.ne_of_gt (h o ho))
    simp [hne]
  rw [hasTrees, List.any_append, ← hasTrees, ← hasTrees, hnone, Bool.or_false]

/-- **An import of more documents leaves the same first books.** -/
theorem extends_importCollection :
    (importCollection settings ds linkFiles).Extends ds.length
      (importCollection settings (ds ++ more) linkFiles') := by
  obtain ⟨later, hbooks, hlater⟩ := importBooks_append ds more
  obtain ⟨laterParts, hparts, hlaterParts⟩ := importOverlays_append settings.placement ds more
  have hfirst : ∀ b ∈ importBooks ds, b.flat.book ≤ ds.length := fun b hb =>
    book_le_of_mem_importBooks hb
  have hfirstParts : ∀ o ∈ importOverlays settings.placement ds, o.book ≤ ds.length := by
    intro o ho
    obtain ⟨d, hd, hbook, -⟩ := exists_of_mem_layOverlays ho
    obtain ⟨b, hb, rfl⟩ := List.mem_map.1 hd
    rw [hbook]
    exact hfirst b hb
  have hflat : ∀ b ∈ importBooks ds ++ later, b.document.flat b.flat.book = .ok b.flat := by
    intro b hb
    rw [← hbooks] at hb
    exact flat_of_mem_layBooks hb
  obtain ⟨hlines, houtlines, hoverlays⟩ := rows_importCollection settings ds linkFiles
  obtain ⟨hlines', houtlines', hoverlays'⟩ := rows_importCollection settings (ds ++ more) linkFiles'
  refine ⟨?_, ?_, ?_, ?_⟩
  · rw [books_importCollection, books_importCollection, hbooks, List.map_eq_flatMap,
      List.map_eq_flatMap]
    refine extends_flatMap (fun b => b.flat.book) ?_ ?_ hfirst hlater
    · intro b _ r hr
      rw [List.mem_singleton.1 hr]
      rfl
    · -- the marks on the first books are the same
      intro b hb
      rw [hparts, hasTrees_append]
      intro o ho
      have hle := hfirst b hb
      have hlt := hlaterParts o ho
      omega
  · rw [hlines, hlines', hbooks]
    refine extends_flatMap (fun b => b.flat.book) ?_ (fun _ _ => rfl) hfirst hlater
    intro b hb l hl
    exact BookPart.book_of_mem_lines (hflat b hb) (mem_of_mem_pieces hl)
  · rw [houtlines, houtlines', hbooks, List.map_eq_flatMap, List.map_eq_flatMap]
    refine extends_flatMap (fun b => b.flat.book) ?_ (fun _ _ => rfl) hfirst hlater
    intro b _ o ho
    rw [List.mem_singleton.1 ho]
    rfl
  · rw [hoverlays, hoverlays', hparts]
    refine extends_flatMap (fun o => o.book) ?_ (fun _ _ => rfl) hfirstParts hlaterParts
    intro o ho t ht
    rw [← hparts] at ho
    exact head_book_of_mem_importOverlays ho ht

/-- **More documents change nothing of those before them.** Imports of the first documents and of
more that are never halted come to their ends, and whenever neither import was halted, the second
left the books, lines, outlines and overlay trees of the first, and behind them those of later
books. -/
theorem extends_of_runImport_append :
    (settings.importer.lineBatch ≠ 0 → settings.importer.linkBatch ≠ 0 → ∃ p index p' index',
      runImport settings .never ds linkFiles = .ok (p, index) ∧ p.report.cancelled = false ∧
        runImport settings .never (ds ++ more) linkFiles' = .ok (p', index') ∧
          p'.report.cancelled = false) ∧
    ∀ halt halt' p index p' index',
      runImport settings halt ds linkFiles = .ok (p, index) → p.report.cancelled = false →
        runImport settings halt' (ds ++ more) linkFiles' = .ok (p', index') →
          p'.report.cancelled = false →
            (Collection.ofDeliveries p.deliveries).Extends ds.length
              (Collection.ofDeliveries p'.deliveries) := by
  constructor
  · intro hline hlink
    exact ⟨_, _, _, _, runImport_never ds linkFiles hline hlink, rfl,
      runImport_never (ds ++ more) linkFiles' hline hlink, rfl⟩
  · intro halt halt' p index p' index' h running h' running'
    obtain ⟨rfl, -⟩ := eq_importProgress_of_runImport ds linkFiles h running
    obtain ⟨rfl, -⟩ := eq_importProgress_of_runImport (ds ++ more) linkFiles' h' running'
    exact extends_importCollection settings ds more linkFiles linkFiles'

/-- The small book has the same record, lines and overlay tree when notes on it are imported behind
it. -/
theorem extends_of_runImport_append_ruth :
    ∃ p index p' index', runImport {} .never [ruthDocument] [] = .ok (p, index) ∧
      runImport {} .never ([ruthDocument] ++ [notesDocument]) [none] = .ok (p', index') ∧
        (Collection.ofDeliveries p.deliveries).Extends 1 (Collection.ofDeliveries p'.deliveries) ∧
          (Collection.ofDeliveries p.deliveries).overlays.length = 1 ∧
            (Collection.ofDeliveries p'.deliveries).books.length = 2 := by
  have hline : ({} : Settings).importer.lineBatch ≠ 0 := by decide
  have hlink : ({} : Settings).importer.linkBatch ≠ 0 := by decide
  obtain ⟨hends, hextends⟩ :=
    extends_of_runImport_append {} [ruthDocument] [notesDocument] [] [none]
  obtain ⟨p, index, p', index', hrun, running, hrun', running'⟩ := hends hline hlink
  have hextends := hextends .never .never p index p' index' hrun running hrun' running'
  refine ⟨p, index, p', index', hrun, hrun', hextends, ?_⟩
  obtain ⟨rfl, -⟩ := eq_importProgress_of_runImport _ _ hrun running
  obtain ⟨rfl, -⟩ := eq_importProgress_of_runImport _ _ hrun' running'
  rw [← importCollection, ← importCollection, overlays_importCollection,
    books_importCollection]
  exact ⟨by decide +kernel, by decide +kernel⟩

end Import

end HebrewCorpus
