import HebrewCorpus.Proofs.Import.Layout
import HebrewCorpus.Proofs.Import.Targets
import HebrewCorpus.Proofs.Link.Pairs

/-! # The integrity of an import

Links and overlays name lines, books and entries by numbers that are given in different places. In
the collection of an import every such number is that of a row which is there.

* **`Collection.Holds`**: a line of a book that a collection holds.
* **`Collection.Connected`**: a collection whose links and overlays refer to what it holds.
* **`connected_importCollection`**: every import leaves such a collection. -/

namespace HebrewCorpus

namespace Collection

/-- **A line of a book** that a collection holds. -/
def Holds (c : Collection) (book line : Int) : Prop := ∃ l ∈ c.lines, l.id = some line ∧ l.book = book

/-- **A collection whose links and overlays refer to what it holds.** -/
structure Connected (c : Collection) : Prop where
  link_source : ∀ l ∈ c.links, c.Holds l.sourceBook l.sourceLine
  link_target : ∀ l ∈ c.links, c.Holds l.targetBook l.targetLine
  link_pairs : Link.Paired c.links
  overlay_ids : c.overlays.map (·.head.id) = numbersFrom 1 c.overlays.length
  overlayEntry_ids : (c.overlays.flatMap (·.entries)).map (·.id) =
    numbersFrom 1 (c.overlays.flatMap (·.entries)).length
  overlay_book : ∀ t ∈ c.overlays, ∃ b ∈ c.books, b.id = t.head.book
  entry_overlay : ∀ t ∈ c.overlays, ∀ e ∈ t.entries, e.overlay = t.head.id
  entry_line : ∀ t ∈ c.overlays, ∀ e ∈ t.entries, ∃ n, e.line = some n ∧ c.Holds t.head.book n
  /-- Parents are earlier entries. -/
  entry_parent : ∀ t ∈ c.overlays, ∀ e ∈ t.entries, ∀ q, e.parent = some q →
    ∃ f ∈ t.entries, f.id = q ∧ q < e.id
  lineMap_line : ∀ t ∈ c.overlays, ∀ m ∈ t.lineMap, c.Holds t.head.book m.1
  lineMap_once : ∀ t ∈ c.overlays, (t.lineMap.map (·.1)).Nodup
  lineMap_entry : ∀ t ∈ c.overlays, ∀ m ∈ t.lineMap, ∃ e ∈ t.entries, e.id = m.2
  /-- A book is marked when one of its trees is there. -/
  mark_iff : ∀ b ∈ c.books, b.hasOverlays = true ↔ ∃ t ∈ c.overlays, t.head.book = b.id

end Collection

section Import

variable {settings : Settings} {documents : List Document} {linkFiles : List LinkFile}

/-- The lines of a delivered book are held by the collection. -/
theorem holds_importCollection (hline : 0 < settings.importer.lineBatch) {b : BookPart}
    (hb : b ∈ importBooks documents) {n : Int}
    (hn : n ∈ numbersFrom b.firstLine b.flat.lines.length) :
    (importCollection settings documents linkFiles).Holds b.flat.book n := by
  obtain ⟨l, hl, hid, hbook⟩ := BookPart.exists_line (flat_of_mem_layBooks hb) hn
  refine ⟨l, ?_, hid, hbook⟩
  rw [lines_importCollection hline]
  exact List.mem_flatMap.2 ⟨b, hb, hl⟩

/-! ### Links -/

/-- **Citations lead to lines that the collection holds.** -/
theorem leadsTo_importContext (hline : 0 < settings.importer.lineBatch) :
    (importContext documents).LeadsTo fun t =>
      (importCollection settings documents linkFiles).Holds t.book t.line := by
  intro text leeway t ht
  obtain ⟨b, hb, hwithin, -⟩ := exists_book_of_resolve ht
  -- an index within the book is a number within its block
  have hblock : t.line ∈ numbersFrom b.firstLine b.flat.lines.length := by
    have hlo := hwithin.index_nonneg
    have hhi := hwithin.index_lt
    rw [hwithin.line_eq, mem_numbersFrom]
    omega
  rw [hwithin.book_eq]
  exact holds_importCollection hline hb hblock

/-- **Links lead from line to line.** -/
theorem holds_of_mem_links (hline : 0 < settings.importer.lineBatch)
    (hlink : 0 < settings.importer.linkBatch) {l : Link}
    (hl : l ∈ (importCollection settings documents linkFiles).links) :
    (importCollection settings documents linkFiles).Holds l.sourceBook l.sourceLine ∧
      (importCollection settings documents linkFiles).Holds l.targetBook l.targetLine := by
  rw [links_importCollection hlink] at hl
  obtain ⟨file, -, hl⟩ := List.mem_flatMap.1 hl
  cases file with
  | none => cases hl
  | some raws =>
    obtain ⟨s, t, kind, hs, ht, rfl⟩ :=
      LinkContext.exists_targets_of_mem_resolveAll (leadsTo_importContext hline) hl
    exact ⟨hs, ht⟩

/-- **The links of an import are paired.** -/
theorem paired_links (hlink : 0 < settings.importer.linkBatch) :
    Link.Paired (importCollection settings documents linkFiles).links := by
  rw [links_importCollection hlink]
  refine Link.paired_flatMap fun file _ => ?_
  cases file with
  | none => exact .nil
  | some raws => exact LinkContext.paired_resolveAll _ raws

/-! ### Overlays -/

/-- **The overlay trees of an import are numbered one after the other**, and so are their entries. -/
theorem overlay_ids_importCollection :
    (importCollection settings documents linkFiles).overlays.map (·.head.id) =
        numbersFrom 1 (importCollection settings documents linkFiles).overlays.length ∧
      ((importCollection settings documents linkFiles).overlays.flatMap (·.entries)).map (·.id) =
        numbersFrom 1
          ((importCollection settings documents linkFiles).overlays.flatMap (·.entries)).length := by
  rw [overlays_importCollection]
  refine ⟨map_id_trees_layOverlays _ 1 1 _, ?_⟩
  -- before they are renumbered, the entries of each tree are numbered from 1
  have hplaced : ∀ d ∈ (importBooks documents).map (·.delivered),
      ∀ t ∈ overlayTrees settings.placement (importIndex documents) d,
        t.entries.map (·.id) = numbersFrom 1 t.entries.length := by
    intro d hd t ht
    obtain ⟨b, hb, rfl⟩ := List.mem_map.1 hd
    exact (placedIn_of_mem_overlayTrees hb ht).entry_ids
  exact eq_numbersFrom_length (map_id_entries_layOverlays 1 1 hplaced)

/-- **A tree of an import stands at the lines of a delivered book.** -/
theorem wellFormed_of_mem_overlays {t : OverlayTree}
    (ht : t ∈ (importCollection settings documents linkFiles).overlays) :
    ∃ b ∈ importBooks documents, t.head.book = b.flat.book ∧
      t.WellFormed b.firstLine b.flat.lines.length ∧ ∀ e ∈ t.entries, e.overlay = t.head.id := by
  rw [overlays_importCollection] at ht
  obtain ⟨o, ho, ht⟩ := List.mem_flatMap.1 ht
  obtain ⟨b, hb, -, s, id, offset, hs, rfl⟩ := exists_book_of_mem_importOverlays ho ht
  exact ⟨b, hb, hs.head_book, hs.wellFormed.rebased id offset,
    fun e he => OverlayTree.overlay_of_mem_rebased he⟩

/-- **A book is marked when one of its trees is there.** -/
theorem hasTrees_iff (book : Int) :
    hasTrees (importOverlays settings.placement documents) book = true ↔
      ∃ t ∈ (importCollection settings documents linkFiles).overlays, t.head.book = book := by
  rw [overlays_importCollection, hasTrees, List.any_eq_true]
  constructor
  · rintro ⟨o, ho, hmarked⟩
    obtain ⟨hbook, htrees⟩ := Bool.and_eq_true_iff.1 hmarked
    cases hcases : o.trees with
    | nil =>
      rw [hcases] at htrees
      cases htrees
    | cons t ts =>
      have ht : t ∈ o.trees := hcases ▸ List.mem_cons_self
      exact ⟨t, List.mem_flatMap.2 ⟨o, ho, ht⟩,
        (head_book_of_mem_importOverlays ho ht).trans (beq_iff_eq.1 hbook)⟩
  · rintro ⟨t, ht, rfl⟩
    obtain ⟨o, ho, ht⟩ := List.mem_flatMap.1 ht
    have hbook := head_book_of_mem_importOverlays ho ht
    refine ⟨o, ho, Bool.and_eq_true_iff.2 ⟨beq_iff_eq.2 hbook.symm, ?_⟩⟩
    cases hcases : o.trees with
    | nil =>
      rw [hcases] at ht
      cases ht
    | cons u us => rfl

/-! ### The whole -/

/-- **Every import leaves a connected collection.** -/
theorem connected_importCollection (hline : 0 < settings.importer.lineBatch)
    (hlink : 0 < settings.importer.linkBatch) (documents : List Document)
    (linkFiles : List LinkFile) : (importCollection settings documents linkFiles).Connected where
  link_source l hl := (holds_of_mem_links hline hlink hl).1
  link_target l hl := (holds_of_mem_links hline hlink hl).2
  link_pairs := paired_links hlink
  overlay_ids := overlay_ids_importCollection.1
  overlayEntry_ids := overlay_ids_importCollection.2
  overlay_book := by
    intro t ht
    obtain ⟨b, hb, hbook, -⟩ := wellFormed_of_mem_overlays ht
    rw [books_importCollection]
    exact ⟨_, List.mem_map_of_mem hb, hbook.symm⟩
  entry_overlay := by
    intro t ht
    obtain ⟨b, -, -, -, hoverlay⟩ := wellFormed_of_mem_overlays ht
    exact hoverlay
  entry_line := by
    intro t ht e he
    obtain ⟨b, hb, hbook, hw, -⟩ := wellFormed_of_mem_overlays ht
    obtain ⟨i, hlo, hhi, -, hn⟩ := hw.entry_line e he
    have hblock : b.firstLine + i ∈ numbersFrom b.firstLine b.flat.lines.length := by
      rw [mem_numbersFrom]
      omega
    rw [hbook]
    exact ⟨_, hn, holds_importCollection hline hb hblock⟩
  entry_parent := by
    intro t ht
    obtain ⟨b, -, -, hw, -⟩ := wellFormed_of_mem_overlays ht
    exact hw.entry_parent
  lineMap_line := by
    intro t ht m hm
    obtain ⟨b, hb, hbook, hw, -⟩ := wellFormed_of_mem_overlays ht
    rw [hbook]
    exact holds_importCollection hline hb (hw.lineMap_line.subset (List.mem_map_of_mem hm))
  lineMap_once := by
    intro t ht
    obtain ⟨b, -, -, hw, -⟩ := wellFormed_of_mem_overlays ht
    exact hw.lineMap_line.nodup (nodup_numbersFrom _ _)
  lineMap_entry := by
    intro t ht
    obtain ⟨b, -, -, hw, -⟩ := wellFormed_of_mem_overlays ht
    exact hw.lineMap_entry
  mark_iff := by
    intro r hr
    rw [books_importCollection] at hr
    obtain ⟨b, -, rfl⟩ := List.mem_map.1 hr
    exact hasTrees_iff b.flat.book

/-- **The integrity of a whole import.** An import that is never halted comes to its end, and one
that was not halted left a connected collection. -/
theorem connected_of_runImport (hline : 0 < settings.importer.lineBatch)
    (hlink : 0 < settings.importer.linkBatch) (documents : List Document)
    (linkFiles : List LinkFile) :
    (∃ p index, runImport settings .never documents linkFiles = .ok (p, index) ∧
      p.report.cancelled = false) ∧
    ∀ halt p index, runImport settings halt documents linkFiles = .ok (p, index) →
      p.report.cancelled = false → (Collection.ofDeliveries p.deliveries).Connected := by
  have hlines : settings.importer.lineBatch ≠ 0 := by omega
  have hlinks : settings.importer.linkBatch ≠ 0 := by omega
  constructor
  · exact ⟨_, _, runImport_never documents linkFiles hlines hlinks, rfl⟩
  · intro halt p index h running
    obtain ⟨rfl, -⟩ := eq_importProgress_of_runImport documents linkFiles h running
    exact connected_importCollection hline hlink documents linkFiles

/-- A link between the small book and its notes, and one that leads nowhere. -/
def ruthLinks : List LinkFile :=
  [some [⟨"Ruth 1:1".toList, "Notes on Ruth 1".toList, "commentary".toList⟩,
    ⟨"Ruth 1:1".toList, "Nowhere 1".toList, []⟩]]

/-- The small book and its notes make one pair of links and one overlay tree. -/
theorem connected_of_runImport_ruth :
    ∃ p index, runImport {} .never [ruthDocument, notesDocument] ruthLinks = .ok (p, index) ∧
      (Collection.ofDeliveries p.deliveries).Connected ∧
        (Collection.ofDeliveries p.deliveries).links.length = 2 ∧
          (Collection.ofDeliveries p.deliveries).overlays.length = 1 := by
  have hline : 0 < ({} : Settings).importer.lineBatch := by decide
  have hlink : 0 < ({} : Settings).importer.linkBatch := by decide
  obtain ⟨⟨p, index, hrun, running⟩, hconnected⟩ :=
    connected_of_runImport hline hlink [ruthDocument, notesDocument] ruthLinks
  refine ⟨p, index, hrun, hconnected .never p index hrun running, ?_⟩
  obtain ⟨rfl, -⟩ := eq_importProgress_of_runImport _ _ hrun running
  rw [← importCollection, links_importCollection hlink, overlays_importCollection]
  exact ⟨by decide +kernel, by decide +kernel⟩

end Import

end HebrewCorpus
