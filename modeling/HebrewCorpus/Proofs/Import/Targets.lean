import HebrewCorpus.Proofs.Citation.Lookup
import HebrewCorpus.Proofs.Import.Whole
import HebrewCorpus.Proofs.Overlay.Placement

/-! # Targets of an import

The index of an import counts the lines of a book from 1, a line from 0, and the corpus from the
book's first line. Put together, every citation leads to a line of a book that was delivered.

* **`exists_book_of_resolve`**: where the citations of an import lead.
* **`OverlayTree.PlacedIn`**: a tree that stands at the lines of a book.
* **`placedIn_of_mem_overlayTrees`**: the trees of a book are placed in it.
* **`exists_book_of_mem_importOverlays`**: what an import delivers of them. -/

namespace HebrewCorpus

namespace BookPart

/-- A line of a flat book, as its reference counts it, is a line of the book. -/
theorem within_target {b : BookPart} (h : b.document.flat b.flat.book = .ok b.flat) {e : RefEntry}
    (he : e ∈ b.flat.refs) :
    (e.target b.firstLine).Within b.flat.book b.firstLine b.flat.lines.length := by
  have hw := wellFormed_of_flatten h
  obtain ⟨hpos, hle⟩ := hw.ref_line e he
  exact
    { book_eq := hw.ref_book e he
      index_nonneg := Int.sub_nonneg_of_le hpos
      index_lt := Int.sub_one_lt_of_le hle
      line_eq := rfl }

end BookPart

/-- **A citation leads to a line of a delivered book**, and in a given book to one of its own. -/
theorem exists_book_of_resolve {documents : List Document} {text : Text} {book : Option Int}
    {leeway : RefIndex.Leeway} {t : LineTarget}
    (h : (importIndex documents).resolve text book leeway = some t) :
    ∃ b ∈ importBooks documents, t.Within b.flat.book b.firstLine b.flat.lines.length ∧
      ∀ id, book = some id → b.flat.book = id := by
  obtain ⟨e, he, ht, hbook⟩ := RefIndex.exists_entry_of_resolve h
  obtain ⟨b, hb, he⟩ := List.mem_flatMap.1 he
  have hflat := flat_of_mem_layBooks hb
  have hwithin := b.within_target hflat he
  have hentry : e.book = b.flat.book := hwithin.book_eq
  -- the offset that is looked up for the entry is the first line of its own book
  have hoffset := lookup_map_of_nodup (fun b : BookPart => b.flat.book) (·.firstLine)
    (nodup_book_importBooks documents) hb
  rw [hentry, hoffset] at ht
  refine ⟨b, hb, ?_, fun id hid => hentry.symm.trans (hbook id hid)⟩
  rw [ht]
  exact hwithin

/-! ### Trees -/

/-- **A tree of a book**, as it is placed: its entries are numbered from 1 on and it stands at the
lines of the book. -/
structure OverlayTree.PlacedIn (b : DeliveredBook) (t : OverlayTree) : Prop where
  head_book : t.head.book = b.id
  entry_ids : t.entries.map (·.id) = numbersFrom 1 t.entries.length
  wellFormed : t.WellFormed b.firstLine b.lineCount

section Trees

variable {documents : List Document} {rules : PlacementRules}

/-- Books of an import with the same number are the same. -/
theorem eq_of_book_eq {b c : BookPart} (hb : b ∈ importBooks documents)
    (hc : c ∈ importBooks documents) (h : c.flat.book = b.flat.book) : c = b := by
  have hfound {a : BookPart} (ha : a ∈ importBooks documents) :=
    lookup_map_of_nodup (fun b : BookPart => b.flat.book) id (nodup_book_importBooks documents) ha
  have hfirst := hfound hc
  rw [h, hfound hb] at hfirst
  exact (Option.some.inj hfirst).symm

/-- **The trees of a delivered book are placed in it.** -/
theorem placedIn_of_mem_overlayTrees {b : BookPart} (hb : b ∈ importBooks documents)
    {t : OverlayTree} (ht : t ∈ overlayTrees rules (importIndex documents) b.delivered) :
    t.PlacedIn b.delivered := by
  obtain ⟨overlay, -, hbuilt⟩ := List.mem_filterMap.1 ht
  split at hbuilt
  · next tree hbuild =>
    split at hbuilt
    · cases hbuilt
    · next hempty =>
      cases hbuilt
      rw [OverlayTree.build] at hbuild
      obtain ⟨⟨branches, taken⟩, hplaced, hbuild⟩ := exists_of_bind_eq_ok hbuild
      cases hbuild
      -- a citation within a book leads to a line of a book with its number, which is the book
      have hleads : (OverlayTree.placement rules (importIndex documents) b.flat.book
          b.document.categories overlay).LeadsTo
            (·.Within b.flat.book b.firstLine b.flat.lines.length) := by
        intro text leeway t ht
        obtain ⟨c, hc, hwithin, hbook⟩ := exists_book_of_resolve ht
        rw [← eq_of_book_eq hb hc (hbook b.flat.book rfl)]
        exact hwithin
      exact
        { head_book := rfl
          entry_ids := OverlayTree.map_id_entries_ofBranches ..
          wellFormed := OverlayTree.wellFormed_ofBranches
            (Placement.all_placeNodes hleads overlay.nodes hplaced) _ }
  · cases hbuilt

/-- **The trees that an import delivers** are trees of a book, with new numbers. -/
theorem exists_book_of_mem_importOverlays {o : OverlayPart}
    (ho : o ∈ importOverlays rules documents) {t : OverlayTree} (ht : t ∈ o.trees) :
    ∃ b ∈ importBooks documents, o.book = b.flat.book ∧ ∃ (s : OverlayTree) (id offset : Int),
      s.PlacedIn b.delivered ∧ t = s.rebased id offset := by
  obtain ⟨d, hd, hbook, id, entry, htrees⟩ := exists_of_mem_layOverlays ho
  obtain ⟨b, hb, rfl⟩ := List.mem_map.1 hd
  rw [htrees] at ht
  obtain ⟨s, hs, id, offset, rfl⟩ := exists_of_mem_layTrees ht
  exact ⟨b, hb, hbook, s, id, offset, placedIn_of_mem_overlayTrees hb hs, rfl⟩

/-- The trees of a part are trees of its book. -/
theorem head_book_of_mem_importOverlays {o : OverlayPart} (ho : o ∈ importOverlays rules documents)
    {t : OverlayTree} (ht : t ∈ o.trees) : t.head.book = o.book := by
  obtain ⟨b, -, hbook, s, id, offset, hs, rfl⟩ := exists_book_of_mem_importOverlays ho ht
  exact hs.head_book.trans hbook.symm

end Trees

end HebrewCorpus
