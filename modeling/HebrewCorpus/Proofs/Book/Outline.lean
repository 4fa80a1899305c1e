import HebrewCorpus.Book.Outline
import HebrewCorpus.Proofs.Book.LineMap

/-! # Entries of an outline

The entries of an outline are numbered one after the other, and what the open slots hold at any
heading are numbers given before, so the parent of an entry is an earlier entry.

* **`map_id_entries_ofHeadings`**: the numbers of the entries.
* **`exists_parent_of_mem_entries`**: every parent is an earlier entry.
* **`exists_heading_of_mem_entries`**: every entry stands for a heading.
* **`map_fst_lineMap_ofHeadings`**: every line has an entry when the first heading stands at its
  start. -/

namespace HebrewCorpus

/-! ### Parents -/

/-- There is a parent, or none, for each heading. -/
theorem length_parentsFrom (slots : List (Option Int)) (id : Int) (levels : List Int) :
    (parentsFrom slots id levels).length = levels.length := by
  induction levels generalizing slots id with
  | nil => rfl
  | cons level levels ih => exact congrArg Nat.succ (ih _ _)

/-- The deepest open entry is an open entry. -/
theorem mem_of_deepest? {slots : List (Option Int)} {q : Int} (h : deepest? slots = some q) :
    some q ∈ slots := by
  obtain ⟨slot, hs, hq⟩ := List.exists_of_findSome?_eq_some h
  rw [id_eq] at hq
  exact hq ▸ List.mem_reverse.1 hs

/-- What is open after a heading was open before it or is the heading itself. -/
theorem mem_openSlot {level id q : Int} {slots : List (Option Int)}
    (h : some q ∈ openSlot level id slots) : some q ∈ slots ∨ q = id := by
  rw [openSlot, List.mem_append, List.mem_append] at h
  rcases h with (h | h) | h
  · exact .inl h
  · cases (List.mem_replicate.1 h).2
  · exact .inr (Option.some.inj (List.mem_singleton.1 h))

namespace Outline

section Entries

variable {book firstLine total : Int} {all : List (Option Int)}

/-! ### Entries in their order -/

/-- **The entries of headings are numbered one after the other.** -/
theorem map_id_entriesFrom (id : Int) (hs : List Heading) {parents : List (Option Int)}
    (h : parents.length = hs.length) :
    (entriesFrom book firstLine total all id hs parents).map (·.id) =
      numbersFrom id hs.length := by
  induction hs generalizing id parents with
  | nil => rfl
  | cons heading hs ih =>
    cases parents with
    | nil => cases h
    | cons parent parents =>
      rw [entriesFrom, List.map_cons, ih (id + 1) (Nat.succ.inj h)]
      rfl

/-- Every entry stands for a heading of the book. -/
theorem exists_heading_of_mem_entriesFrom {id : Int} {hs : List Heading}
    {parents : List (Option Int)} {e : OutlineEntry}
    (h : e ∈ entriesFrom book firstLine total all id hs parents) :
    e.book = book ∧ ∃ heading ∈ hs, e.lineIndex = heading.lineIndex ∧
      e.line = if heading.lineIndex < total then some (firstLine + heading.lineIndex) else none := by
  induction hs generalizing id parents with
  | nil => cases h
  | cons heading hs ih =>
    cases parents with
    | nil => cases h
    | cons parent parents =>
      rcases List.mem_cons.1 h with rfl | h
      · exact ⟨rfl, heading, List.mem_cons_self, rfl, rfl⟩
      · obtain ⟨hbook, other, hm, hline⟩ := ih h
        exact ⟨hbook, other, List.mem_cons_of_mem _ hm, hline⟩

/-- **Parents come before their children**: the open slots only hold numbers given before. -/
theorem parent_of_mem_entriesFrom {first id : Int} {slots : List (Option Int)} {hs : List Heading}
    (hid : first ≤ id) (hslots : ∀ q, some q ∈ slots → first ≤ q ∧ q < id) {e : OutlineEntry}
    (h : e ∈ entriesFrom book firstLine total all id hs (parentsFrom slots id (hs.map (·.level))))
    {q : Int} (hq : e.parent = some q) : first ≤ q ∧ q < e.id := by
  induction hs generalizing id slots with
  | nil => cases h
  | cons heading hs ih =>
    have hkept : ∀ q, some q ∈ keepOpen heading.level slots → first ≤ q ∧ q < id :=
      fun q hm => hslots q (List.mem_of_mem_take hm)
    rw [List.map_cons, parentsFrom, entriesFrom] at h
    rcases List.mem_cons.1 h with rfl | h
    · exact hkept q (mem_of_deepest? hq)
    · refine ih (Int.le_trans hid (by omega)) ?_ h
      intro r hr
      rcases mem_openSlot hr with hr | rfl
      · obtain ⟨hle, hlt⟩ := hkept r hr
        exact ⟨hle, by omega⟩
      · exact ⟨hid, by omega⟩

end Entries

/-! ### Outlines of headings -/

section OfHeadings

variable (book : Int) (headings : List Heading) (firstLine total firstEntry : Int)

/-- **The entries of an outline are numbered one after the other.** -/
theorem map_id_entries_ofHeadings :
    (ofHeadings book headings firstLine total firstEntry).entries.map (·.id) =
      numbersFrom firstEntry headings.length := by
  refine map_id_entriesFrom firstEntry headings ?_
  rw [length_parentsFrom, List.length_map]

/-- An outline has an entry for each heading. -/
theorem length_entries_ofHeadings :
    (ofHeadings book headings firstLine total firstEntry).entries.length = headings.length := by
  have h := congrArg List.length (map_id_entries_ofHeadings book headings firstLine total firstEntry)
  rwa [List.length_map, length_numbersFrom] at h

variable {book headings firstLine total firstEntry} {e : OutlineEntry}

/-- **Every entry stands for a heading**, and for the line below it if there is one. -/
theorem exists_heading_of_mem_entries
    (h : e ∈ (ofHeadings book headings firstLine total firstEntry).entries) :
    e.book = book ∧ ∃ heading ∈ headings, e.lineIndex = heading.lineIndex ∧
      e.line = if heading.lineIndex < total then some (firstLine + heading.lineIndex) else none :=
  exists_heading_of_mem_entriesFrom h

/-- **The parent of an entry is an earlier entry** of the same outline. -/
theorem exists_parent_of_mem_entries
    (h : e ∈ (ofHeadings book headings firstLine total firstEntry).entries) {q : Int}
    (hq : e.parent = some q) :
    ∃ f ∈ (ofHeadings book headings firstLine total firstEntry).entries, f.id = q ∧ q < e.id := by
  obtain ⟨hle, hlt⟩ :=
    parent_of_mem_entriesFrom (Int.le_refl firstEntry) (by simp) h hq
  have hids := map_id_entries_ofHeadings book headings firstLine total firstEntry
  have hmem : e.id ∈ numbersFrom firstEntry headings.length := hids ▸ List.mem_map_of_mem h
  have hparent : q ∈ numbersFrom firstEntry headings.length := by
    rw [mem_numbersFrom] at hmem ⊢
    omega
  rw [← hids] at hparent
  obtain ⟨f, hf, rfl⟩ := List.mem_map.1 hparent
  exact ⟨f, hf, rfl, hlt⟩

/-- **Lines are mapped to entries of the outline.** -/
theorem exists_entry_of_mem_lineMap {m : Int × Int}
    (h : m ∈ (ofHeadings book headings firstLine total firstEntry).lineMap) :
    ∃ e ∈ (ofHeadings book headings firstLine total firstEntry).entries, e.id = m.2 := by
  obtain ⟨a, ha, hm⟩ := exists_anchor_of_mem_mapLines h
  obtain ⟨e, he, rfl⟩ := List.mem_map.1 ha
  exact ⟨e, he, hm⟩

/-- **Every line is mapped once** when the first heading stands in front of all lines. -/
theorem map_fst_lineMap_ofHeadings {heading : Heading} {rest : List Heading}
    (h : headings = heading :: rest) (hline : heading.lineIndex = 0) (count : Nat) :
    (ofHeadings book headings firstLine count firstEntry).lineMap.map (·.1) =
      numbersFrom firstLine count := by
  subst h
  refine map_fst_mapLines (show ((0 : Int), firstEntry) ∈ _ from ?_) firstLine count
  rw [← hline]
  exact List.mem_cons_self

end OfHeadings

end Outline

end HebrewCorpus
