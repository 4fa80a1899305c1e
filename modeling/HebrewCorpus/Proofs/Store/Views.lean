import HebrewCorpus.Store.Collection

/-! # What a collection holds

A collection keeps lines, outlines, overlays and links as they were delivered, one delivery behind
the other. Only books are looked up again: a mark changes the book that it names.

* **`Delivery.lineRows`** and its companions: what one delivery adds.
* **`lines_ofDeliveries`** and its companions: what a collection holds.
* **`Delivery.shelve`**, **`books_ofDeliveries`**: the books of a collection.
* **`markBook`**, **`shelve_overlayMark`**: what a mark changes.
* **`Collection.deliverAll`**, **`Collection.deliverAll_eq_ok`**: a collection can take marks of
  books that it has, and everything else. -/

namespace HebrewCorpus

attribute [ext] Collection

namespace Delivery

/-! ### What one delivery adds -/

/-- The lines of a delivery. -/
def lineRows : Delivery → List Line
  | .lines ls => ls
  | _ => []

/-- The outlines of a delivery. -/
def outlineRows : Delivery → List Outline
  | .outline o => [o]
  | _ => []

/-- The overlay trees of a delivery. -/
def overlayRows : Delivery → List OverlayTree
  | .overlay t => [t]
  | _ => []

/-- The links of a delivery. -/
def linkRows : Delivery → List Link
  | .links ls => ls
  | _ => []

/-- **The books after a delivery.** -/
def shelve (books : List BookRecord) : Delivery → List BookRecord
  | .book record => putBook record books
  | .overlayMark id value =>
    match books.find? (·.id = id) with
    | some record => putBook { record with hasOverlays := value } books
    | none => books
  | _ => books

end Delivery

namespace Collection

/-- **A delivery adds its rows** behind those that are there. -/
theorem deliverOrKeep_rows (c : Collection) (d : Delivery) :
    (c.deliverOrKeep d).lines = c.lines ++ d.lineRows ∧
      (c.deliverOrKeep d).outlines = c.outlines ++ d.outlineRows ∧
      (c.deliverOrKeep d).overlays = c.overlays ++ d.overlayRows ∧
      (c.deliverOrKeep d).links = c.links ++ d.linkRows ∧
      (c.deliverOrKeep d).books = Delivery.shelve c.books d := by
  cases d with
  | overlayMark book value =>
    rw [deliverOrKeep, deliver, Delivery.shelve]
    cases c.books.find? (·.id = book) <;>
      simp [Delivery.lineRows, Delivery.outlineRows, Delivery.overlayRows, Delivery.linkRows]
  | _ =>
    simp [deliverOrKeep, deliver, Delivery.lineRows, Delivery.outlineRows, Delivery.overlayRows,
      Delivery.linkRows, Delivery.shelve]

/-- **A sequence of deliveries adds their rows** in their order. -/
theorem foldl_rows (ds : List Delivery) (c : Collection) :
    (ds.foldl deliverOrKeep c).lines = c.lines ++ ds.flatMap Delivery.lineRows ∧
      (ds.foldl deliverOrKeep c).outlines = c.outlines ++ ds.flatMap Delivery.outlineRows ∧
      (ds.foldl deliverOrKeep c).overlays = c.overlays ++ ds.flatMap Delivery.overlayRows ∧
      (ds.foldl deliverOrKeep c).links = c.links ++ ds.flatMap Delivery.linkRows ∧
      (ds.foldl deliverOrKeep c).books = ds.foldl Delivery.shelve c.books := by
  induction ds generalizing c with
  | nil => simp
  | cons d ds ih =>
    obtain ⟨hlines, houtlines, hoverlays, hlinks, hbooks⟩ := deliverOrKeep_rows c d
    obtain ⟨h₁, h₂, h₃, h₄, h₅⟩ := ih (c.deliverOrKeep d)
    rw [List.foldl_cons, List.foldl_cons, h₁, h₂, h₃, h₄, h₅, hlines, houtlines, hoverlays, hlinks,
      hbooks]
    simp only [List.flatMap_cons, List.append_assoc, and_self]

variable (ds : List Delivery)

/-- Deliveries do not close a collection. -/
theorem isClosed_ofDeliveries : (ofDeliveries ds).isClosed = false := by
  have hfold : ∀ c, (ds.foldl deliverOrKeep c).isClosed = c.isClosed := by
    induction ds with
    | nil => exact fun _ => rfl
    | cons d ds ih =>
      intro c
      rw [List.foldl_cons, ih, deliverOrKeep]
      cases d with
      | overlayMark book value =>
        rw [deliver]
        cases c.books.find? (·.id = book) <;> rfl
      | book _ | lines _ | outline _ | overlay _ | links _ => rfl
  exact hfold empty

/-- **The lines of a collection** are those delivered, in their order. -/
theorem lines_ofDeliveries : (ofDeliveries ds).lines = ds.flatMap Delivery.lineRows :=
  (foldl_rows ds empty).1

/-- The outlines of a collection are those delivered, in their order. -/
theorem outlines_ofDeliveries : (ofDeliveries ds).outlines = ds.flatMap Delivery.outlineRows :=
  (foldl_rows ds empty).2.1

/-- The overlay trees of a collection are those delivered, in their order. -/
theorem overlays_ofDeliveries : (ofDeliveries ds).overlays = ds.flatMap Delivery.overlayRows :=
  (foldl_rows ds empty).2.2.1

/-- The links of a collection are those delivered, in their order. -/
theorem links_ofDeliveries : (ofDeliveries ds).links = ds.flatMap Delivery.linkRows :=
  (foldl_rows ds empty).2.2.2.1

/-- **The books of a collection** are shelved one delivery after the other. -/
theorem books_ofDeliveries :
    (ofDeliveries ds).books = ds.foldl Delivery.shelve [] :=
  (foldl_rows ds empty).2.2.2.2

end Collection

/-! ### Books and their marks -/

/-- A book with a new number stands after all others. -/
theorem putBook_of_not_mem {record : BookRecord} {books : List BookRecord}
    (h : record.id ∉ books.map (·.id)) : putBook record books = books ++ [record] := by
  induction books with
  | nil => rfl
  | cons b books ih =>
    rw [List.map_cons, List.mem_cons, not_or] at h
    rw [putBook, if_neg (Ne.symm h.1), ih h.2, List.cons_append]

/-- A book that is put is found under its number, and the others stay. -/
theorem find?_putBook (record : BookRecord) (books : List BookRecord) (n : Int) :
    (putBook record books).find? (·.id = n) =
      if record.id = n then some record else books.find? (·.id = n) := by
  induction books with
  | nil => by_cases h : record.id = n <;> simp [putBook, h]
  | cons b books ih =>
    unfold putBook
    split
    · next hb => by_cases h : record.id = n <;> simp [h, hb]
    · next hb =>
      rw [List.find?_cons, List.find?_cons, ih]
      by_cases h : record.id = n
      · subst h
        simp [hb]
      · simp [h]

/-- The numbers of books after one is put. -/
theorem mem_map_id_putBook {record : BookRecord} {books : List BookRecord} {n : Int} :
    n ∈ (putBook record books).map (·.id) ↔ n = record.id ∨ n ∈ books.map (·.id) := by
  induction books with
  | nil => simp [putBook]
  | cons b books ih =>
    unfold putBook
    split
    · next hb => simp [hb]
    · rw [List.map_cons, List.mem_cons, ih, List.map_cons, List.mem_cons, or_left_comm]

/-- No two books have one number after one is put. -/
theorem nodup_map_id_putBook (record : BookRecord) {books : List BookRecord}
    (h : (books.map (·.id)).Nodup) : ((putBook record books).map (·.id)).Nodup := by
  induction books with
  | nil => exact List.pairwise_singleton _ _
  | cons b books ih =>
    rw [List.map_cons] at h
    obtain ⟨hfirst, hrest⟩ := List.nodup_cons.1 h
    unfold putBook
    split
    · next hb =>
      rw [List.map_cons, ← hb]
      exact h
    · next hb =>
      refine List.nodup_cons.2 ⟨fun hmem => ?_, ih hrest⟩
      rcases mem_map_id_putBook.1 hmem with he | hmem
      · exact hb he
      · exact hfirst hmem

/-- **The books with a mark** on those that have a number. -/
def markBook (book : Int) (value : Bool) (books : List BookRecord) : List BookRecord :=
  books.map fun r => if r.id = book then { r with hasOverlays := value } else r

/-- A mark changes no number. -/
@[simp] theorem map_id_markBook (book : Int) (value : Bool) (books : List BookRecord) :
    (markBook book value books).map (·.id) = books.map (·.id) := by
  rw [markBook, List.map_map]
  refine List.map_congr_left fun r _ => ?_
  show (if r.id = book then _ else r).id = r.id
  split <;> rfl

/-- Books without a number are not changed by a mark on it. -/
theorem markBook_eq_self {book : Int} (value : Bool) {books : List BookRecord}
    (h : book ∉ books.map (·.id)) : markBook book value books = books := by
  refine (List.map_congr_left fun r hr => ?_).trans (List.map_id books)
  have hne : r.id ≠ book := fun he => h (he ▸ List.mem_map_of_mem (f := (·.id)) hr)
  exact if_neg hne

/-- **A delivered mark marks the book that it names**, when no two books have one number. -/
theorem shelve_overlayMark (book : Int) (value : Bool) {books : List BookRecord}
    (h : (books.map (·.id)).Nodup) :
    Delivery.shelve books (.overlayMark book value) = markBook book value books := by
  induction books with
  | nil => rfl
  | cons b books ih =>
    rw [List.map_cons, List.nodup_cons] at h
    have ih := ih h.2
    -- the first book with the number is the only one
    by_cases hb : b.id = book
    · subst hb
      have hrest := markBook_eq_self value h.1
      rw [Delivery.shelve, List.find?_cons_of_pos (by simp), markBook, List.map_cons, ← markBook,
        hrest]
      simp [putBook]
    · rw [Delivery.shelve] at ih ⊢
      rw [List.find?_cons_of_neg (by simpa using hb), markBook, List.map_cons, ← markBook, ← ih,
        if_neg hb]
      split
      · next record hfind =>
        have hid : record.id = book := by simpa using List.find?_some hfind
        rw [putBook, if_neg fun he => hb (he.trans hid)]
      · rfl

/-! ### Deliveries that a collection can take -/

namespace Collection

variable {c c' : Collection} {d : Delivery} {ds : List Delivery}

/-- **The collection after several deliveries**, unless it cannot take one. -/
def deliverAll (c : Collection) (ds : List Delivery) : Except CollectionFault Collection :=
  ds.foldlM deliver c

/-- The first delivery comes first. -/
theorem deliverAll_cons_eq_ok :
    c.deliverAll (d :: ds) = .ok c' ↔ ∃ m, c.deliver d = .ok m ∧ m.deliverAll ds = .ok c' := by
  rw [deliverAll, List.foldlM_cons]
  cases c.deliver d with
  | error fault => simp [bind, Except.bind]
  | ok m => simp [bind, Except.bind, deliverAll]

/-- A collection that can take deliveries does not pass over any. -/
theorem eq_foldl_of_deliverAll (h : c.deliverAll ds = .ok c') : c' = ds.foldl deliverOrKeep c := by
  induction ds generalizing c with
  | nil =>
    cases h
    rfl
  | cons d ds ih =>
    obtain ⟨m, hm, h⟩ := deliverAll_cons_eq_ok.1 h
    rw [List.foldl_cons, deliverOrKeep, hm]
    exact ih h

end Collection

end HebrewCorpus
