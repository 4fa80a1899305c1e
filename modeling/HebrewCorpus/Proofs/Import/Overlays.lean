import HebrewCorpus.Proofs.Import.Books
import HebrewCorpus.Proofs.Overlay.Entries

/-! # Overlays of an import

The second stage of an import lays the placed overlays of all books one after the other, and marks
each book that has any.

* **`layTrees`**: trees with the numbers that an import gives them.
* **`OverlayPart`**, **`layOverlays`**: the trees of each book, and what is delivered of them.
* **`Progress.withOverlays`**: an import after some more overlays; `deliverAllOverlays_never` is the
  whole stage.
* **`map_id_trees_layOverlays`**, **`map_id_entries_layOverlays`**: trees and entries are numbered
  one after the other. -/

namespace HebrewCorpus

/-- The number of entries of some trees. -/
def OverlayTree.entryTotal : List OverlayTree → Nat := totalOf (·.entries.length)

/-- Entries of neighbours are added. -/
theorem OverlayTree.entryTotal_append (ts us : List OverlayTree) :
    entryTotal (ts ++ us) = entryTotal ts + entryTotal us := totalOf_append ..

/-- **Trees one after the other**, from a first tree and a first entry on. -/
def layTrees (id entry : Int) : List OverlayTree → List OverlayTree
  | [] => []
  | t :: ts => t.rebased id (entry - 1) :: layTrees (id + 1) (entry + t.entries.length) ts

/-- Laying leaves no tree out. -/
@[simp] theorem length_layTrees (id entry : Int) (ts : List OverlayTree) :
    (layTrees id entry ts).length = ts.length := by
  induction ts generalizing id entry with
  | nil => rfl
  | cons t ts ih => exact congrArg Nat.succ (ih _ _)

/-- Laying leaves no entry out. -/
@[simp] theorem entryTotal_layTrees (id entry : Int) (ts : List OverlayTree) :
    OverlayTree.entryTotal (layTrees id entry ts) = OverlayTree.entryTotal ts := by
  induction ts generalizing id entry with
  | nil => rfl
  | cons t ts ih =>
    have ih := ih (id + 1) (entry + t.entries.length)
    simp only [OverlayTree.entryTotal] at ih
    simp [OverlayTree.entryTotal, layTrees, OverlayTree.rebased, ih]

/-- **The trees of a book.** -/
structure OverlayPart where
  book : Int
  trees : List OverlayTree

/-- **What is delivered of the trees of a book**: they, and a mark on the book if there are any. -/
def OverlayPart.deliveries (o : OverlayPart) : List Delivery :=
  match o.trees with
  | [] => []
  | trees => trees.map .overlay ++ [.overlayMark o.book true]

/-- **The trees of some books one after the other**, from a first tree and a first entry on. -/
def layOverlays (treesOf : DeliveredBook → List OverlayTree) (id entry : Int) :
    List DeliveredBook → List OverlayPart
  | [] => []
  | b :: rest =>
    ⟨b.id, layTrees id entry (treesOf b)⟩ ::
      layOverlays treesOf (id + (treesOf b).length) (entry + OverlayTree.entryTotal (treesOf b)) rest

/-- **The progress after some more trees**, and what is delivered of them. -/
def Progress.overlaid (ds : List Delivery) (ts : List OverlayTree) (p : Progress) : Progress :=
  { p with
    counters := { p.counters with
      overlay := p.counters.overlay + ts.length
      overlayEntry := p.counters.overlayEntry + OverlayTree.entryTotal ts }
    deliveries := p.deliveries ++ ds
    report := { p.report with
      overlayEntries := p.report.overlayEntries + OverlayTree.entryTotal ts } }

/-- **Trees come one after the other.** -/
theorem Progress.overlaid_overlaid (ds es : List Delivery) (ts us : List OverlayTree) (p : Progress) :
    (p.overlaid ds ts).overlaid es us = p.overlaid (ds ++ es) (ts ++ us) := by
  simp [Progress.overlaid, OverlayTree.entryTotal, Nat.add_assoc, Int.add_assoc]

/-- Without trees, only something is delivered. -/
theorem Progress.hand_eq_overlaid (ds : List Delivery) (p : Progress) :
    p.hand ds = p.overlaid ds [] := by
  simp [Progress.hand, Progress.overlaid, OverlayTree.entryTotal]

/-- No trees change nothing. -/
theorem Progress.overlaid_nil (p : Progress) : p.overlaid [] [] = p := by
  rw [← hand_eq_overlaid, hand, List.append_nil]

/-- Trees are delivered with the next numbers. -/
theorem foldl_deliverTree (ts : List OverlayTree) (p : Progress) :
    ts.foldl (fun p tree => deliverTree tree p) p =
      p.overlaid ((layTrees p.counters.overlay p.counters.overlayEntry ts).map .overlay)
        (layTrees p.counters.overlay p.counters.overlayEntry ts) := by
  induction ts generalizing p with
  | nil => exact p.overlaid_nil.symm
  | cons t ts ih =>
    -- one tree takes the next numbers, so the others start behind it
    have hfirst : deliverTree t p =
        p.overlaid [.overlay (t.rebased p.counters.overlay (p.counters.overlayEntry - 1))]
          [t.rebased p.counters.overlay (p.counters.overlayEntry - 1)] := by
      simp [deliverTree, Progress.overlaid, IdCounters.take, IdCounters.next, IdCounters.advance,
        OverlayTree.entryTotal, OverlayTree.rebased]
    rw [List.foldl_cons, ih, hfirst, Progress.overlaid_overlaid]
    simp [layTrees, Progress.overlaid, OverlayTree.entryTotal, OverlayTree.rebased]

/-- **The progress after the overlays of some more books.** -/
def Progress.withOverlays (os : List OverlayPart) (p : Progress) : Progress :=
  p.overlaid (os.flatMap (·.deliveries)) (os.flatMap (·.trees))

variable (rules : PlacementRules) (index : RefIndex)

/-- **The overlays of one book are delivered.** -/
theorem deliverOverlays_eq (b : DeliveredBook) (p : Progress) :
    deliverOverlays rules index b p =
      p.withOverlays [⟨b.id, layTrees p.counters.overlay p.counters.overlayEntry
        (overlayTrees rules index b)⟩] := by
  rw [deliverOverlays, Progress.withOverlays]
  cases htrees : overlayTrees rules index b with
  | nil => exact p.overlaid_nil.symm
  | cons t ts =>
    dsimp only
    rw [foldl_deliverTree, Progress.hand_eq_overlaid, Progress.overlaid_overlaid, List.append_nil]
    simp [OverlayPart.deliveries, layTrees]

/-- **The overlays of all books are delivered**, one after the other. -/
theorem deliverAllOverlays_never (books : List DeliveredBook) (p : Progress) :
    deliverAllOverlays rules index .never p books =
      p.withOverlays (layOverlays (overlayTrees rules index) p.counters.overlay
        p.counters.overlayEntry books) := by
  induction books generalizing p with
  | nil => exact p.overlaid_nil.symm
  | cons b books ih =>
    have hstep : deliverAllOverlays rules index .never p (b :: books) =
        deliverAllOverlays rules index .never (deliverOverlays rules index b p) books := by
      rw [deliverAllOverlays]
      split
      · next hnone =>
        -- a book without overlays has no trees either
        have htrees : overlayTrees rules index b = [] := by
          rw [overlayTrees, List.isEmpty_iff.1 hnone]
          rfl
        rw [deliverOverlays, htrees]
      · rfl
    rw [hstep, ih, deliverOverlays_eq, Progress.withOverlays, Progress.withOverlays,
      Progress.withOverlays, Progress.overlaid_overlaid, layOverlays]
    simp [Progress.overlaid]

/-! ### All trees -/

/-- The trees of a part have neighbouring numbers. -/
theorem map_id_layTrees (id entry : Int) (ts : List OverlayTree) :
    (layTrees id entry ts).map (·.head.id) = numbersFrom id ts.length := by
  induction ts generalizing id entry with
  | nil => rfl
  | cons t ts ih => exact congrArg (id :: ·) (ih (id + 1) _)

/-- **All trees have neighbouring numbers.** -/
theorem map_id_trees_layOverlays (treesOf : DeliveredBook → List OverlayTree) (id entry : Int)
    (books : List DeliveredBook) :
    ((layOverlays treesOf id entry books).flatMap (·.trees)).map (·.head.id) =
      numbersFrom id ((layOverlays treesOf id entry books).flatMap (·.trees)).length := by
  induction books generalizing id entry with
  | nil => rfl
  | cons b books ih =>
    rw [layOverlays, List.flatMap_cons, List.map_append, ih, map_id_layTrees, List.length_append,
      length_layTrees, numbersFrom_add]

/-- The entries of the trees of a part have neighbouring numbers. -/
theorem map_id_entries_layTrees (id entry : Int) {ts : List OverlayTree}
    (h : ∀ t ∈ ts, t.entries.map (·.id) = numbersFrom 1 t.entries.length) :
    ((layTrees id entry ts).flatMap (·.entries)).map (·.id) =
      numbersFrom entry (OverlayTree.entryTotal ts) := by
  induction ts generalizing id entry with
  | nil => rfl
  | cons t ts ih =>
    -- local numbers start at 1, so the offset is one less than the first number
    have hfirst := OverlayTree.map_id_entries_rebased (h t List.mem_cons_self) id (entry - 1)
    have hentry : 1 + (entry - 1) = entry := by omega
    rw [hentry] at hfirst
    rw [layTrees, List.flatMap_cons, List.map_append, hfirst,
      ih (id + 1) _ fun u hu => h u (List.mem_cons_of_mem _ hu), ← numbersFrom_add]
    rfl

/-- **All entries of overlays have neighbouring numbers.** -/
theorem map_id_entries_layOverlays {treesOf : DeliveredBook → List OverlayTree} (id entry : Int)
    {books : List DeliveredBook}
    (h : ∀ b ∈ books, ∀ t ∈ treesOf b, t.entries.map (·.id) = numbersFrom 1 t.entries.length) :
    (((layOverlays treesOf id entry books).flatMap (·.trees)).flatMap (·.entries)).map (·.id) =
      numbersFrom entry
        (OverlayTree.entryTotal ((layOverlays treesOf id entry books).flatMap (·.trees))) := by
  induction books generalizing id entry with
  | nil => rfl
  | cons b books ih =>
    rw [layOverlays, List.flatMap_cons, List.flatMap_append, List.map_append,
      map_id_entries_layTrees id entry (h b List.mem_cons_self),
      ih _ _ fun c hc => h c (List.mem_cons_of_mem _ hc), ← numbersFrom_add]
    dsimp only
    rw [OverlayTree.entryTotal_append, entryTotal_layTrees]

/-! ### Single trees -/

/-- A laid tree is one of the trees with new numbers. -/
theorem exists_of_mem_layTrees {id entry : Int} {ts : List OverlayTree} {t : OverlayTree}
    (h : t ∈ layTrees id entry ts) : ∃ s ∈ ts, ∃ id offset, t = s.rebased id offset := by
  induction ts generalizing id entry with
  | nil => cases h
  | cons s ts ih =>
    rcases List.mem_cons.1 h with rfl | h
    · exact ⟨s, List.mem_cons_self, id, entry - 1, rfl⟩
    · obtain ⟨u, hu, id, offset, rfl⟩ := ih h
      exact ⟨u, List.mem_cons_of_mem _ hu, id, offset, rfl⟩

/-- A laid part holds the trees of one of the books. -/
theorem exists_of_mem_layOverlays {treesOf : DeliveredBook → List OverlayTree} {id entry : Int}
    {books : List DeliveredBook} {o : OverlayPart} (h : o ∈ layOverlays treesOf id entry books) :
    ∃ b ∈ books, o.book = b.id ∧ ∃ id entry, o.trees = layTrees id entry (treesOf b) := by
  induction books generalizing id entry with
  | nil => cases h
  | cons b books ih =>
    rcases List.mem_cons.1 h with rfl | h
    · exact ⟨b, List.mem_cons_self, rfl, id, entry, rfl⟩
    · obtain ⟨c, hc, ho⟩ := ih h
      exact ⟨c, List.mem_cons_of_mem _ hc, ho⟩

end HebrewCorpus
