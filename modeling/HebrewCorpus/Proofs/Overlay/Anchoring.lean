import HebrewCorpus.Proofs.Book.Flat
import HebrewCorpus.Proofs.Overlay.Items

/-! # What an overlay keeps

Nodes are left out of an overlay for several reasons: a citation leads nowhere, a neighbour has taken
the line, or there is nothing to group. Something is left whenever one of the citations that are tried
leads to a line.

* **`OverlayItem.anchors`**: the citations by which a line for a node or its parts is looked for. The
  citation of the whole range is not among them where an untitled node with pages has parts.
* **`Placement.Anchored`**: an item with such a citation that leads to a line.
* **`Placement.placeNodes_eq_nil_iff`**: nothing is placed when no item is anchored.
* **`OverlayTree.entries_ne_nil_iff`**: the tree of an overlay has entries when some item is. -/

namespace HebrewCorpus

namespace OverlayItem

/-- **The citations by which a line is looked for**, for the node or for its parts. -/
def anchors (i : OverlayItem) : List Text := if i.isDissolved then i.refs else i.citations

/-- They are among all citations. -/
theorem mem_citations_of_mem_anchors {i : OverlayItem} {c : Text} (h : c ∈ i.anchors) :
    c ∈ i.citations := by
  rw [anchors] at h
  split at h
  · exact List.mem_append_right _ h
  · exact h

/-- **A citation of an item that leads to a line of a book.** The chapter's first line is no answer
where the item has pages, and an address alone is none there and in books of several sections. -/
def Leads (index : RefIndex) (book : Int) (multiSection : Bool) (i : OverlayItem) (c : Text) : Prop :=
  ∃ t, index.resolve c (some book) ⟨!i.isDaf, !i.isDaf && !multiSection⟩ = some t

end OverlayItem

namespace Placement

variable {p : Placement}

/-- **An item with a citation that leads to a line**, among those by which one is looked for. -/
def Anchored (p : Placement) (i : OverlayItem) : Prop :=
  ∃ c ∈ i.anchors, ∃ t, p.target? i c = some t

/-- A node has no line when none of its citations leads to one. -/
theorem nodeTarget?_eq_none_iff {item : OverlayItem} :
    p.nodeTarget? item = none ↔ ∀ c ∈ item.citations, p.target? item c = none := by
  rw [nodeTarget?, List.findSome?_eq_none_iff]

/-- An item is not anchored when all these citations lead nowhere. -/
theorem not_anchored_iff {i : OverlayItem} :
    ¬p.Anchored i ↔ ∀ c ∈ i.anchors, p.target? i c = none := by
  constructor
  · intro h c hc
    cases htarget : p.target? i c with
    | none => rfl
    | some t => exact absurd ⟨c, hc, t, htarget⟩ h
  · rintro h ⟨c, hc, t, ht⟩
    rw [h c hc] at ht
    cases ht

/-! ### Parts -/

/-- Where no parts are placed, no lines are taken. -/
theorem taken_of_placeParts_eq_nil {item : OverlayItem} {k : Nat} {refs : List Text}
    {taken taken' : Taken} (h : p.placeParts item k refs taken = .ok ([], taken')) :
    taken' = taken := by
  induction refs generalizing k with
  | nil =>
    cases h
    rfl
  | cons ref refs ih =>
    rw [placeParts] at h
    split at h
    · exact ih h
    · split at h
      · exact ih h
      · obtain ⟨value, -, h⟩ := exists_of_bind_eq_ok h
        obtain ⟨⟨parts, inner⟩, -, h⟩ := exists_of_bind_eq_ok h
        cases h

/-- **No parts are placed** where no line is taken, when none of the citations leads to one. -/
theorem placeParts_eq_nil_iff {item : OverlayItem} {k : Nat} {refs : List Text} {parts : List Branch}
    {taken : Taken} (h : p.placeParts item k refs [] = .ok (parts, taken)) :
    parts = [] ↔ ∀ c ∈ refs, p.target? item c = none := by
  induction refs generalizing k with
  | nil =>
    cases h
    simp
  | cons ref refs ih =>
    rw [placeParts] at h
    cases htarget : p.target? item ref with
    | none =>
      rw [htarget] at h
      rw [ih h, List.forall_mem_cons]
      exact (and_iff_right htarget).symm
    | some target =>
      rw [htarget] at h
      -- the line is free, so the part is placed
      obtain ⟨value, -, h⟩ := exists_of_bind_eq_ok h
      obtain ⟨⟨rest, inner⟩, -, h⟩ := exists_of_bind_eq_ok h
      cases h
      simp [htarget]

/-! ### Nodes -/

mutual

/-- Where nothing of a node is placed, no lines are taken. -/
theorem taken_of_placeNode_eq_nil {position : Nat} {taken taken' : Taken} :
    (node : OverlayNode) → p.placeNode position taken node = .ok ([], taken') → taken' = taken
  | .node item children, h => by
    rw [placeNode] at h
    split at h
    · obtain ⟨⟨parts, inner⟩, hparts, h⟩ := exists_of_bind_eq_ok h
      obtain ⟨⟨below, outer⟩, hbelow, h⟩ := exists_of_bind_eq_ok h
      obtain ⟨happend, rfl⟩ := Prod.mk.inj (Except.ok.inj h)
      obtain ⟨rfl, rfl⟩ := List.append_eq_nil_iff.1 happend
      rw [taken_of_placeNodes_eq_nil children hbelow, taken_of_placeParts_eq_nil hparts]
    · split at h
      · obtain ⟨label, -, h⟩ := exists_of_bind_eq_ok h
        obtain ⟨⟨parts, inner⟩, -, h⟩ := exists_of_bind_eq_ok h
        obtain ⟨⟨below, outer⟩, -, h⟩ := exists_of_bind_eq_ok h
        cases h
      · obtain ⟨⟨below, outer⟩, -, h⟩ := exists_of_bind_eq_ok h
        exact (Prod.mk.inj (Except.ok.inj h)).2.symm

/-- **Where nothing of neighbours is placed, no lines are taken.** -/
theorem taken_of_placeNodes_eq_nil {position : Nat} {taken taken' : Taken} :
    (nodes : List OverlayNode) → p.placeNodes position taken nodes = .ok ([], taken') →
      taken' = taken
  | [], h => by
    cases h
    rfl
  | node :: nodes, h => by
    rw [placeNodes] at h
    obtain ⟨⟨first, inner⟩, hfirst, h⟩ := exists_of_bind_eq_ok h
    obtain ⟨⟨rest, outer⟩, hrest, h⟩ := exists_of_bind_eq_ok h
    obtain ⟨happend, rfl⟩ := Prod.mk.inj (Except.ok.inj h)
    obtain ⟨rfl, rfl⟩ := List.append_eq_nil_iff.1 happend
    rw [taken_of_placeNodes_eq_nil nodes hrest, taken_of_placeNode_eq_nil node hfirst]

end

mutual

/-- Nothing of a node is placed where no line is taken, when no item is anchored. -/
theorem placeNode_eq_nil_iff {position : Nat} {taken : Taken} {branches : List Branch} :
    (node : OverlayNode) → p.placeNode position [] node = .ok (branches, taken) →
      (branches = [] ↔ ∀ i ∈ node.items, ¬p.Anchored i)
  | .node item children, h => by
    rw [OverlayNode.items, List.forall_mem_cons, not_anchored_iff, OverlayItem.anchors]
    rw [placeNode, ← OverlayItem.isDissolved] at h
    by_cases hparts : item.isDissolved = true
    · rw [if_pos hparts] at h ⊢
      obtain ⟨⟨parts, inner⟩, hplaced, h⟩ := exists_of_bind_eq_ok h
      obtain ⟨⟨below, outer⟩, hbelow, h⟩ := exists_of_bind_eq_ok h
      cases h
      rw [List.append_eq_nil_iff, ← placeParts_eq_nil_iff hplaced]
      refine and_congr_right fun hnone => ?_
      -- without parts no line is taken when it comes to the nodes below
      subst hnone
      rw [taken_of_placeParts_eq_nil hplaced] at hbelow
      exact placeNodes_eq_nil_iff children hbelow
    · rw [if_neg hparts] at h ⊢
      rw [← nodeTarget?_eq_none_iff]
      cases htarget : p.nodeTarget? item with
      | some target =>
        rw [htarget] at h
        obtain ⟨label, -, h⟩ := exists_of_bind_eq_ok h
        obtain ⟨⟨parts, inner⟩, -, h⟩ := exists_of_bind_eq_ok h
        obtain ⟨⟨below, outer⟩, -, h⟩ := exists_of_bind_eq_ok h
        cases h
        simp
      | none =>
        rw [htarget] at h
        obtain ⟨⟨below, outer⟩, hbelow, h⟩ := exists_of_bind_eq_ok h
        cases h
        rw [Branch.grouping_eq_nil_iff, placeNodes_eq_nil_iff children hbelow]
        exact (and_iff_right rfl).symm

/-- **Nothing of neighbours is placed where no line is taken**, when no item is anchored. -/
theorem placeNodes_eq_nil_iff {position : Nat} {taken : Taken} {branches : List Branch} :
    (nodes : List OverlayNode) → p.placeNodes position [] nodes = .ok (branches, taken) →
      (branches = [] ↔ ∀ i ∈ OverlayNode.itemsBelow nodes, ¬p.Anchored i)
  | [], h => by
    cases h
    simp [OverlayNode.itemsBelow]
  | node :: nodes, h => by
    rw [placeNodes] at h
    obtain ⟨⟨first, inner⟩, hfirst, h⟩ := exists_of_bind_eq_ok h
    obtain ⟨⟨rest, outer⟩, hrest, h⟩ := exists_of_bind_eq_ok h
    cases h
    rw [OverlayNode.itemsBelow, List.forall_mem_append, List.append_eq_nil_iff,
      ← placeNode_eq_nil_iff node hfirst]
    refine and_congr_right fun hnone => ?_
    subst hnone
    rw [taken_of_placeNode_eq_nil node hfirst] at hrest
    exact placeNodes_eq_nil_iff nodes hrest

end

end Placement

/-- Branches make entries. -/
theorem entriesBelow_eq_nil_iff {level : Nat} {parent : Option Int} {id : Int} {bs : List Branch} :
    entriesBelow level parent id bs = [] ↔ bs = [] := by
  cases bs with
  | nil => simp [entriesBelow]
  | cons b bs =>
    obtain ⟨text, target, below⟩ := b
    simp [entriesBelow, entriesOf]

namespace OverlayTree

section Anchoring

variable (rules : PlacementRules) (index : RefIndex) (book : Int) (categories : List Text)
  (firstLine total : Int) (overlay : Overlay)

/-- A tree has entries when some item is anchored. -/
theorem entries_ne_nil_of_build {tree : OverlayTree}
    (h : build rules index book categories firstLine total overlay = .ok tree) :
    tree.entries ≠ [] ↔ ∃ i ∈ overlay.items, ∃ c ∈ i.anchors,
      i.Leads index book (rules.isMultiSection categories) c := by
  rw [build] at h
  obtain ⟨⟨branches, taken⟩, hplaced, h⟩ := exists_of_bind_eq_ok h
  cases h
  have hentries : (ofBranches ⟨0, book, overlay.key, overlay.title, overlay.heTitle⟩ branches firstLine
      total).entries = [] ↔ branches = [] := entriesBelow_eq_nil_iff
  rw [Ne, hentries, Placement.placeNodes_eq_nil_iff overlay.nodes hplaced]
  constructor
  · intro hsome
    by_cases hany : ∃ i ∈ overlay.items,
        (placement rules index book categories overlay).Anchored i
    · exact hany
    · exact absurd (fun i hi hanchored => hany ⟨i, hi, hanchored⟩) hsome
  · rintro ⟨i, hi, hanchored⟩ hnone
    exact hnone i hi hanchored

/-- **Which overlays have entries.** The tree has some when one of the citations that are tried leads to
a line. It has some when any citation at all does, unless the range of an untitled node with pages
leads to a line while none of its parts does. An overlay whose starting addresses can be read has a
tree. -/
theorem entries_ne_nil_iff :
    (∀ tree, build rules index book categories firstLine total overlay = .ok tree →
      (tree.entries ≠ [] ↔ ∃ i ∈ overlay.items, ∃ c ∈ i.anchors,
        i.Leads index book (rules.isMultiSection categories) c) ∧
      ((∀ i ∈ overlay.items, i.isDissolved = true →
          (∃ c ∈ i.citations, i.Leads index book (rules.isMultiSection categories) c) →
            ∃ c ∈ i.refs, i.Leads index book (rules.isMultiSection categories) c) →
        (tree.entries ≠ [] ↔ ∃ i ∈ overlay.items, ∃ c ∈ i.citations,
          i.Leads index book (rules.isMultiSection categories) c))) ∧
    ((∀ i ∈ overlay.items, i.Addressed) →
      ∃ tree, build rules index book categories firstLine total overlay = .ok tree) := by
  refine ⟨fun tree htree => ?_, fun h =>
    exists_build_eq_ok h rules index book categories firstLine total⟩
  have hanchors := entries_ne_nil_of_build rules index book categories firstLine total overlay htree
  refine ⟨hanchors, fun hparts => hanchors.trans ?_⟩
  constructor
  · rintro ⟨i, hi, c, hc, hleads⟩
    exact ⟨i, hi, c, OverlayItem.mem_citations_of_mem_anchors hc, hleads⟩
  · rintro ⟨i, hi, c, hc, hleads⟩
    by_cases hdissolved : i.isDissolved = true
    · -- the parts lead somewhere then
      obtain ⟨d, hd, hleads'⟩ := hparts i hi hdissolved ⟨c, hc, hleads⟩
      refine ⟨i, hi, d, ?_, hleads'⟩
      rw [OverlayItem.anchors, if_pos hdissolved]
      exact hd
    · refine ⟨i, hi, c, ?_, hleads⟩
      rw [OverlayItem.anchors, if_neg hdissolved]
      exact hc

end Anchoring

/-- The small overlay has entries, as a citation of it leads to a line. -/
theorem entries_ne_nil_ruth :
    ∃ tree, build {} ruthIndex 7 [] 1 3 ruthPortions = .ok tree ∧ tree.entries ≠ [] := by
  obtain ⟨hentries, hplaced⟩ := entries_ne_nil_iff {} ruthIndex 7 [] 1 3 ruthPortions
  have haddressed : ∀ i ∈ ruthPortions.items, i.Addressed := by decide +kernel
  obtain ⟨tree, htree⟩ := hplaced haddressed
  have hranges : ∀ i ∈ ruthPortions.items, i.isDissolved = true → i.citations = i.refs := by
    decide +kernel
  refine ⟨tree, htree, ((hentries tree htree).2 ?_).2 ?_⟩
  · intro i hi hdissolved hleads
    rwa [hranges i hi hdissolved] at hleads
  · have hsome : ∃ i ∈ ruthPortions.items, ∃ c ∈ i.citations, (ruthIndex.resolve c (some 7)
        ⟨!i.isDaf, !i.isDaf && !PlacementRules.isMultiSection {} []⟩).isSome = true := by
      decide +kernel
    obtain ⟨i, hi, c, hc, hleads⟩ := hsome
    exact ⟨i, hi, c, hc, Option.isSome_iff_exists.1 hleads⟩

/-- An untitled node with pages whose range leads to a line, and whose part does not. -/
def lostPage : Overlay :=
  ⟨"Pages".toList, none, none,
    [.node ⟨none, none, some "Ruth 1:1".toList, ["Ruth 9:9".toList], ["Talmud".toList], none, [], ∅,
      none, none⟩ []]⟩

/-- **Its place is lost**: the tree has no entries, though a citation leads to a line. -/
theorem entries_eq_nil_lostPage :
    ∃ tree, build {} ruthIndex 7 [] 1 3 lostPage = .ok tree ∧ tree.entries = [] ∧
      ∃ i ∈ lostPage.items, ∃ c ∈ i.citations,
        i.Leads ruthIndex 7 (PlacementRules.isMultiSection {} []) c := by
  refine ⟨_, rfl, ?_, ?_⟩
  · decide +kernel
  · have hsome : ∃ i ∈ lostPage.items, ∃ c ∈ i.citations, (ruthIndex.resolve c (some 7)
        ⟨!i.isDaf, !i.isDaf && !PlacementRules.isMultiSection {} []⟩).isSome = true := by
      decide +kernel
    obtain ⟨i, hi, c, hc, hleads⟩ := hsome
    exact ⟨i, hi, c, hc, Option.isSome_iff_exists.1 hleads⟩

end OverlayTree

end HebrewCorpus
