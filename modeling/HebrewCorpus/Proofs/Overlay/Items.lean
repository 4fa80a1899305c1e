import HebrewCorpus.Overlay.Tree

/-! # The items of an overlay

* **`Overlay.items`**: what the nodes of an overlay say of themselves, at any depth.
* **`OverlayItem.isDissolved`**: an item whose parts take its own place.
* **`OverlayTree.exists_build_eq_ok`**: an overlay is placed when all starting addresses of its items
  can be read. -/

namespace HebrewCorpus

mutual

/-- **What a node and the nodes below it say of themselves.** -/
def OverlayNode.items : OverlayNode → List OverlayItem
  | .node item children => item :: OverlayNode.itemsBelow children

/-- What neighbours and the nodes below them say of themselves. -/
def OverlayNode.itemsBelow : List OverlayNode → List OverlayItem
  | [] => []
  | first :: rest => first.items ++ OverlayNode.itemsBelow rest

end

/-- **What the nodes of an overlay say of themselves**, at any depth. -/
def Overlay.items (o : Overlay) : List OverlayItem := OverlayNode.itemsBelow o.nodes

/-- **An untitled node with pages, and with parts**: these take its own place. -/
def OverlayItem.isDissolved (i : OverlayItem) : Bool := i.isDaf && !i.refs.isEmpty && !i.hasTitle

/-! ### Addresses -/

/-- **An item whose starting address can be read**, or is not needed. -/
def OverlayItem.Addressed (i : OverlayItem) : Prop := ∃ value, i.base = .ok value

namespace OverlayItem

variable {i : OverlayItem}

instance : Decidable i.Addressed :=
  match h : i.base with
  | .ok value => .isTrue ⟨value, h⟩
  | .error fault => .isFalse fun ⟨value, hvalue⟩ => by rw [h] at hvalue; cases hvalue

/-- Its parts have addresses, or none is due. -/
theorem Addressed.addressAt (h : i.Addressed) (k : Nat) : ∃ value, i.addressAt k = .ok value := by
  obtain ⟨value, hvalue⟩ := h
  rw [OverlayItem.addressAt]
  cases i.addresses[k]? with
  | some n => exact ⟨_, rfl⟩
  | none => exact ⟨_, by rw [hvalue]; rfl⟩

/-- It has a label. -/
theorem Addressed.nodeLabel (h : i.Addressed) (position : Int) :
    ∃ label, i.nodeLabel position = .ok label := by
  obtain ⟨value, hvalue⟩ := h.addressAt 0
  rw [OverlayItem.nodeLabel]
  cases i.shownTitle? with
  | some title => exact ⟨_, rfl⟩
  | none => exact ⟨_, by rw [hvalue]; rfl⟩

end OverlayItem

namespace Placement

variable {p : Placement}

/-- The parts of an item are placed. -/
theorem exists_placeParts_eq_ok {item : OverlayItem} (h : item.Addressed) (k : Nat)
    (refs : List Text) (taken : Taken) : ∃ r, p.placeParts item k refs taken = .ok r := by
  induction refs generalizing k taken with
  | nil => exact ⟨_, rfl⟩
  | cons ref refs ih =>
    rw [placeParts]
    cases p.target? item ref with
    | none => exact ih (k + 1) taken
    | some target =>
      dsimp only
      split
      · exact ih (k + 1) taken
      · obtain ⟨value, hvalue⟩ := h.addressAt k
        obtain ⟨r, hr⟩ := ih (k + 1) (target.line :: taken)
        exact ⟨_, by rw [hvalue]; simp only [bind, Except.bind, hr]; rfl⟩

/-- The parts of an item are placed under it. -/
theorem exists_ownParts_eq_ok {item : OverlayItem} (h : item.Addressed) :
    ∃ r, p.ownParts item = .ok r := by
  rw [ownParts]
  split
  · exact ⟨_, rfl⟩
  · exact exists_placeParts_eq_ok h 0 item.refs []

mutual

/-- A node is placed when all its starting addresses can be read. -/
theorem exists_placeNode_eq_ok (position : Nat) (taken : Taken) :
    (node : OverlayNode) → (∀ i ∈ node.items, i.Addressed) →
      ∃ r, p.placeNode position taken node = .ok r
  | .node item children, h => by
    rw [OverlayNode.items] at h
    have hitem := h item List.mem_cons_self
    have hbelow (inner : Taken) := exists_placeNodes_eq_ok 0 inner children fun i hi =>
      h i (List.mem_cons_of_mem _ hi)
    rw [placeNode]
    split
    · obtain ⟨parts, hparts⟩ := exists_placeParts_eq_ok (p := p) hitem 0 item.refs taken
      obtain ⟨below, hbelow⟩ := hbelow parts.2
      exact ⟨_, by simp only [hparts, bind, Except.bind, hbelow]; rfl⟩
    · split
      · obtain ⟨label, hlabel⟩ := hitem.nodeLabel position
        obtain ⟨parts, hparts⟩ := exists_ownParts_eq_ok (p := p) hitem
        obtain ⟨below, hbelow⟩ := hbelow parts.2
        exact ⟨_, by simp only [hlabel, hparts, bind, Except.bind, hbelow]; rfl⟩
      · obtain ⟨below, hbelow⟩ := hbelow []
        exact ⟨_, by simp only [bind, Except.bind, hbelow]; rfl⟩

/-- **Neighbours are placed when all their starting addresses can be read.** -/
theorem exists_placeNodes_eq_ok (position : Nat) (taken : Taken) :
    (nodes : List OverlayNode) → (∀ i ∈ OverlayNode.itemsBelow nodes, i.Addressed) →
      ∃ r, p.placeNodes position taken nodes = .ok r
  | [], _ => ⟨_, rfl⟩
  | node :: nodes, h => by
    rw [OverlayNode.itemsBelow] at h
    obtain ⟨first, hfirst⟩ := exists_placeNode_eq_ok position taken node fun i hi =>
      h i (List.mem_append_left _ hi)
    obtain ⟨rest, hrest⟩ := exists_placeNodes_eq_ok (position + 1) first.2 nodes fun i hi =>
      h i (List.mem_append_right _ hi)
    rw [placeNodes]
    exact ⟨_, by simp only [hfirst, bind, Except.bind, hrest]; rfl⟩

end

end Placement

/-- **An overlay is placed when all its starting addresses can be read.** -/
theorem OverlayTree.exists_build_eq_ok {overlay : Overlay} (h : ∀ i ∈ overlay.items, i.Addressed)
    (rules : PlacementRules) (index : RefIndex) (book : Int) (categories : List Text)
    (firstLine total : Int) :
    ∃ tree, build rules index book categories firstLine total overlay = .ok tree := by
  obtain ⟨r, hr⟩ := Placement.exists_placeNodes_eq_ok
    (p := placement rules index book categories overlay) 0 [] overlay.nodes h
  rw [build]
  exact ⟨_, by simp only [bind, Except.bind, hr]; rfl⟩

/-! ### A small overlay -/

/-- The reference index of three verses. -/
def ruthIndex : RefIndex :=
  .build [⟨"Ruth 1:1".toList, [], 1, 7⟩, ⟨"Ruth 1:2".toList, [], 2, 7⟩, ⟨"Ruth 3:2".toList, [], 3, 7⟩]
    [(7, ["Ruth".toList])] [(7, 1)]

/-- An overlay with a node that only groups others, one with parts, one that leads nowhere, and one
with pages. -/
def ruthPortions : Overlay :=
  ⟨"Portions".toList, none, none,
    [.node ⟨some "Book".toList, none, none, [], [], none, [], ∅, none, none⟩
      [.node ⟨some "First".toList, none, some "Ruth 1:1".toList,
          ["Ruth 1:1".toList, "Ruth 1:2".toList], [], none, [], ∅, none, none⟩ [],
        .node ⟨some "Lost".toList, none, some "Ruth 9:9".toList, [], [], none, [], ∅, none, none⟩ [],
        .node ⟨none, none, none, ["Ruth 3:2".toList], ["Talmud".toList], none, [], ∅,
          some "2b".toList, none⟩ []]]⟩

end HebrewCorpus
