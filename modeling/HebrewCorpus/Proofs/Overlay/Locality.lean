import HebrewCorpus.Overlay.Tree
import HebrewCorpus.Proofs.Citation.Locality

/-! # Overlays within one book

The nodes of an overlay are placed by what their citations lead to within the book. Two indices that
hold the same of the book place them alike.

* **`Placement.Alike`**: rules by which the citations of all nodes lead to the same lines.
* **`Placement.placeNodes_of_alike`**: they place all nodes alike.
* **`OverlayTree.build_of_agree`**: the tree of an overlay depends on its own book alone. -/

namespace HebrewCorpus

namespace Placement

/-- **Rules by which the citations of all nodes lead to the same lines**, and parts are left out
alike. -/
structure Alike (p q : Placement) : Prop where
  target? : p.target? = q.target?
  suppressParts : p.suppressParts = q.suppressParts

variable {p q : Placement}

/-- A node stands at the same line. -/
theorem nodeTarget?_of_alike (h : p.Alike q) (item : OverlayItem) :
    p.nodeTarget? item = q.nodeTarget? item := by
  rw [nodeTarget?, nodeTarget?, h.target?]

/-- The parts of a node are placed alike. -/
theorem placeParts_of_alike (h : p.Alike q) (item : OverlayItem) (k : Nat) (refs : List Text)
    (taken : Taken) : p.placeParts item k refs taken = q.placeParts item k refs taken := by
  induction refs generalizing k taken with
  | nil => rfl
  | cons ref refs ih =>
    rw [placeParts, placeParts, h.target?]
    simp only [ih]

/-- The parts under a node are placed alike. -/
theorem ownParts_of_alike (h : p.Alike q) (item : OverlayItem) :
    p.ownParts item = q.ownParts item := by
  rw [ownParts, ownParts, h.suppressParts, placeParts_of_alike h]

mutual

/-- **A node is placed alike**, with what is below it. -/
theorem placeNode_of_alike (h : p.Alike q) (position : Nat) (taken : Taken) :
    (node : OverlayNode) → p.placeNode position taken node = q.placeNode position taken node
  | .node item children => by
    have hbelow (inner : Taken) := placeNodes_of_alike h 0 inner children
    rw [placeNode, placeNode, placeParts_of_alike h, nodeTarget?_of_alike h, ownParts_of_alike h]
    simp only [hbelow]

/-- **Neighbours are placed alike.** -/
theorem placeNodes_of_alike (h : p.Alike q) (position : Nat) (taken : Taken) :
    (nodes : List OverlayNode) → p.placeNodes position taken nodes = q.placeNodes position taken nodes
  | [] => rfl
  | node :: nodes => by
    have hrest (inner : Taken) := placeNodes_of_alike h (position + 1) inner nodes
    rw [placeNodes, placeNodes, placeNode_of_alike h position taken node]
    simp only [hrest]

end

end Placement

namespace OverlayTree

variable {rules : PlacementRules} {index index' : RefIndex} {book : Int}

/-- Indices that hold the same of a book give rules that place its nodes alike. -/
theorem alike_placement (h : RefIndex.Agree book index index') (categories : List Text)
    (overlay : Overlay) :
    (placement rules index book categories overlay).Alike
      (placement rules index' book categories overlay) where
  target? := by
    funext item citation
    exact RefIndex.resolve_of_agree h citation _
  suppressParts := rfl

/-- **The tree of an overlay depends on its own book alone.** -/
theorem build_of_agree (h : RefIndex.Agree book index index') (categories : List Text)
    (firstLine total : Int) (overlay : Overlay) :
    build rules index book categories firstLine total overlay =
      build rules index' book categories firstLine total overlay := by
  rw [build, build]
  dsimp only
  rw [Placement.placeNodes_of_alike (alike_placement h categories overlay)]

end OverlayTree

end HebrewCorpus
