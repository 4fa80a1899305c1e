import HebrewCorpus.Text.Blank
import HebrewCorpus.Text.LowerCase

/-! # Overlays

An overlay divides a book a second time, across its own chapters: into weekly portions, say, or the
pages of a printed edition. It is a forest of nodes, each of which cites the places where it and its
parts begin.

* **`OverlayItem`**: what one node says of itself; **`OverlayNode`** adds the nodes below it.
* **`Overlay`**: the named forest.
* **`Ascending`**, **`ascending`**: distinct numbers in ascending order, and the ones of a list. -/

namespace HebrewCorpus

/-- A number put among distinct numbers in ascending order. -/
def insertAscending (n : Int) : List Int → List Int
  | [] => [n]
  | m :: ms =>
    if n < m then n :: m :: ms else if n = m then m :: ms else m :: insertAscending n ms

/-- The numbers put together are those of the list and the new one. -/
@[simp] theorem mem_insertAscending {n k : Int} {ns : List Int} :
    k ∈ insertAscending n ns ↔ k = n ∨ k ∈ ns := by
  induction ns with
  | nil => simp [insertAscending]
  | cons m ms ih =>
    unfold insertAscending
    split
    · simp
    · split
      · next h => subst h; simp
      · simp [ih, or_left_comm]

/-- A number put among ascending ones leaves them ascending. -/
theorem pairwise_insertAscending (n : Int) {ns : List Int} (h : ns.Pairwise (· < ·)) :
    (insertAscending n ns).Pairwise (· < ·) := by
  induction ns with
  | nil => exact List.pairwise_singleton _ _
  | cons m ms ih =>
    obtain ⟨hfirst, hrest⟩ := List.pairwise_cons.1 h
    unfold insertAscending
    split
    · next hlt =>
      refine List.pairwise_cons.2 ⟨?_, h⟩
      rw [List.forall_mem_cons]
      exact ⟨hlt, fun k hk => Int.lt_trans hlt (hfirst k hk)⟩
    · split
      · exact h
      · refine List.pairwise_cons.2 ⟨fun k hk => ?_, ih hrest⟩
        rcases mem_insertAscending.1 hk with rfl | hk
        · omega
        · exact hfirst k hk

/-- **Distinct numbers in ascending order.** -/
structure Ascending where
  numbers : List Int
  ascends : numbers.Pairwise (· < ·)
  deriving DecidableEq, Repr

/-- No numbers. -/
instance : EmptyCollection Ascending := ⟨⟨[], .nil⟩⟩

/-- **The numbers of a list in ascending order**, each once. -/
def ascending : List Int → Ascending
  | [] => ∅
  | n :: ns => ⟨_, pairwise_insertAscending n (ascending ns).ascends⟩

/-- Ordering numbers neither loses nor adds any. -/
@[simp] theorem mem_ascending {k : Int} {ns : List Int} : k ∈ (ascending ns).numbers ↔ k ∈ ns := by
  induction ns with
  | nil => rfl
  | cons n ns ih => rw [ascending, mem_insertAscending, ih, List.mem_cons]

/-- None of the numbers is there twice. -/
theorem Ascending.nodup (a : Ascending) : a.numbers.Nodup := a.ascends.imp Int.ne_of_lt

/-- **What a node of an overlay says of itself.** -/
structure OverlayItem where
  title : Option Text
  heTitle : Option Text
  /-- The citation of the whole range that the node covers. -/
  wholeRef : Option Text
  /-- The citations of the node's parts. -/
  refs : List Text
  addressTypes : List Text
  /-- What the parts are called. -/
  childLabel : Option Text
  /-- The addresses of the first parts. -/
  addresses : List Int
  /-- Addresses that no part has. -/
  skipped : Ascending
  /-- The address of the first part as a text. -/
  startingAddress : Option Text
  /-- The number before the address of the first part. -/
  offset : Option Int
  deriving DecidableEq, Repr

namespace OverlayItem

/-- The title shown for the node, the Hebrew one first. -/
def shownTitle? (i : OverlayItem) : Option Text :=
  [i.heTitle, i.title].findSome? fun t => t.filter (!Text.isBlank ·)

/-- Whether the node has a title. -/
def hasTitle (i : OverlayItem) : Bool := i.shownTitle?.isSome

/-- Whether the parts of the node are addressed by leaf and side. -/
def isDaf (i : OverlayItem) : Bool := i.addressTypes.any (Text.lower · = "talmud".toList)

/-- The citations that lead to the start of the node, the first choice first. -/
def citations (i : OverlayItem) : List Text :=
  (i.wholeRef.filter (!·.isEmpty)).toList ++ i.refs

/-- Whether the node cites any place itself. -/
def hasOwnRefs (i : OverlayItem) : Bool := !i.citations.isEmpty

end OverlayItem

/-- **A node of an overlay** with the nodes below it. -/
inductive OverlayNode
  | node (item : OverlayItem) (children : List OverlayNode)
  deriving Repr

namespace OverlayNode

/-- What the node says of itself. -/
def item : OverlayNode → OverlayItem
  | .node item _ => item

/-- The nodes below the node. -/
def children : OverlayNode → List OverlayNode
  | .node _ children => children

end OverlayNode

/-- **A named overlay of one book.** -/
structure Overlay where
  key : Text
  title : Option Text
  heTitle : Option Text
  nodes : List OverlayNode
  deriving Repr

end HebrewCorpus
