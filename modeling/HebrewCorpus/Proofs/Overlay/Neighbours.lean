import HebrewCorpus.Proofs.Book.Flat
import HebrewCorpus.Proofs.Overlay.Preorder

/-! # Lines of neighbours

A node is placed at a line that no neighbour in front of it has taken, and so is a part; only a node
that groups others may share its line with a neighbour, and it always has something below it. So of
neighbours with nothing below them no two stand at one line.

* **`Branch.Apart`**: branches of which this holds at every depth.
* **`Branch.Takes`**: what a list of branches takes of the lines that are left; `Takes.append` puts
  neighbours side by side.
* **`Placement.takes_placeNodes`**: placed nodes take lines that are free.
* **`pairwise_line_ne_entriesBelow`**: the entries of branches that are apart. -/

namespace HebrewCorpus

namespace Branch

/-- The branches right below a branch. -/
def children : Branch → List Branch
  | .branch _ _ below => below

@[simp] theorem children_branch (text : Text) (target : LineTarget) (below : List Branch) :
    (Branch.branch text target below).children = below := rfl

@[simp] theorem target_branch (text : Text) (target : LineTarget) (below : List Branch) :
    (Branch.branch text target below).target = target := rfl

/-- A branch with nothing below it. -/
def isLeaf (b : Branch) : Bool := b.children.isEmpty

/-- The lines of those neighbours that have nothing below them. -/
def leafLines (bs : List Branch) : List Int := (bs.filter isLeaf).map (·.target.line)

@[simp] theorem leafLines_nil : leafLines [] = [] := rfl

@[simp] theorem leafLines_append (bs cs : List Branch) :
    leafLines (bs ++ cs) = leafLines bs ++ leafLines cs := by
  simp [leafLines]

/-- A branch stands at its line when nothing is below it. -/
theorem leafLines_cons (text : Text) (target : LineTarget) (below bs : List Branch) :
    leafLines (.branch text target below :: bs) =
      (if below.isEmpty then [target.line] else []) ++ leafLines bs := by
  cases below <;> simp [leafLines, isLeaf, List.filter_cons]

/-- **Neighbours with nothing below them stand at different lines**, at every depth. -/
inductive Apart : List Branch → Prop
  | intro {bs : List Branch} (distinct : (leafLines bs).Nodup)
      (deeper : ∀ b ∈ bs, Apart b.children) : Apart bs

/-- **What neighbours take of the lines that are left**: those with nothing below them stand at
different lines, which were free before and are taken after them. -/
structure Takes (taken : Taken) (bs : List Branch) (taken' : Taken) : Prop where
  distinct : (leafLines bs).Nodup
  free : ∀ l ∈ leafLines bs, l ∉ taken
  kept : ∀ l ∈ taken, l ∈ taken'
  took : ∀ l ∈ leafLines bs, l ∈ taken'
  deeper : ∀ b ∈ bs, Apart b.children

namespace Takes

variable {taken taken' taken'' : Taken} {bs cs below : List Branch} {text : Text}
  {target : LineTarget}

/-- No branches take nothing. -/
theorem nil (taken : Taken) : Takes taken [] taken := by
  constructor <;> simp

/-- Such neighbours are apart. -/
theorem apart (h : Takes taken bs taken') : Apart bs := .intro h.distinct h.deeper

/-- **Neighbours take their lines one after the other.** -/
theorem append (h : Takes taken bs taken') (h' : Takes taken' cs taken'') :
    Takes taken (bs ++ cs) taken'' where
  distinct := by
    rw [leafLines_append]
    refine List.nodup_append.2 ⟨h.distinct, h'.distinct, ?_⟩
    -- what the first ones took is not free for the others
    rintro l hl _ hl' rfl
    exact h'.free l hl' (h.took l hl)
  free := by
    intro l hl
    rw [leafLines_append, List.mem_append] at hl
    rcases hl with hl | hl
    · exact h.free l hl
    · exact fun htaken => h'.free l hl (h.kept l htaken)
  kept := fun l hl => h'.kept l (h.kept l hl)
  took := by
    intro l hl
    rw [leafLines_append, List.mem_append] at hl
    rcases hl with hl | hl
    · exact h'.kept l (h.took l hl)
    · exact h'.took l hl
  deeper := by
    rw [List.forall_mem_append]
    exact ⟨h.deeper, h'.deeper⟩

/-- **A branch at a line that is free**, whatever is below it. -/
theorem singleton (hfree : target.line ∉ taken) (hbelow : Apart below) (text : Text) :
    Takes taken [.branch text target below] (target.line :: taken) := by
  have hline : ∀ l ∈ leafLines [.branch text target below], l = target.line := by
    intro l hl
    rw [leafLines_cons] at hl
    cases below <;> simp_all
  refine ⟨?_, fun l hl => hline l hl ▸ hfree, fun l hl => List.mem_cons_of_mem _ hl,
    fun l hl => hline l hl ▸ List.mem_cons_self, ?_⟩
  · rw [leafLines_cons]
    cases below <;> simp
  · simpa using hbelow

/-- A branch that groups others takes no line. -/
theorem grouping (hbelow : Apart below) (taken : Taken) (text : Text) :
    Takes taken (Branch.grouping text below) taken := by
  cases below with
  | nil => exact nil taken
  | cons first rest =>
    have hnone : leafLines (Branch.grouping text (first :: rest)) = [] := by
      simp [Branch.grouping, leafLines_cons]
    refine ⟨by simp [hnone], by simp [hnone], fun l hl => hl, by simp [hnone], ?_⟩
    simpa [Branch.grouping] using hbelow

end Takes

end Branch

open Branch

/-! ### Placed nodes -/

namespace Placement

variable {p : Placement}

/-- The parts of a node are placed at lines that are free. -/
theorem takes_placeParts {item : OverlayItem} {k : Nat} {refs : List Text} {taken taken' : Taken}
    {branches : List Branch} (h : p.placeParts item k refs taken = .ok (branches, taken')) :
    Takes taken branches taken' := by
  induction refs generalizing k taken branches with
  | nil =>
    cases h
    exact .nil _
  | cons ref refs ih =>
    rw [placeParts] at h
    split at h
    · exact ih h
    · next target _ =>
      split at h
      · exact ih h
      · next hfree =>
        obtain ⟨value, -, h⟩ := exists_of_bind_eq_ok h
        obtain ⟨⟨parts, rest⟩, hparts, h⟩ := exists_of_bind_eq_ok h
        cases h
        have hpart : Takes taken [.branch (item.partLabel k value) target []]
            (target.line :: taken) :=
          .singleton (by simpa using hfree) (Takes.nil []).apart _
        exact hpart.append (ih hparts)

/-- The parts under a node are placed at different lines. -/
theorem takes_ownParts {item : OverlayItem} {taken : Taken} {branches : List Branch}
    (h : p.ownParts item = .ok (branches, taken)) : Takes [] branches taken := by
  rw [ownParts] at h
  split at h
  · cases h
    exact .nil []
  · exact takes_placeParts h

mutual

/-- **A node is placed at a line that is free**, or groups others. -/
theorem takes_placeNode {position : Nat} {taken taken' : Taken} {branches : List Branch} :
    (node : OverlayNode) → p.placeNode position taken node = .ok (branches, taken') →
      Takes taken branches taken'
  | .node item children, h => by
    rw [placeNode] at h
    split at h
    · obtain ⟨⟨parts, inner⟩, hparts, h⟩ := exists_of_bind_eq_ok h
      obtain ⟨⟨below, outer⟩, hbelow, h⟩ := exists_of_bind_eq_ok h
      cases h
      exact (takes_placeParts hparts).append (takes_placeNodes children hbelow)
    · split at h
      · next target htarget =>
        obtain ⟨label, -, h⟩ := exists_of_bind_eq_ok h
        obtain ⟨⟨parts, inner⟩, hparts, h⟩ := exists_of_bind_eq_ok h
        obtain ⟨⟨below, outer⟩, hbelow, h⟩ := exists_of_bind_eq_ok h
        cases h
        have hfree : target.line ∉ taken := by
          simpa using (Option.filter_eq_some_iff.1 htarget).2
        -- the parts and the nodes below share the lines that are taken afresh
        have hbelow := (takes_ownParts hparts).append (takes_placeNodes children hbelow)
        exact .singleton hfree hbelow.apart label
      · obtain ⟨⟨below, outer⟩, hbelow, h⟩ := exists_of_bind_eq_ok h
        cases h
        exact .grouping (takes_placeNodes children hbelow).apart taken _

/-- **Neighbours are placed at lines that are free**, or group others. -/
theorem takes_placeNodes {position : Nat} {taken taken' : Taken} {branches : List Branch} :
    (nodes : List OverlayNode) → p.placeNodes position taken nodes = .ok (branches, taken') →
      Takes taken branches taken'
  | [], h => by
    cases h
    exact .nil taken
  | node :: nodes, h => by
    rw [placeNodes] at h
    obtain ⟨⟨first, inner⟩, hfirst, h⟩ := exists_of_bind_eq_ok h
    obtain ⟨⟨rest, outer⟩, hrest, h⟩ := exists_of_bind_eq_ok h
    cases h
    exact (takes_placeNode node hfirst).append (takes_placeNodes nodes hrest)

end

end Placement

/-! ### Entries -/

/-- **Two entries that are apart**: if they have one parent and nothing is below them, they stand at
different lines. -/
def OverlayEntry.ApartFrom (e f : OverlayEntry) : Prop :=
  e.parent = f.parent → e.hasChildren = false → f.hasChildren = false → e.line ≠ f.line

/-- Entries are apart from one another. -/
instance : Std.Symm OverlayEntry.ApartFrom :=
  ⟨fun _ _ h hparent he hf => (h hparent.symm hf he).symm⟩

section Entries

variable {level : Nat} {parent : Option Int} {id : Int}

/-- The entries of neighbours begin with that of the first one and those below it. -/
theorem entriesBelow_cons (level : Nat) (parent : Option Int) (id : Int) (text : Text)
    (target : LineTarget) (below bs : List Branch) :
    entriesBelow level parent id (.branch text target below :: bs) =
      ⟨id, 0, parent, text, level, some target.line, some target.index, !below.isEmpty,
          bs.isEmpty⟩ ::
        (entriesBelow (level + 1) (some id) (id + 1) below ++
          entriesBelow level parent (id + (Branch.sizes below + 1 : Nat)) bs) := by
  simp [entriesBelow, entriesOf, Branch.size]

/-- An entry right below the parent of all, with nothing below it, stands at the line of a leaf. -/
theorem line_mem_leafLines_of_mem (hparent : ∀ q, parent = some q → q < id) {bs : List Branch}
    {e : OverlayEntry} (he : e ∈ entriesBelow level parent id bs) (hroot : e.parent = parent)
    (hleaf : e.hasChildren = false) : ∃ l ∈ leafLines bs, e.line = some l := by
  induction bs generalizing id with
  | nil => cases he
  | cons b bs ih =>
    obtain ⟨text, target, below⟩ := b
    rw [entriesBelow_cons, List.mem_cons, List.mem_append] at he
    rw [leafLines_cons]
    rcases he with rfl | he | he
    · exact ⟨target.line, by simp_all, rfl⟩
    · -- what is below the branch has it or a later entry as its parent
      exfalso
      rcases parent_of_mem_entriesBelow _ _ _ below e he with hq | ⟨q, hq, hle, -⟩
      · have := hparent id (hroot ▸ hq)
        omega
      · have := hparent q (hroot ▸ hq)
        omega
    · obtain ⟨l, hl, hline⟩ := ih (fun q hq => by have := hparent q hq; omega) he
      exact ⟨l, List.mem_append_right _ hl, hline⟩

/-- **The entries of branches that are apart are apart.** -/
theorem pairwise_line_ne_entriesBelow (level : Nat) (parent : Option Int) (id : Int)
    (hparent : ∀ q, parent = some q → q < id) :
    (bs : List Branch) → Apart bs →
      (entriesBelow level parent id bs).Pairwise OverlayEntry.ApartFrom
  | [], _ => .nil
  | .branch text target below :: bs, .intro distinct deeper => by
    have hself : ∀ q, some id = some q → q < id + 1 := by
      intro q hq
      cases hq
      omega
    have hrest : ∀ q, parent = some q → q < id + (Branch.sizes below + 1 : Nat) := by
      intro q hq
      have := hparent q hq
      omega
    rw [leafLines_cons, List.nodup_append] at distinct
    have hbelow := pairwise_line_ne_entriesBelow (level + 1) (some id) (id + 1) hself below
      (deeper _ List.mem_cons_self)
    have hothers := pairwise_line_ne_entriesBelow level parent _ hrest bs
      (.intro distinct.2.1 fun b hb => deeper b (List.mem_cons_of_mem _ hb))
    -- the parent of an entry below the first branch is that branch, or below it
    have inside : ∀ e ∈ entriesBelow (level + 1) (some id) (id + 1) below,
        ∃ q, e.parent = some q ∧ id ≤ q ∧ q < id + (Branch.sizes below + 1 : Nat) := by
      intro e he
      have hid := id_of_mem_entriesBelow he
      rcases parent_of_mem_entriesBelow _ _ _ below e he with hq | ⟨q, hq, hle, hlt⟩
      · exact ⟨id, hq, by omega, by omega⟩
      · exact ⟨q, hq, by omega, by omega⟩
    rw [entriesBelow_cons, List.pairwise_cons, List.pairwise_append]
    refine ⟨?_, hbelow, hothers, ?_⟩
    · intro f hf
      rcases List.mem_append.1 hf with hf | hf
      · obtain ⟨q, hq, hle, -⟩ := inside f hf
        intro hshare
        have := hparent q (hshare.trans hq)
        omega
      · intro hshare hleaf hleaf'
        obtain ⟨l, hl, hline⟩ := line_mem_leafLines_of_mem hrest hf hshare.symm hleaf'
        have hempty : below.isEmpty = true := by simpa using hleaf
        have hne := distinct.2.2 target.line (by simp [hempty]) l hl
        simpa [hline] using hne
    · intro e he f hf hshare
      obtain ⟨q, hq, hle, hlt⟩ := inside e he
      have := parent_outside_of_mem hparent hf (hshare.symm.trans hq)
      omega
termination_by bs => Branch.sizes bs
decreasing_by
  all_goals
    simp only [Branch.sizes, Branch.size]
    omega

end Entries

end HebrewCorpus
