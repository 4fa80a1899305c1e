import HebrewCorpus.Proofs.Overlay.Drafting
import HebrewCorpus.Proofs.Overlay.Items

/-! # What a walk writes

The nodes of an overlay write on the sheet what they are placed as. No draft is ever looked up that is
not there, so a walk fails only where the placing fails, at an address without a value.

* **`Drafting.Follows`**: what is written is what is placed.
* **`Drafting.follows_walkNode`**, **`Drafting.follows_walkNodes`**: so it is for every node. -/

namespace HebrewCorpus

namespace Drafting

/-- **What is written is what is placed**: the sheet has grown by the branches, and they say whether
anything was placed; or both fail at the same address. -/
def Follows (s : Drafting) (level : Nat) (parent : Option Nat)
    (placed : Except NumeralFault (List Branch × Taken))
    (written : Except DraftFault (Bool × Drafting)) : Prop :=
  match placed with
  | .error fault => written = .error (.numeral fault)
  | .ok (bs, taken) => ∃ ns t, written = .ok (!bs.isEmpty, t) ∧ NumberedBranch.plains ns = bs ∧
      Grows s level parent ns taken t

variable {p : Placement} {item : OverlayItem} {s : Drafting} {level : Nat} {parent : Option Nat}
  {taken : Taken}

/-- Both fail at the same address. -/
theorem Follows.of_error {placed : Except NumeralFault (List Branch × Taken)}
    {written : Except DraftFault (Bool × Drafting)} (h : Follows s level parent placed written)
    {fault : NumeralFault} (hplaced : placed = .error fault) : written = .error (.numeral fault) := by
  rw [hplaced] at h
  exact h

/-- What is placed is written. -/
theorem Follows.of_ok {placed : Except NumeralFault (List Branch × Taken)}
    {written : Except DraftFault (Bool × Drafting)} (h : Follows s level parent placed written)
    {bs : List Branch} {taken' : Taken} (hplaced : placed = .ok (bs, taken')) :
    ∃ ns t, written = .ok (!bs.isEmpty, t) ∧ NumberedBranch.plains ns = bs ∧
      Grows s level parent ns taken' t := by
  rw [hplaced] at h
  exact h

/-- Whether one list or another has any items. -/
theorem not_isEmpty_append {α : Type} (as bs : List α) :
    (!(as ++ bs).isEmpty) = (!as.isEmpty || !bs.isEmpty) := by
  cases as <;> simp

/-- A value is kept when errors are renamed. -/
theorem mapError_ok {ε ε' α : Type} (f : ε → ε') (a : α) :
    (Except.ok a : Except ε α).mapError f = .ok a := rfl

/-! ### Parts -/

/-- **One part is written** where its line is not taken. -/
theorem grows_part (hs : s.Sound) (hp : s.sheet.Has parent) (htook : s.Took parent taken)
    (label : Text) (level : Nat) (target : LineTarget) :
    ∃ t, (s.claim parent target.line).add parent label level (some target) = .ok (s.next, t) ∧
      Grows s level parent [.branch s.next label target []] (target.line :: taken) t := by
  have hs' := hs.claim hp target.line
  have hnone : Grows ((s.claim parent target.line).added parent label level (some target)) (level + 1)
      (some s.next) [] [] _ := .refl hs'.took_added
  exact ⟨_, add_eq_ok hs' hp label level (some target),
    (hnone.placed hs' hp (htook.claim target.line)).of_claim⟩

/-- **The parts of a node are written as they are placed.** -/
theorem follows_addParts (hs : s.Sound) (hp : s.sheet.Has parent) (htook : s.Took parent taken)
    (k : Nat) (refs : List Text) :
    Follows s level parent (p.placeParts item k refs taken) (addParts p item level parent k refs s) := by
  induction refs generalizing k s taken with
  | nil => exact ⟨[], s, rfl, rfl, .refl htook⟩
  | cons ref refs ih =>
    rw [Placement.placeParts, addParts]
    cases htarget : p.target? item ref with
    | none => exact ih hs hp htook (k + 1)
    | some target =>
      dsimp only
      rw [claim?_eq htook]
      by_cases hline : taken.elem target.line = true
      · rw [if_pos hline, if_pos hline]
        exact ih hs hp htook (k + 1)
      · rw [if_neg hline, if_neg hline]
        cases haddress : item.addressAt k with
        | error fault => exact rfl
        | ok address =>
          -- the part is written, and the others follow on the sheet with it
          obtain ⟨t, hadd, hpart⟩ := grows_part hs hp htook (item.partLabel k address) level target
          have hrest := ih (hpart.sound hs hp) (hpart.has hp) hpart.took (k + 1)
          simp only [bind, Except.bind, pure, Except.pure, mapError_ok, hadd]
          cases hparts : p.placeParts item (k + 1) refs (target.line :: taken) with
          | error fault =>
            rw [hrest.of_error hparts]
            exact rfl
          | ok placed =>
            obtain ⟨ns, u, hwritten, hplain, hgrows⟩ := hrest.of_ok hparts
            rw [hwritten]
            refine ⟨_ :: ns, u, rfl, ?_, hpart.trans hgrows hs hp⟩
            rw [NumberedBranch.plains, hplain]
            rfl

/-- The parts of a placed node are written below it as they are placed. -/
theorem follows_addOwnParts (hs : s.Sound) {id : Nat} (hp : s.sheet.Has (some id))
    (htook : s.Took (some id) []) :
    Follows s level (some id) (p.ownParts item) (addOwnParts p item level id s) := by
  rw [Placement.ownParts, addOwnParts]
  cases p.suppressParts with
  | true => exact ⟨[], s, rfl, rfl, .refl htook⟩
  | false => exact follows_addParts hs hp htook 0 item.refs

/-! ### Steps -/

/-- **Neighbours are written one after the other.** -/
theorem Follows.append (hs : s.Sound) (hp : s.sheet.Has parent)
    {placed : Except NumeralFault (List Branch × Taken)}
    {written : Except DraftFault (Bool × Drafting)}
    (placeRest : Taken → Except NumeralFault (List Branch × Taken))
    (writeRest : Drafting → Except DraftFault (Bool × Drafting))
    (h : Follows s level parent placed written)
    (hrest : ∀ t taken, t.Sound → t.sheet.Has parent → t.Took parent taken →
      Follows t level parent (placeRest taken) (writeRest t)) :
    Follows s level parent
      (do
        let (bs, taken) ← placed
        let (cs, taken) ← placeRest taken
        return (bs ++ cs, taken))
      (do
        let (a, s) ← written
        let (b, s) ← writeRest s
        return (a || b, s)) := by
  cases hplaced : placed with
  | error fault =>
    rw [h.of_error hplaced]
    exact rfl
  | ok first =>
    obtain ⟨ns, t, hwritten, hplain, hgrows⟩ := h.of_ok hplaced
    have hrest := hrest t first.2 (hgrows.sound hs hp) (hgrows.has hp) hgrows.took
    simp only [hwritten, bind, Except.bind]
    cases hplaced' : placeRest first.2 with
    | error fault =>
      rw [hrest.of_error hplaced']
      exact rfl
    | ok rest =>
      obtain ⟨ms, u, hwritten', hplain', hgrows'⟩ := hrest.of_ok hplaced'
      simp only [hwritten', pure, Except.pure]
      refine ⟨ns ++ ms, u, ?_, ?_, hgrows.trans hgrows' hs hp⟩
      · rw [not_isEmpty_append]
      · rw [NumberedBranch.plains_append, hplain, hplain']

/-- **A placed node is written** with what is below it. -/
theorem Follows.placed (hs : s.Sound) (hp : s.sheet.Has parent) (htook : s.Took parent taken)
    {label : Text} {target : LineTarget} {placed : Except NumeralFault (List Branch × Taken)}
    {written : Except DraftFault (Bool × Drafting)}
    (h : Follows ((s.claim parent target.line).added parent label level (some target)) (level + 1)
      (some s.next) placed written) :
    Follows s level parent
      (placed.map fun (below, _) => ([.branch label target below], target.line :: taken))
      (written.map fun (_, t) => (true, t)) := by
  cases hplaced : placed with
  | error fault =>
    rw [h.of_error hplaced]
    exact rfl
  | ok inner =>
    obtain ⟨ns, t, hwritten, hplain, hgrows⟩ := h.of_ok hplaced
    have hgrows : Grows ((s.claim parent target.line).added parent label level (some target))
        (level + 1) (some (s.claim parent target.line).next) ns inner.2 t := hgrows
    rw [hwritten]
    refine ⟨_, t, rfl, ?_, (hgrows.placed (hs.claim hp target.line) hp
      (htook.claim target.line)).of_claim⟩
    rw [NumberedBranch.plains, NumberedBranch.plain, hplain]
    rfl

/-- **A node that groups others is written** before them, and closed behind them. -/
theorem Follows.grouped (hs : s.Sound) (hp : s.sheet.Has parent) (htook : s.Took parent taken)
    {label : Text} {placed : Except NumeralFault (List Branch × Taken)}
    {written : Except DraftFault (Bool × Drafting)}
    (h : Follows (s.added parent label level none) (level + 1) (some s.next) placed written) :
    Follows s level parent
      (placed.map fun (below, _) => (Branch.grouping label below, taken))
      (do
        let (any, t) ← written
        let sheet ← t.sheet.close s.next
        return (any, { t with sheet })) := by
  cases hplaced : placed with
  | error fault =>
    rw [h.of_error hplaced]
    exact rfl
  | ok inner =>
    obtain ⟨ns, t, hwritten, hplain, hgrows⟩ := h.of_ok hplaced
    obtain ⟨cs, sheet, hclose, hgrouping, hgrows⟩ := hgrows.closed hs hp htook
    have hempty : (Branch.grouping label inner.1).isEmpty = inner.1.isEmpty := by
      cases inner.1 <;> rfl
    simp only [hwritten, hclose, bind, Except.bind, pure, Except.pure]
    refine ⟨cs, _, ?_, hplain ▸ hgrouping, hgrows⟩
    rw [hempty]

/-! ### Nodes -/

variable {children : List OverlayNode} {position : Nat}

/-- The parts of an untitled node with pages are written in its own place. -/
theorem walkNode_of_parts (h : item.isDissolved = true) :
    walkNode p level parent position s (.node item children) = (do
      let (a, s) ← addParts p item level parent 0 item.refs s
      let (b, s) ← walkNodes p level parent 0 s children
      return (a || b, s)) := by
  rw [OverlayItem.isDissolved] at h
  have hrefs : item.refs ≠ [] := by
    intro hnone
    simp [hnone] at h
  have hown : ¬(!item.hasOwnRefs) = true := by
    simp [OverlayItem.hasOwnRefs, OverlayItem.citations, hrefs]
  rw [walkNode, openNode, if_neg hown, if_pos h]
  cases addParts p item level parent 0 item.refs s with
  | error fault => rfl
  | ok any =>
    simp only [bind, Except.bind, pure, Except.pure, if_pos]
    cases walkNodes p level parent 0 any.2 children <;> rfl

/-- **A node without a line that is not taken** only groups the nodes below it. -/
theorem walkNode_of_unplaced (h : ¬item.isDissolved = true) (hs : s.Sound)
    (hp : s.sheet.Has parent) (htook : s.Took parent taken)
    (hnone : (p.nodeTarget? item).filter (fun t => !taken.elem t.line) = none) :
    walkNode p level parent position s (.node item children) =
      if children.isEmpty then .ok (false, s)
      else do
        let (any, t) ← walkNodes p (level + 1) (some s.next) 0
          (s.added parent (item.groupLabel position) level none) children
        let sheet ← t.sheet.close s.next
        return (any, { t with sheet }) := by
  have hopen : openNode p item (!children.isEmpty) level parent position s =
      if !children.isEmpty then openGroup item level parent position s
      else .ok (⟨none, parent, false⟩, s) := by
    rw [openNode, ← OverlayItem.isDissolved]
    by_cases hown : item.hasOwnRefs = true
    · -- the node cites something, but it leads nowhere, or to a line that is taken
      have hplaced : addPlaced p item level parent position s = .ok (none, s) := by
        rw [addPlaced]
        cases htarget : p.nodeTarget? item with
        | none => rfl
        | some target =>
          rw [htarget] at hnone
          have hline : taken.elem target.line = true := by simpa using hnone
          dsimp only
          rw [claim?_eq htook, if_pos hline]
      rw [if_neg (by simp [hown]), if_neg h, hplaced]
      cases children.isEmpty <;> rfl
    · rw [if_pos (by simp [hown])]
  have hself : some s.next ≠ parent := by
    intro heq
    have hlt := hs.parent_lt hp heq.symm
    omega
  rw [walkNode, hopen]
  cases children with
  | nil => rfl
  | cons child children =>
    simp only [List.isEmpty_cons, Bool.not_false, if_true, openGroup, Except.map, bind, Except.bind,
      add_eq_ok hs hp (item.groupLabel position) level none, if_neg hself, Bool.false_eq_true,
      if_false]
    cases walkNodes p (level + 1) (some s.next) 0
      (s.added parent (item.groupLabel position) level none) (child :: children) with
    | error fault => rfl
    | ok any =>
      simp only [closeNode]
      cases any.2.sheet.close s.next <;> rfl

/-- **A node with a line that is not taken** is written, and below it its parts and the nodes below
it. -/
theorem walkNode_of_placed (h : ¬item.isDissolved = true) (hs : s.Sound)
    (hp : s.sheet.Has parent) (htook : s.Took parent taken) {target : LineTarget}
    (hsome : (p.nodeTarget? item).filter (fun t => !taken.elem t.line) = some target) :
    walkNode p level parent position s (.node item children) =
      ((item.nodeLabel position).mapError .numeral).bind fun label =>
        (do
          let t := (s.claim parent target.line).added parent label level (some target)
          let (a, t) ← addOwnParts p item (level + 1) s.next t
          let (b, t) ← walkNodes p (level + 1) (some s.next) 0 t children
          return (a || b, t) : Except DraftFault (Bool × Drafting)).map fun (_, t) => (true, t) := by
  obtain ⟨htarget, hline⟩ := Option.filter_eq_some_iff.1 hsome
  have hown : ¬(!item.hasOwnRefs) = true := by
    rw [OverlayItem.hasOwnRefs]
    cases hcitations : item.citations with
    | nil => simp [Placement.nodeTarget?, hcitations] at htarget
    | cons c cs => exact Bool.false_ne_true
  have hfree : ¬taken.elem target.line = true := by simpa using hline
  have hself : some s.next ≠ parent := by
    intro heq
    have hlt := hs.parent_lt hp heq.symm
    omega
  rw [walkNode, openNode, if_neg hown, ← OverlayItem.isDissolved, if_neg h, addPlaced, htarget]
  dsimp only
  rw [claim?_eq htook, if_neg hfree]
  cases item.nodeLabel position with
  | error fault => rfl
  | ok label =>
    have hadd := add_eq_ok (hs.claim hp target.line) hp label level (some target)
    simp only [bind, Except.bind, pure, Except.pure, mapError_ok, hadd, next_claim]
    cases addOwnParts p item (level + 1) s.next
      ((s.claim parent target.line).added parent label level (some target)) with
    | error fault => rfl
    | ok any =>
      cases children with
      | nil => rfl
      | cons child children =>
        simp only [List.isEmpty_cons, Bool.not_false, if_true, if_neg hself, closeNode]
        cases walkNodes p (level + 1) (some s.next) 0 any.2 (child :: children) <;> rfl

/-! ### Overlays -/

mutual

/-- **A node writes what it is placed as.** -/
theorem follows_walkNode {s : Drafting} {parent : Option Nat} {taken : Taken} (hs : s.Sound)
    (hp : s.sheet.Has parent) (htook : s.Took parent taken) (level position : Nat) :
    (node : OverlayNode) → Follows s level parent (p.placeNode position taken node)
      (walkNode p level parent position s node)
  | .node item children => by
    rw [Placement.placeNode, ← OverlayItem.isDissolved]
    by_cases hparts : item.isDissolved = true
    · -- the parts and the nodes below become neighbours
      rw [if_pos hparts, walkNode_of_parts hparts]
      exact (follows_addParts hs hp htook 0 item.refs).append hs hp (p.placeNodes 0 · children)
        (walkNodes p level parent 0 · children)
        fun t taken ht hp htook => follows_walkNodes ht hp htook level 0 children
    · rw [if_neg hparts]
      cases hplace : (p.nodeTarget? item).filter (fun t => !taken.elem t.line) with
      | none =>
        rw [walkNode_of_unplaced hparts hs hp htook hplace]
        have hbelow : Follows (s.added parent (item.groupLabel position) level none) (level + 1)
            (some s.next) (p.placeNodes 0 [] children) _ :=
          follows_walkNodes (hs.added hp) has_added hs.took_added (level + 1) 0 children
        have hgroup := hbelow.grouped hs hp htook
        cases children with
        | nil => exact ⟨[], s, rfl, rfl, .refl htook⟩
        | cons child children =>
          rw [List.isEmpty_cons, if_neg Bool.false_ne_true]
          cases hplaced : p.placeNodes 0 [] (child :: children) <;> rw [hplaced] at hgroup <;>
            exact hgroup
      | some target =>
        rw [walkNode_of_placed hparts hs hp htook hplace]
        cases item.nodeLabel position with
        | error fault => exact rfl
        | ok label =>
          -- below the node, lines are taken afresh, by its parts first
          have hs' := hs.claim hp target.line
          have hsound : ((s.claim parent target.line).added parent label level (some target)).Sound :=
            hs'.added hp
          have hparts : Follows _ (level + 1) (some s.next) (p.ownParts item)
              (addOwnParts p item (level + 1) s.next _) :=
            follows_addOwnParts hsound has_added hs'.took_added
          have hbranch := (hparts.append hsound has_added (p.placeNodes 0 · children)
            (walkNodes p (level + 1) (some s.next) 0 · children)
            fun t taken ht hp htook => follows_walkNodes ht hp htook (level + 1) 0 children).placed
              hs hp htook
          cases hplaced : p.ownParts item with
          | error fault =>
            rw [hplaced] at hbranch
            exact hbranch
          | ok parts =>
            rw [hplaced] at hbranch
            cases hplaced' : p.placeNodes 0 parts.2 children <;>
              simp only [bind, Except.bind, hplaced'] at hbranch ⊢ <;> exact hbranch

/-- **Neighbours write what they are placed as.** -/
theorem follows_walkNodes {s : Drafting} {parent : Option Nat} {taken : Taken} (hs : s.Sound)
    (hp : s.sheet.Has parent) (htook : s.Took parent taken) (level position : Nat) :
    (nodes : List OverlayNode) → Follows s level parent (p.placeNodes position taken nodes)
      (walkNodes p level parent position s nodes)
  | [] => ⟨[], s, rfl, rfl, .refl htook⟩
  | node :: nodes => by
    rw [Placement.placeNodes, walkNodes]
    exact (follows_walkNode hs hp htook level position node).append hs hp
      (p.placeNodes (position + 1) · nodes) (walkNodes p level parent (position + 1) · nodes)
      fun t taken ht hp htook => follows_walkNodes ht hp htook level (position + 1) nodes

end

end Drafting

end HebrewCorpus
