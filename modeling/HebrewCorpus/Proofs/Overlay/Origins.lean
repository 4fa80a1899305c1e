import HebrewCorpus.Proofs.Overlay.Items
import HebrewCorpus.Proofs.Overlay.Neighbours
import Mathlib.Data.List.Forall2
import Mathlib.Data.List.Pairwise

/-! # What entries stand for

An entry of an overlay stands for a part of a node, for a node with a line of its own, or for a node
that only groups others. A node groups others when it cites nothing that leads to a line, or when a
neighbour in front of it has taken that line; it then stands where the first node below it does.

* **`Origin`**, **`Placement.origins`**: what the entries of some nodes stand for, in their order.
* **`Placement.Traces`**: how branches come from origins; `traces_placeNodes` finds those of placed
  nodes.
* **`Origin.Explains`**: what an origin says of its entry among all entries.
* **`OverlayTree.PlacedApart`**: a tree whose entries are all explained, with no two siblings at one
  line that have nothing below them; `placedApart_build` is what holds of every overlay. -/

namespace HebrewCorpus

/-- **What an entry of an overlay stands for.** -/
inductive Origin
  /-- Part `k` of a node, at the line that its citation leads to. -/
  | part (item : OverlayItem) (k : Nat) (target : LineTarget)
  /-- A node at a place among its siblings, at the line that its citations lead to. -/
  | own (item : OverlayItem) (position : Nat) (target : LineTarget)
  /-- A node at a place among its siblings that only groups others. -/
  | group (item : OverlayItem) (position : Nat)

namespace Placement

/-! ### Origins -/

/-- What the parts of a node, from part `k` on, stand for, and the lines taken after them. -/
def partOrigins (p : Placement) (item : OverlayItem) : (k : Nat) → (refs : List Text) → Taken →
    List Origin × Taken
  | _, [], taken => ([], taken)
  | k, ref :: refs, taken =>
    match (p.target? item ref).filter fun t => !taken.elem t.line with
    | none => partOrigins p item (k + 1) refs taken
    | some target =>
      let (parts, taken) := partOrigins p item (k + 1) refs (target.line :: taken)
      (.part item k target :: parts, taken)

/-- What the parts under a node stand for. -/
def ownPartOrigins (p : Placement) (item : OverlayItem) : List Origin × Taken :=
  if p.suppressParts then ([], []) else p.partOrigins item 0 item.refs []

mutual

/-- **What the entries of a node stand for**, and the lines taken after it. A node whose line is
taken groups others, like a node without a line. -/
def nodeOrigins (p : Placement) (position : Nat) (taken : Taken) :
    OverlayNode → List Origin × Taken
  | .node item children =>
    if item.isDissolved then
      let (parts, taken) := p.partOrigins item 0 item.refs taken
      let (below, taken) := origins p 0 taken children
      (parts ++ below, taken)
    else
      match (p.nodeTarget? item).filter fun t => !taken.elem t.line with
      | some target =>
        let (parts, inner) := p.ownPartOrigins item
        (.own item position target :: (parts ++ (origins p 0 inner children).1),
          target.line :: taken)
      | none =>
        let below := (origins p 0 [] children).1
        (if below.isEmpty then [] else .group item position :: below, taken)

/-- **What the entries of neighbours stand for**, the first of which stands at the given place among
its siblings. -/
def origins (p : Placement) (position : Nat) (taken : Taken) :
    List OverlayNode → List Origin × Taken
  | [] => ([], taken)
  | node :: nodes =>
    let (first, taken) := nodeOrigins p position taken node
    let (rest, taken) := origins p (position + 1) taken nodes
    (first ++ rest, taken)

end

/-- **How branches come from origins**, where some lines are taken before and after them. Below a
branch, lines are taken afresh. -/
inductive Traces (p : Placement) : Taken → List Origin → List Branch → Taken → Prop
  | nil {taken : Taken} : Traces p taken [] [] taken
  | part {taken taken' : Taken} {item : OverlayItem} {k : Nat} {value : Option Int}
      {target : LineTarget} {os : List Origin} {bs : List Branch}
      (address : item.addressAt k = .ok value)
      (rest : Traces p (target.line :: taken) os bs taken') :
      Traces p taken (.part item k target :: os)
        (.branch (item.partLabel k value) target [] :: bs) taken'
  | own {taken inner taken' : Taken} {item : OverlayItem} {position : Nat} {label : Text}
      {target : LineTarget} {os os' : List Origin} {below bs : List Branch}
      (here : p.nodeTarget? item = some target) (labelled : item.nodeLabel position = .ok label)
      (deeper : Traces p [] os below inner)
      (rest : Traces p (target.line :: taken) os' bs taken') :
      Traces p taken (.own item position target :: (os ++ os'))
        (.branch label target below :: bs) taken'
  | group {taken inner taken' : Taken} {item : OverlayItem} {position : Nat} {first : Branch}
      {os os' : List Origin} {others bs : List Branch}
      (lacks : ∀ t, p.nodeTarget? item = some t → t.line ∈ taken)
      (deeper : Traces p [] os (first :: others) inner) (rest : Traces p taken os' bs taken') :
      Traces p taken (.group item position :: (os ++ os'))
        (.branch (item.groupLabel position) first.target (first :: others) :: bs) taken'

variable {p : Placement}

/-- **Neighbours come from their origins one after the other.** -/
theorem Traces.append {taken taken' taken'' : Taken} {os os' : List Origin} {bs cs : List Branch}
    (h : Traces p taken os bs taken') (h' : Traces p taken' os' cs taken'') :
    Traces p taken (os ++ os') (bs ++ cs) taken'' := by
  induction h with
  | nil => exact h'
  | part address _ ih => exact .part address (ih h')
  | own here labelled deeper _ _ ih =>
    rw [List.cons_append, List.append_assoc]
    exact .own here labelled deeper (ih h')
  | group lacks deeper _ _ ih =>
    rw [List.cons_append, List.append_assoc]
    exact .group lacks deeper (ih h')

/-- There are branches exactly when there are origins. -/
theorem Traces.eq_nil_iff {taken taken' : Taken} {os : List Origin} {bs : List Branch}
    (h : Traces p taken os bs taken') : os = [] ↔ bs = [] := by
  cases h <;> simp

/-- The parts of a node come from their origins. -/
theorem traces_placeParts {item : OverlayItem} {k : Nat} {refs : List Text} {taken taken' : Taken}
    {branches : List Branch} (h : p.placeParts item k refs taken = .ok (branches, taken')) :
    ∃ os, p.partOrigins item k refs taken = (os, taken') ∧ Traces p taken os branches taken' := by
  induction refs generalizing k taken branches with
  | nil =>
    cases h
    exact ⟨[], rfl, .nil⟩
  | cons ref refs ih =>
    rw [placeParts] at h
    rw [partOrigins]
    cases htarget : p.target? item ref with
    | none =>
      rw [htarget] at h
      exact ih h
    | some target =>
      rw [htarget] at h
      dsimp only at h
      by_cases hline : taken.elem target.line = true
      · rw [if_pos hline] at h
        rw [Option.filter_some_neg (by simpa using hline)]
        exact ih h
      · rw [if_neg hline] at h
        rw [Option.filter_some_pos (by simpa using hline)]
        obtain ⟨value, hvalue, h⟩ := exists_of_bind_eq_ok h
        obtain ⟨⟨parts, rest⟩, hparts, h⟩ := exists_of_bind_eq_ok h
        cases h
        obtain ⟨os, hos, htraces⟩ := ih hparts
        exact ⟨_, by simp only [hos], .part hvalue htraces⟩

/-- The parts under a node come from their origins. -/
theorem traces_ownParts {item : OverlayItem} {taken : Taken} {branches : List Branch}
    (h : p.ownParts item = .ok (branches, taken)) :
    ∃ os, p.ownPartOrigins item = (os, taken) ∧ Traces p [] os branches taken := by
  rw [ownParts] at h
  rw [ownPartOrigins]
  split at h
  · next hsuppress =>
    cases h
    exact ⟨[], if_pos hsuppress, .nil⟩
  · next hsuppress =>
    rw [if_neg hsuppress]
    exact traces_placeParts h

mutual

/-- The branches of a node come from its origins. -/
theorem traces_placeNode {position : Nat} {taken taken' : Taken} {branches : List Branch} :
    (node : OverlayNode) → p.placeNode position taken node = .ok (branches, taken') →
      ∃ os, p.nodeOrigins position taken node = (os, taken') ∧ Traces p taken os branches taken'
  | .node item children, h => by
    rw [placeNode, ← OverlayItem.isDissolved] at h
    rw [nodeOrigins]
    by_cases hdissolved : item.isDissolved = true
    · rw [if_pos hdissolved] at h ⊢
      obtain ⟨⟨parts, inner⟩, hparts, h⟩ := exists_of_bind_eq_ok h
      obtain ⟨⟨below, outer⟩, hbelow, h⟩ := exists_of_bind_eq_ok h
      cases h
      obtain ⟨os, hos, hparts⟩ := traces_placeParts hparts
      obtain ⟨os', hos', hbelow⟩ := traces_placeNodes children hbelow
      exact ⟨os ++ os', by simp only [hos, hos'], hparts.append hbelow⟩
    · rw [if_neg hdissolved] at h ⊢
      cases htarget : (p.nodeTarget? item).filter fun t => !taken.elem t.line with
      | some target =>
        rw [htarget] at h
        obtain ⟨label, hlabel, h⟩ := exists_of_bind_eq_ok h
        obtain ⟨⟨parts, inner⟩, hparts, h⟩ := exists_of_bind_eq_ok h
        obtain ⟨⟨below, outer⟩, hbelow, h⟩ := exists_of_bind_eq_ok h
        cases h
        obtain ⟨os, hos, hparts⟩ := traces_ownParts hparts
        obtain ⟨os', hos', hbelow⟩ := traces_placeNodes children hbelow
        refine ⟨.own item position target :: (os ++ os' ++ []), ?_,
          .own (Option.filter_eq_some_iff.1 htarget).1 hlabel (hparts.append hbelow) .nil⟩
        simp only [hos, hos', List.append_nil]
      | none =>
        rw [htarget] at h
        obtain ⟨⟨below, outer⟩, hbelow, h⟩ := exists_of_bind_eq_ok h
        cases h
        obtain ⟨os, hos, hbelow⟩ := traces_placeNodes children hbelow
        have lacks : ∀ t, p.nodeTarget? item = some t → t.line ∈ taken := by
          intro t ht
          simpa [ht] using htarget
        simp only [hos]
        cases below with
        | nil => exact ⟨[], by simp [hbelow.eq_nil_iff], .nil⟩
        | cons first others =>
          have hne : os ≠ [] := fun hnil => by simpa using hbelow.eq_nil_iff.1 hnil
          refine ⟨.group item position :: (os ++ []), ?_, .group lacks hbelow .nil⟩
          simp [hne]

/-- **The branches of neighbours come from their origins.** -/
theorem traces_placeNodes {position : Nat} {taken taken' : Taken} {branches : List Branch} :
    (nodes : List OverlayNode) → p.placeNodes position taken nodes = .ok (branches, taken') →
      ∃ os, p.origins position taken nodes = (os, taken') ∧ Traces p taken os branches taken'
  | [], h => by
    cases h
    exact ⟨[], rfl, .nil⟩
  | node :: nodes, h => by
    rw [placeNodes] at h
    obtain ⟨⟨first, inner⟩, hfirst, h⟩ := exists_of_bind_eq_ok h
    obtain ⟨⟨rest, outer⟩, hrest, h⟩ := exists_of_bind_eq_ok h
    cases h
    obtain ⟨os, hos, hfirst⟩ := traces_placeNode node hfirst
    obtain ⟨os', hos', hrest⟩ := traces_placeNodes nodes hrest
    exact ⟨os ++ os', by simp only [origins, hos, hos'], hfirst.append hrest⟩

end

end Placement

/-! ### Entries -/

/-- **The first entry below another one.** -/
structure OverlayEntry.FirstBelow (e : OverlayEntry) (es : List OverlayEntry) (f : OverlayEntry) :
    Prop where
  mem : f ∈ es
  parent_eq : f.parent = some e.id
  le : ∀ g ∈ es, g.parent = some e.id → f.id ≤ g.id

/-- **What an origin says of its entry** among all entries. A node that only groups others leads to
no line, or to one at which a sibling in front of its entry stands; the entry itself stands at the
line of the first entry below it. -/
def Origin.Explains (p : Placement) (es : List OverlayEntry) (o : Origin) (e : OverlayEntry) :
    Prop :=
  match o with
  | .part item k target =>
    e.line = some target.line ∧ e.lineIndex = some target.index ∧ e.hasChildren = false ∧
      ∃ value, item.addressAt k = .ok value ∧ e.text = item.partLabel k value
  | .own item position target =>
    p.nodeTarget? item = some target ∧ e.line = some target.line ∧
      e.lineIndex = some target.index ∧ item.nodeLabel position = .ok e.text
  | .group item position =>
    (∀ t, p.nodeTarget? item = some t →
        ∃ f ∈ es, f.parent = e.parent ∧ f.id < e.id ∧ f.line = some t.line) ∧
      e.text = item.groupLabel position ∧
      ∃ f, e.FirstBelow es f ∧ e.line = f.line ∧ e.lineIndex = f.lineIndex

/-- **Lines that siblings have taken**: each is the line of an entry with the given parent, in front
of a number. -/
def TakenBefore (es : List OverlayEntry) (parent : Option Int) (id : Int) (taken : Taken) : Prop :=
  ∀ l ∈ taken, ∃ f ∈ es, f.parent = parent ∧ f.id < id ∧ f.line = some l

section Explanations

variable {p : Placement} {es : List OverlayEntry} {parent : Option Int} {id id' : Int}
  {taken : Taken}

/-- Such lines are taken in front of later numbers, too. -/
theorem TakenBefore.mono (h : TakenBefore es parent id taken) (hle : id ≤ id') :
    TakenBefore es parent id' taken := by
  intro l hl
  obtain ⟨f, hf, hparent, hid, hline⟩ := h l hl
  exact ⟨f, hf, hparent, by omega, hline⟩

/-- One more sibling takes its line. -/
theorem TakenBefore.cons {e : OverlayEntry} (h : TakenBefore es parent e.id taken) (he : e ∈ es)
    (hparent : e.parent = parent) {l : Int} (hline : e.line = some l) (hid : e.id < id) :
    TakenBefore es parent id (l :: taken) := by
  rintro m hm
  rcases List.mem_cons.1 hm with rfl | hm
  · exact ⟨e, he, hparent, hid, hline⟩
  · exact h.mono (Int.le_of_lt hid) m hm

/-- The first entry below the head of a branch is the one with the next number. -/
theorem firstBelow_of_mem (horder : ∀ g ∈ es, ∀ q, g.parent = some q → q < g.id)
    {e f : OverlayEntry} (hf : f ∈ es) (hparent : f.parent = some e.id) (hid : f.id = e.id + 1) :
    e.FirstBelow es f where
  mem := hf
  parent_eq := hparent
  le := by
    intro g hg hq
    have := horder g hg e.id hq
    omega

/-- **The entries of branches are explained by their origins**, one by one. -/
theorem forall₂_explains (horder : ∀ g ∈ es, ∀ q, g.parent = some q → q < g.id)
    {taken taken' : Taken} {os : List Origin} {bs : List Branch}
    (h : Placement.Traces p taken os bs taken') (level : Nat) (parent : Option Int) (id : Int)
    (hsub : entriesBelow level parent id bs ⊆ es) (htaken : TakenBefore es parent id taken) :
    List.Forall₂ (Origin.Explains p es) os (entriesBelow level parent id bs) := by
  induction h generalizing level parent id with
  | nil => exact .nil
  | part address _ ih =>
    rw [entriesBelow_cons] at hsub ⊢
    obtain ⟨hhead, hrest⟩ := List.cons_subset.1 hsub
    -- the part has taken its line in front of the others
    exact .cons ⟨rfl, rfl, rfl, _, address, rfl⟩
      (ih level parent _ hrest (htaken.cons hhead rfl rfl (by dsimp only; omega)))
  | own here labelled _ _ ihDeeper ihRest =>
    rw [entriesBelow_cons] at hsub ⊢
    obtain ⟨hhead, htail⟩ := List.cons_subset.1 hsub
    obtain ⟨hbelow, hrest⟩ := List.append_subset.1 htail
    exact .cons ⟨here, rfl, rfl, labelled⟩ (List.rel_append
      (ihDeeper (level + 1) (some id) (id + 1) hbelow fun l hl => nomatch hl)
      (ihRest level parent _ hrest (htaken.cons hhead rfl rfl (by dsimp only; omega))))
  | @group _ _ _ _ _ first _ _ others _ lacks _ _ ihDeeper ihRest =>
    rw [entriesBelow_cons] at hsub ⊢
    obtain ⟨hhead, htail⟩ := List.cons_subset.1 hsub
    obtain ⟨hbelow, hrest⟩ := List.append_subset.1 htail
    refine .cons ⟨fun t ht => htaken _ (lacks t ht), rfl, ?_⟩ (List.rel_append
      (ihDeeper (level + 1) (some id) (id + 1) hbelow fun l hl => nomatch hl)
      (ihRest level parent _ hrest (htaken.mono (by omega))))
    -- the entry of the first branch below comes right behind that of the node
    obtain ⟨text, target, deeper⟩ := first
    rw [entriesBelow_cons] at hbelow
    exact ⟨_, firstBelow_of_mem horder (hbelow List.mem_cons_self) rfl rfl, rfl, rfl⟩

end Explanations

/-! ### Trees -/

namespace OverlayTree

/-- **A tree whose entries are explained** by origins, one by one, and in which siblings with
nothing below them stand at different lines. -/
structure PlacedApart (p : Placement) (origins : List Origin) (t : OverlayTree) : Prop where
  line_ne : ∀ e ∈ t.entries, ∀ f ∈ t.entries, e ≠ f → e.parent = f.parent →
    e.hasChildren = false → f.hasChildren = false → e.line ≠ f.line
  explained : List.Forall₂ (Origin.Explains p t.entries) origins t.entries

variable (rules : PlacementRules) (index : RefIndex) (book : Int) (categories : List Text)
  (firstLine total : Int) (overlay : Overlay)

/-- **No line is used by two siblings of an overlay with nothing below them**, and a node that only
groups others stands where the first one below it does. It is one that leads to no line, or to one
at which a sibling in front of it stands. An overlay whose starting addresses can be read has a
tree. -/
theorem placedApart_build :
    (∀ tree, build rules index book categories firstLine total overlay = .ok tree →
      tree.PlacedApart (placement rules index book categories overlay)
        ((placement rules index book categories overlay).origins 0 [] overlay.nodes).1) ∧
    ((∀ i ∈ overlay.items, i.Addressed) →
      ∃ tree, build rules index book categories firstLine total overlay = .ok tree) := by
  refine ⟨fun tree htree => ?_, fun h =>
    exists_build_eq_ok h rules index book categories firstLine total⟩
  rw [build] at htree
  obtain ⟨⟨branches, taken⟩, hplaced, htree⟩ := exists_of_bind_eq_ok htree
  cases htree
  have hroot : ∀ q, (none : Option Int) = some q → q < 1 := by
    rintro q ⟨⟩
  constructor
  · have hapart := pairwise_line_ne_entriesBelow 0 none 1 hroot branches
      (Placement.takes_placeNodes overlay.nodes hplaced).apart
    exact fun e he f hf hne => hapart.forall he hf hne
  · obtain ⟨os, hos, htraces⟩ := Placement.traces_placeNodes overlay.nodes hplaced
    rw [hos]
    exact forall₂_explains (fun g hg q hq => parent_lt_of_mem hroot hg hq) htraces 0 none 1
      (List.Subset.refl _) fun l hl => absurd hl List.not_mem_nil

/-- An overlay whose nodes lead to few lines: the second node finds its line taken and is left out,
the third one groups those below it, and of the two parts of the last one the second is left out. -/
def crowdedPortions : Overlay :=
  ⟨"Portions".toList, none, none,
    [.node ⟨some "First".toList, none, some "Ruth 1:1".toList, [], [], none, [], ∅, none, none⟩ [],
      .node ⟨some "Again".toList, none, some "Ruth 1:1".toList, [], [], none, [], ∅, none, none⟩ [],
      .node ⟨some "Group".toList, none, some "Ruth 1:1".toList, [], [], none, [], ∅, none, none⟩
        [.node ⟨some "Inner".toList, none, some "Ruth 1:2".toList, [], [], none, [], ∅, none, none⟩ [],
          .node ⟨some "Inner again".toList, none, some "Ruth 1:2".toList, [], [], none, [], ∅, none,
            none⟩ []],
      .node ⟨none, none, none, ["Ruth 3:2".toList, "Ruth 3:2".toList], ["Talmud".toList], none, [], ∅,
          some "2b".toList, none⟩ []]⟩

/-- It makes four entries. The second one groups the third and stands at its line. -/
theorem placedApart_build_crowded :
    ∃ tree, build {} ruthIndex 7 [] 1 3 crowdedPortions = .ok tree ∧
      tree.PlacedApart (placement {} ruthIndex 7 [] crowdedPortions)
        ((placement {} ruthIndex 7 [] crowdedPortions).origins 0 [] crowdedPortions.nodes).1 ∧
      tree.entries.map (fun e => (e.parent, e.line, e.hasChildren)) =
        [(none, some 1, false), (none, some 2, true), (some 2, some 2, false),
          (none, some 3, false)] := by
  obtain ⟨hapart, hplaced⟩ := placedApart_build {} ruthIndex 7 [] 1 3 crowdedPortions
  have haddressed : ∀ i ∈ crowdedPortions.items, i.Addressed := by decide +kernel
  obtain ⟨tree, htree⟩ := hplaced haddressed
  refine ⟨tree, htree, hapart tree htree, ?_⟩
  have hentries : (build {} ruthIndex 7 [] 1 3 crowdedPortions).toOption.map
      (fun t => t.entries.map fun e => (e.parent, e.line, e.hasChildren)) =
        some [(none, some 1, false), (none, some 2, true), (some 2, some 2, false),
          (none, some 3, false)] := by
    decide +kernel
  rw [htree] at hentries
  exact Option.some.inj hentries

end OverlayTree

end HebrewCorpus
