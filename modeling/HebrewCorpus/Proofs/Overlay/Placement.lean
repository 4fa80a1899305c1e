import HebrewCorpus.Proofs.Book.Flat
import HebrewCorpus.Proofs.Overlay.Entries

/-! # Targets of placed nodes

However the nodes of an overlay are nested and grouped, a placed node stands where one of its
citations leads, or where the first node below it stands.

* **`Placement.LeadsTo`**: what holds of every line that a citation leads to.
* **`Placement.all_placeNodes`**: it holds of all targets of the placed nodes. -/

namespace HebrewCorpus

namespace Placement

/-- **What holds of every line that a citation leads to.** -/
def LeadsTo (p : Placement) (P : LineTarget → Prop) : Prop :=
  ∀ text leeway t, p.index.resolve text (some p.book) leeway = some t → P t

variable {p : Placement} {P : LineTarget → Prop}

/-- A citation of a node leads to such a line. -/
theorem LeadsTo.target? (h : p.LeadsTo P) {item : OverlayItem} {citation : Text} {t : LineTarget}
    (ht : p.target? item citation = some t) : P t := h _ _ t ht

/-- A node leads to such a line. -/
theorem LeadsTo.nodeTarget? (h : p.LeadsTo P) {item : OverlayItem} {t : LineTarget}
    (ht : p.nodeTarget? item = some t) : P t := by
  obtain ⟨citation, -, ht⟩ := List.exists_of_findSome?_eq_some ht
  exact h.target? ht

/-- Branches that group others stand where the first of them does. -/
theorem all_grouping {branches : List Branch} (h : ∀ b ∈ branches, b.All P) (text : Text) :
    ∀ b ∈ Branch.grouping text branches, b.All P := by
  cases branches with
  | nil => exact fun b hb => nomatch hb
  | cons first rest =>
    intro b hb
    rw [Branch.grouping, List.mem_singleton] at hb
    rw [hb]
    exact .branch (h first List.mem_cons_self).target h

/-- **The parts of a node** stand where their citations lead. -/
theorem all_placeParts (hp : p.LeadsTo P) (item : OverlayItem) {k : Nat} {refs : List Text}
    {taken taken' : Taken} {branches : List Branch}
    (h : p.placeParts item k refs taken = .ok (branches, taken')) : ∀ b ∈ branches, b.All P := by
  induction refs generalizing k taken taken' branches with
  | nil =>
    cases h
    exact fun b hb => nomatch hb
  | cons ref refs ih =>
    rw [placeParts] at h
    cases htarget : p.target? item ref with
    | none =>
      rw [htarget] at h
      exact ih h
    | some target =>
      rw [htarget] at h
      dsimp only at h
      split at h
      · exact ih h
      · obtain ⟨address, -, h⟩ := exists_of_bind_eq_ok h
        -- the label may fail, but it does not change the target
        obtain ⟨⟨parts, rest⟩, hparts, h⟩ := exists_of_bind_eq_ok h
        cases h
        intro b hb
        rcases List.mem_cons.1 hb with rfl | hb
        · exact .branch (hp.target? htarget) fun b hb => nomatch hb
        · exact ih hparts b hb

/-- The parts of a node under the node itself stand where their citations lead. -/
theorem all_ownParts (hp : p.LeadsTo P) (item : OverlayItem) {taken : Taken}
    {branches : List Branch} (h : p.ownParts item = .ok (branches, taken)) :
    ∀ b ∈ branches, b.All P := by
  rw [ownParts] at h
  split at h
  · cases h
    exact fun b hb => nomatch hb
  · exact all_placeParts hp item h

mutual

/-- **The branches of a node** stand where its citations lead, or where those below it do. -/
theorem all_placeNode (hp : p.LeadsTo P) {position : Nat} {taken taken' : Taken}
    {branches : List Branch} :
    (node : OverlayNode) → p.placeNode position taken node = .ok (branches, taken') →
      ∀ b ∈ branches, b.All P
  | .node item children, h => by
    rw [placeNode] at h
    split at h
    · obtain ⟨⟨parts, inner⟩, hparts, h⟩ := exists_of_bind_eq_ok h
      obtain ⟨⟨below, outer⟩, hbelow, h⟩ := exists_of_bind_eq_ok h
      cases h
      intro b hb
      rcases List.mem_append.1 hb with hb | hb
      · exact all_placeParts hp item hparts b hb
      · exact all_placeNodes hp children hbelow b hb
    · split at h
      · next target htarget =>
        obtain ⟨label, -, h⟩ := exists_of_bind_eq_ok h
        obtain ⟨⟨parts, inner⟩, hparts, h⟩ := exists_of_bind_eq_ok h
        obtain ⟨⟨below, outer⟩, hbelow, h⟩ := exists_of_bind_eq_ok h
        cases h
        intro b hb
        rw [List.mem_singleton] at hb
        rw [hb]
        refine .branch (hp.nodeTarget? (Option.filter_eq_some_iff.1 htarget).1) fun c hc => ?_
        rcases List.mem_append.1 hc with hc | hc
        · exact all_ownParts hp item hparts c hc
        · exact all_placeNodes hp children hbelow c hc
      · obtain ⟨⟨below, outer⟩, hbelow, h⟩ := exists_of_bind_eq_ok h
        -- the node itself leads nowhere and only groups what is below it
        cases h
        exact all_grouping (all_placeNodes hp children hbelow) _

/-- **The branches of neighbours** stand where their citations lead. -/
theorem all_placeNodes (hp : p.LeadsTo P) {position : Nat} {taken taken' : Taken}
    {branches : List Branch} :
    (nodes : List OverlayNode) → p.placeNodes position taken nodes = .ok (branches, taken') →
      ∀ b ∈ branches, b.All P
  | [], h => by
    cases h
    exact fun b hb => nomatch hb
  | node :: nodes, h => by
    rw [placeNodes] at h
    obtain ⟨⟨first, inner⟩, hfirst, h⟩ := exists_of_bind_eq_ok h
    obtain ⟨⟨rest, outer⟩, hrest, h⟩ := exists_of_bind_eq_ok h
    cases h
    intro b hb
    rcases List.mem_append.1 hb with hb | hb
    · exact all_placeNode hp node hfirst b hb
    · exact all_placeNodes hp nodes hrest b hb

end

end Placement

end HebrewCorpus
