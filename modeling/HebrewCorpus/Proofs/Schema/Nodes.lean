import HebrewCorpus.Proofs.Schema.Accepted

/-! # Nodes of accepted schemas

What the checks of a schema come to at every depth.

* **`SchemaNode.nodes`**: a node and the nodes below it; those of an accepted schema are accepted.
* **`LeafLayout.FitsDepth`**: a leaf whose lists have one entry per level, or none where they may be
  left out.
* **`duplicateChild?_eq_none_iff`**: the children of a container are accepted when the keys that are
  not empty are distinct. -/

namespace HebrewCorpus

namespace SchemaNode

mutual

/-- **A node and the nodes below it**, at every depth. -/
def nodes : SchemaNode → List SchemaNode
  | .container name children => .container name children :: nodesBelow children
  | .leaf name layout => [.leaf name layout]

/-- Some nodes and the nodes below them. -/
def nodesBelow : List SchemaNode → List SchemaNode
  | [] => []
  | first :: rest => first.nodes ++ nodesBelow rest

end

mutual

/-- **Every node of an accepted schema is accepted.** -/
theorem accepted_of_mem_nodes :
    (schema : SchemaNode) → schema.Accepted → ∀ n ∈ schema.nodes, n.Accepted
  | .container name children, h => by
    rw [nodes, List.forall_mem_cons]
    refine ⟨h, ?_⟩
    cases h with
    | container _ below => exact accepted_of_mem_nodesBelow children below
  | .leaf name layout, h => by
    rw [nodes, List.forall_mem_singleton]
    exact h

/-- Every node below some accepted ones is accepted. -/
theorem accepted_of_mem_nodesBelow :
    (nodes : List SchemaNode) → (∀ n ∈ nodes, n.Accepted) → ∀ n ∈ nodesBelow nodes, n.Accepted
  | [], _ => fun n hn => nomatch hn
  | first :: rest, h => by
    rw [List.forall_mem_cons] at h
    rw [nodesBelow, List.forall_mem_append]
    exact ⟨accepted_of_mem_nodes first h.1, accepted_of_mem_nodesBelow rest h.2⟩

end

end SchemaNode

/-! ### Leaves -/

namespace LeafLayout

/-- **A leaf whose lists fit its depth.** -/
structure FitsDepth (l : LeafLayout) : Prop where
  sectionNames : l.sectionNames.length = l.depth
  addressKinds : l.addressKinds.length = l.depth
  heSectionNames : l.heSectionNames = [] ∨ l.heSectionNames.length = l.depth
  referenceable : l.referenceable = [] ∨ l.referenceable.length = l.depth

/-- The lists of an accepted leaf fit its depth. -/
theorem fitsDepth_of_rejection? {l : LeafLayout} (h : l.rejection? = none) : l.FitsDepth := by
  obtain ⟨hnames, hkinds, hhe, hflags⟩ := lengths_of_rejection? h
  exact ⟨hnames, hkinds, hhe.symm, hflags.symm⟩

/-- A leaf whose lists fit its depth is accepted. -/
theorem FitsDepth.rejection?_eq_none {l : LeafLayout} (h : l.FitsDepth) : l.rejection? = none := by
  obtain ⟨hnames, hkinds, hhe, hflags⟩ := h
  rw [rejection?, List.findSome?_eq_none_iff]
  rcases hhe with hhe | hhe <;> rcases hflags with hflags | hflags <;>
    simp [counts, hnames, hkinds, hhe, hflags]

/-- What the lists say of a level says its name in headings. -/
theorem headingName?_of_level? {l : LeafLayout} {i : Nat} {level : Level}
    (h : l.level? i = some level) : l.headingName? i = some level.heading := by
  unfold level? at h
  obtain ⟨kind, -, h⟩ := Option.bind_eq_some_iff.1 h
  obtain ⟨flag, -, h⟩ := Option.bind_eq_some_iff.1 h
  obtain ⟨heading, hheading, h⟩ := Option.bind_eq_some_iff.1 h
  cases h
  exact hheading

/-- **Each level of a leaf whose lists fit has a flag and a name in headings.** -/
theorem FitsDepth.exists_flag_and_name {l : LeafLayout} (h : l.FitsDepth) {i : Nat}
    (hi : i < l.depth) :
    (∃ flag, l.isReferenceable? i = some flag) ∧ ∃ heading, l.headingName? i = some heading := by
  obtain ⟨level, hlevel⟩ := Option.isSome_iff_exists.1 (level?_isSome h.rejection?_eq_none hi)
  exact ⟨⟨_, isReferenceable?_of_level? hlevel⟩, ⟨_, headingName?_of_level? hlevel⟩⟩

end LeafLayout

/-! ### Containers -/

/-- The keys under which nodes count among their siblings, where there are any. -/
def childKeys (children : List SchemaNode) : List Text :=
  (children.map (·.name.childKey)).filter (!·.isEmpty)

/-- A key that is not empty is looked for among those before it. -/
theorem firstRepeated?_cons (seen keys : List Text) (key : Text) :
    firstRepeated? seen (key :: keys) =
      if key.isEmpty then firstRepeated? seen keys
      else if key ∈ seen then some key else firstRepeated? (key :: seen) keys := rfl

/-- No key occurs a second time when those that are not empty are distinct and new. -/
theorem firstRepeated?_eq_none_iff {seen keys : List Text} : firstRepeated? seen keys = none ↔
    (keys.filter (!·.isEmpty)).Nodup ∧ ∀ key ∈ keys.filter (!·.isEmpty), key ∉ seen := by
  induction keys generalizing seen with
  | nil =>
    have hnone : firstRepeated? seen [] = none := rfl
    simp [hnone]
  | cons key keys ih =>
    rw [firstRepeated?_cons]
    by_cases hempty : key.isEmpty = true
    · rw [if_pos hempty, ih, List.filter_cons_of_neg (by simpa using hempty)]
    · rw [if_neg hempty, List.filter_cons_of_pos (by simpa using hempty), List.nodup_cons,
        List.forall_mem_cons]
      by_cases hseen : key ∈ seen
      · simp [hseen]
      · rw [if_neg hseen, ih]
        -- a later key is new when it is neither this one nor one seen before
        simp only [List.mem_cons, not_or]
        constructor
        · rintro ⟨hnodup, hnew⟩
          exact ⟨⟨fun hkey => (hnew key hkey).1 rfl, hnodup⟩, hseen, fun k hk => (hnew k hk).2⟩
        · rintro ⟨⟨hkey, hnodup⟩, -, hnew⟩
          exact ⟨hnodup, fun k hk => ⟨fun heq => hkey (heq ▸ hk), hnew k hk⟩⟩

/-- **No two children answer to one key** when their keys that are not empty are distinct. -/
theorem duplicateChild?_eq_none_iff {parent : NodeName} {children : List SchemaNode} :
    duplicateChild? parent children = none ↔ (childKeys children).Nodup := by
  rw [duplicateChild?, Option.map_eq_none_iff, firstRepeated?_eq_none_iff]
  simp [childKeys]

end HebrewCorpus
