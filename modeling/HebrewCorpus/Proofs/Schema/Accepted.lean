import HebrewCorpus.Schema.Node

/-! # Accepted schemas

A schema is accepted when its nodes pass their checks at every depth: no two children of a container
answer to one key, and the lists of a leaf fit its number of levels.

* **`SchemaNode.Accepted`**: the accepted schemas.
* **`LeafLayout.levels?_eq_some`**: an accepted leaf has an entry for each of its levels in each of
  its lists. -/

namespace HebrewCorpus

/-- **The accepted schemas.** -/
inductive SchemaNode.Accepted : SchemaNode → Prop
  | container {name : NodeName} {children : List SchemaNode}
      (distinct : duplicateChild? name children = none)
      (below : ∀ child ∈ children, child.Accepted) : Accepted (.container name children)
  | leaf {name : NodeName} {layout : LeafLayout} (fits : layout.rejection? = none) :
      Accepted (.leaf name layout)

/-- Whether a node is a leaf whose lists fit. -/
def SchemaNode.isFittingLeaf : SchemaNode → Bool
  | .leaf _ layout => layout.rejection?.isNone
  | .container _ _ => false

/-- A container of fitting leaves is accepted when no two of them answer to one key. -/
theorem SchemaNode.Accepted.of_leaves {name : NodeName} {children : List SchemaNode}
    (distinct : duplicateChild? name children = none)
    (h : ∀ child ∈ children, child.isFittingLeaf = true) :
    (SchemaNode.container name children).Accepted := by
  refine .container distinct ?_
  intro child hchild
  have hleaf := h child hchild
  cases child with
  | leaf leafName layout => exact .leaf (Option.isNone_iff_eq_none.1 hleaf)
  | container below children => cases hleaf

/-- Values that can all be found are found together. -/
theorem exists_mapM_eq_some {α β : Type} {f : α → Option β} {as : List α}
    (h : ∀ a ∈ as, (f a).isSome) : ∃ bs, as.mapM f = some bs ∧ bs.map some = as.map f := by
  induction as with
  | nil => exact ⟨[], rfl, rfl⟩
  | cons a as ih =>
    obtain ⟨b, hb⟩ := Option.isSome_iff_exists.1 (h a List.mem_cons_self)
    obtain ⟨bs, hbs, hmap⟩ := ih fun x hx => h x (List.mem_cons_of_mem _ hx)
    refine ⟨b :: bs, ?_, ?_⟩
    · rw [List.mapM_cons, hb, hbs]
      rfl
    · rw [List.map_cons, List.map_cons, hb, hmap]

/-- Values that were found together are those found one by one. -/
theorem map_some_of_mapM {α β : Type} {f : α → Option β} {as : List α} {bs : List β}
    (h : as.mapM f = some bs) : bs.map some = as.map f := by
  induction as generalizing bs with
  | nil =>
    cases h
    rfl
  | cons a as ih =>
    rw [List.mapM_cons] at h
    obtain ⟨b, hb, h⟩ := Option.bind_eq_some_iff.1 h
    obtain ⟨rest, hrest, h⟩ := Option.bind_eq_some_iff.1 h
    cases h
    rw [List.map_cons, List.map_cons, hb, ih hrest]

namespace LeafLayout

/-- **The lists of an accepted leaf fit its depth.** -/
theorem lengths_of_rejection? {l : LeafLayout} (h : l.rejection? = none) :
    l.sectionNames.length = l.depth ∧ l.addressKinds.length = l.depth ∧
      (l.heSectionNames.length = l.depth ∨ l.heSectionNames = []) ∧
        (l.referenceable.length = l.depth ∨ l.referenceable = []) := by
  have fits (name : String) {entries : Nat} {mayBeEmpty : Bool}
      (hm : (name, entries, mayBeEmpty) ∈ l.counts) :
      entries = l.depth ∨ (mayBeEmpty ∧ entries = 0) := by
    have hn := List.findSome?_eq_none_iff.1 h _ hm
    dsimp only at hn
    split at hn
    · assumption
    · cases hn
  have required {n : Nat} (h : n = l.depth ∨ (false ∧ n = 0)) : n = l.depth := by simpa using h
  have optional {α : Type} {as : List α} (h : as.length = l.depth ∨ (true ∧ as.length = 0)) :
      as.length = l.depth ∨ as = [] := by simpa using h
  exact ⟨required (fits "section_names" (by simp [counts])),
    required (fits "address_types" (by simp [counts])),
    optional (fits "he_section_names" (by simp [counts])),
    optional (fits "referenceable" (by simp [counts]))⟩

/-- An accepted leaf has an entry for each of its levels. -/
theorem level?_isSome {l : LeafLayout} (h : l.rejection? = none) {i : Nat} (hi : i < l.depth) :
    (l.level? i).isSome := by
  obtain ⟨hnames, hkinds, hhe, hflags⟩ := lengths_of_rejection? h
  have hkind : ∃ kind, l.addressKinds[i]? = some kind :=
    ⟨_, List.getElem?_eq_getElem (hkinds ▸ hi)⟩
  have hflag : ∃ flag, l.isReferenceable? i = some flag := by
    unfold isReferenceable?
    rcases hflags with hf | hf
    · split
      · exact ⟨true, rfl⟩
      · exact ⟨_, List.getElem?_eq_getElem (hf ▸ hi)⟩
    · exact ⟨true, by rw [hf]; rfl⟩
  have hname : ∃ name, l.headingName? i = some name := by
    have hs := List.getElem?_eq_getElem (l := l.sectionNames) (hnames ▸ hi)
    unfold headingName?
    rcases hhe with hl | hl
    · rw [hs, List.getElem?_eq_getElem (hl ▸ hi)]
      split
      · exact ⟨_, rfl⟩
      · show ∃ name, (if Text.isBlank l.heSectionNames[i] then _ else _) = some name
        split <;> exact ⟨_, rfl⟩
    · rw [hl, hs]
      exact ⟨_, rfl⟩
  obtain ⟨kind, hkind⟩ := hkind
  obtain ⟨flag, hflag⟩ := hflag
  obtain ⟨name, hname⟩ := hname
  rw [level?, hkind, hflag, hname]
  rfl

/-- What the lists say of a level starts with its kind of address. -/
theorem kind_level? (l : LeafLayout) {i : Nat} (h : (l.level? i).isSome) :
    (l.level? i).map (·.kind) = l.addressKinds[i]? := by
  unfold level? at h ⊢
  cases hk : l.addressKinds[i]? with
  | none => rfl
  | some kind =>
    cases hf : l.isReferenceable? i with
    | none => simp [hk, hf] at h
    | some flag =>
      cases hn : l.headingName? i with
      | none => simp [hk, hf, hn] at h
      | some name => rfl

/-- What the lists say of a level says whether it may be referred to. -/
theorem isReferenceable?_of_level? {l : LeafLayout} {i : Nat} {level : Level}
    (h : l.level? i = some level) : l.isReferenceable? i = some level.referenceable := by
  unfold level? at h
  obtain ⟨kind, -, h⟩ := Option.bind_eq_some_iff.1 h
  obtain ⟨flag, hflag, h⟩ := Option.bind_eq_some_iff.1 h
  obtain ⟨heading, -, h⟩ := Option.bind_eq_some_iff.1 h
  cases h
  exact hflag

/-- The last of all levels is the one above the lines. -/
theorem level?_of_getLast? {l : LeafLayout} {levels : List Level} (h : l.levels? = some levels)
    {level : Level} (hlast : levels.getLast? = some level) : l.level? (l.depth - 1) = some level := by
  have hmap := congrArg List.getLast? (map_some_of_mapM h)
  rw [List.getLast?_map, hlast, List.getLast?_map, List.getLast?_range] at hmap
  split at hmap
  · cases hmap
  · exact (Option.some.inj hmap).symm

/-- **All levels of an accepted leaf**, with the kinds of address that it names. -/
theorem levels?_eq_some {l : LeafLayout} (h : l.rejection? = none) :
    ∃ levels, l.levels? = some levels ∧ levels.map (·.kind) = l.addressKinds := by
  have hsome : ∀ i ∈ List.range l.depth, (l.level? i).isSome := fun i hi =>
    level?_isSome h (List.mem_range.1 hi)
  obtain ⟨levels, hl, hmap⟩ := exists_mapM_eq_some hsome
  refine ⟨levels, hl, ?_⟩
  -- both lists have the same entry at each index
  have hentries : (levels.map (·.kind)).map some = l.addressKinds.map some := by
    calc (levels.map (·.kind)).map some
        = (levels.map some).map (Option.map (·.kind)) := by simp [Function.comp_def]
      _ = (List.range l.depth).map fun i => l.addressKinds[i]? := by
          rw [hmap, List.map_map]
          exact List.map_congr_left fun i hi => kind_level? l (hsome i hi)
      _ = l.addressKinds.map some := by
          apply List.ext_getElem
          · simp [(lengths_of_rejection? h).2.1]
          · intro i h₁ h₂
            simp [List.getElem?_eq_getElem (by simpa using h₂)]
  exact (List.map_inj_right fun _ _ h => Option.some.inj h).1 hentries

end LeafLayout

end HebrewCorpus
