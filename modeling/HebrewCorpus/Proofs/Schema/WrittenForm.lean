import HebrewCorpus.Proofs.Schema.Nodes
import HebrewCorpus.Proofs.Schema.Reading

/-! # Written forms of schemas

A schema that passes its checks is found again in its written form: the fields that a reader derives
or converts are there as they are, and no check refuses them a second time.

* **`SchemaNode.ofJson_toJson`**: the written form of an accepted schema is read as that schema.
* **`SchemaNode.sound_ofJson`**: what holds at every depth of a schema that was read. -/

namespace HebrewCorpus

/-! ### Fields of written records -/

namespace Fields

variable {α : Type} {fields : Fields} {field : String} {read : Json → Checked α} {value : Json}
  {a : α}

/-- A required field that is there is read from its value. -/
theorem required_eq_ok (h : fields.lookup field.toList = some value) (hread : read value = .ok a) :
    fields.required field read = .ok a := by
  simp only [required, h, Checked.within_eq_ok_iff]
  exact hread

/-- A field that may be left out is read from its value when it is there. -/
theorem withDefault_eq_ok (default : α) (h : fields.lookup field.toList = some value)
    (hread : read value = .ok a) : fields.withDefault field read default = .ok a := by
  simp only [withDefault, h, Checked.within_eq_ok_iff]
  exact hread

end Fields

/-- A list of values is read back from what its items are written as. -/
theorem readList_map {α : Type} {read : Json → Checked α} (write : α → Json)
    (h : ∀ a, read (write a) = .ok a) (as : List α) :
    readList read (.array (as.map write)) = .ok as := by
  rw [readList, Checked.all_eq_ok_iff, List.map_map]
  exact List.map_congr_left fun a _ => h a

namespace SchemaNode

/-- The name of a node is read back from its members, whatever follows them. -/
theorem ofFields_nameMembers (name : NodeName) (rest : Fields) :
    NodeName.ofFields (nameMembers name ++ rest) = .ok name := rfl

/-! ### Leaves -/

/-- The members of a written leaf. -/
def leafMembers (name : NodeName) (layout : LeafLayout) : Fields :=
  nameMembers name ++ ("kind".toList, .text "leaf".toList) :: layoutMembers layout

section Leaf

variable (name : NodeName) {layout : LeafLayout}

/-- A written leaf that has address kinds implies none; one that has none has no levels to imply
them for. -/
theorem exists_readKinds_leafMembers (h : layout.FitsDepth) : ∃ implied,
    LeafLayout.impliedKinds? (leafMembers name layout) = .ok implied ∧
      LeafLayout.readKinds (leafMembers name layout) implied = .ok layout.addressKinds := by
  have hkinds : (leafMembers name layout).lookup "address_types".toList =
      some (.array (layout.addressKinds.map fun k => .text k.name)) := rfl
  have hnames : (leafMembers name layout).lookup "section_names".toList =
      some (.array (layout.sectionNames.map .text)) := rfl
  cases hlist : layout.addressKinds with
  | nil =>
    have hdepth : layout.depth = 0 := by rw [← h.addressKinds, hlist, List.length_nil]
    have hempty : layout.sectionNames = [] := by
      rw [← List.length_eq_zero_iff, h.sectionNames, hdepth]
    refine ⟨some [], ?_, rfl⟩
    rw [LeafLayout.impliedKinds?, hkinds, hnames, hlist, hempty]
    rfl
  | cons kind kinds =>
    refine ⟨none, ?_, ?_⟩
    · rw [LeafLayout.impliedKinds?, hkinds, hlist]
      rfl
    · rw [hlist] at hkinds
      have hkind : ∀ k : AddressKind, AddressKind.ofJson (.text k.name) = .ok k := by
        simp [AddressKind.ofJson]
      exact Fields.withDefault_eq_ok [] hkinds (readList_map _ hkind (kind :: kinds))

/-- **A leaf whose lists fit its depth is read back from its members.** -/
theorem leafOfFields_leafMembers (h : layout.FitsDepth) :
    leafOfFields (leafMembers name layout) = .ok (.leaf name layout) := by
  obtain ⟨implied, himplied, hkinds⟩ := exists_readKinds_leafMembers name h
  have hname : NodeName.ofFields (leafMembers name layout) = .ok name := ofFields_nameMembers name _
  have hdepth : (leafMembers name layout).required "depth" LeafLayout.readDepth =
      .ok layout.depth := by
    refine Fields.required_eq_ok rfl ?_
    simp [LeafLayout.readDepth, readWhole, bind, Except.bind, pure, Except.pure, Int.not_ofNat_neg]
  have hnames : (leafMembers name layout).withDefault "section_names" (readList readText) [] =
      .ok layout.sectionNames :=
    Fields.withDefault_eq_ok [] rfl (readList_map .text (fun _ => rfl) _)
  have hheNames : (leafMembers name layout).withDefault "he_section_names" (readList readText) [] =
      .ok layout.heSectionNames :=
    Fields.withDefault_eq_ok [] rfl (readList_map .text (fun _ => rfl) _)
  have hflags : (leafMembers name layout).withDefault "referenceable" (readList readTruth) [] =
      .ok layout.referenceable :=
    Fields.withDefault_eq_ok [] rfl (readList_map .bool (fun _ => rfl) _)
  rw [leafOfFields, himplied]
  simp only [bind, Except.bind, hname, hdepth, hnames, hheNames, hkinds, hflags, Checked.zip,
    h.rejection?_eq_none]
  rfl

end Leaf

/-! ### Trees -/

/-- A record of the kind `container` is read as a container. -/
theorem ofJson_eq_ok_of_container {fields : Fields} {children : List SchemaNode}
    {schema : SchemaNode} (hkind : fields.lookup "kind".toList = some (.text "container".toList))
    (hchildren : childrenOf fields = .ok children)
    (h : containerOfFields fields (.ok children) = .ok schema) :
    ofJson (.object fields) = .ok schema := by
  simp only [ofJson, hkind, if_pos, hchildren, Checked.within_eq_ok_iff]
  exact h

/-- A record of the kind `leaf` is read as a leaf. -/
theorem ofJson_eq_ok_of_leaf {fields : Fields} {schema : SchemaNode}
    (hkind : fields.lookup "kind".toList = some (.text "leaf".toList))
    (h : leafOfFields fields = .ok schema) : ofJson (.object fields) = .ok schema := by
  have hne : "leaf".toList ≠ "container".toList := by decide
  simp only [ofJson, hkind, if_neg hne, if_pos, Checked.within_eq_ok_iff]
  exact h

/-- The children of a record are not looked for under another key. -/
theorem childrenOf_cons_of_ne {key : Text} (h : key ≠ "children".toList) (value : Json)
    (fields : Fields) : childrenOf ((key, value) :: fields) = childrenOf fields := by
  cases value <;> simp only [childrenOf, if_neg h]

/-- The members of a container whose children are written as the given values. -/
def containerMembers (name : NodeName) (items : List Json) : Fields :=
  nameMembers name ++
    [("kind".toList, .text "container".toList), ("children".toList, .array items)]

/-- The children of a written container are those of its list. -/
theorem childrenOf_containerMembers (name : NodeName) (items : List Json) :
    childrenOf (containerMembers name items) =
      (childrenFrom 0 items).within "children".toList := by
  rw [containerMembers, nameMembers, List.cons_append, List.cons_append, List.cons_append,
    List.nil_append, childrenOf_cons_of_ne (by decide), childrenOf_cons_of_ne (by decide),
    childrenOf_cons_of_ne (by decide), childrenOf_cons_of_ne (by decide), childrenOf, if_pos rfl]

mutual

/-- **An accepted schema is read back from its written form.** -/
theorem ofJson_toJson : (schema : SchemaNode) → schema.Accepted → ofJson schema.toJson = .ok schema
  | .container name children, h => by
    cases h with
    | container distinct below =>
      have hchildren : childrenOf (containerMembers name (toJsons children)) = .ok children := by
        rw [childrenOf_containerMembers, childrenFrom_toJsons 0 children below]
        rfl
      have hread : containerOfFields (containerMembers name (toJsons children)) (.ok children) =
            .ok (.container name children) := by
        simp only [containerOfFields, containerMembers, ofFields_nameMembers, Checked.zip, bind,
          Except.bind, distinct]
        rfl
      exact ofJson_eq_ok_of_container rfl hchildren hread
  | .leaf name layout, h => by
    cases h with
    | leaf fits =>
      exact ofJson_eq_ok_of_leaf rfl
        (leafOfFields_leafMembers name (LeafLayout.fitsDepth_of_rejection? fits))

/-- Accepted nodes are read back from a list of their written forms, at whatever position. -/
theorem childrenFrom_toJsons (i : Nat) : (nodes : List SchemaNode) → (∀ n ∈ nodes, n.Accepted) →
    childrenFrom i (toJsons nodes) = .ok nodes
  | [], _ => by rw [toJsons, childrenFrom]
  | first :: rest, h => by
    rw [List.forall_mem_cons] at h
    rw [toJsons, childrenFrom, ofJson_toJson first h.1, childrenFrom_toJsons (i + 1) rest h.2]
    rfl

end

/-! ### Schemas that were read -/

/-- **A schema that is read is sound, and is read again from its written form.** At every depth the
children of a container have distinct keys where their keys are not empty, and the lists of a leaf
fit its depth, so that each level has a flag and a name in headings. -/
theorem sound_ofJson (value : Json) (schema : SchemaNode) (h : ofJson value = .ok schema) :
    (∀ name children, .container name children ∈ schema.nodes → (childKeys children).Nodup) ∧
    (∀ name layout, .leaf name layout ∈ schema.nodes → layout.FitsDepth ∧
      ∀ i < layout.depth, (∃ flag, layout.isReferenceable? i = some flag) ∧
        ∃ heading, layout.headingName? i = some heading) ∧
    ofJson schema.toJson = .ok schema := by
  have haccepted : schema.Accepted := accepted_of_ofJson value h
  refine ⟨fun name children hnode => ?_, fun name layout hnode => ?_,
    ofJson_toJson schema haccepted⟩
  · cases accepted_of_mem_nodes schema haccepted _ hnode with
    | container distinct _ => exact duplicateChild?_eq_none_iff.1 distinct
  · cases accepted_of_mem_nodes schema haccepted _ hnode with
    | leaf fits =>
      have hfits := LeafLayout.fitsDepth_of_rejection? fits
      exact ⟨hfits, fun i hi => hfits.exists_flag_and_name hi⟩

/-- A record that is converted when it is read: a depth written as a text, flags written as a word
and a number, address kinds left to the section names, and two children without keys. -/
def looseRecord : Json :=
  .object [("kind".toList, .text "container".toList), ("title".toList, .text "Tur".toList),
    ("children".toList, .array [
      .object [("kind".toList, .text "leaf".toList), ("title".toList, .text "Orach Chayim".toList),
        ("depth".toList, .text " +2.0 ".toList),
        ("section_names".toList, .array [.text " Siman".toList, .text "Seif".toList]),
        ("he_section_names".toList, .array [.text "סימן".toList, .text " ".toList]),
        ("address_types".toList, .null),
        ("referenceable".toList, .array [.text "Yes".toList, .int 0])],
      .object [("kind".toList, .text "leaf".toList), ("depth".toList, .bool false)],
      .object [("depth".toList, .int 0), ("kind".toList, .text "leaf".toList)],
      .object [("kind".toList, .text "container".toList), ("key".toList, .text "Tur".toList)]])]

/-- The leaf of two levels in the loose record. -/
def looseLayout : LeafLayout :=
  { depth := 2
    sectionNames := [" Siman".toList, "Seif".toList]
    heSectionNames := ["סימן".toList, " ".toList]
    addressKinds := [.section, .paragraph]
    referenceable := [true, false] }

/-- The schema of the loose record. -/
def looseSchema : SchemaNode :=
  .container ⟨[], "Tur".toList, []⟩ [
    .leaf ⟨[], "Orach Chayim".toList, []⟩ looseLayout,
    .leaf ⟨[], [], []⟩ ⟨0, [], [], [], []⟩,
    .leaf ⟨[], [], []⟩ ⟨0, [], [], [], []⟩,
    .container ⟨"Tur".toList, [], []⟩ []]

/-- The loose record is read, and its written form again; the leaf has its flags and names. -/
theorem sound_ofJson_loose :
    ofJson looseRecord = .ok looseSchema ∧
    childKeys [.leaf ⟨[], "Orach Chayim".toList, []⟩ looseLayout,
      .leaf ⟨[], [], []⟩ ⟨0, [], [], [], []⟩, .leaf ⟨[], [], []⟩ ⟨0, [], [], [], []⟩,
      .container ⟨"Tur".toList, [], []⟩ []] = ["Orach Chayim".toList, "Tur".toList] ∧
    (∀ i < 2, (∃ flag, looseLayout.isReferenceable? i = some flag) ∧
      ∃ heading, looseLayout.headingName? i = some heading) ∧
    looseLayout.headingName? 1 = some "Seif".toList ∧
    ofJson looseSchema.toJson = .ok looseSchema := by
  have hread : ofJson looseRecord = .ok looseSchema := by rfl
  obtain ⟨-, hleaves, hagain⟩ := sound_ofJson looseRecord looseSchema hread
  have hleaf : SchemaNode.leaf ⟨[], "Orach Chayim".toList, []⟩ looseLayout ∈ looseSchema.nodes := by
    simp [looseSchema, nodes, nodesBelow]
  exact ⟨hread, by decide, (hleaves _ _ hleaf).2, by decide, hagain⟩

end SchemaNode

end HebrewCorpus
