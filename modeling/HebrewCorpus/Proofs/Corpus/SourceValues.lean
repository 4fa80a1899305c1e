import HebrewCorpus.Corpus.Reader
import HebrewCorpus.Proofs.Record.Misuse

/-! # Values of the right kinds

Most values of the wrong kind in an exported file are passed over, and a wrong title is a fault of
its record. In a few places a value is used for what it is made of before anything is checked. What
these places ask of a file is said here of its value alone, without the readers.

* **`Json.NullOrText`**, **`Json.Iterable`**: a value that is asked for its characters, or for its
  parts.
* **`NodeTree`**: an object with objects below it, however deep.
* **`IsSchemaFile`**: what is asked of the schema file of a book.
* **`noMisuse_documentOf`**: such a schema file is read without misuse. -/

namespace HebrewCorpus

open Checked

/-! ### Single values -/

namespace Json

/-- A title or label that may be left out: null or a text. -/
def NullOrText (v : Json) : Prop := v = .null ∨ ∃ s, v = .text s

/-- A value that can be gone through: vacuous, or made of parts. -/
def Iterable (v : Json) : Prop := v.isVacuous = true ∨ v.elements?.isSome = true

/-- What is gone through in place of a vacuous value has parts. -/
theorem Iterable.exists_elements? {v : Json} (h : v.Iterable) :
    ∃ parts, (v.orElse (.array [])).elements? = some parts := by
  unfold orElse
  split
  · exact ⟨[], rfl⟩
  · next hv => exact Option.isSome_iff_exists.1 (h.resolve_left hv)

end Json

/-- Another key of an object keeps its value when one is put. -/
theorem Fields.get_put_of_ne {key : Text} {other : String} (h : other.toList ≠ key) (value : Json)
    (fields : Fields) : Fields.get (Json.put key value fields) other = fields.get other := by
  rw [get, get, Json.lookup_put_of_ne h]

/-! ### Trees of nodes -/

/-- **A tree of nodes** in an exported file: an object that can be asked for the parts of its member
`nodes`, of which the objects are trees again. Every object of the tree has the property. -/
inductive NodeTree (P : Fields → Prop) : Json → Prop
  | node {fields : Fields} (own : P fields) (parts : (fields.get "nodes").Iterable)
      (below : ∀ items child, fields.get "nodes" = .array items → .object child ∈ items →
        NodeTree P (.object child)) : NodeTree P (.object fields)

/-- A tree of nodes is an object. -/
theorem NodeTree.exists_object {P : Fields → Prop} {v : Json} (h : NodeTree P v) :
    ∃ fields, v = .object fields := by
  cases h with
  | node => exact ⟨_, rfl⟩

/-- What is asked of a leaf of a schema: its flags are gone through, and its lists get as many entries as
it has levels. -/
structure LeafLists (fields : Fields) : Prop where
  flags : (fields.get "referenceableSections").Iterable
  depth : LeafLayout.sourceDepth fields ≤ LeafLayout.maxEntries

/-- The nodes that an exported schema gives; an object without nodes is a leaf. -/
abbrev SchemaShape (v : Json) : Prop :=
  NodeTree (fun fields => fields.lookup "nodes".toList = none → LeafLists fields) v

/-- The nodes that an exported overlay gives; nothing is asked of one by itself. -/
abbrev OverlayShape (v : Json) : Prop := NodeTree (fun _ => True) v

namespace SchemaShape

/-- The members of an object that its shape depends on. -/
def shapeKeys : List String :=
  ["nodes", "referenceableSections", "depth", "sectionNames", "heSectionNames"]

/-- A member of another name may be put into a schema. -/
theorem put {fields : Fields} (h : SchemaShape (.object fields)) {key : Text} (value : Json)
    (hkey : ∀ name ∈ shapeKeys, name.toList ≠ key) :
    SchemaShape (.object (Json.put key value fields)) := by
  obtain ⟨own, parts, below⟩ := h
  have hget (name : String) (hname : name ∈ shapeKeys) :
      Fields.get (Json.put key value fields) name = fields.get name :=
    Fields.get_put_of_ne (hkey name hname) value fields
  have hnodes := hget "nodes" (by simp [shapeKeys])
  refine .node (fun hnone => ?_) (hnodes ▸ parts) fun items child hi => below items child (hnodes ▸ hi)
  rw [Json.lookup_put_of_ne (hkey "nodes" (by simp [shapeKeys]))] at hnone
  obtain ⟨flags, depth⟩ := own hnone
  constructor
  · rwa [hget "referenceableSections" (by simp [shapeKeys])]
  · unfold LeafLayout.sourceDepth at depth ⊢
    rwa [hget "sectionNames" (by simp [shapeKeys]), hget "heSectionNames" (by simp [shapeKeys]),
      hget "depth" (by simp [shapeKeys])]

end SchemaShape

/-! ### Schemas -/

namespace SchemaNode

/-- The children of an object are those under its member `nodes`. -/
theorem childrenOfSource_eq (fields : Fields) : childrenOfSource fields =
    match fields.lookup "nodes".toList with
    | none => .ok none
    | some (.array items) => (childrenFromSource items).map some
    | some value =>
      if value.isVacuous || value.elements?.isSome then .ok (some []) else .misuse .notIterable := by
  induction fields with
  | nil => rfl
  | cons member fields ih =>
    obtain ⟨key, value⟩ := member
    by_cases hkey : key = "nodes".toList
    · subst hkey
      cases value <;> simp [childrenOfSource]
    · have hne : ("nodes".toList == key) = false := beq_false_of_ne (Ne.symm hkey)
      rw [List.lookup_cons, hne, ← ih]
      cases value <;> simp only [childrenOfSource, if_neg hkey]

/-- The objects in a list are read without misuse when each of them is. -/
theorem noMisuse_childrenFromSource {items : List Json}
    (h : ∀ child, .object child ∈ items → NoMisuse (ofSource (.object child))) :
    NoMisuse (childrenFromSource items) := by
  induction items with
  | nil => exact noMisuse_ok []
  | cons item items ih =>
    have hrest := ih fun child hc => h child (List.mem_cons_of_mem _ hc)
    cases item with
    | object child =>
      unfold childrenFromSource
      refine (h child List.mem_cons_self).bind fun node _ => ?_
      exact hrest.bind fun nodes _ => noMisuse_pure (node :: nodes)
    | _ => exact hrest

/-- The children of an object are read without misuse when each of the objects below it is. -/
theorem noMisuse_childrenOfSource {fields : Fields} (parts : (fields.get "nodes").Iterable)
    (h : ∀ items child, fields.get "nodes" = .array items → .object child ∈ items →
      NoMisuse (ofSource (.object child))) : NoMisuse (childrenOfSource fields) := by
  rw [childrenOfSource_eq]
  rw [Fields.get] at parts h
  split
  · exact noMisuse_ok none
  · next items hl =>
    rw [hl] at h
    exact (noMisuse_childrenFromSource fun child => h items child rfl).map some
  · next value _ hl =>
    rw [hl] at parts
    have hparts : (value.isVacuous || value.elements?.isSome) = true := Bool.or_eq_true_iff.2 parts
    rw [if_pos hparts]
    exact noMisuse_ok _

/-- An object without a member `nodes` has no list of children. -/
theorem lookup_nodes_of_childrenOfSource {fields : Fields} (h : childrenOfSource fields = .ok none) :
    fields.lookup "nodes".toList = none := by
  rw [childrenOfSource_eq] at h
  split at h
  · assumption
  · cases hc : childrenFromSource ‹_› <;> rw [hc] at h <;> cases h
  · split at h <;> cases h

/-- The name of an object is read without misuse. -/
theorem noMisuse_nodeName (fields : Fields) : NoMisuse (NodeName.ofSource fields) :=
  (((noMisuse_readText _).within _).zip
    (((noMisuse_readText _).within _).zip ((noMisuse_readText _).within _))).map _

/-- The levels of a leaf are read without misuse when it is as is asked. -/
theorem noMisuse_leafLayout {fields : Fields} (h : LeafLists fields) :
    NoMisuse (LeafLayout.ofSource fields) := by
  have hflags : NoMisuse (LeafLayout.sourceFlags fields) := by
    obtain ⟨parts, hp⟩ := h.flags.exists_elements?
    rw [LeafLayout.sourceFlags, hp]
    exact noMisuse_ok _
  have hdepth : NoMisuse (LeafLayout.listDepth fields) := by
    rw [LeafLayout.listDepth, if_neg (Nat.not_lt.2 h.depth)]
    exact noMisuse_ok _
  exact hflags.bind fun _ _ => hdepth.bind fun _ _ => noMisuse_pure _

/-- **An exported schema is read without misuse** when it is a tree of nodes. -/
theorem noMisuse_ofSource {v : Json} (h : SchemaShape v) : NoMisuse (ofSource v) := by
  induction h with
  | @node fields own parts _ ih =>
    unfold ofSource
    refine (noMisuse_childrenOfSource parts ih).bind fun children hchildren => ?_
    cases children with
    | some children =>
      refine (noMisuse_nodeName fields).bind fun name _ => ?_
      split
      · exact noMisuse_fault _
      · exact noMisuse_pure _
    | none =>
      refine (noMisuse_leafLayout (own (lookup_nodes_of_childrenOfSource hchildren))).bind
        fun layout _ => ?_
      refine (noMisuse_nodeName fields).bind fun name _ => ?_
      split
      · exact noMisuse_fault _
      · exact noMisuse_pure _

end SchemaNode

/-! ### Overlays -/

namespace OverlayNode

/-- The nodes of an object are those under its member `nodes`. -/
theorem childrenOfSource_eq (fields : Fields) : childrenOfSource fields =
    match fields.get "nodes" with
    | .array items => childrenFromSource items
    | value =>
      if value.isVacuous || value.elements?.isSome then .ok [] else .misuse .notIterable := by
  induction fields with
  | nil => rfl
  | cons member fields ih =>
    obtain ⟨key, value⟩ := member
    by_cases hkey : key = "nodes".toList
    · subst hkey
      cases value <;> simp [childrenOfSource, Fields.get]
    · have hne : ("nodes".toList == key) = false := beq_false_of_ne (Ne.symm hkey)
      have hget : Fields.get ((key, value) :: fields) "nodes" = Fields.get fields "nodes" := by
        rw [Fields.get, List.lookup_cons, hne, Fields.get]
      rw [hget, ← ih]
      cases value <;> simp only [childrenOfSource, if_neg hkey]

/-- The objects in a list are read without misuse when each of them is. -/
theorem noMisuse_childrenFromSource {items : List Json}
    (h : ∀ child, .object child ∈ items → NoMisuse (ofSource (.object child))) :
    NoMisuse (childrenFromSource items) := by
  induction items with
  | nil => exact noMisuse_ok []
  | cons item items ih =>
    have hrest := ih fun child hc => h child (List.mem_cons_of_mem _ hc)
    cases item with
    | object child =>
      unfold childrenFromSource
      refine (h child List.mem_cons_self).bind fun node _ => ?_
      exact hrest.bind fun nodes _ => noMisuse_pure (node :: nodes)
    | _ => exact hrest

/-- What an object says of itself is read without misuse. -/
theorem noMisuse_item (fields : Fields) : NoMisuse (OverlayItem.ofSource fields) :=
  (((noMisuse_readOptional_readText _).within _).zip
    (((noMisuse_readOptional_readText _).within _).zip
      ((noMisuse_readOptional_readText _).within _))).bind fun _ _ => noMisuse_pure _

/-- **An exported node of an overlay is read without misuse** when it is a tree of nodes. -/
theorem noMisuse_ofSource {v : Json} (h : OverlayShape v) : NoMisuse (ofSource v) := by
  induction h with
  | @node fields _ parts _ ih =>
    have hchildren : NoMisuse (childrenOfSource fields) := by
      rw [childrenOfSource_eq]
      split
      · next items hitems => exact noMisuse_childrenFromSource fun child => ih items child hitems
      · rw [if_pos (Bool.or_eq_true_iff.2 parts)]
        exact noMisuse_ok []
    unfold ofSource
    refine hchildren.bind fun children _ => ?_
    exact (noMisuse_item fields).bind fun item _ => noMisuse_pure _

end OverlayNode

/-! ### Schema files -/

/-- The value that holds the overlays of a schema file. -/
def overlayValue (file : Fields) : Json :=
  (file.get "alts").orElse ((file.get "alt_structs").orElse (.object []))

/-- The schema of a schema file; one that is vacuous counts as empty. -/
def schemaValue (file : Fields) : Json := (file.get "schema").orElse (.object [])

/-- **What is asked of the schema file of a book.** -/
structure IsSchemaFile (file : Fields) : Prop where
  schema : SchemaShape (schemaValue file)
  dependence : (file.get "dependence").NullOrText
  /-- The objects among the nodes of an overlay are trees of nodes. -/
  overlays : ∀ members name overlay items node, overlayValue file = .object members →
    (name, .object overlay) ∈ members → Fields.get overlay "nodes" = .array items →
      .object node ∈ items → OverlayShape (.object node)
  authors : (file.get "authors").Iterable

/-- The overlay of a member is read without misuse when the objects among its nodes are trees. -/
theorem noMisuse_overlayOfSource? {name : Text} {value : Json}
    (h : ∀ overlay items node, value = .object overlay → Fields.get overlay "nodes" = .array items →
      .object node ∈ items → OverlayShape (.object node)) :
    NoMisuse (overlayOfSource? (name, value)) := by
  unfold overlayOfSource?
  split
  · next overlay heq =>
    injection heq with _ hvalue
    split
    · next items hitems =>
      refine (OverlayNode.noMisuse_childrenFromSource fun node hnode =>
        OverlayNode.noMisuse_ofSource (h overlay items node hvalue hitems hnode)).bind fun _ _ => ?_
      exact (((noMisuse_readOptional_readText _).within _).zip
        ((noMisuse_readOptional_readText _).within _)).bind fun _ _ => noMisuse_pure _
    · exact noMisuse_pure none
  · exact noMisuse_pure none

namespace IsSchemaFile

variable {file : Fields}

/-- The overlays of the file are read without misuse. -/
theorem noMisuse_overlaysOfSource (h : IsSchemaFile file) :
    NoMisuse (overlaysOfSource (.object file)) := by
  rw [overlaysOfSource]
  split
  · next members hmembers =>
    refine (NoMisuse.mapM fun member hm => ?_).bind fun _ _ => noMisuse_pure _
    obtain ⟨name, value⟩ := member
    refine noMisuse_overlayOfSource? fun overlay items node hvalue => ?_
    exact h.overlays members name overlay items node hmembers (hvalue ▸ hm)
  · exact noMisuse_ok []

/-- The authors of the file are read without misuse. -/
theorem noMisuse_authorsIn (h : IsSchemaFile file) : NoMisuse (Corpus.authorsIn file) := by
  obtain ⟨parts, hp⟩ := h.authors.exists_elements?
  rw [Corpus.authorsIn, hp]
  exact noMisuse_ok _

/-- The label of the file's dependence is read without misuse. -/
theorem noMisuse_dependence (h : IsSchemaFile file) :
    NoMisuse (LinkKind.ofLabelValue (file.get "dependence")) := by
  rcases h.dependence with hd | ⟨s, hd⟩
  · rw [hd]
    exact noMisuse_ok none
  · rw [hd]
    exact noMisuse_ok _

/-- **The document of a text file is read without misuse** when its schema file is as is asked. -/
theorem noMisuse_documentOf (h : IsSchemaFile file) (textFile : Fields) (folder : Text)
    (content : Json) : NoMisuse (Corpus.documentOf textFile file folder content) := by
  obtain ⟨schema, hvalue⟩ := h.schema.exists_object
  have htree : SchemaShape (.object schema) := hvalue ▸ h.schema
  unfold Corpus.documentOf
  show NoMisuse (membersOf (schemaValue file) >>= _)
  rw [hvalue]
  show NoMisuse (LinkKind.ofLabelValue (file.get "dependence") >>= _)
  refine h.noMisuse_dependence.bind fun stated _ => ?_
  refine (SchemaNode.noMisuse_ofSource ?_).bind fun node _ => ?_
  · exact (htree.put _ (by decide)).put _ (by decide)
  refine h.noMisuse_overlaysOfSource.bind fun overlays _ => ?_
  refine h.noMisuse_authorsIn.bind fun authors _ => ?_
  exact (((noMisuse_readText _).within _).zip ((noMisuse_readText _).within _)).bind
    fun _ _ => noMisuse_pure _

end IsSchemaFile

end HebrewCorpus
