import HebrewCorpus.Proofs.Schema.Nodes
import HebrewCorpus.Proofs.Schema.Reading
import HebrewCorpus.Proofs.Schema.Trimmed

/-! # Fitted schemas

The lists of an exported leaf are fitted to its depth when it is read, so the leaf passes its check.
What is left to go wrong are names: keys and titles that are no texts, and keys that are used twice.

* **`LeafLayout.fitsDepth_ofSource`**: the lists of a leaf that is read fit its depth.
* **`Checked.OnlyFaults`**: a reading all of whose faults are of one sort; `onlyFaults_ofSource`
  says so of exported schemas.
* **`SchemaNode.fitted_ofSource`**: what holds of every exported schema. -/

namespace HebrewCorpus

/-! ### Leaves -/

namespace LeafLayout

/-- **The lists of an exported leaf fit its depth** when they are read. -/
theorem fitsDepth_ofSource {fields : Fields} {layout : LeafLayout}
    (h : ofSource fields = .ok layout) : layout.FitsDepth := by
  obtain ⟨flags, -, h⟩ := exists_of_bind_eq_ok h
  obtain ⟨depth, -, h⟩ := exists_of_bind_eq_ok h
  cases h
  constructor
  · simp
  · simp
  · dsimp only
    split <;> simp
  · dsimp only
    split <;> simp

end LeafLayout

/-! ### Faults -/

namespace Checked

variable {α β : Type} {P : Fault → Prop}

/-- **A reading all of whose faults are of one sort.** -/
def OnlyFaults (P : Fault → Prop) (a : Checked α) : Prop :=
  ∀ faults, a = .error (.invalid faults) → ∀ f ∈ faults, P f

/-- A value has no faults. -/
theorem onlyFaults_ok (x : α) : OnlyFaults P (.ok x : Checked α) := fun _ h => nomatch h

/-- A misuse has no faults. -/
theorem onlyFaults_misuse (m : Misuse) : OnlyFaults P (misuse m : Checked α) := fun _ h => nomatch h

/-- A single fault. -/
theorem onlyFaults_fault {kind : FaultKind} (h : P ⟨[], kind⟩) :
    OnlyFaults P (fault kind : Checked α) := by
  intro faults hfault f hf
  cases hfault
  rwa [List.mem_singleton.1 hf]

namespace OnlyFaults

variable {a : Checked α} {b : Checked β}

/-- The faults of two readings together are those of both. -/
theorem zip (ha : OnlyFaults P a) (hb : OnlyFaults P b) : OnlyFaults P (a.zip b) := by
  intro faults h f hf
  rcases a with (m | fs) | x <;> rcases b with (n | gs) | y <;> cases h
  · rcases List.mem_append.1 hf with hf | hf
    · exact ha fs rfl f hf
    · exact hb gs rfl f hf
  · exact ha faults rfl f hf
  · exact hb faults rfl f hf

/-- A reading that goes on has the faults of what follows. -/
theorem bind {f : α → Checked β} (ha : OnlyFaults P a) (hf : ∀ x, a = .ok x → OnlyFaults P (f x)) :
    OnlyFaults P (a >>= f) := by
  rcases a with refusal | x
  · intro faults h
    cases h
    exact ha faults rfl
  · exact hf x rfl

/-- What is made of the value has the same faults. -/
theorem map (ha : OnlyFaults P a) (f : α → β) : OnlyFaults P (Except.map f a) :=
  bind (f := fun x => .ok (f x)) ha fun x _ => onlyFaults_ok (f x)

end OnlyFaults

end Checked

open Checked

/-- **A fault of a name**: a key or a title that is no text, or a key that two children answer to. -/
def Fault.IsOfName (f : Fault) : Prop :=
  (∃ name ∈ ["key", "title", "he_title"], f = ⟨[name.toList], .notText⟩) ∨
    ∃ key parent, f = ⟨[], .rejected (.duplicateChild key parent)⟩

/-- A name that is no text is a fault of that name. -/
theorem onlyFaults_readText {name : String} (hname : name ∈ ["key", "title", "he_title"])
    (value : Json) : OnlyFaults Fault.IsOfName ((readText value).within name.toList) := by
  cases value with
  | text s => exact onlyFaults_ok s
  | null | bool | int | real | array | object =>
    intro faults h f hf
    cases h
    exact .inl ⟨name, hname, List.mem_singleton.1 hf⟩

namespace SchemaNode

/-- The names of an object have such faults only. -/
theorem onlyFaults_name (fields : Fields) :
    OnlyFaults Fault.IsOfName (NodeName.ofSource fields) := by
  unfold NodeName.ofSource
  exact ((onlyFaults_readText (by simp) _).zip ((onlyFaults_readText (by simp) _).zip
    (onlyFaults_readText (by simp) _))).map _

/-- The levels of a leaf have no faults. -/
theorem onlyFaults_layout {P : Fault → Prop} (fields : Fields) :
    OnlyFaults P (LeafLayout.ofSource fields) := by
  have hflags : OnlyFaults P (LeafLayout.sourceFlags fields) := by
    unfold LeafLayout.sourceFlags
    split
    · exact onlyFaults_ok _
    · exact onlyFaults_misuse _
  have hdepth : OnlyFaults P (LeafLayout.listDepth fields) := by
    unfold LeafLayout.listDepth
    split
    · exact onlyFaults_misuse _
    · exact onlyFaults_ok _
  exact hflags.bind fun flags _ => hdepth.bind fun depth _ => onlyFaults_ok _

mutual

/-- **An exported schema has faults of names only**: none is about its levels. -/
theorem onlyFaults_ofSource :
    (value : Json) → OnlyFaults Fault.IsOfName (ofSource value)
  | .object fields => by
    unfold ofSource
    refine (onlyFaults_childrenOfSource fields).bind fun children _ => ?_
    cases children with
    | some children =>
      refine (onlyFaults_name fields).bind fun name _ => ?_
      cases hduplicate : duplicateChild? name children with
      | none => exact onlyFaults_ok _
      | some reason =>
        obtain ⟨key, -, rfl⟩ := Option.map_eq_some_iff.1 hduplicate
        exact onlyFaults_fault (.inr ⟨key, name.title, rfl⟩)
    | none =>
      refine (onlyFaults_layout fields).bind fun layout hlayout => ?_
      refine (onlyFaults_name fields).bind fun name _ => ?_
      -- the lists were fitted, so they pass their check
      rw [(LeafLayout.fitsDepth_ofSource hlayout).rejection?_eq_none]
      exact onlyFaults_ok _
  | .null | .bool _ | .int _ | .real _ | .text _ | .array _ => onlyFaults_misuse _

/-- The children of an object have such faults only. -/
theorem onlyFaults_childrenOfSource :
    (fields : Fields) → OnlyFaults Fault.IsOfName (childrenOfSource fields)
  | [] => onlyFaults_ok _
  | (key, value) :: fields => by
    have hrest := onlyFaults_childrenOfSource fields
    by_cases hkey : key = "nodes".toList
    · cases value with
      | array items =>
        rw [childrenOfSource, if_pos hkey]
        exact (onlyFaults_childrenFromSource items).map _
      | null | bool | int | real | text | object =>
        simp only [childrenOfSource, if_pos hkey]
        split
        · exact onlyFaults_ok _
        · exact onlyFaults_misuse _
    · cases value <;> simpa only [childrenOfSource, if_neg hkey] using hrest

/-- The nodes of a list have such faults only. -/
theorem onlyFaults_childrenFromSource :
    (items : List Json) → OnlyFaults Fault.IsOfName (childrenFromSource items)
  | [] => onlyFaults_ok _
  | .object fields :: items => by
    rw [childrenFromSource]
    exact (onlyFaults_ofSource (.object fields)).bind fun node _ =>
      (onlyFaults_childrenFromSource items).bind fun nodes _ => onlyFaults_ok _
  | .null :: items | .bool _ :: items | .int _ :: items | .real _ :: items | .text _ :: items
  | .array _ :: items => onlyFaults_childrenFromSource items

end

/-- **An exported schema is fitted when it is read.** Every leaf of the result has lists that fit
its depth, entries behind those of the levels go nowhere, and if the schema is refused, this is for
its names alone. -/
theorem fitted_ofSource (value : Json) :
    (∀ schema, ofSource value = .ok schema →
      ∀ name layout, .leaf name layout ∈ schema.nodes → layout.FitsDepth) ∧
    ofSource (trimmed value) = ofSource value ∧
    ∀ faults, ofSource value = .error (.invalid faults) → ∀ f ∈ faults, f.IsOfName := by
  refine ⟨fun schema hread name layout hleaf => ?_, ofSource_trimmed value,
    onlyFaults_ofSource value⟩
  have haccepted := accepted_of_mem_nodes schema (accepted_of_ofSource value hread) _ hleaf
  cases haccepted with
  | leaf fits => exact LeafLayout.fitsDepth_of_rejection? fits

/-- An exported container of two leaves whose lists do not fit: the depth of the first one is written
as a truth value, and the second one has a depth below zero and no English names. -/
def untidySource : Json :=
  .object [("title".toList, .text "Tur".toList), ("nodes".toList, .array [
    .object [("title".toList, .text "Orach Chayim".toList), ("depth".toList, .bool true),
      ("sectionNames".toList, .array [.int 3, .text "Siman".toList, .text "Seif".toList]),
      ("heSectionNames".toList, .array [.text "סימן".toList, .null, .text "סעיף".toList]),
      ("referenceableSections".toList, .array [.text "no".toList, .bool false, .bool true])],
    .int 7,
    .object [("title".toList, .text "Yoreh Deah".toList), ("depth".toList, .int (-2)),
      ("heSectionNames".toList, .array [.text "סימן".toList, .text "סעיף".toList]),
      ("addressTypes".toList, .array [.text "Siman".toList])]])]

/-- An object whose key is no text. -/
def unnamedSource : Json := .object [("key".toList, .int 5), ("depth".toList, .int (-1))]

/-- The two leaves have one and two levels, and without the entries behind those of the levels the
container is read as the same. A key that is no text is the only fault of the other object. -/
theorem fitted_ofSource_untidy :
    (∃ schema, ofSource untidySource = .ok schema ∧
      (∀ name layout, .leaf name layout ∈ schema.nodes → layout.FitsDepth) ∧
      ofSource (trimmed untidySource) = .ok schema ∧
      schema.nodes.map (fun | .leaf _ layout => layout.sectionNames | _ => []) =
        [[], ["Siman".toList], [[], []]]) ∧
    ∃ faults, ofSource unnamedSource = .error (.invalid faults) ∧ faults.length = 1 ∧
      ∀ f ∈ faults, f.IsOfName := by
  constructor
  · obtain ⟨hfits, htrimmed, -⟩ := fitted_ofSource untidySource
    have hnames : (ofSource untidySource).toOption.map
        (fun n => n.nodes.map fun | .leaf _ layout => layout.sectionNames | _ => []) =
          some [[], ["Siman".toList], [[], []]] := by
      decide +kernel
    cases hread : ofSource untidySource with
    | error refusal =>
      rw [hread] at hnames
      cases hnames
    | ok schema =>
      rw [hread] at hnames htrimmed
      exact ⟨schema, rfl, hfits schema hread, htrimmed, Option.some.inj hnames⟩
  · obtain ⟨-, -, hfaults⟩ := fitted_ofSource unnamedSource
    exact ⟨_, rfl, rfl, hfaults _ rfl⟩

end SchemaNode

end HebrewCorpus
