import HebrewCorpus.Schema.Source

/-! # Trimmed schemas

The lists of an exported leaf may have any length and hold values of any kind. Reading one brings
them to the depth, so entries behind those of its levels go nowhere.

* **`fitTo_take`**: what is cut off a fitted list does not matter to it.
* **`SchemaNode.trimmed`**: an exported schema without the entries behind those of the levels, at
  every depth.
* **`SchemaNode.ofSource_trimmed`**: it is read as the same schema. -/

namespace HebrewCorpus

/-! ### Fitted lists -/

/-- Entries behind those that fit are cut off anyway. -/
theorem fitTo_take {α : Type} (length : Nat) (filler : α) (values : List α) :
    fitTo length filler (values.take length) = fitTo length filler values := by
  simp only [fitTo, List.take_append, List.take_take, List.length_take, Nat.min_self]
  by_cases h : length ≤ values.length
  · rw [Nat.min_eq_left h, Nat.sub_self, Nat.sub_eq_zero_of_le h]
  · rw [Nat.min_eq_right (by omega)]

/-- A list that is left out when it is empty is not changed by a cut to its length. -/
theorem fitTo_take_of_isEmpty {α : Type} (length : Nat) (filler : α) (values : List α) :
    (if (values.take length).isEmpty then [] else fitTo length filler values) =
      if values.isEmpty then [] else fitTo length filler values := by
  cases length with
  | zero => simp [fitTo]
  | succ n => cases values <;> rfl

/-- A list in whose place another one is taken when it is empty is not changed by a cut, either. -/
theorem fitTo_take_of_fallback {α : Type} (length : Nat) (filler : α) (own names : List α) :
    fitTo length filler
        (if (own.take length).isEmpty then names.take length else own.take length) =
      fitTo length filler (if own.isEmpty then names else own) := by
  cases length with
  | zero => simp [fitTo]
  | succ n =>
    cases own with
    | nil => exact fitTo_take (n + 1) filler names
    | cons a own => exact fitTo_take (n + 1) filler (a :: own)

/-- Counted names are not cut by their own number. -/
theorem length_take_of_counted {α : Type} {names heNames : List α} {count : Nat}
    (h : (if names.isEmpty then heNames.length else names.length) = count) :
    (if (names.take count).isEmpty then (heNames.take count).length
      else (names.take count).length) = count := by
  cases names with
  | nil => simp_all
  | cons a names =>
    obtain rfl : names.length + 1 = count := h
    simp

namespace LeafLayout

/-- The flag that a value is. -/
def flag? : Json → Option Bool
  | .bool b => some b
  | _ => none

/-- The flags of an exported leaf are those in a list; another value that can be gone through holds
none. -/
theorem sourceFlags_eq (fields : Fields) : sourceFlags fields =
    match fields.get "referenceableSections" with
    | .array items => .ok (items.filterMap flag?)
    | value =>
      if value.isVacuous || value.elements?.isSome then .ok [] else .misuse .notIterable := by
  unfold sourceFlags
  cases fields.get "referenceableSections" with
  | array items => cases items <;> rfl
  | text s => cases s <;> simp [Json.orElse, Json.isVacuous, Json.elements?]
  | object members => cases members <;> simp [Json.orElse, Json.isVacuous, Json.elements?]
  | null => rfl
  | bool b => cases b <;> rfl
  | int n => by_cases h : n = 0 <;> simp [Json.orElse, Json.isVacuous, Json.elements?, h]
  | real x => by_cases h : x.isZero = true <;> simp [Json.orElse, Json.isVacuous, Json.elements?, h]

end LeafLayout

/-! ### Entries behind those of the levels -/

/-- The items of a list without those of a kind behind the first `n` of them. -/
def keepFirst (kind : Json.Kind) : (n : Nat) → (items : List Json) → List Json
  | _, [] => []
  | n, item :: items =>
    if item.kind = kind then
      match n with
      | 0 => keepFirst kind 0 items
      | n + 1 => item :: keepFirst kind n items
    else item :: keepFirst kind n items

/-- The values of the kind that are left are the first ones. -/
theorem filterMap_keepFirst {α : Type} {kind : Json.Kind} {f : Json → Option α}
    (h : ∀ v, (f v).isSome = true ↔ v.kind = kind) (n : Nat) (items : List Json) :
    (keepFirst kind n items).filterMap f = (items.filterMap f).take n := by
  induction items generalizing n with
  | nil => simp [keepFirst]
  | cons item items ih =>
    unfold keepFirst
    by_cases hkind : item.kind = kind
    · obtain ⟨a, ha⟩ := Option.isSome_iff_exists.1 ((h item).2 hkind)
      rw [if_pos hkind]
      cases n with
      | zero => simp [ih]
      | succ n => simp [ha, ih]
    · have hnone : f item = none := by
        rw [← Option.not_isSome_iff_eq_none, h item]
        exact hkind
      rw [if_neg hkind]
      simp [hnone, ih]

/-! ### Trimmed schemas -/

namespace SchemaNode

/-- The members of an exported leaf with one entry per level, and the kind of the entries. -/
def levelMembers : List (Text × Json.Kind) :=
  [("sectionNames".toList, .text), ("heSectionNames".toList, .text),
    ("addressTypes".toList, .text), ("referenceableSections".toList, .bool)]

/-- The items under a key without entries behind those of the levels. -/
def cutEntries (depth : Nat) (key : Text) (items : List Json) : List Json :=
  match levelMembers.lookup key with
  | some kind => keepFirst kind depth items
  | none => items

mutual

/-- **An exported schema without entries behind those of the levels**, at every depth. -/
def trimmed : Json → Json
  | .object fields => .object (trimmedMembers (LeafLayout.sourceDepth fields) fields)
  | value => value

/-- The members of an exported object of some depth without entries behind those of the levels. -/
def trimmedMembers (depth : Nat) : Fields → Fields
  | [] => []
  | (key, value) :: fields => (key, trimmedUnder depth key value) :: trimmedMembers depth fields

/-- The value under a key without entries behind those of the levels. -/
def trimmedUnder (depth : Nat) (key : Text) : Json → Json
  | .array items =>
    .array (if key = "nodes".toList then trimmedItems items else cutEntries depth key items)
  | value => value

/-- The nodes of a list, each without entries behind those of its levels. -/
def trimmedItems : List Json → List Json
  | [] => []
  | item :: items => trimmed item :: trimmedItems items

end

/-! ### Members -/

section Members

variable (depth : Nat) (fields : Fields)

/-- The members of the trimmed object. -/
theorem get_trimmedMembers (name : String) :
    Fields.get (trimmedMembers depth fields) name =
      trimmedUnder depth name.toList (fields.get name) := by
  induction fields with
  | nil => rfl
  | cons member fields ih =>
    obtain ⟨key, value⟩ := member
    rw [trimmedMembers]
    unfold Fields.get at ih ⊢
    by_cases hkey : name.toList = key
    · simp [hkey]
    · rw [List.lookup_cons, List.lookup_cons, beq_false_of_ne hkey]
      exact ih

/-- A member that is neither a list of levels nor one of nodes is not trimmed. -/
theorem trimmedUnder_eq_self {key : Text} (hnodes : key ≠ "nodes".toList)
    (hlevels : levelMembers.lookup key = none) (value : Json) :
    trimmedUnder depth key value = value := by
  cases value <;> simp only [trimmedUnder, if_neg hnodes, cutEntries, hlevels]

/-- The texts of a list of levels are cut to the depth. -/
theorem texts_trimmedUnder {key : Text} (hnodes : key ≠ "nodes".toList)
    (hlevels : levelMembers.lookup key = some .text) {value : Json} :
    (trimmedUnder depth key value).texts = value.texts.take depth := by
  cases value with
  | array items =>
    simp only [trimmedUnder, if_neg hnodes, cutEntries, hlevels]
    refine filterMap_keepFirst ?_ depth items
    intro v
    cases v <;> simp [Json.kind]
  | null | bool | int | real | text | object => simp [trimmedUnder, Json.texts]

/-- The name of an object is not trimmed. -/
theorem ofSource_name_trimmedMembers :
    NodeName.ofSource (trimmedMembers depth fields) = NodeName.ofSource fields := by
  have hkept (name : String) (hnodes : name.toList ≠ "nodes".toList)
      (hlevels : levelMembers.lookup name.toList = none) :
      Fields.get (trimmedMembers depth fields) name = fields.get name := by
    rw [get_trimmedMembers, trimmedUnder_eq_self depth hnodes hlevels]
  rw [NodeName.ofSource, NodeName.ofSource, hkept "title" (by decide) (by decide),
    hkept "heTitle" (by decide) (by decide), hkept "key" (by decide) (by decide)]

/-- The flags of a leaf are cut to the depth. -/
theorem sourceFlags_trimmedMembers :
    LeafLayout.sourceFlags (trimmedMembers depth fields) =
      (LeafLayout.sourceFlags fields).map (·.take depth) := by
  have hnodes : "referenceableSections".toList ≠ "nodes".toList := by decide
  have hlevels : levelMembers.lookup "referenceableSections".toList = some .bool := by decide
  have hflag : ∀ v : Json, (LeafLayout.flag? v).isSome = true ↔ v.kind = .bool := by
    intro v
    cases v <;> simp [LeafLayout.flag?, Json.kind]
  rw [LeafLayout.sourceFlags_eq, LeafLayout.sourceFlags_eq, get_trimmedMembers]
  cases fields.get "referenceableSections" with
  | array items =>
    simp only [trimmedUnder, if_neg hnodes, cutEntries, hlevels, filterMap_keepFirst hflag]
    rfl
  | null | bool | int | real | text | object =>
    simp only [trimmedUnder]
    split
    · simp [Except.map]
    · rfl

end Members

section Leaves

variable {fields : Fields} {depth : Nat}

/-- The names of a leaf are cut to the depth. -/
theorem texts_trimmedMembers (depth : Nat) (fields : Fields) :
    ∀ name ∈ ["sectionNames", "heSectionNames", "addressTypes"],
      (Fields.get (trimmedMembers depth fields) name).texts =
        (fields.get name).texts.take depth := by
  intro name hname
  rw [get_trimmedMembers]
  refine texts_trimmedUnder depth ?_ ?_ <;> revert name <;> decide

/-- The depth of a leaf is that of the trimmed object. -/
theorem sourceDepth_trimmedMembers (h : LeafLayout.sourceDepth fields = depth) :
    LeafLayout.sourceDepth (trimmedMembers depth fields) = depth := by
  have hget : Fields.get (trimmedMembers depth fields) "depth" = fields.get "depth" := by
    rw [get_trimmedMembers, trimmedUnder_eq_self depth (by decide) (by decide)]
  have htexts := texts_trimmedMembers depth fields
  unfold LeafLayout.sourceDepth at h ⊢
  rw [hget, htexts "sectionNames" (by simp), htexts "heSectionNames" (by simp)]
  -- only a counted depth looks at the lists
  cases hdepth : fields.get "depth" with
  | int n =>
    rw [hdepth] at h
    by_cases hneg : n < 0
    · simp only [if_pos hneg] at h ⊢
      exact length_take_of_counted h
    · simp only [if_neg hneg] at h ⊢
      exact h
  | bool b =>
    rw [hdepth] at h
    exact h
  | null | real | text | array | object =>
    rw [hdepth] at h
    exact length_take_of_counted h

/-- The levels of a leaf are those of the trimmed object. -/
theorem ofSource_layout_trimmedMembers (fields : Fields) :
    LeafLayout.ofSource (trimmedMembers (LeafLayout.sourceDepth fields) fields) =
      LeafLayout.ofSource fields := by
  have htexts := texts_trimmedMembers (LeafLayout.sourceDepth fields) fields
  unfold LeafLayout.ofSource LeafLayout.listDepth
  rw [sourceFlags_trimmedMembers, sourceDepth_trimmedMembers rfl, htexts "sectionNames" (by simp),
    htexts "heSectionNames" (by simp), htexts "addressTypes" (by simp)]
  cases LeafLayout.sourceFlags fields with
  | error refusal => rfl
  | ok flags =>
    by_cases hdepth : LeafLayout.maxEntries < LeafLayout.sourceDepth fields
    · simp only [if_pos hdepth]
      rfl
    · simp only [Except.map, if_neg hdepth, bind, Except.bind, fitTo_take, fitTo_take_of_isEmpty,
        fitTo_take_of_fallback]

end Leaves

mutual

/-- **Entries behind those of the levels go nowhere**, at every depth. -/
theorem ofSource_trimmed : (value : Json) → ofSource (trimmed value) = ofSource value
  | .object fields => by
    rw [trimmed, ofSource, ofSource, childrenOfSource_trimmedMembers _ fields,
      ofSource_layout_trimmedMembers, ofSource_name_trimmedMembers]
  | .null | .bool _ | .int _ | .real _ | .text _ | .array _ => rfl

/-- The children of an object are those of the trimmed object. -/
theorem childrenOfSource_trimmedMembers (depth : Nat) :
    (fields : Fields) → childrenOfSource (trimmedMembers depth fields) = childrenOfSource fields
  | [] => rfl
  | (key, value) :: fields => by
    have hrest := childrenOfSource_trimmedMembers depth fields
    rw [trimmedMembers]
    by_cases hkey : key = "nodes".toList
    · cases value with
      | array items =>
        simp only [trimmedUnder, if_pos hkey, childrenOfSource]
        rw [childrenFromSource_trimmedItems items]
      | null | bool | int | real | text | object =>
        simp only [trimmedUnder, childrenOfSource, if_pos hkey]
    · cases value <;> simp only [trimmedUnder, childrenOfSource, if_neg hkey, hrest]

/-- The nodes of a list are those of the trimmed ones. -/
theorem childrenFromSource_trimmedItems :
    (items : List Json) → childrenFromSource (trimmedItems items) = childrenFromSource items
  | [] => rfl
  | item :: items => by
    have hitem := ofSource_trimmed item
    have hitems := childrenFromSource_trimmedItems items
    cases item with
    | object fields =>
      rw [trimmed] at hitem
      rw [trimmedItems, trimmed, childrenFromSource, childrenFromSource, hitem, hitems]
    | null | bool | int | real | text | array =>
      simp only [trimmedItems, trimmed, childrenFromSource]
      exact hitems

end

end SchemaNode

end HebrewCorpus
