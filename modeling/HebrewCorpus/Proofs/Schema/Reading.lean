import HebrewCorpus.Proofs.Record.Steps
import HebrewCorpus.Proofs.Schema.Accepted
import HebrewCorpus.Schema.Source

/-! # Schemas that are read

Both readers of schemas check each node once its fields are read, so what they give is accepted at
every depth.

* **`SchemaNode.accepted_of_ofJson`**: the nodes of records.
* **`SchemaNode.accepted_of_ofSource`**: the nodes of a corpus export. -/

namespace HebrewCorpus.SchemaNode

/-- A leaf passes its check when it is read. -/
theorem accepted_of_leafOfFields {fields : Fields} {schema : SchemaNode}
    (h : leafOfFields fields = .ok schema) : schema.Accepted := by
  obtain ⟨implied, -, h⟩ := exists_of_bind_eq_ok h
  obtain ⟨⟨name, depth, names, heNames, kinds, flags⟩, -, h⟩ := exists_of_bind_eq_ok h
  dsimp only at h
  split at h
  · cases h
  · next fits =>
    cases h
    exact .leaf fits

/-- A container of accepted nodes passes its check when it is read. -/
theorem accepted_of_containerOfFields {fields : Fields} {children : Checked (List SchemaNode)}
    {schema : SchemaNode} (h : containerOfFields fields children = .ok schema)
    (below : ∀ nodes, children = .ok nodes → ∀ child ∈ nodes, child.Accepted) : schema.Accepted := by
  obtain ⟨⟨name, nodes⟩, hparts, h⟩ := exists_of_bind_eq_ok h
  dsimp only at h
  split at h
  · cases h
  · next distinct =>
    cases h
    exact .container distinct (below nodes (Checked.zip_eq_ok_iff.1 hparts).2)

mutual

/-- **The node of a record is accepted.** -/
theorem accepted_of_ofJson :
    (value : Json) → ∀ {schema : SchemaNode}, ofJson value = .ok schema → schema.Accepted
  | .object fields, schema, h => by
    rw [ofJson] at h
    split at h
    · cases h
    · split at h
      · rw [Checked.within_eq_ok_iff] at h
        exact accepted_of_containerOfFields h fun nodes hnodes => accepted_of_childrenOf fields hnodes
      · split at h
        · rw [Checked.within_eq_ok_iff] at h
          exact accepted_of_leafOfFields h
        · cases h
    · cases h
  | .null, _, h | .bool _, _, h | .int _, _, h | .real _, _, h | .text _, _, h | .array _, _, h => by
    cases h

/-- The children of a record are accepted. -/
theorem accepted_of_childrenOf :
    (fields : Fields) → ∀ {nodes : List SchemaNode}, childrenOf fields = .ok nodes →
      ∀ child ∈ nodes, child.Accepted
  | [], _, h => by
    cases h
    exact fun child hc => absurd hc List.not_mem_nil
  | (key, value) :: fields, nodes, h => by
    by_cases hkey : key = "children".toList
    · cases value with
      | array items =>
        rw [childrenOf, if_pos hkey, Checked.within_eq_ok_iff] at h
        exact accepted_of_childrenFrom 0 items h
      | null | bool | int | real | text | object =>
        rw [childrenOf, if_pos hkey, Checked.within_eq_ok_iff] at h
        · cases h
        · exact nofun
    · have hrest : childrenOf fields = .ok nodes := by
        cases value <;> simpa only [childrenOf, if_neg hkey] using h
      exact accepted_of_childrenOf fields hrest

/-- The nodes of a list of records are accepted. -/
theorem accepted_of_childrenFrom (i : Nat) :
    (items : List Json) → ∀ {nodes : List SchemaNode}, childrenFrom i items = .ok nodes →
      ∀ child ∈ nodes, child.Accepted
  | [], _, h => by
    cases h
    exact fun child hc => absurd hc List.not_mem_nil
  | item :: items, nodes, h => by
    obtain ⟨⟨node, rest⟩, hparts, h⟩ := exists_of_map_eq_ok h
    obtain ⟨hnode, hrest⟩ := Checked.zip_eq_ok_iff.1 hparts
    subst h
    rw [List.forall_mem_cons]
    exact ⟨accepted_of_ofJson item (Checked.within_eq_ok_iff.1 hnode),
      accepted_of_childrenFrom (i + 1) items hrest⟩

end

/-! ### Nodes of a corpus export -/

mutual

/-- **The node of an exported object is accepted.** -/
theorem accepted_of_ofSource :
    (value : Json) → ∀ {schema : SchemaNode}, ofSource value = .ok schema → schema.Accepted
  | .object fields, schema, h => by
    rw [ofSource] at h
    obtain ⟨children, hchildren, h⟩ := exists_of_bind_eq_ok h
    cases children with
    | some children =>
      obtain ⟨name, -, h⟩ := exists_of_bind_eq_ok h
      split at h
      · cases h
      · next distinct =>
        cases h
        exact .container distinct (accepted_of_childrenOfSource fields hchildren)
    | none =>
      obtain ⟨layout, -, h⟩ := exists_of_bind_eq_ok h
      obtain ⟨name, -, h⟩ := exists_of_bind_eq_ok h
      split at h
      · cases h
      · next fits =>
        cases h
        exact .leaf fits
  | .null, _, h | .bool _, _, h | .int _, _, h | .real _, _, h | .text _, _, h | .array _, _, h => by
    cases h

/-- The children of an exported object are accepted. -/
theorem accepted_of_childrenOfSource :
    (fields : Fields) → ∀ {nodes : List SchemaNode}, childrenOfSource fields = .ok (some nodes) →
      ∀ child ∈ nodes, child.Accepted
  | [], _, h => by cases h
  | (key, value) :: fields, nodes, h => by
    by_cases hkey : key = "nodes".toList
    · cases value with
      | array items =>
        rw [childrenOfSource, if_pos hkey] at h
        obtain ⟨rest, hrest, h⟩ := exists_of_map_eq_ok h
        cases h
        exact accepted_of_childrenFromSource items hrest
      | null | bool | int | real | text | object =>
        rw [childrenOfSource, if_pos hkey] at h
        · split at h
          · cases h
            exact fun child hc => absurd hc List.not_mem_nil
          · cases h
        · exact nofun
    · have hrest : childrenOfSource fields = .ok (some nodes) := by
        cases value <;> simpa only [childrenOfSource, if_neg hkey] using h
      exact accepted_of_childrenOfSource fields hrest

/-- The nodes of a list of exported objects are accepted. -/
theorem accepted_of_childrenFromSource :
    (items : List Json) → ∀ {nodes : List SchemaNode}, childrenFromSource items = .ok nodes →
      ∀ child ∈ nodes, child.Accepted
  | [], _, h => by
    cases h
    exact fun child hc => absurd hc List.not_mem_nil
  | .object fields :: items, nodes, h => by
    rw [childrenFromSource] at h
    obtain ⟨node, hnode, h⟩ := exists_of_bind_eq_ok h
    obtain ⟨rest, hrest, h⟩ := exists_of_bind_eq_ok h
    cases h
    rw [List.forall_mem_cons]
    exact ⟨accepted_of_ofSource (.object fields) hnode, accepted_of_childrenFromSource items hrest⟩
  | .null :: items, _, h | .bool _ :: items, _, h | .int _ :: items, _, h | .real _ :: items, _, h
  | .text _ :: items, _, h | .array _ :: items, _, h => accepted_of_childrenFromSource items h

end

end HebrewCorpus.SchemaNode
