import HebrewCorpus.Book.LineMap
import HebrewCorpus.Proofs.Import.Numbers
import HebrewCorpus.Proofs.Store.Rows

/-! # Lines and the entries above them

* **`keeps_startsOf`**: the starts of anchors.
* **`map_fst_mapLines_sublist`**: lines are mapped in their order, each at most once.
* **`map_fst_mapLines`**: when an entry starts at the first line, every line is mapped.
* **`exists_anchor_of_mem_mapLines`**: lines are mapped to the given entries only. -/

namespace HebrewCorpus

/-! ### Starts -/

/-- Starts are a table of entries under lines. -/
theorem putStart_eq_put (line entry : Int) (starts : Table Int) :
    putStart line entry starts = starts.put line entry := by
  induction starts with
  | nil => rfl
  | cons s starts ih => rw [putStart, Table.put, ih]

/-- What is among starts after an entry was put there. -/
theorem mem_putStart {line entry : Int} {starts : List (Int × Int)} {s : Int × Int}
    (h : s ∈ putStart line entry starts) : s = (line, entry) ∨ s ∈ starts := by
  rw [putStart_eq_put] at h
  exact Table.mem_of_mem_put h

/-- **Starts stay in ascending order** when an entry is put among them. -/
theorem pairwise_putStart (line entry : Int) {starts : List (Int × Int)}
    (h : starts.Pairwise (·.1 < ·.1)) : (putStart line entry starts).Pairwise (·.1 < ·.1) := by
  rw [putStart_eq_put]
  exact Table.Ascends.put h line entry

/-- **The starts of anchors** keep the last anchor of each line. -/
theorem keeps_startsOf (anchors : List (Int × Int)) : Table.Keeps (startsOf anchors) anchors := by
  have hnil : Table.Keeps ([] : Table Int) [] := ⟨.nil, fun _ => rfl⟩
  have hstarts : startsOf anchors = Table.putAll anchors [] := by
    simp only [startsOf, Table.putAll, putStart_eq_put]
  rw [hstarts]
  exact hnil.putAll anchors

/-- **The starts of anchors** are in ascending order and taken from the anchors, and every line with
an anchor has a start. -/
theorem startsOf_spec (anchors : List (Int × Int)) :
    (startsOf anchors).Pairwise (·.1 < ·.1) ∧ (∀ s ∈ startsOf anchors, s ∈ anchors) ∧
      ∀ a ∈ anchors, a.1 ∈ (startsOf anchors).map (·.1) := by
  have hkeeps := keeps_startsOf anchors
  refine ⟨hkeeps.ascends, fun s hs => ?_, fun a ha => ?_⟩
  · have hfound : (startsOf anchors).lookup s.1 = some s.2 :=
      (Table.lookup_eq_some_iff_mem hkeeps.ascends.distinct).2 hs
    rw [← Table.find?, hkeeps.find?_eq] at hfound
    obtain ⟨back, front, hsplit, -⟩ := List.lookup_eq_some_iff.1 hfound
    rw [← List.mem_reverse, hsplit]
    exact List.mem_append_right back List.mem_cons_self
  · refine Decidable.byContradiction fun hnot => ?_
    have hnone := Table.find?_eq_none_iff.2 hnot
    rw [hkeeps.find?_eq, List.lookup_eq_none_iff] at hnone
    exact absurd rfl (bne_iff_ne.1 (hnone a (List.mem_reverse.2 ha)))

/-! ### The sweep -/

/-- The entry in force after starts were passed is the one before or one of the starts passed. -/
theorem mem_of_passStarts {line entry : Int} {current : Option Int} {starts : List (Int × Int)}
    (h : (passStarts line current starts).1 = some entry ∨
      entry ∈ (passStarts line current starts).2.map (·.2)) :
    current = some entry ∨ entry ∈ starts.map (·.2) := by
  induction starts generalizing current with
  | nil => exact h
  | cons s starts ih =>
    unfold passStarts at h
    split at h
    · rcases ih h with hc | hm
      · exact .inr (Option.some.inj hc ▸ List.mem_cons_self)
      · exact .inr (List.mem_cons_of_mem _ hm)
    · exact h

/-- An entry in force stays in force until another one is. -/
theorem isSome_passStarts {line : Int} {current : Option Int} (h : current.isSome)
    (starts : List (Int × Int)) : (passStarts line current starts).1.isSome := by
  induction starts generalizing current with
  | nil => exact h
  | cons s starts ih =>
    unfold passStarts
    split
    · exact ih rfl
    · exact h

/-- **The sweep numbers its lines one after the other**, and leaves out lines without an entry. -/
theorem map_fst_sweepLines_sublist (firstId : Int) (count : Nat) (line : Int)
    (current : Option Int) (starts : List (Int × Int)) :
    ((sweepLines firstId count line current starts).map (·.1)).Sublist
      (numbersFrom (firstId + line) count) := by
  induction count generalizing line current starts with
  | zero => exact .slnil
  | succ count ih =>
    -- whether the line has an entry or not, the rest goes on with the next number
    have htail := ih (line + 1) (passStarts line current starts).1 (passStarts line current starts).2
    rw [← Int.add_assoc] at htail
    rw [sweepLines, numbersFrom]
    dsimp only
    split
    · exact htail.cons_cons _
    · exact htail.cons _

/-- **The sweep leaves out no line** once an entry is in force. -/
theorem map_fst_sweepLines (firstId : Int) (count : Nat) {line : Int} {current : Option Int}
    {starts : List (Int × Int)} (h : (passStarts line current starts).1.isSome) :
    (sweepLines firstId count line current starts).map (·.1) =
      numbersFrom (firstId + line) count := by
  -- as many lines as possible are mapped, so none was left out
  refine (map_fst_sweepLines_sublist firstId count line current starts).eq_of_length ?_
  rw [List.length_map, length_numbersFrom]
  induction count generalizing line current starts with
  | zero => rfl
  | succ count ih =>
    obtain ⟨entry, he⟩ := Option.isSome_iff_exists.1 h
    rw [sweepLines]
    dsimp only
    rw [he]
    exact congrArg Nat.succ (ih (isSome_passStarts rfl _))

/-- The sweep maps lines to entries that are or come into force. -/
theorem mem_of_mem_sweepLines {firstId : Int} {count : Nat} {line : Int} {current : Option Int}
    {starts : List (Int × Int)} {p : Int × Int}
    (h : p ∈ sweepLines firstId count line current starts) :
    current = some p.2 ∨ p.2 ∈ starts.map (·.2) := by
  induction count generalizing line current starts with
  | zero => cases h
  | succ count ih =>
    rw [sweepLines] at h
    dsimp only at h
    split at h
    · next entry he =>
      rcases List.mem_cons.1 h with rfl | h
      · exact mem_of_passStarts (.inl he)
      · exact mem_of_passStarts (ih h)
    · exact mem_of_passStarts (ih h)

/-! ### Lines and their entries -/

/-- **Lines are mapped in their order**, each at most once. -/
theorem map_fst_mapLines_sublist (anchors : List (Int × Int)) (firstId : Int) (total : Nat) :
    ((mapLines anchors firstId total).map (·.1)).Sublist (numbersFrom firstId total) := by
  have h := map_fst_sweepLines_sublist firstId total 0 none (startsOf anchors)
  rwa [Int.add_zero] at h

/-- **Every line is mapped** when an entry starts at the first line. -/
theorem map_fst_mapLines {anchors : List (Int × Int)} {entry : Int} (h : (0, entry) ∈ anchors)
    (firstId : Int) (total : Nat) :
    (mapLines anchors firstId total).map (·.1) = numbersFrom firstId total := by
  obtain ⟨hsorted, -, hall⟩ := startsOf_spec anchors
  have hzero : (0 : Int) ∈ (startsOf anchors).map (·.1) := hall _ h
  -- the first start is at line 0, so an entry is in force from the first line on
  have hpassed : (passStarts 0 none (startsOf anchors)).1.isSome := by
    cases hs : startsOf anchors with
    | nil =>
      rw [hs] at hzero
      cases hzero
    | cons s starts =>
      rw [hs] at hsorted hzero
      have hle : s.1 ≤ 0 := by
        rcases List.mem_cons.1 hzero with h0 | h0
        · exact Int.le_of_eq h0.symm
        · obtain ⟨t, ht, ht0⟩ := List.mem_map.1 h0
          have := (List.pairwise_cons.1 hsorted).1 t ht
          omega
      rw [passStarts, if_pos hle]
      exact isSome_passStarts rfl _
  have hmap := map_fst_sweepLines firstId total hpassed
  rwa [Int.add_zero] at hmap

/-- **Lines are mapped to the given entries only.** -/
theorem exists_anchor_of_mem_mapLines {anchors : List (Int × Int)} {firstId total : Int}
    {p : Int × Int} (h : p ∈ mapLines anchors firstId total) : ∃ a ∈ anchors, a.2 = p.2 := by
  rcases mem_of_mem_sweepLines h with hc | hm
  · cases hc
  · obtain ⟨s, hs, hp⟩ := List.mem_map.1 hm
    exact ⟨s, (startsOf_spec anchors).2.1 s hs, hp⟩

end HebrewCorpus
