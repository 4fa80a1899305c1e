import HebrewCorpus.Proofs.Book.LineMap
import Mathlib.Data.List.Basic

/-! # Entries in force

A line belongs to the entry of the last start at it or before it. The sweep over ascending starts
finds that entry for every line, and for anchors that are already in order it is the last anchor.

* **`entryAt?`**: the entry of the last start up to a line.
* **`mapLines_eq`**: lines are mapped to the entries of the starts in force.
* **`mapLines_of_ascending`**: the same for anchors in order, without a detour over starts. -/

namespace HebrewCorpus

/-- **The entry of the last start** at a line or before it. -/
def entryAt? (line : Int) (starts : List (Int × Int)) : Option Int :=
  (starts.filter (·.1 ≤ line)).getLast?.map (·.2)

/-! ### Ascending starts -/

section Ascending

variable {starts : List (Int × Int)}

/-- No start is up to a line that all starts are after. -/
theorem filter_le_of_later {line : Int} (h : ∀ s ∈ starts, line < s.1) :
    starts.filter (·.1 ≤ line) = [] := by
  rw [List.filter_eq_nil_iff]
  intro s hs
  simpa using h s hs

/-- All starts are after a line that none is up to. -/
theorem filter_lt_of_later {line : Int} (h : ∀ s ∈ starts, line < s.1) :
    starts.filter (line < ·.1) = starts := by
  rw [List.filter_eq_self]
  intro s hs
  simpa using h s hs

/-- Ascending starts are all after a line that the first one is after. -/
theorem later_of_first {line : Int} {s : Int × Int} (h : (s :: starts).Pairwise (·.1 < ·.1))
    (hs : line < s.1) : ∀ t ∈ s :: starts, line < t.1 := by
  intro t ht
  rcases List.mem_cons.1 ht with rfl | ht
  · exact hs
  · exact Int.lt_trans hs ((List.pairwise_cons.1 h).1 t ht)

/-- Ascending starts are those up to a line, and then those after it. -/
theorem filter_le_append_filter_lt (line : Int) (h : starts.Pairwise (·.1 < ·.1)) :
    starts.filter (·.1 ≤ line) ++ starts.filter (line < ·.1) = starts := by
  induction starts with
  | nil => rfl
  | cons s starts ih =>
    by_cases hle : s.1 ≤ line
    · rw [List.filter_cons_of_pos (by simpa using hle), List.filter_cons_of_neg (by simpa using hle),
        List.cons_append, ih (List.pairwise_cons.1 h).2]
    · have hlater := later_of_first h (by omega : line < s.1)
      rw [filter_le_of_later hlater, filter_lt_of_later hlater, List.nil_append]

/-- **To pass starts** is to take the entry of the last one up to the line. -/
theorem passStarts_eq (line : Int) (current : Option Int) (h : starts.Pairwise (·.1 < ·.1)) :
    passStarts line current starts =
      ((entryAt? line starts).or current, starts.filter (line < ·.1)) := by
  induction starts generalizing current with
  | nil => rfl
  | cons s starts ih =>
    unfold passStarts entryAt?
    split
    · next hle =>
      rw [ih _ (List.pairwise_cons.1 h).2, List.filter_cons_of_pos (by simpa using hle),
        List.filter_cons_of_neg (by simpa using hle), List.getLast?_cons, entryAt?]
      cases (starts.filter (·.1 ≤ line)).getLast? <;> rfl
    · next hle =>
      have hlater := later_of_first h (by omega : line < s.1)
      rw [filter_le_of_later hlater, filter_lt_of_later hlater]
      rfl

/-- The entry at a later line is that of a start in between, or else the entry at the earlier one. -/
theorem entryAt?_of_le {line later : Int} (hle : line ≤ later) (h : starts.Pairwise (·.1 < ·.1)) :
    entryAt? later starts =
      (entryAt? later (starts.filter (line < ·.1))).or (entryAt? line starts) := by
  have hearlier : (starts.filter (·.1 ≤ line)).filter (·.1 ≤ later) = starts.filter (·.1 ≤ line) := by
    rw [List.filter_eq_self]
    intro s hs
    have hs := (List.mem_filter.1 hs).2
    simp only [decide_eq_true_eq] at hs ⊢
    omega
  calc entryAt? later starts
      = entryAt? later (starts.filter (·.1 ≤ line) ++ starts.filter (line < ·.1)) := by
        rw [filter_le_append_filter_lt line h]
    _ = _ := by
        rw [entryAt?, List.filter_append, hearlier, List.getLast?_append, Option.map_or]
        rfl

/-- **The sweep gives each line the entry in force there.** -/
theorem sweepLines_eq (firstId : Int) (count : Nat) (line : Int) (current : Option Int)
    (h : starts.Pairwise (·.1 < ·.1)) :
    sweepLines firstId count line current starts =
      (numbersFrom line count).filterMap fun i =>
        ((entryAt? i starts).or current).map (firstId + i, ·) := by
  induction count generalizing line current starts with
  | zero => rfl
  | succ count ih =>
    -- what is in force at the first line stays so until a later start
    have hrest : sweepLines firstId count (line + 1) ((entryAt? line starts).or current)
        (starts.filter (line < ·.1)) = (numbersFrom (line + 1) count).filterMap fun i =>
          ((entryAt? i starts).or current).map (firstId + i, ·) := by
      rw [ih _ _ (h.filter _)]
      refine List.filterMap_congr fun i hi => ?_
      have hle : line ≤ i := by
        have := (mem_numbersFrom.1 hi).1
        omega
      rw [entryAt?_of_le hle h, Option.or_assoc]
    rw [sweepLines, passStarts_eq line current h]
    dsimp only
    rw [hrest, numbersFrom, List.filterMap_cons]
    cases (entryAt? line starts).or current <;> rfl

/-- **To put an entry among ascending starts** is to put it between the earlier and the later
ones. -/
theorem putStart_eq (line entry : Int) (h : starts.Pairwise (·.1 < ·.1)) :
    putStart line entry starts =
      starts.filter (·.1 < line) ++ (line, entry) :: starts.filter (line < ·.1) := by
  induction starts with
  | nil => rfl
  | cons s starts ih =>
    have hnone (hle : line ≤ s.1) : (s :: starts).filter (·.1 < line) = [] := by
      rw [List.filter_eq_nil_iff]
      intro t ht
      have ht : t = s ∨ s.1 < t.1 :=
        (List.mem_cons.1 ht).imp_right fun ht => (List.pairwise_cons.1 h).1 t ht
      simp only [decide_eq_true_eq]
      rcases ht with rfl | ht <;> omega
    unfold putStart
    split
    · next hlt => rw [hnone (Int.le_of_lt hlt), filter_lt_of_later (later_of_first h hlt)]; rfl
    · next hlt =>
      split
      · next heq =>
        have hlater : ∀ t ∈ starts, line < t.1 := heq ▸ (List.pairwise_cons.1 h).1
        rw [hnone (Int.le_of_eq heq), List.filter_cons_of_neg (by simp; omega),
          filter_lt_of_later hlater]
        rfl
      · next hne =>
        rw [ih (List.pairwise_cons.1 h).2, List.filter_cons_of_pos (by simp; omega),
          List.filter_cons_of_neg (by simp; omega), List.cons_append]

end Ascending

/-! ### Lines and their entries -/

/-- **Lines are mapped to the entries of the starts in force.** -/
theorem mapLines_eq (anchors : List (Int × Int)) (firstId total : Int) :
    mapLines anchors firstId total =
      (numbersFrom 0 total.toNat).filterMap fun i =>
        (entryAt? i (startsOf anchors)).map (firstId + i, ·) := by
  rw [mapLines, sweepLines_eq firstId total.toNat 0 none (startsOf_spec anchors).1]
  simp only [Option.or_none]

/-- An entry put behind all starts is in force from its line on. -/
theorem entryAt?_putStart {starts : List (Int × Int)} (h : starts.Pairwise (·.1 < ·.1))
    {line : Int} (hlast : ∀ s ∈ starts, s.1 ≤ line) (entry i : Int) :
    entryAt? i (putStart line entry starts) =
      if line ≤ i then some entry else entryAt? i starts := by
  have hnone : starts.filter (line < ·.1) = [] := by
    rw [List.filter_eq_nil_iff]
    intro s hs
    simpa using hlast s hs
  rw [putStart_eq line entry h, hnone, entryAt?, List.filter_append]
  split
  · next hle => simp [hle]
  · next hle =>
    -- the starts up to an earlier line are all before the new one
    have hsame : (starts.filter (·.1 < line)).filter (·.1 ≤ i) = starts.filter (·.1 ≤ i) := by
      rw [List.filter_filter]
      refine List.filter_congr fun s _ => ?_
      rw [Bool.eq_iff_iff, Bool.and_eq_true, decide_eq_true_eq, decide_eq_true_eq]
      omega
    rw [hsame, List.filter_cons_of_neg (by simpa using hle), List.filter_nil, List.append_nil,
      entryAt?]

/-- **Anchors in order are in force themselves**: of two at one line the later one counts. -/
theorem entryAt?_startsOf {anchors : List (Int × Int)} (h : anchors.Pairwise (·.1 ≤ ·.1)) (i : Int) :
    entryAt? i (startsOf anchors) = entryAt? i anchors := by
  -- the fold is generalised over starts that are not after any anchor
  have grow (starts : List (Int × Int)) (hs : starts.Pairwise (·.1 < ·.1))
      (hbefore : ∀ s ∈ starts, ∀ a ∈ anchors, s.1 ≤ a.1) :
      entryAt? i (anchors.foldl (fun starts a => putStart a.1 a.2 starts) starts) =
        (entryAt? i anchors).or (entryAt? i starts) := by
    induction anchors generalizing starts with
    | nil => rfl
    | cons a anchors ih =>
      obtain ⟨ha, hanchors⟩ := List.pairwise_cons.1 h
      have hlast : ∀ s ∈ starts, s.1 ≤ a.1 := fun s hm => hbefore s hm a List.mem_cons_self
      rw [List.foldl_cons, ih hanchors _ (pairwise_putStart a.1 a.2 hs), entryAt?_putStart hs hlast]
      · by_cases hle : a.1 ≤ i
        · rw [if_pos hle]
          unfold entryAt?
          rw [List.filter_cons_of_pos (by simpa using hle), List.getLast?_cons]
          cases (anchors.filter (·.1 ≤ i)).getLast? <;> rfl
        · rw [if_neg hle]
          unfold entryAt?
          rw [List.filter_cons_of_neg (by simpa using hle)]
      · intro s hm b hb
        rcases mem_putStart hm with rfl | hm
        · exact ha b hb
        · exact hbefore s hm b (List.mem_cons_of_mem _ hb)
  rw [startsOf, grow [] .nil (by simp)]
  exact Option.or_none

/-- **Lines are mapped to the last anchors up to them** when the anchors are in order. -/
theorem mapLines_of_ascending {anchors : List (Int × Int)} (h : anchors.Pairwise (·.1 ≤ ·.1))
    (firstId total : Int) :
    mapLines anchors firstId total =
      (numbersFrom 0 total.toNat).filterMap fun i =>
        (entryAt? i anchors).map (firstId + i, ·) := by
  rw [mapLines_eq]
  simp only [entryAt?_startsOf h]

end HebrewCorpus
