import HebrewCorpus.Proofs.Book.LineStarts
import Mathlib.Data.List.AList
import Mathlib.Data.List.Induction

/-! # Anchors in any order

Anchors say which entry starts at which line. They may come in any order and several at one line,
and may lie before the first line or behind the last one. The entry of a line can be searched for
among all of them: it belongs to the last anchor on the greatest line that is not after the line.
One sweep over all lines, with a cursor that moves over the lines of a dictionary, finds the same
entries.

* **`InForce`**: the entry of a line.
* **`searchAt?`**: the entry of a line, searched for on its own.
* **`sweepByCursor`**, **`mapLinesByCursor`**: the sweep with a cursor.
* **`mapLines_eq_search`**: the sweeps find what the searches find. -/

namespace HebrewCorpus

/-! ### Search -/

/-- **The entry in force at a line** belongs to the last anchor on the greatest line with an anchor
that is not after it. -/
def InForce (anchors : List (Int × Int)) (line entry : Int) : Prop :=
  ∃ front start back, anchors = front ++ (start, entry) :: back ∧ start ≤ line ∧
    (∀ a ∈ anchors, a.1 ≤ line → a.1 ≤ start) ∧ ∀ a ∈ back, a.1 ≠ start

/-- **The entry in force, searched for on its own**: the greatest line up to the given one that has
an anchor, and the last anchor there. -/
def searchAt? (line : Int) (anchors : List (Int × Int)) : Option Int :=
  ((anchors.map (·.1)).filter (· ≤ line)).max?.bind fun start => anchors.reverse.lookup start

section Search

variable {anchors : List (Int × Int)} {line entry : Int}

/-- The last anchor of a line has none of the same line behind it. -/
theorem lookup_reverse_eq_some_iff {start : Int} :
    anchors.reverse.lookup start = some entry ↔
      ∃ front back, anchors = front ++ (start, entry) :: back ∧ ∀ a ∈ back, a.1 ≠ start := by
  rw [List.lookup_eq_some_iff]
  constructor
  · rintro ⟨back, front, hsplit, hback⟩
    refine ⟨front.reverse, back.reverse, ?_, fun a ha => ?_⟩
    · rw [← List.reverse_reverse anchors, hsplit]
      simp
    · exact (bne_iff_ne.1 (hback a (List.mem_reverse.1 ha))).symm
  · rintro ⟨front, back, rfl, hback⟩
    refine ⟨back.reverse, front.reverse, by simp, fun a ha => ?_⟩
    exact bne_iff_ne.2 (hback a (List.mem_reverse.1 ha)).symm

/-- **The search finds the entry in force.** -/
theorem searchAt?_eq_some_iff : searchAt? line anchors = some entry ↔
    InForce anchors line entry := by
  have hlines {start : Int} (hmem : start ∈ anchors.map (·.1)) (hle : start ≤ line) :
      ((anchors.map (·.1)).filter (· ≤ line)).max? = some start ↔
        ∀ a ∈ anchors, a.1 ≤ line → a.1 ≤ start := by
    rw [List.max?_eq_some_iff, List.mem_filter]
    simp [hmem, hle]
  rw [searchAt?, Option.bind_eq_some_iff]
  constructor
  · rintro ⟨start, hmax, hlast⟩
    obtain ⟨hmem, -⟩ := List.max?_eq_some_iff.1 hmax
    obtain ⟨hmem, hle⟩ := List.mem_filter.1 hmem
    obtain ⟨front, back, hsplit, hback⟩ := lookup_reverse_eq_some_iff.1 hlast
    exact ⟨front, start, back, hsplit, of_decide_eq_true hle,
      (hlines hmem (of_decide_eq_true hle)).1 hmax, hback⟩
  · rintro ⟨front, start, back, hsplit, hle, hgreatest, hback⟩
    have hmem : start ∈ anchors.map (·.1) := by
      rw [hsplit]
      simp
    exact ⟨start, (hlines hmem hle).2 hgreatest,
      lookup_reverse_eq_some_iff.2 ⟨front, back, hsplit, hback⟩⟩

/-- **The search finds nothing when all anchors are after the line.** -/
theorem searchAt?_eq_none_iff : searchAt? line anchors = none ↔
    ∀ a ∈ anchors, line < a.1 := by
  constructor
  · intro hnone a ha
    by_contra hle
    -- an anchor that is not after the line makes some line the greatest one
    have hmem : a.1 ∈ (anchors.map (·.1)).filter (· ≤ line) :=
      List.mem_filter.2 ⟨List.mem_map_of_mem ha, decide_eq_true (Int.not_lt.1 hle)⟩
    cases hmax : ((anchors.map (·.1)).filter (· ≤ line)).max? with
    | none =>
      rw [List.max?_eq_none_iff.1 hmax] at hmem
      cases hmem
    | some start =>
      obtain ⟨hstart, -⟩ := List.mem_filter.1 (List.max?_eq_some_iff.1 hmax).1
      obtain ⟨b, hb, rfl⟩ := List.mem_map.1 hstart
      rw [searchAt?, hmax, Option.bind_some, List.lookup_eq_none_iff] at hnone
      exact absurd rfl (bne_iff_ne.1 (hnone b (List.mem_reverse.2 hb)))
  · intro hlater
    have hnone : (anchors.map (·.1)).filter (· ≤ line) = [] := by
      rw [List.filter_eq_nil_iff]
      intro l hl
      obtain ⟨a, ha, rfl⟩ := List.mem_map.1 hl
      simpa using hlater a ha
    rw [searchAt?, hnone]
    rfl

end Search

/-! ### Starts -/

/-- The entry of the last start is found under the greatest line. -/
theorem entryAt?_eq_find? {starts : Table Int} (h : starts.Ascends) (line : Int) :
    entryAt? line starts =
      ((starts.map (·.1)).filter (· ≤ line)).max?.bind fun start => starts.find? start := by
  have hfilter : (starts.map (·.1)).filter (· ≤ line) =
      (starts.filter (·.1 ≤ line)).map (·.1) := List.filter_map
  rw [entryAt?, hfilter]
  cases hlast : (starts.filter (·.1 ≤ line)).getLast? with
  | none =>
    rw [List.getLast?_eq_none_iff.1 hlast]
    rfl
  | some s =>
    have hmem : s ∈ starts.filter (·.1 ≤ line) := List.mem_of_getLast? hlast
    have hmax : ((starts.filter (·.1 ≤ line)).map (·.1)).max? = some s.1 := by
      refine List.max?_eq_some_iff.2 ⟨List.mem_map_of_mem hmem, fun l hl => ?_⟩
      obtain ⟨t, ht, rfl⟩ := List.mem_map.1 hl
      -- the other starts up to the line are before the last one
      obtain ⟨init, hinit⟩ := List.getLast?_eq_some_iff.1 hlast
      have hascends : (init ++ [s]).Pairwise (·.1 < ·.1) := hinit ▸ h.filter _
      rw [hinit, List.mem_append, List.mem_singleton] at ht
      rcases ht with ht | rfl
      · exact Int.le_of_lt ((List.pairwise_append.1 hascends).2.2 t ht s List.mem_cons_self)
      · exact Int.le_refl _
    rw [hmax, Option.bind_some, Table.find?,
      (Table.lookup_eq_some_iff_mem h.distinct).2 (List.mem_filter.1 hmem).1]
    rfl

/-- The lines of the starts are those of the anchors. -/
theorem mem_map_fst_startsOf {anchors : List (Int × Int)} {l : Int} :
    l ∈ (startsOf anchors).map (·.1) ↔ l ∈ anchors.map (·.1) := by
  obtain ⟨-, hfrom, hall⟩ := startsOf_spec anchors
  constructor
  · intro hl
    obtain ⟨s, hs, rfl⟩ := List.mem_map.1 hl
    exact List.mem_map_of_mem (hfrom s hs)
  · intro hl
    obtain ⟨a, ha, rfl⟩ := List.mem_map.1 hl
    exact hall a ha

/-- **The start in force is the anchor in force.** -/
theorem entryAt?_startsOf_eq (anchors : List (Int × Int)) (line : Int) :
    entryAt? line (startsOf anchors) = searchAt? line anchors := by
  have hkeeps := keeps_startsOf anchors
  have hmax : (((startsOf anchors).map (·.1)).filter (· ≤ line)).max? =
      ((anchors.map (·.1)).filter (· ≤ line)).max? := by
    refine Option.ext fun start => ?_
    simp only [List.max?_eq_some_iff, List.mem_filter, mem_map_fst_startsOf]
  rw [entryAt?_eq_find? hkeeps.ascends, hmax, searchAt?]
  simp only [hkeeps.find?_eq]

/-! ### A cursor over a dictionary -/

/-- The last entry of each line that has an anchor, as a dictionary. -/
def lastEntries (anchors : List (Int × Int)) : AList fun _ : Int => Int :=
  anchors.foldl (fun entries a => entries.insert a.1 a.2) ∅

/-- The lines of a dictionary in ascending order. -/
def startLines (entries : AList fun _ : Int => Int) : List Int :=
  entries.keys.mergeSort (· ≤ ·)

/-- The cursor moved over all starts up to a line, with the entry in force behind it; `passed`
starts are before the cursor. -/
def moveCursor (entries : AList fun _ : Int => Int) (starts : List Int) (line : Int) (passed : Nat)
    (current : Option Int) : Nat × Option Int :=
  if h : passed < starts.length then
    if starts[passed] ≤ line then
      moveCursor entries starts line (passed + 1) (entries.lookup starts[passed])
    else (passed, current)
  else (passed, current)
termination_by starts.length - passed

/-- The entries of `count` lines from `line` on, found by a cursor. -/
def sweepByCursor (entries : AList fun _ : Int => Int) (starts : List Int) (firstId : Int) :
    (count : Nat) → (line : Int) → (passed : Nat) → (current : Option Int) → List (Int × Int)
  | 0, _, _, _ => []
  | count + 1, line, passed, current =>
    let (passed, current) := moveCursor entries starts line passed current
    let rest := sweepByCursor entries starts firstId count (line + 1) passed current
    match current with
    | some entry => (firstId + line, entry) :: rest
    | none => rest

/-- **The entry of each line, found by a cursor** over the lines of a dictionary. -/
def mapLinesByCursor (anchors : List (Int × Int)) (firstId total : Int) : List (Int × Int) :=
  let entries := lastEntries anchors
  sweepByCursor entries (startLines entries) firstId total.toNat 0 0 none

section Cursor

/-- A dictionary holds the last entry of each line. -/
theorem lookup_lastEntries (anchors : List (Int × Int)) (line : Int) :
    (lastEntries anchors).lookup line = anchors.reverse.lookup line := by
  induction anchors using List.reverseRecOn with
  | nil => rfl
  | append_singleton anchors a ih =>
    rw [lastEntries, List.foldl_concat, ← lastEntries, List.reverse_concat]
    obtain ⟨start, entry⟩ := a
    rw [List.lookup_cons]
    by_cases h : line = start
    · subst h
      rw [AList.lookup_insert, beq_self_eq_true]
    · rw [AList.lookup_insert_ne h, beq_false_of_ne h, ih]

/-- The sorted lines of the dictionary are the lines of the starts. -/
theorem startLines_lastEntries (anchors : List (Int × Int)) :
    startLines (lastEntries anchors) = (startsOf anchors).map (·.1) := by
  have hkeeps := keeps_startsOf anchors
  have hmem (l : Int) : l ∈ (lastEntries anchors).keys ↔ l ∈ (startsOf anchors).map (·.1) := by
    rw [← AList.mem_keys, ← AList.lookup_isSome, lookup_lastEntries, ← hkeeps.find?_eq,
      ← not_iff_not, Option.not_isSome_iff_eq_none, Table.find?_eq_none_iff]
  have hperm : (startLines (lastEntries anchors)).Perm ((startsOf anchors).map (·.1)) :=
    (List.mergeSort_perm _ _).trans
      ((List.perm_ext_iff_of_nodup (AList.keys_nodup _) hkeeps.ascends.distinct).2 hmem)
  have hsorted : (startLines (lastEntries anchors)).Pairwise fun l m => decide (l ≤ m) = true := by
    refine List.pairwise_mergeSort (fun l m n hlm hmn => ?_) (fun l m => ?_) _
    · rw [decide_eq_true_eq] at hlm hmn ⊢
      exact Int.le_trans hlm hmn
    · rw [Bool.or_eq_true, decide_eq_true_eq, decide_eq_true_eq]
      exact Int.le_total l m
  have hascends : ((startsOf anchors).map (·.1)).Pairwise (· ≤ ·) :=
    List.pairwise_map.2 (hkeeps.ascends.imp Int.le_of_lt)
  exact hperm.eq_of_pairwise (fun _ _ _ _ => Int.le_antisymm)
    (hsorted.imp of_decide_eq_true) hascends

variable {entries : AList fun _ : Int => Int} {starts : List (Int × Int)}

/-- **The cursor passes the starts up to a line**: those behind it are the starts still to come. -/
theorem moveCursor_eq (h : ∀ s ∈ starts, entries.lookup s.1 = some s.2) (line : Int) (passed : Nat)
    (current : Option Int) :
    let moved := moveCursor entries (starts.map (·.1)) line passed current
    passStarts line current (starts.drop passed) = (moved.2, starts.drop moved.1) := by
  fun_induction moveCursor entries (starts.map (·.1)) line passed current with
  | case1 passed current hlt hle ih =>
    rw [List.length_map] at hlt
    rw [List.getElem_map] at hle ih
    rw [h _ (List.getElem_mem hlt)] at ih
    rw [List.drop_eq_getElem_cons hlt, passStarts, if_pos hle, List.getElem_map,
      h _ (List.getElem_mem hlt)]
    exact ih
  | case2 passed current hlt hnle =>
    rw [List.length_map] at hlt
    rw [List.getElem_map] at hnle
    show passStarts line current (starts.drop passed) = (current, starts.drop passed)
    rw [List.drop_eq_getElem_cons hlt, passStarts, if_neg hnle]
  | case3 passed current hge =>
    rw [List.length_map, Nat.not_lt] at hge
    show passStarts line current (starts.drop passed) = (current, starts.drop passed)
    rw [List.drop_eq_nil_of_le hge, passStarts]

/-- The sweep with a cursor is the sweep over the starts still to come. -/
theorem sweepByCursor_eq (h : ∀ s ∈ starts, entries.lookup s.1 = some s.2) (firstId : Int)
    (count : Nat) (line : Int) (passed : Nat) (current : Option Int) :
    sweepByCursor entries (starts.map (·.1)) firstId count line passed current =
      sweepLines firstId count line current (starts.drop passed) := by
  induction count generalizing line passed current with
  | zero => rfl
  | succ count ih =>
    have hmove := moveCursor_eq h line passed current
    rw [sweepByCursor, sweepLines]
    generalize moveCursor entries (starts.map (·.1)) line passed current = moved at hmove ⊢
    obtain ⟨passed', current'⟩ := moved
    rw [hmove]
    cases current' with
    | none => exact ih (line + 1) passed' none
    | some entry => exact congrArg (List.cons _) (ih (line + 1) passed' (some entry))

/-- **A cursor finds the entries of all lines.** -/
theorem mapLinesByCursor_eq (anchors : List (Int × Int)) (firstId total : Int) :
    mapLinesByCursor anchors firstId total = mapLines anchors firstId total := by
  have hkeeps := keeps_startsOf anchors
  have hlookup : ∀ s ∈ startsOf anchors, (lastEntries anchors).lookup s.1 = some s.2 := by
    intro s hs
    rw [lookup_lastEntries, ← hkeeps.find?_eq]
    exact (Table.lookup_eq_some_iff_mem hkeeps.ascends.distinct).2 hs
  rw [mapLinesByCursor, startLines_lastEntries]
  exact sweepByCursor_eq hlookup firstId total.toNat 0 0 none

end Cursor

/-- **Both sweeps find for every line what a search finds for it alone**: the entry in force, and
none for lines before all anchors. -/
theorem mapLines_eq_search (anchors : List (Int × Int)) (firstId total : Int) :
    (mapLines anchors firstId total =
      (numbersFrom 0 total.toNat).filterMap fun i =>
        (searchAt? i anchors).map (firstId + i, ·)) ∧
    mapLinesByCursor anchors firstId total = mapLines anchors firstId total ∧
    ∀ i, (∀ entry, searchAt? i anchors = some entry ↔ InForce anchors i entry) ∧
      (searchAt? i anchors = none ↔ ∀ a ∈ anchors, i < a.1) := by
  refine ⟨?_, mapLinesByCursor_eq anchors firstId total,
    fun i => ⟨fun _ => searchAt?_eq_some_iff, searchAt?_eq_none_iff⟩⟩
  rw [mapLines_eq]
  simp only [entryAt?_startsOf_eq]

/-- Anchors before the first line and behind the last one, and two at one line. -/
example : mapLines [(2, 7), (-1, 5), (9, 8), (2, 6)] 100 4 =
    [(100, 5), (101, 5), (102, 6), (103, 6)] := by
  decide +kernel

end HebrewCorpus
