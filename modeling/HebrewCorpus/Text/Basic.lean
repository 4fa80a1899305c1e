/-! # Texts

A text is the list of its code points. Every rule of this library that looks inside a text
(blanks, digits, letters, separators) is a rule about code points in order, so recursion on the
list is recursion on the text.

* **`Text`**: a list of characters; `"abc".toList` is the text of a literal.
* **`Text.joinWith sep parts`** and **`Text.pieces sep s`**: joining with a separator character and
  cutting at it; each undoes the other where no part holds the separator.
* **`Text.dropLead? lead s`**: what follows `lead` when `s` begins with it.
* **`Text.cutAt sep s`**: the text before the first separator and, if there is one, what follows. -/

namespace HebrewCorpus

/-- **A text**: its code points in order. -/
abbrev Text := List Char

namespace Text

/-- The text of a `String`. -/
def ofString (s : String) : Text := s.toList

/-- The `String` with the given code points. -/
def asString (s : Text) : String := String.ofList s

/-- The pieces between the occurrences of `sep`; a text without `sep` is one piece. -/
def pieces (sep : Char) (s : Text) : List Text := s.splitOn sep

/-- The parts in order with `sep` between neighbours. -/
def joinWith (sep : Text) (parts : List Text) : Text := sep.intercalate parts

/-- What follows `lead` in `s`, when `s` begins with `lead`. -/
def dropLead? : (lead s : Text) → Option Text
  | [], s => some s
  | _ :: _, [] => none
  | a :: lead, b :: s => if a = b then dropLead? lead s else none

@[simp] theorem dropLead?_nil (s : Text) : dropLead? [] s = some s := rfl

/-- A text begins with `lead` exactly when it is `lead` followed by what is left. -/
theorem dropLead?_eq_some_iff {lead s rest : Text} :
    dropLead? lead s = some rest ↔ s = lead ++ rest := by
  induction lead generalizing s with
  | nil => simp [dropLead?, eq_comm]
  | cons a lead ih =>
    cases s with
    | nil => simp [dropLead?]
    | cons b s =>
      by_cases h : a = b
      · subst h; simp [dropLead?, ih]
      · simp [dropLead?, h, Ne.symm h]

/-- The text before the first `sep`, and what follows that `sep` when there is one. -/
def cutAt (sep : Char) (s : Text) : Text × Option Text :=
  (s.takeWhile (· ≠ sep), (s.dropWhile (· ≠ sep)).tail?)

/-- The text before the last `sep` and what follows it, when there is one. -/
def cutLast? (sep : Char) (s : Text) : Option (Text × Text) :=
  match s.reverse.dropWhile (· ≠ sep) with
  | [] => none
  | _ :: front => some (front.reverse, (s.reverse.takeWhile (· ≠ sep)).reverse)

/-- **Cutting at the last separator** loses only that separator: the two halves around it are the
text, and the second half holds no further one. -/
theorem cutLast?_eq_some {sep : Char} {s front back : Text}
    (h : cutLast? sep s = some (front, back)) : s = front ++ sep :: back ∧ sep ∉ back := by
  unfold cutLast? at h
  split at h
  · cases h
  · next c rest hd =>
    have hc : c = sep := by
      have := List.head?_dropWhile_not (fun c => decide (c ≠ sep)) s.reverse
      rw [hd] at this; simpa using this
    injection h with h
    injection h with h₁ h₂
    constructor
    · have := @List.takeWhile_append_dropWhile _ (fun c => decide (c ≠ sep)) s.reverse
      rw [hd] at this
      have := congrArg List.reverse this
      simp only [List.reverse_append, List.reverse_cons, List.reverse_reverse] at this
      rw [← this, ← h₁, ← h₂, hc]; simp
    · rw [← h₂]
      intro hmem
      have := List.all_eq_true.1 List.all_takeWhile sep (List.mem_reverse.1 hmem)
      simp at this

/-- Whether `part` occurs in `s` as a run of neighbouring characters. -/
def contains (s part : Text) : Bool :=
  part.isPrefixOf s || match s with
    | [] => false
    | _ :: s => contains s part

/-- The text with every `old` replaced by `new`. -/
def replaceChar (old : Char) (new : Text) (s : Text) : Text :=
  s.flatMap fun c => if c = old then new else [c]

/-- Order by code points, a proper beginning before its continuations. -/
def le : (s t : Text) → Bool
  | [], _ => true
  | _ :: _, [] => false
  | a :: s, b :: t => if a = b then le s t else a.val < b.val

/-- Whether a code point lies in one of the closed ranges of a table in ascending order. -/
def inRanges : (table : List (Nat × Nat)) → (code : Nat) → Bool
  | [], _ => false
  | (first, last) :: table, code =>
    if code < first then false else if code ≤ last then true else inRanges table code

/-- A code point found in the table lies within one of its ranges. -/
theorem exists_range_of_inRanges {table : List (Nat × Nat)} {code : Nat}
    (h : inRanges table code = true) : ∃ r ∈ table, r.1 ≤ code ∧ code ≤ r.2 := by
  induction table with
  | nil => simp [inRanges] at h
  | cons r table ih =>
    obtain ⟨first, last⟩ := r
    unfold inRanges at h
    split at h
    · cases h
    · split at h
      · exact ⟨(first, last), by simp, by omega, by assumption⟩
      · obtain ⟨r, hr, hc⟩ := ih h
        exact ⟨r, by simp [hr], hc⟩

end Text

end HebrewCorpus
