import HebrewCorpus.Proofs.Text.LowerCase
import HebrewCorpus.Text.Digit

/-! # Digit signs apart from other characters

The tables of the digit signs, of the white space and of the letters with a lower-case form have no
code point in common, so a digit sign of any script passes unchanged through every rule for blanks
and letter case.

* **`areApart`**: tables of ranges without a common code point.
* **`isBlankChar_of_isDigitSign`**, **`lowerChar_of_isDigitSign`**: a digit sign is no white space,
  and its own lower-case form. -/

namespace HebrewCorpus.Text

/-- **Tables of ranges without a common code point.** -/
def areApart (ranges others : List (Nat × Nat)) : Bool :=
  ranges.all fun r => others.all fun o => decide (r.2 < o.1) || decide (o.2 < r.1)

/-- A code point lies in one of two tables that are apart. -/
theorem not_of_areApart {ranges others : List (Nat × Nat)} (h : areApart ranges others = true)
    {r o : Nat × Nat} (hr : r ∈ ranges) (ho : o ∈ others) {code : Nat} (h₁ : r.1 ≤ code)
    (h₂ : code ≤ r.2) : ¬ (o.1 ≤ code ∧ code ≤ o.2) := by
  have hapart := List.all_eq_true.1 (List.all_eq_true.1 h r hr) o ho
  rw [Bool.or_eq_true, decide_eq_true_eq, decide_eq_true_eq] at hapart
  omega

/-- The ranges of the digit signs: ten digits from each zero on, and the other figures. -/
def digitRanges : List (Nat × Nat) := digitZeros.map (fun start => (start, start + 9)) ++ figureRanges

/-- A decimal digit is one of the ten from some zero on. -/
theorem exists_zero_of_valueAmong {zeros : List Nat} {code : Nat}
    (h : (valueAmong zeros code).isSome = true) : ∃ start ∈ zeros, start ≤ code ∧ code ≤ start + 9 := by
  induction zeros with
  | nil => simp [valueAmong] at h
  | cons first zeros ih =>
    by_cases h₁ : code < first
    · simp [valueAmong, h₁] at h
    · by_cases h₂ : code ≤ first + 9
      · exact ⟨first, List.mem_cons_self, by omega, h₂⟩
      · rw [valueAmong, if_neg h₁, if_neg h₂] at h
        obtain ⟨start, hs, hc⟩ := ih h
        exact ⟨start, List.mem_cons_of_mem _ hs, hc⟩

/-- **A digit sign lies in one of the ranges.** -/
theorem exists_range_of_isDigitSign {c : Char} (h : isDigitSign c = true) :
    ∃ r ∈ digitRanges, r.1 ≤ c.toNat ∧ c.toNat ≤ r.2 := by
  rw [isDigitSign, Bool.or_eq_true] at h
  rcases h with h | h
  · obtain ⟨start, hs, hc⟩ := exists_zero_of_valueAmong h
    exact ⟨(start, start + 9), List.mem_append_left _ (List.mem_map_of_mem hs), hc⟩
  · obtain ⟨r, hr, hc⟩ := exists_range_of_inRanges h
    exact ⟨r, List.mem_append_right _ hr, hc⟩

/-- **A digit sign is no white space.** -/
theorem isBlankChar_of_isDigitSign {c : Char} (h : isDigitSign c = true) :
    isBlankChar c = false := by
  have hapart : areApart digitRanges blankRanges = true := by decide
  obtain ⟨r, hr, h₁, h₂⟩ := exists_range_of_isDigitSign h
  cases hb : isBlankChar c with
  | false => rfl
  | true =>
    obtain ⟨o, ho, hc⟩ := exists_range_of_inRanges hb
    exact absurd hc (not_of_areApart hapart hr ho h₁ h₂)

/-- **A digit sign is its own lower-case form.** -/
theorem lowerChar_of_isDigitSign {c : Char} (h : isDigitSign c = true) : lowerChar c = [c] := by
  have hapart : areApart digitRanges (lowerRuns.map fun run => (run.first, run.last)) = true := by
    decide +kernel
  have hdotted : c ≠ '\u0130' := by
    rintro rfl
    exact absurd h (by decide)
  obtain ⟨r, hr, h₁, h₂⟩ := exists_range_of_isDigitSign h
  rcases lowerLetter_cases c with hc | ⟨run, hrun, h₃, h₄, -, -⟩
  · rw [lowerChar, if_neg hdotted, hc]
  · exact absurd ⟨h₃, h₄⟩ (not_of_areApart hapart hr (List.mem_map_of_mem hrun) h₁ h₂)

end HebrewCorpus.Text
