import HebrewCorpus.Proofs.Text.LowerCase

/-! # Small letters

The lower-case form of a letter has no lower-case form of its own, so a text that was lower-cased
consists of characters that are left alone.

* **`leaveOut`**: runs of letters without a code point of an arithmetic progression;
  `areSettled_lowerRuns` finds the lower-case forms of all letters left out by the letters.
* **`lowerChar_of_mem_lowerFrom`**: the characters of a lower-case form. -/

namespace HebrewCorpus.Text

/-! ### Lower-case forms among the letters -/

/-- Whether the runs leave out every code point from `first` to `last` that is a number of steps
from `first`. -/
def leaveOut (first last step : Nat) : (runs : List CaseRun) → Bool
  | [] => true
  | run :: runs =>
    if run.last < first then leaveOut first last step runs
    else if last < run.first then true
    else
      -- where the two overlap, the steps of the one pass between those of the other
      decide ((first = last ∨ step % run.step = 0) ∧ first % run.step ≠ run.first % run.step) &&
        leaveOut first last step runs

/-- **Runs of letters whose lower-case forms are left out by all of them.** -/
def areSettled (runs : List CaseRun) : Bool :=
  runs.all fun run =>
    decide (0 ≤ run.first + run.shift) &&
      leaveOut (run.first + run.shift).toNat (run.last + run.shift).toNat run.step runs

/-- A code point between the steps of a run is none of its letters. -/
theorem sub_mod_ne_zero {first last step code : Nat} {run : CaseRun} (h₁ : first ≤ code)
    (h₂ : code ≤ last) (hstep : (code - first) % step = 0) (hrun : run.first ≤ code)
    (hover : first = last ∨ step % run.step = 0)
    (hne : first % run.step ≠ run.first % run.step) : (code - run.first) % run.step ≠ 0 := by
  intro hzero
  have hown : code % run.step = run.first % run.step := by
    obtain ⟨k, hk⟩ := Nat.dvd_of_mod_eq_zero hzero
    obtain rfl : code = run.first + run.step * k := by omega
    exact Nat.add_mul_mod_self_left ..
  have hother : code % run.step = first % run.step := by
    rcases hover with rfl | hdvd
    · rw [Nat.le_antisymm h₂ h₁]
    · obtain ⟨k, hk⟩ := Nat.dvd_trans (Nat.dvd_of_mod_eq_zero hdvd) (Nat.dvd_of_mod_eq_zero hstep)
      obtain rfl : code = first + run.step * k := by omega
      exact Nat.add_mul_mod_self_left ..
  exact hne (hother.symm.trans hown)

/-- **What the runs leave out has no lower-case form.** -/
theorem caseShift_of_leaveOut {first last step code : Nat} {runs : List CaseRun}
    (h : leaveOut first last step runs = true) (h₁ : first ≤ code) (h₂ : code ≤ last)
    (hstep : (code - first) % step = 0) : caseShift runs code = 0 := by
  induction runs with
  | nil => rfl
  | cons run runs ih =>
    rw [leaveOut] at h
    rw [caseShift]
    by_cases hbefore : code < run.first
    · rw [if_pos hbefore]
    · rw [if_neg hbefore]
      split at h
      · -- the run ends before the code points in question
        rw [if_neg (by omega), ih h]
      · rw [if_neg (by omega), Bool.and_eq_true, decide_eq_true_eq] at h
        have hmiss := sub_mod_ne_zero h₁ h₂ hstep (Nat.le_of_not_lt hbefore) h.1.1 h.1.2
        rw [if_neg hmiss, ih h.2, ite_self]

/-- The lower-case forms of all letters are left out by the letters. -/
theorem areSettled_lowerRuns : areSettled lowerRuns = true := by decide +kernel

/-- A code point without a shift is its own lower-case form. -/
theorem lowerLetter_of_caseShift {c : Char} (h : caseShift lowerRuns c.toNat = 0) :
    lowerLetter c = c := by
  unfold lowerLetter
  split
  · rfl
  · rw [h]
    rfl

/-- **The lower-case form of a letter is its own lower-case form.** -/
theorem lowerLetter_lowerLetter (c : Char) : lowerLetter (lowerLetter c) = lowerLetter c := by
  rcases lowerLetter_cases c with hc | ⟨run, hrun, h₁, h₂, hstep, hc⟩
  · rw [hc, hc]
  · have hsettled := List.all_eq_true.1 areSettled_lowerRuns run hrun
    rw [Bool.and_eq_true, decide_eq_true_eq] at hsettled
    have hout : caseShift lowerRuns (c.toNat + run.shift).toNat = 0 := by
      refine caseShift_of_leaveOut hsettled.2 (by omega) (by omega) ?_
      have hsub : (c.toNat + run.shift).toNat - (run.first + run.shift).toNat =
          c.toNat - run.first := by omega
      rw [hsub, hstep]
    rw [hc]
    refine lowerLetter_of_caseShift ?_
    rcases toNat_ofNat_eq (c.toNat + run.shift).toNat with hn | hn <;> rw [hn]
    · exact hout
    · decide

/-! ### Lower-case forms of texts -/

/-- No character but the dotted capital I itself has it as its lower-case form. -/
theorem lowerLetter_ne_dotted {c : Char} (h : c ≠ '\u0130') : lowerLetter c ≠ '\u0130' := by
  have hfree : isCaseFree [(0x130, 0x130)] = true := by decide
  intro hc
  have hself := lowerLetter_eq_self hfree (c := c) (by rw [hc]; decide)
  exact h (hself.symm.trans hc)

/-- The lower-case form of a character consists of characters that are their own. -/
theorem lowerChar_of_mem_lowerChar {c x : Char} (h : x ∈ lowerChar c) : lowerChar x = [x] := by
  have hdotted : ∀ m ∈ ['i', '\u0307'], lowerChar m = [m] := forall_mem_of_all (by decide)
  unfold lowerChar at h
  split at h
  · exact hdotted x h
  · next hc =>
    rw [List.mem_singleton.1 h, lowerChar, if_neg (lowerLetter_ne_dotted hc),
      lowerLetter_lowerLetter]

/-- **The characters of a lower-case form** are their own lower-case forms. -/
theorem lowerChar_of_mem_lowerFrom {inWord : Bool} {s : Text} {x : Char}
    (h : x ∈ lowerFrom inWord s) : lowerChar x = [x] := by
  have hsigmas : ∀ m ∈ ['ς', 'σ'], lowerChar m = [m] := forall_mem_of_all (by decide +kernel)
  induction s generalizing inWord with
  | nil => cases h
  | cons c s ih =>
    rw [lowerFrom, List.mem_append] at h
    rcases h with h | h
    · split at h
      · refine hsigmas x ?_
        rw [List.mem_singleton.1 h]
        split <;> simp
      · exact lowerChar_of_mem_lowerChar h
    · exact ih h

end HebrewCorpus.Text
