import HebrewCorpus.Proofs.Text.Words
import HebrewCorpus.Text.LowerCase

/-! # Lower case, word by word

The final sigma makes lower-casing depend on what stands around a letter, but never across a space.
So the lower-case form of a text is made of the lower-case forms of its words, and these are words.

* **`lower_joinWith`**: lower-casing words that are joined by spaces.
* **`isCaseFree`**: ranges of characters that lower-casing neither changes nor reaches from outside.
* **`isWord_lower`**: the lower-case form of a word is a word.
* **`lower_eq_self`**: a text without letter case is its own lower-case form.
* **`lower_append`**: what follows a text without going on with a letter does not change its
  lower-case form. -/

namespace HebrewCorpus.Text

/-! ### Across spaces -/

/-- Whether a text starts with a cased letter is decided before its first space. -/
theorem startsCased_append_space (s t : Text) : startsCased (s ++ ' ' :: t) = startsCased s := by
  have hi : isCaseIgnorable ' ' = false := by decide
  have hc : isCased ' ' = false := by decide
  induction s with
  | nil => simp [startsCased, hi, hc]
  | cons c s ih =>
    by_cases h : isCaseIgnorable c = true
    · simpa [startsCased, h] using ih
    · simp [startsCased, h]

/-- After a space, lower-casing starts afresh. -/
theorem lowerFrom_append_space (inWord : Bool) (s t : Text) :
    lowerFrom inWord (s ++ ' ' :: t) = lowerFrom inWord s ++ ' ' :: lowerFrom false t := by
  induction s generalizing inWord with
  | nil =>
    have hi : isCaseIgnorable ' ' = false := by decide
    have hc : isCased ' ' = false := by decide
    have hl : lowerChar ' ' = [' '] := by decide
    simp [lowerFrom, hi, hc, hl]
  | cons c s ih =>
    rw [List.cons_append, lowerFrom, lowerFrom, ih, startsCased_append_space]
    simp only [List.append_assoc]

/-- The two sides of a space are lower-cased each by itself. -/
theorem lower_append_space (s t : Text) : lower (s ++ ' ' :: t) = lower s ++ ' ' :: lower t := by
  simp only [lower_eq_lowerFrom, lowerFrom_append_space]

@[simp] theorem lower_nil : lower [] = [] := by decide

/-- **Words that are joined by spaces are lower-cased one by one.** -/
theorem lower_joinWith (ws : List Text) :
    lower (joinWith [' '] ws) = joinWith [' '] (ws.map lower) := by
  induction ws with
  | nil => exact lower_nil
  | cons w ws ih =>
    by_cases hn : ws = []
    · subst hn
      rw [joinWith_singleton, List.map_singleton, joinWith_singleton]
    · rw [joinWith_cons [' '] w hn, List.map_cons, joinWith_cons [' '] _ (by simpa using hn), ← ih]
      simp only [List.append_assoc, List.singleton_append]
      exact lower_append_space w _

/-! ### Characters apart from letter case -/

/-- **Ranges that letter case does not touch from outside**: no letter has its lower-case form
there. -/
def isCaseFree (ranges : List (Nat × Nat)) : Bool :=
  ranges.all fun r =>
    decide (0 < r.1) && lowerRuns.all fun run =>
      decide (run.last + run.shift < (r.1 : Int)) || decide ((r.2 : Int) < run.first + run.shift)

/-- The shift of a letter is that of a run to which the letter belongs. -/
theorem exists_run_of_caseShift {runs : List CaseRun} {code : Nat} (h : caseShift runs code ≠ 0) :
    ∃ run ∈ runs, run.first ≤ code ∧ code ≤ run.last ∧ (code - run.first) % run.step = 0 ∧
      caseShift runs code = run.shift := by
  induction runs with
  | nil => exact absurd rfl h
  | cons run runs ih =>
    -- past the run, or between its letters, the later runs decide
    have later (hs : caseShift (run :: runs) code = caseShift runs code) :
        ∃ r ∈ run :: runs, r.first ≤ code ∧ code ≤ r.last ∧ (code - r.first) % r.step = 0 ∧
          caseShift (run :: runs) code = r.shift := by
      rw [hs] at h ⊢
      obtain ⟨r, hr, hb⟩ := ih h
      exact ⟨r, List.mem_cons_of_mem _ hr, hb⟩
    by_cases h₁ : code < run.first
    · exact absurd (by rw [caseShift, if_pos h₁]) h
    · by_cases h₂ : code ≤ run.last
      · by_cases h₃ : (code - run.first) % run.step = 0
        · refine ⟨run, List.mem_cons_self, by omega, h₂, h₃, ?_⟩
          rw [caseShift, if_neg h₁, if_pos h₂, if_pos h₃]
        · exact later (by rw [caseShift, if_neg h₁, if_pos h₂, if_neg h₃])
      · exact later (by rw [caseShift, if_neg h₁, if_neg h₂])

/-- A letter keeps its form or is moved by the shift of its run. -/
theorem lowerLetter_cases (c : Char) :
    lowerLetter c = c ∨ ∃ run ∈ lowerRuns, run.first ≤ c.toNat ∧ c.toNat ≤ run.last ∧
      (c.toNat - run.first) % run.step = 0 ∧
        lowerLetter c = Char.ofNat (c.toNat + run.shift).toNat := by
  unfold lowerLetter
  split
  · exact .inl rfl
  · split
    · exact .inl rfl
    · next hs =>
      obtain ⟨run, hrun, hlo, hhi, hstep, he⟩ := exists_run_of_caseShift hs
      rw [he]
      exact .inr ⟨run, hrun, hlo, hhi, hstep, rfl⟩

/-- The code point of a character made from a number is that number, or 0. -/
theorem toNat_ofNat_eq (n : Nat) : (Char.ofNat n).toNat = n ∨ (Char.ofNat n).toNat = 0 := by
  by_cases h : n.isValidChar
  · left
    rw [Char.ofNat, dif_pos h]
    rfl
  · right
    rw [Char.ofNat, dif_neg h]
    rfl

/-- **A lower-case form in ranges without letter case is the character itself.** -/
theorem lowerLetter_eq_self {ranges : List (Nat × Nat)} (hf : isCaseFree ranges = true) {c : Char}
    (h : inRanges ranges (lowerLetter c).toNat = true) : lowerLetter c = c := by
  obtain ⟨r, hr, hlo, hhi⟩ := exists_range_of_inRanges h
  have hr := List.all_eq_true.1 hf r hr
  rw [Bool.and_eq_true, decide_eq_true_eq] at hr
  rcases lowerLetter_cases c with hc | ⟨run, hrun, h₁, h₂, -, hc⟩
  · exact hc
  · have hout := List.all_eq_true.1 hr.2 run hrun
    rw [Bool.or_eq_true, decide_eq_true_eq, decide_eq_true_eq] at hout
    rw [hc] at hlo hhi
    rcases toNat_ofNat_eq (c.toNat + run.shift).toNat with hn | hn <;>
      rw [hn] at hlo hhi <;> omega

/-- **The characters of a lower-case form** that lie in ranges without letter case come from the
text. The combining dot and the two small sigmas lie outside the ranges. -/
theorem mem_of_mem_lowerFrom {ranges : List (Nat × Nat)} (hf : isCaseFree ranges = true)
    (hmarks : ∀ c ∈ ['i', '\u0307', 'σ', 'ς'], inRanges ranges c.toNat = false) {inWord : Bool}
    {s : Text} {x : Char} (hx : inRanges ranges x.toNat = true) (h : x ∈ lowerFrom inWord s) :
    x ∈ s := by
  have not_mark {m : Char} (hm : m ∈ ['i', '\u0307', 'σ', 'ς']) : x ≠ m := by
    rintro rfl
    rw [hmarks x hm] at hx
    cases hx
  induction s generalizing inWord with
  | nil => cases h
  | cons c s ih =>
    rw [lowerFrom, List.mem_append] at h
    rcases h with h | h
    · split at h
      · rw [List.mem_singleton] at h
        split at h <;> exact absurd h (not_mark (by simp))
      · unfold lowerChar at h
        split at h
        · simp only [List.mem_cons, List.not_mem_nil, or_false] at h
          rcases h with h | h <;> exact absurd h (not_mark (by simp))
        · rw [List.mem_singleton] at h
          rw [h] at hx ⊢
          rw [lowerLetter_eq_self hf hx]
          exact List.mem_cons_self
    · exact List.mem_cons_of_mem _ (ih h)

/-- Lower-casing brings in no white space. -/
theorem mem_of_mem_lower_of_blank {s : Text} {x : Char} (hx : isBlankChar x = true)
    (h : x ∈ lower s) : x ∈ s :=
  mem_of_mem_lowerFrom (show isCaseFree blankRanges = true by decide)
    (forall_mem_of_all (by decide)) hx
    (lower_eq_lowerFrom s ▸ h)

/-- A lower-case form has at least one character for each of the text. -/
theorem length_le_length_lowerFrom (inWord : Bool) (s : Text) :
    s.length ≤ (lowerFrom inWord s).length := by
  induction s generalizing inWord with
  | nil => exact Nat.le_refl 0
  | cons c s ih =>
    have hc : 1 ≤ (if c = 'Σ' then [if inWord && !startsCased s then 'ς' else 'σ']
        else lowerChar c).length := by
      split
      · exact Nat.le_refl 1
      · unfold lowerChar
        split <;> simp
    have := ih (if isCaseIgnorable c then inWord else isCased c)
    rw [lowerFrom, List.length_append, List.length_cons]
    omega

/-- Only the empty text has an empty lower-case form. -/
theorem lower_eq_nil_iff {s : Text} : lower s = [] ↔ s = [] := by
  constructor
  · intro h
    have := length_le_length_lowerFrom false s
    rw [← lower_eq_lowerFrom, h] at this
    exact List.eq_nil_of_length_eq_zero (Nat.le_zero.1 this)
  · rintro rfl
    exact lower_nil

/-- **The lower-case form of a word is a word.** -/
theorem isWord_lower {w : Text} (h : IsWord w) : IsWord (lower w) := by
  refine ⟨fun hn => h.1 (lower_eq_nil_iff.1 hn), fun c hc => ?_⟩
  cases hb : isBlankChar c with
  | false => rfl
  | true =>
    have := h.2 c (mem_of_mem_lower_of_blank hb hc)
    rw [hb] at this
    cases this

/-- **A text of characters without letter case** is its own lower-case form. -/
theorem lower_eq_self {s : Text} (h : ∀ c ∈ s, lowerChar c = [c]) : lower s = s := by
  have hs : 'Σ' ∉ s := fun hm => absurd (h _ hm) (by decide)
  rw [lower, if_neg hs]
  induction s with
  | nil => rfl
  | cons c s ih =>
    rw [List.flatMap_cons, h c List.mem_cons_self,
      ih (fun x hx => h x (List.mem_cons_of_mem _ hx)) fun hm => hs (List.mem_cons_of_mem _ hm)]
    rfl

/-! ### What follows a word -/

/-- Whether a text starts with a cased letter is decided before what does not start with one. -/
theorem startsCased_append (s : Text) {t : Text} (h : startsCased t = false) :
    startsCased (s ++ t) = startsCased s := by
  induction s with
  | nil => simpa [startsCased] using h
  | cons c s ih =>
    by_cases hc : isCaseIgnorable c = true
    · simpa [startsCased, hc] using ih
    · simp [startsCased, hc]

/-- **A text without letter case behind another one**, which does not go on with a letter, is left
alone and leaves the other one alone. -/
theorem lower_append (s : Text) {t : Text} (h : startsCased t = false)
    (hfixed : ∀ c ∈ t, lowerChar c = [c]) : lower (s ++ t) = lower s ++ t := by
  have hself (inWord : Bool) : lowerFrom inWord t = t := by
    have hs : 'Σ' ∉ t := fun hm => absurd (hfixed _ hm) (by decide)
    rw [lowerFrom_eq_flatMap inWord hs, ← lowerFrom_eq_flatMap false hs, ← lower_eq_lowerFrom,
      lower_eq_self hfixed]
  -- a sigma looks ahead into what follows, and sees no letter there
  have hfrom (inWord : Bool) : lowerFrom inWord (s ++ t) = lowerFrom inWord s ++ t := by
    induction s generalizing inWord with
    | nil => exact hself inWord
    | cons c s ih =>
      rw [List.cons_append, lowerFrom, lowerFrom, ih, startsCased_append s h, List.append_assoc]
  rw [lower_eq_lowerFrom, lower_eq_lowerFrom, hfrom]

end HebrewCorpus.Text
