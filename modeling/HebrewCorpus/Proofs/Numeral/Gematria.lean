import HebrewCorpus.Numeral.Gematria
import HebrewCorpus.Proofs.Text.Words

/-! # The letters of Hebrew numerals

* **`numeralLetters`**: the letters that stand for numbers.
* **`mem_gematria`**: a Hebrew numeral is written with these letters and spaces.
* **`exists_letter_mem_gematria`**: and never with spaces alone.
* **`lettersValue_gematriaGroup`**: the letters of a group add up to its number. -/

namespace HebrewCorpus

open Text

/-- **The letters that stand for numbers**, the greatest value first. -/
def numeralLetters : List Char := (hundredLetters ++ tensAndUnitLetters).map (·.2)

/-- The letters of a spelling come from its table. -/
theorem mem_spell {letters : List (Nat × Char)} {n : Nat} {c : Char} (h : c ∈ spell letters n) :
    c ∈ letters.map (·.2) := by
  induction letters generalizing n with
  | nil => cases h
  | cons entry letters ih =>
    obtain ⟨value, letter⟩ := entry
    rw [spell, List.mem_append] at h
    rcases h with h | h
    · rw [(List.mem_replicate.1 h).2]
      exact List.mem_cons_self
    · exact List.mem_cons_of_mem _ (ih h)

/-- Tens and units are written with letters for numbers. -/
theorem mem_spellTens {n : Nat} {c : Char} (h : c ∈ spellTens n) : c ∈ numeralLetters := by
  unfold spellTens at h
  split at h
  · have hall : ∀ c ∈ ['ט', 'ו'], c ∈ numeralLetters := forall_mem_of_all (by decide)
    exact hall c h
  · have hall : ∀ c ∈ ['ט', 'ז'], c ∈ numeralLetters := forall_mem_of_all (by decide)
    exact hall c h
  · rw [numeralLetters, List.map_append, List.mem_append]
    exact .inr (mem_spell h)

/-- A group below a thousand is written with letters for numbers. -/
theorem mem_gematriaGroup {n : Nat} {c : Char} (h : c ∈ gematriaGroup n) : c ∈ numeralLetters := by
  rw [gematriaGroup, List.mem_append] at h
  rcases h with h | h
  · rw [numeralLetters, List.map_append, List.mem_append]
    exact .inl (mem_spell h)
  · exact mem_spellTens h

/-! ### The number that letters add up to -/

/-- The number that a letter stands for; other characters stand for none. -/
def letterValue (c : Char) : Nat :=
  (((hundredLetters ++ tensAndUnitLetters).find? (·.2 = c)).map (·.1)).getD 0

/-- **The sum of the letters of a numeral.** -/
def lettersValue : Text → Nat
  | [] => 0
  | c :: s => letterValue c + lettersValue s

@[simp] theorem lettersValue_nil : lettersValue [] = 0 := rfl

@[simp] theorem lettersValue_append (s t : Text) :
    lettersValue (s ++ t) = lettersValue s + lettersValue t := by
  induction s with
  | nil => simp
  | cons c s ih => rw [List.cons_append, lettersValue, lettersValue, ih, Nat.add_assoc]

@[simp] theorem lettersValue_replicate (times : Nat) (c : Char) :
    lettersValue (List.replicate times c) = times * letterValue c := by
  induction times with
  | zero => simp
  | succ times ih => rw [List.replicate_succ, lettersValue, ih, Nat.succ_mul, Nat.add_comm]

/-- **The letters of a spelling add up to the number**, less what the table leaves over. -/
theorem lettersValue_spell {letters : List (Nat × Char)} (h : ∀ p ∈ letters, letterValue p.2 = p.1)
    (n : Nat) : lettersValue (spell letters n) + letters.foldl (fun n p => n % p.1) n = n := by
  induction letters generalizing n with
  | nil => simp [spell]
  | cons p letters ih =>
    obtain ⟨value, letter⟩ := p
    have hvalue : letterValue letter = value := h (value, letter) List.mem_cons_self
    have hrest := ih (fun p hp => h p (List.mem_cons_of_mem _ hp)) (n % value)
    have hn := Nat.div_add_mod' n value
    simp only [spell, lettersValue_append, lettersValue_replicate, hvalue, List.foldl_cons]
    omega

/-- The letters for tens and units add up to the number. -/
theorem lettersValue_spellTens (n : Nat) : lettersValue (spellTens n) = n := by
  have htable : ∀ p ∈ tensAndUnitLetters, letterValue p.2 = p.1 := by decide
  unfold spellTens
  split
  · decide
  · decide
  · have hspell := lettersValue_spell htable n
    -- units leave nothing over
    have hover (n : Nat) : tensAndUnitLetters.foldl (fun n p => n % p.1) n = 0 := by
      simp [tensAndUnitLetters, Nat.mod_one]
    rw [hover] at hspell
    exact hspell

/-- **The letters of a group add up to its number.** -/
theorem lettersValue_gematriaGroup (n : Nat) : lettersValue (gematriaGroup n) = n := by
  have htable : ∀ p ∈ hundredLetters, letterValue p.2 = p.1 := by decide
  have hspell := lettersValue_spell htable n
  simp only [hundredLetters, List.foldl_cons, List.foldl_nil] at hspell
  rw [gematriaGroup, lettersValue_append, lettersValue_spellTens, hundredLetters]
  omega

/-- A group is empty only for 0. -/
theorem gematriaGroup_ne_nil {n : Nat} (h : n ≠ 0) : gematriaGroup n ≠ [] := by
  intro hn
  have hvalue := lettersValue_gematriaGroup n
  rw [hn, lettersValue_nil] at hvalue
  exact h hvalue.symm

/-! ### Numerals of several groups -/

/-- Every group of a number stands for a number below a thousand. -/
theorem exists_of_mem_gematriaGroups {n : Nat} {group : Text} (h : group ∈ gematriaGroups n) :
    ∃ m < 1000, group = gematriaGroup m := by
  induction n using gematriaGroups.induct with
  | case1 n hn =>
    rw [gematriaGroups, if_pos hn, List.mem_singleton] at h
    exact ⟨n, hn, h⟩
  | case2 n hn ih =>
    rw [gematriaGroups, if_neg hn, List.mem_append, List.mem_singleton] at h
    rcases h with h | h
    · exact ih h
    · exact ⟨n % 1000, by omega, h⟩

/-- Some group of a number from 1 on is not empty: the first one. -/
theorem exists_ne_nil_mem_gematriaGroups {n : Nat} (h : n ≠ 0) :
    ∃ group ∈ gematriaGroups n, group ≠ [] := by
  induction n using gematriaGroups.induct with
  | case1 n hn =>
    refine ⟨gematriaGroup n, ?_, gematriaGroup_ne_nil h⟩
    rw [gematriaGroups, if_pos hn]
    exact List.mem_singleton_self _
  | case2 n hn ih =>
    obtain ⟨group, hg, hne⟩ := ih (by omega)
    refine ⟨group, ?_, hne⟩
    rw [gematriaGroups, if_neg hn]
    exact List.mem_append_left _ hg

/-- The numeral of a number from 1 on is its groups with spaces between them. -/
theorem gematria_natCast {n : Nat} (h : n ≠ 0) :
    gematria n = joinWith [' '] (gematriaGroups n) := by
  rw [gematria, if_neg (by omega)]
  rfl

/-- The numeral of a number below a thousand is a single group. -/
theorem gematria_of_lt {n : Nat} (h : n ≠ 0) (hn : n < 1000) : gematria n = gematriaGroup n := by
  rw [gematria_natCast h, gematriaGroups, if_pos hn, joinWith_singleton]

/-- **A Hebrew numeral is written with letters for numbers, and spaces.** -/
theorem mem_gematria {n : Nat} (hn : n ≠ 0) {c : Char} (h : c ∈ gematria n) :
    c = ' ' ∨ c ∈ numeralLetters := by
  rw [gematria_natCast hn] at h
  rcases mem_joinWith h with h | ⟨group, hg, h⟩
  · exact .inl (List.mem_singleton.1 h)
  · obtain ⟨m, -, rfl⟩ := exists_of_mem_gematriaGroups hg
    exact .inr (mem_gematriaGroup h)

/-- **A Hebrew numeral has at least one letter.** -/
theorem exists_letter_mem_gematria {n : Nat} (hn : n ≠ 0) :
    ∃ c ∈ gematria n, c ∈ numeralLetters := by
  obtain ⟨group, hg, hne⟩ := exists_ne_nil_mem_gematriaGroups hn
  obtain ⟨m, -, rfl⟩ := exists_of_mem_gematriaGroups hg
  obtain ⟨c, cs, hc⟩ := List.exists_cons_of_ne_nil hne
  have hmem : c ∈ gematriaGroup m := hc ▸ List.mem_cons_self
  refine ⟨c, ?_, mem_gematriaGroup hmem⟩
  rw [gematria_natCast hn]
  exact mem_joinWith_of_mem [' '] hg hmem

end HebrewCorpus
