import HebrewCorpus.Proofs.Numeral.Decimal
import HebrewCorpus.Proofs.Numeral.Gematria
import Mathlib.Data.List.Chain

/-! # Hebrew numerals read back

The groups of a Hebrew numeral are the digits of its number in base thousand, the highest first. A
digit 0 is an empty group, so spaces may stand at the end of a numeral and side by side.

* **`groupsValue`**: the number that groups stand for, read digit by digit.
* **`groupsValue_gematriaGroups`**, **`pieces_gematria`**: a numeral is read back from its groups, and
  cutting it at the spaces gives them.
* **`gematria_injective`**: different numbers have different numerals.
* **`isChain_gematria`**: no two neighbouring letters begin a divine name. -/

namespace HebrewCorpus

open Text

/-! ### Groups as digits -/

/-- **The number that groups stand for**: each is the sum of its letters, and a digit in base
thousand. -/
def groupsValue (groups : List Text) : Nat :=
  groups.foldl (fun n group => 1000 * n + lettersValue group) 0

/-- The last group is the last digit. -/
theorem groupsValue_concat (groups : List Text) (group : Text) :
    groupsValue (groups ++ [group]) = 1000 * groupsValue groups + lettersValue group := by
  rw [groupsValue, List.foldl_append]
  rfl

/-- **A number is read back from its groups.** -/
theorem groupsValue_gematriaGroups (n : Nat) : groupsValue (gematriaGroups n) = n := by
  induction n using gematriaGroups.induct with
  | case1 n hn =>
    rw [gematriaGroups, if_pos hn, ← List.nil_append [gematriaGroup n], groupsValue_concat,
      lettersValue_gematriaGroup]
    show 1000 * 0 + n = n
    omega
  | case2 n hn ih =>
    rw [gematriaGroups, if_neg hn, groupsValue_concat, ih, lettersValue_gematriaGroup]
    omega

/-- There is at least one group. -/
theorem gematriaGroups_ne_nil (n : Nat) : gematriaGroups n ≠ [] := by
  rw [gematriaGroups]
  split <;> simp

/-- No group holds a space. -/
theorem space_not_mem_of_mem_gematriaGroups {n : Nat} {group : Text} (h : group ∈ gematriaGroups n) :
    ' ' ∉ group := by
  obtain ⟨m, -, rfl⟩ := exists_of_mem_gematriaGroups h
  intro hspace
  exact absurd (mem_gematriaGroup hspace) (by decide)

/-- **A numeral is cut into its groups** at the spaces. -/
theorem pieces_gematria {n : Nat} (h : n ≠ 0) : pieces ' ' (gematria n) = gematriaGroups n := by
  rw [gematria_natCast h]
  exact List.splitOn_intercalate ' ' (fun _ hg => space_not_mem_of_mem_gematriaGroups hg)
    (gematriaGroups_ne_nil n)

/-- Numbers below one keep their decimal numerals. -/
theorem gematria_of_nonpos {n : Int} (h : n ≤ 0) : gematria n = decimal n := if_pos h

/-! ### Different numbers -/

/-- A decimal numeral holds none of the letters for numbers. -/
theorem not_mem_decimal {c : Char} (h : c ∈ numeralLetters) (n : Int) : c ∉ decimal n := by
  have hapart : ∀ c ∈ numeralLetters, c ≠ '-' ∧ c.isDigit = false := forall_mem_of_all (by decide)
  obtain ⟨hhyphen, hdigit⟩ := hapart c h
  have digits (n : Nat) : c ∉ decimalNat n := by
    intro hc
    rw [isDigit_of_mem_decimalNat hc] at hdigit
    cases hdigit
  cases n with
  | ofNat n => exact digits n
  | negSucc n => exact List.not_mem_cons_of_ne_of_not_mem hhyphen (digits (n + 1))

/-- So it is no Hebrew numeral. -/
theorem decimal_ne_gematria {m : Int} {n : Nat} (hn : n ≠ 0) : decimal m ≠ gematria n := by
  intro h
  obtain ⟨c, hc, hletter⟩ := exists_letter_mem_gematria hn
  exact not_mem_decimal hletter m (h ▸ hc)

/-- **Different numbers have different numerals**, whatever their size. -/
theorem gematria_injective {m n : Int} (h : gematria m = gematria n) : m = n := by
  by_cases hm : m ≤ 0 <;> by_cases hn : n ≤ 0
  · rw [gematria_of_nonpos hm, gematria_of_nonpos hn] at h
    exact decimal_injective h
  · obtain ⟨n, rfl⟩ := Int.eq_ofNat_of_zero_le (Int.le_of_lt (Int.not_le.1 hn))
    rw [gematria_of_nonpos hm] at h
    exact absurd h (decimal_ne_gematria (by omega))
  · obtain ⟨m, rfl⟩ := Int.eq_ofNat_of_zero_le (Int.le_of_lt (Int.not_le.1 hm))
    rw [gematria_of_nonpos hn] at h
    exact absurd h.symm (decimal_ne_gematria (by omega))
  · obtain ⟨m, rfl⟩ := Int.eq_ofNat_of_zero_le (Int.le_of_lt (Int.not_le.1 hm))
    obtain ⟨n, rfl⟩ := Int.eq_ofNat_of_zero_le (Int.le_of_lt (Int.not_le.1 hn))
    have hgroups := congrArg (pieces ' ') h
    rw [pieces_gematria (by omega), pieces_gematria (by omega)] at hgroups
    rw [← groupsValue_gematriaGroups m, hgroups, groupsValue_gematriaGroups]

/-! ### Neighbouring letters -/

/-- **Whether one character may stand in front of another** in a numeral: a `י` in front of `ה` or `ו`
would begin a divine name. -/
def MayPrecede (c d : Char) : Prop := c = 'י' → d ≠ 'ה' ∧ d ≠ 'ו'

instance : DecidableRel MayPrecede := fun c _ => inferInstanceAs (Decidable (c = 'י' → _))

/-- A text without `י` may stand in front of any allowed one. -/
theorem isChain_append_of_not_mem {front back : Text} (hfront : 'י' ∉ front)
    (hback : back.IsChain MayPrecede) : (front ++ back).IsChain MayPrecede := by
  have hnever {c d : Char} (hc : c ∈ front) : MayPrecede c d := by
    rintro rfl
    exact absurd hc hfront
  have hpairs : front.Pairwise MayPrecede := List.pairwise_of_forall_mem_list fun _ hc _ _ => hnever hc
  exact hpairs.isChain.append hback fun _ hc _ _ => hnever (List.mem_of_getLast? hc)

/-- No divine name begins within a group: fifteen and sixteen are spelled otherwise. -/
theorem isChain_gematriaGroup (n : Nat) : (gematriaGroup n).IsChain MayPrecede := by
  have htens : ∀ m < 100, (spellTens m).IsChain MayPrecede := by decide
  have hhundreds : 'י' ∉ spell hundredLetters n := fun h => absurd (mem_spell h) (by decide)
  exact isChain_append_of_not_mem hhundreds (htens (n % 100) (Nat.mod_lt n (by decide)))

/-- Nor does one begin where groups meet, with a space between them. -/
theorem isChain_joinWith_space {groups : List Text}
    (h : ∀ group ∈ groups, group.IsChain MayPrecede) :
    (joinWith [' '] groups).IsChain MayPrecede := by
  induction groups with
  | nil => exact .nil
  | cons group groups ih =>
    obtain ⟨hgroup, hgroups⟩ := List.forall_mem_cons.1 h
    by_cases hne : groups = []
    · subst hne
      rw [joinWith_singleton]
      exact hgroup
    · rw [joinWith_cons [' '] group hne, List.append_assoc]
      refine hgroup.append (isChain_append_of_not_mem (by decide) (ih hgroups)) ?_
      intro c _ d hd _
      obtain rfl : ' ' = d := by simpa using hd
      decide

/-- **No divine name begins in a numeral.** -/
theorem isChain_gematria (n : Int) : (gematria n).IsChain MayPrecede := by
  rw [gematria]
  split
  · have hdecimal : 'י' ∉ decimal n := not_mem_decimal (by decide) n
    rw [← List.append_nil (decimal n)]
    exact isChain_append_of_not_mem hdecimal .nil
  · refine isChain_joinWith_space fun group hg => ?_
    obtain ⟨m, -, rfl⟩ := exists_of_mem_gematriaGroups hg
    exact isChain_gematriaGroup m

/-! ### The whole -/

/-- **Hebrew numerals are faithful.** Different whole numbers have different numerals. From one on, the
pieces of a numeral between its spaces, each with the sum of its letters, are the digits of the number
in base thousand, an empty piece a digit 0. And no numeral has a `י` with `ה` or `ו` right behind it. -/
theorem gematria_faithful :
    (∀ m n : Int, gematria m = gematria n ↔ m = n) ∧
      (∀ n : Int, 1 ≤ n → groupsValue (pieces ' ' (gematria n)) = n) ∧
        ∀ n : Int, ¬ ['י', 'ה'] <:+: gematria n ∧ ¬ ['י', 'ו'] <:+: gematria n := by
  refine ⟨fun m n => ⟨gematria_injective, congrArg gematria⟩, ?_, ?_⟩
  · intro n hn
    obtain ⟨n, rfl⟩ := Int.eq_ofNat_of_zero_le (Int.le_trans (by decide) hn)
    rw [pieces_gematria (by omega), groupsValue_gematriaGroups]
  · intro n
    have never {c d : Char} (h : [c, d] <:+: gematria n) : MayPrecede c d := by
      obtain ⟨front, back, hsplit⟩ := h
      have hchain := isChain_gematria n
      rw [← hsplit] at hchain
      exact List.isChain_pair.1 hchain.left_of_append.right_of_append
    exact ⟨fun h => (never h rfl).1 rfl, fun h => (never h rfl).2 rfl⟩

/-- A numeral with an empty group at its end: a thousand times a thousand and fifteen. -/
theorem gematria_faithful_emptyGroup :
    (1 : Int) ≤ 1015000 ∧ gematria 1015000 = "א טו ".toList ∧
      pieces ' ' "א טו ".toList = ["א".toList, "טו".toList, []] ∧
        groupsValue (pieces ' ' (gematria 1015000)) = (1015000 : Int) := by
  have hnumeral : gematria (1015000 : Nat) = "א טו ".toList := by
    rw [gematria_natCast (by decide), gematriaGroups, if_neg (by decide), gematriaGroups,
      if_neg (by decide), gematriaGroups, if_pos (by decide)]
    decide
  exact ⟨by decide, hnumeral, by decide, gematria_faithful.2.1 1015000 (by decide)⟩

end HebrewCorpus
