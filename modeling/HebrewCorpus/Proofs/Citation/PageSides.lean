import HebrewCorpus.Proofs.Citation.References

/-! # Page sides across the library

A side of a leaf is written in English and in Hebrew, and is read again as a position and as a number
of a citation. The two count differently: positions count from 1 at the first side of leaf 1, and the
numbers of citations from 0 at the first side of leaf 0, so a side has the number behind its position.

* **`DafAddress.readPosition_append`**: the position of a leaf and a side, as they are written.
* **`DafAddress.parseReferences_english`**: the number of a side, as a citation has it.
* **`DafAddress.pageSides_agree`**: positions, addresses and numbers agree. -/

namespace HebrewCorpus.DafAddress

open Text

/-- The letters of the two sides. -/
def IsSide (side : Text) : Prop := side = ['a'] ∨ side = ['b']

/-- **The addresses of positions** are those of sides, counted from 0. -/
theorem ofPosition_eq_ok {p : Int} {d : DafAddress} :
    ofPosition p = .ok d ↔ ∃ i : Nat, p = i + 1 ∧ d = ofIndex i := by
  constructor
  · intro h
    rw [ofPosition] at h
    split at h
    · cases h
    · cases h
      exact ⟨(p - 1).toNat, by omega, rfl⟩
  · rintro ⟨i, rfl, rfl⟩
    exact ofPosition_natCast_add_one i

/-- The side of an index has a letter. -/
theorem isSide_ofIndex (i : Nat) : IsSide (ofIndex i).side := by
  rw [ofIndex]
  split
  · exact .inl rfl
  · exact .inr rfl

/-! ### Addresses as they are read -/

/-- **The position of a leaf and a side**, as they are written. -/
theorem readPosition_append {leaf : Nat} {side : Text} (hleaf : leaf ≠ 0) (hside : IsSide side)
    (fit : (decimalNat leaf).length ≤ maxDigits) :
    readPosition (decimalNat leaf ++ side) = .ok (some (position ⟨leaf, side⟩)) := by
  have hdigits : ∀ c ∈ decimalNat leaf, isDecimalDigit c = true :=
    fun c hc => isDecimalDigit_of_mem_decimalNat hc
  obtain ⟨hblank, htake, hdrop, hletter⟩ :
      (∀ c ∈ side, isBlankChar c = false) ∧ side.takeWhile isDecimalDigit = [] ∧
        side.dropWhile isDecimalDigit = side ∧ readSide side = side := by
    rcases hside with rfl | rfl <;>
      exact ⟨forall_mem_of_all (by decide), by decide, by decide, by decide⟩
  have htrim : trim (decimalNat leaf ++ side) = decimalNat leaf ++ side := by
    refine trim_eq_self (isTrimmed_of_forall fun c hc => ?_)
    rcases List.mem_append.1 hc with hc | hc
    · exact isBlankChar_of_isDigitSign (isDigitSign_of_isDigit (isDigit_of_mem_decimalNat hc))
    · exact hblank c hc
  -- the address starts with its digits
  have hstart : (decimalNat leaf ++ side).dropWhile (!isDecimalDigit ·) = decimalNat leaf ++ side := by
    obtain ⟨c, rest, hc⟩ := List.exists_cons_of_ne_nil (decimalNat_ne_nil leaf)
    rw [hc, List.cons_append, List.dropWhile_cons_of_neg]
    simp [hdigits c (hc ▸ List.mem_cons_self)]
  have hne : (decimalNat leaf ++ side).isEmpty = false := by simp [decimalNat_ne_nil]
  rw [readPosition, htrim]
  simp only [hstart, hne, List.takeWhile_append_of_pos hdigits, List.dropWhile_append_of_pos hdigits,
    htake, hdrop, hletter, List.append_nil, readDigits_decimalNat fit]
  show (if leaf < 1 then _ else _) = _
  rw [if_neg (by omega)]
  rfl

/-- **The number of a side**, as a citation has it, is the one behind the position. -/
theorem parseReferences_english {i : Nat} (fit : (decimal (ofIndex i).page).length ≤ maxDigits) :
    Citation.parseReferences (ofIndex i).english = .ok ([((i + 2 : Nat) : Int)], true) := by
  let c : Citation := ⟨[], none, [((i + 2 : Nat) : Int)], [], true⟩
  have hrefs : c.references = [i + 2].map Int.ofNat := rfl
  have hleaf : (i + 2) / 2 = i / 2 + 1 := by omega
  have hside : (ofIndex i).side = [Citation.sideLetter (i + 2)] := by
    rw [ofIndex, Citation.sideLetter]
    by_cases h : i % 2 = 0
    · rw [if_pos h, if_neg (by omega)]
    · rw [if_neg h, if_pos (by omega)]
  have htext : joinWith [':'] c.referenceTexts = (ofIndex i).english := by
    rw [Citation.referenceTexts_of_isDaf hrefs rfl, List.map_nil, joinWith_singleton, hleaf, english,
      hside]
    rfl
  rw [← htext]
  exact Citation.parseReferences_of_isDaf hrefs rfl (hleaf ▸ fit) (List.forall_mem_nil _)

/-! ### Positions and labels -/

/-- **A leaf and a side stand at their position.** -/
theorem ofPosition_position {page : Int} {side : Text} (hpage : 1 ≤ page) (hside : IsSide side) :
    ofPosition (position ⟨page, side⟩) = .ok ⟨page, side⟩ := by
  obtain ⟨leaf, rfl⟩ : ∃ leaf : Nat, page = leaf + 1 := ⟨(page - 1).toNat, by omega⟩
  rw [ofPosition_eq_ok]
  rcases hside with rfl | rfl
  · refine ⟨2 * leaf, ?_, ?_⟩
    · show ((leaf : Int) + 1 - 1) * 2 + 1 = _
      omega
    · simp [ofIndex]
  · refine ⟨2 * leaf + 1, ?_, ?_⟩
    · show ((leaf : Int) + 1 - 1) * 2 + 2 = _
      omega
    · rw [ofIndex, if_neg (by omega)]
      congr 1
      omega

/-- **The addresses of page sides agree.** From position 1 on there is an address at each position and
it has that position. If its leaf is short enough to be read, the English label is read as the same
position, and in a citation as a page side with one number, the one behind the position. A leaf from 1
on and a side are the address at their position. And different positions have different labels, in
English and in Hebrew. -/
theorem pageSides_agree :
    (∀ p : Int, 1 ≤ p → ∃ d, ofPosition p = .ok d ∧ d.position = p ∧
      ((decimal d.page).length ≤ maxDigits →
        readPosition d.english = .ok (some p) ∧
          Citation.parseReferences d.english = .ok ([p + 1], true))) ∧
      (∀ page side, 1 ≤ page → IsSide side →
        ofPosition (position ⟨page, side⟩) = .ok ⟨page, side⟩) ∧
        ∀ p q d e, ofPosition p = .ok d → ofPosition q = .ok e → p ≠ q →
          d.english ≠ e.english ∧ d.hebrew ≠ e.hebrew := by
  refine ⟨?_, fun page side => ofPosition_position, ?_⟩
  · intro p hp
    obtain ⟨i, rfl⟩ : ∃ i : Nat, p = i + 1 := ⟨(p - 1).toNat, by omega⟩
    refine ⟨ofIndex i, ofPosition_natCast_add_one i, position_ofIndex i, fun fit => ⟨?_, ?_⟩⟩
    · rw [← position_ofIndex i]
      exact readPosition_append (Nat.succ_ne_zero _) (isSide_ofIndex i) fit
    · rw [parseReferences_english fit]
      rfl
  · intro p q d e hp hq hne
    obtain ⟨i, rfl, rfl⟩ := ofPosition_eq_ok.1 hp
    obtain ⟨j, rfl, rfl⟩ := ofPosition_eq_ok.1 hq
    have hindex : i ≠ j := by
      rintro rfl
      exact hne rfl
    -- the labels are those of the items of a level of page sides
    let sides : AddressKind := .talmudPage
    constructor
    · intro (h : (sides.labelsAt i).english = (sides.labelsAt j).english)
      exact hindex (AddressKind.english_injective h)
    · intro (h : (sides.labelsAt i).hebrew = (sides.labelsAt j).hebrew)
      exact hindex (AddressKind.hebrew_injective h)

/-- The second side of leaf 45, and the side in front of it. -/
theorem pageSides_agree_secondSide :
    let d : DafAddress := ⟨45, ['b']⟩
    let e : DafAddress := ⟨45, ['a']⟩
    ofPosition 90 = .ok d ∧ d.position = 90 ∧ (decimal d.page).length ≤ maxDigits ∧
      readPosition "45b".toList = .ok (some 90) ∧
        Citation.parseReferences "45b".toList = .ok ([91], true) ∧
          ofPosition d.position = .ok d ∧ ofPosition 89 = .ok e ∧ d.english ≠ e.english ∧
            d.hebrew ≠ e.hebrew := by
  intro d e
  have hd : ofPosition 90 = .ok d := rfl
  have he : ofPosition 89 = .ok e := rfl
  have fit : (decimal d.page).length ≤ maxDigits := by decide
  have henglish : d.english = "45b".toList := by decide
  obtain ⟨agree, back, apart⟩ := pageSides_agree
  obtain ⟨d', hd', hposition, hread⟩ := agree 90 (by decide)
  obtain rfl : d = d' := Except.ok.inj (hd.symm.trans hd')
  obtain ⟨hnumber, hreferences⟩ := hread fit
  rw [henglish] at hnumber hreferences
  obtain ⟨hlabel, hhebrew⟩ := apart 90 89 d e hd he (by decide)
  exact ⟨hd, hposition, fit, hnumber, hreferences, back 45 ['b'] (by decide) (.inr rfl), he, hlabel,
    hhebrew⟩

end HebrewCorpus.DafAddress
