import HebrewCorpus.Proofs.Citation.Tiers
import Mathlib.Order.Bounds.Defs

/-! # The closest number within a unit

Where no other tier has a line, a citation that ends in a number leads to the closest number at or
before it in its unit. What the unit is does not matter: it is all that stands in front of the last
colon. Each number is looked up in full and then without a title.

* **`RefIndex.numberLine?`**: the line of a number within a unit.
* **`RefIndex.matchTier_withinUnit`**: the last tier counts down through these lines.
* **`RefIndex.resolve_closestNumber`**: a citation that only the last tier answers. -/

namespace HebrewCorpus

open Text

/-- A key without a title is not empty, as nothing is stripped off a title itself. -/
theorem stripAlias_ne_nil {key : Text} (h : key ≠ []) (titles : List Text) :
    stripAlias key titles ≠ [] := by
  induction titles with
  | nil => exact h
  | cons title titles ih =>
    unfold stripAlias
    split
    · exact ih
    · split
      · exact h
      · split
        · next rest _ =>
          show (if (trimStart rest).isEmpty then key else trimStart rest) ≠ []
          split
          · exact h
          · next hne => simpa using hne
        · exact ih

namespace RefIndex

/-- A key that is not empty leads to the line under it. -/
theorem tryKey_of_ne_nil (index : RefIndex) (book : Option Int) {key : Text} (h : key ≠ []) :
    index.tryKey book key = index.matchKey key book (index.depthOf book) := by
  rw [tryKey, if_neg (by simpa using h)]

/-- **The line of a number within a unit** of a book: the one under the number in full, else the one
under it without a title. -/
def numberLine? (index : RefIndex) (book : Int) (unit : Text) (n : Nat) : Option LineTarget :=
  let key := unit ++ ':' :: decimalNat n
  let depth := index.depthOf (some book)
  (index.matchKey key (some book) depth).or
    (index.matchKey (stripAlias key (index.titlesOf book)) (some book) depth)

variable (index : RefIndex) (book : Int) (allowTail : Bool) {key unit digits : Text}

/-- **The last tier counts down through the numbers of a unit**, from the last number of the key to
1. -/
theorem matchTier_withinUnit (hunit : unit ≠ []) (hhyphen : '-' ∉ unit) (hdigits : digits ≠ [])
    (hall : ∀ c ∈ digits, isDecimalDigit c = true) (fit : digits.length ≤ maxDigits) :
    index.matchTier ⟨unit ++ ':' :: digits, index.titlesOf book, allowTail⟩ (some book)
        .withinChapter =
      (List.range' 1 (digitsValue digits)).reverse.findSome? (index.numberLine? book unit) := by
  have hkey : '-' ∉ unit ++ ':' :: digits := by
    simp only [List.mem_append, List.mem_cons, not_or]
    exact ⟨hhyphen, by decide, fun hc => absurd (hall _ hc) (by decide)⟩
  have hread : readDigits digits = .ok (digitsValue digits) := if_neg (Nat.not_lt.2 fit)
  rw [index.matchTier_countdown _ (lastNumber?_append hunit hdigits hall hkey) hread]
  refine findSome?_congr fun n _ => ?_
  have hne : unit ++ ':' :: decimalNat n ≠ [] := by simp
  rw [List.findSome?_cons, List.findSome?_singleton, tryKey_of_ne_nil _ _ hne,
    tryKey_of_ne_nil _ _ (stripAlias_ne_nil hne _), numberLine?]
  cases index.matchKey (unit ++ ':' :: decimalNat n) (some book) (index.depthOf (some book)) <;> rfl

/-- Where no other tier has a line, the last tier answers. -/
theorem findSome?_chain_of_none {f : Tier → Option LineTarget}
    (h : ∀ tier ∈ Tier.chain, tier ≠ .withinChapter → f tier = none) :
    Tier.chain.findSome? f = f .withinChapter := by
  have hchain : Tier.chain = Tier.chain.dropLast ++ [.withinChapter] := rfl
  have hfront : ∀ tier ∈ Tier.chain.dropLast, tier ≠ .withinChapter := by decide
  have hmissed : Tier.chain.dropLast.findSome? f = none :=
    List.findSome?_eq_none_iff.2 fun tier hmem =>
      h tier (List.dropLast_subset _ hmem) (hfront tier hmem)
  rw [hchain, List.findSome?_append, hmissed, Option.none_or, List.findSome?_singleton]

/-- **A citation leads to the closest number at or before its own.** In any index and book, let the
canonical form of a citation be a unit without a hyphen, a colon and a number that is short enough to
be read, and let no tier but the last have a line for it. With the chapter tiers the citation leads to
the line of the greatest number from 1 up to its own that has one in the unit, and nowhere exactly
when none has. -/
theorem resolve_closestNumber {text : Text} (hkey : canonical text = unit ++ ':' :: digits)
    (hunit : unit ≠ []) (hhyphen : '-' ∉ unit) (hdigits : digits ≠ [])
    (hall : ∀ c ∈ digits, isDecimalDigit c = true) (fit : digits.length ≤ maxDigits)
    (missed : ∀ tier ∈ Tier.chain, tier ≠ .withinChapter →
      index.matchTier ⟨canonical text, index.titlesOf book, allowTail⟩ (some book) tier = none) :
    let answer := index.resolve text (some book) ⟨true, allowTail⟩
    let line := index.numberLine? book unit
    (∀ t, answer = some t ↔
      ∃ n, IsGreatest {k | 1 ≤ k ∧ k ≤ digitsValue digits ∧ (line k).isSome} n ∧
        line n = some t) ∧
    (answer = none ↔ ∀ k, 1 ≤ k → k ≤ digitsValue digits → line k = none) := by
  intro answer line
  have hne : canonical text ≠ [] := by
    rw [hkey]
    simp
  have hanswer : answer = (List.range' 1 (digitsValue digits)).reverse.findSome? line := by
    show index.resolve text (some book) ⟨true, allowTail⟩ = _
    rw [index.resolve_eq_findSome?_chain book allowTail hne, findSome?_chain_of_none missed, hkey]
    exact index.matchTier_withinUnit book allowTail hunit hhyphen hdigits hall fit
  constructor
  · intro t
    rw [hanswer, findSome?_countdown_eq_some_iff]
    constructor
    · rintro ⟨n, hn, hle, ht, hnone⟩
      refine ⟨n, ⟨⟨hn, hle, by rw [ht, Option.isSome_some]⟩, ?_⟩, ht⟩
      rintro k ⟨-, hk, hsome⟩
      by_contra hlt
      rw [hnone k (Nat.not_le.1 hlt) hk] at hsome
      cases hsome
    · rintro ⟨n, ⟨⟨hn, hle, -⟩, hgreatest⟩, ht⟩
      refine ⟨n, hn, hle, ht, fun k hlt hk => ?_⟩
      by_contra hsome
      have := hgreatest ⟨by omega, hk, Option.isSome_iff_ne_none.2 hsome⟩
      omega
  · rw [hanswer, List.findSome?_eq_none_iff]
    simp only [List.mem_reverse, List.mem_range'_1]
    exact ⟨fun h k hk hle => h k ⟨hk, by omega⟩, fun h k hk => h k hk.1 (by omega)⟩

/-- A commentary with two comments on a section, of which citations may leave out the title. -/
def beitYosef : RefIndex :=
  build [⟨"Beit Yosef, Orach Chayim 325:34:1".toList, [], 1, 2⟩,
    ⟨"Beit Yosef, Orach Chayim 325:34:2".toList, [], 2, 2⟩]
    [(2, ["Beit Yosef".toList, "BY".toList])] [(2, 10)]

/-- Its fifth comment, cited by another title and with a digit of another script, is not there; the
closest one before it is the second, which is found without the title. -/
theorem resolve_closestNumber_beitYosef :
    let text := "BY, Orach Chayim 325:34:٥".toList
    let unit := "by orach chayim 325:34".toList
    canonical text = unit ++ ':' :: ['٥'] ∧ unit ≠ [] ∧ '-' ∉ unit ∧ ['٥'] ≠ [] ∧
      (∀ c ∈ ['٥'], isDecimalDigit c = true) ∧ ['٥'].length ≤ maxDigits ∧
      (∀ tier ∈ Tier.chain, tier ≠ .withinChapter →
        beitYosef.matchTier ⟨canonical text, beitYosef.titlesOf 2, true⟩ (some 2) tier = none) ∧
      beitYosef.matchKey "by orach chayim 325:34:2".toList (some 2) 2 = none ∧
      beitYosef.resolve text (some 2) ⟨true, true⟩ = some ⟨2, 11, 1⟩ := by
  intro text unit
  have hkey : canonical text = unit ++ ':' :: ['٥'] := by decide +kernel
  have hall : ∀ c ∈ ['٥'], isDecimalDigit c = true := forall_mem_of_all (by decide)
  have fit : ['٥'].length ≤ maxDigits := by decide
  have missed : ∀ tier ∈ Tier.chain, tier ≠ .withinChapter →
      beitYosef.matchTier ⟨canonical text, beitYosef.titlesOf 2, true⟩ (some 2) tier = none := by
    decide +kernel
  have hsecond : beitYosef.numberLine? 2 unit 2 = some ⟨2, 11, 1⟩ := by decide +kernel
  have hlater : ∀ k ≤ 5, 2 < k → beitYosef.numberLine? 2 unit k = none := by decide +kernel
  have hhyphen : '-' ∉ unit := by decide
  refine ⟨hkey, by decide, hhyphen, by decide, hall, fit, missed, by decide +kernel, ?_⟩
  refine ((resolve_closestNumber beitYosef 2 true hkey (by decide) hhyphen (by decide) hall fit
    missed).1 ⟨2, 11, 1⟩).2 ⟨2, ⟨⟨by decide, by decide, ?_⟩, ?_⟩, hsecond⟩
  · rw [hsecond, Option.isSome_some]
  · rintro k ⟨-, hk, hsome⟩
    by_contra hlt
    rw [hlater k hk (Nat.not_le.1 hlt)] at hsome
    cases hsome

end RefIndex

end HebrewCorpus
