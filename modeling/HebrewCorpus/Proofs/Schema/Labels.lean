import HebrewCorpus.Proofs.Citation.Canonical
import HebrewCorpus.Proofs.Numeral.Reading
import HebrewCorpus.Schema.AddressKind

/-! # Labels and addresses

The English labels of a level tell its items apart, and so do addresses made of them. A Hebrew label
is written with letters and never looks like an English one.

* **`english_injective`**: different items of a level have different English labels.
* **`addressWord`**: English labels with colons between them. It is a fixed word
  (`isFixedWord_addressWord`), holds a digit, and is known by its indices (`addressWord_injective`).
  `addressWord_eq_iff` compares those of two leaves.
* **`mem_hebrew`**: the signs of Hebrew labels, none of them a digit.
* **`hebrew_injective`**: different items of a level have different Hebrew labels. -/

namespace HebrewCorpus

open Text

namespace AddressKind

/-! ### English labels -/

/-- The signs that English labels are written with. -/
def englishSigns : List Char := ['0', '1', '2', '3', '4', '5', '6', '7', '8', '9', 'a', 'b']

/-- A digit is a sign of English labels. -/
theorem mem_englishSigns_of_isDigit {c : Char} (h : c.isDigit = true) : c ∈ englishSigns := by
  have hc : 48 ≤ c.toNat ∧ c.toNat ≤ 57 := Char.isDigit_iff_toNat.1 h
  have hlist : englishSigns = (List.range' 48 10).map Char.ofNat ++ ['a', 'b'] := by decide
  rw [hlist, List.mem_append, List.mem_map]
  refine .inl ⟨c.toNat, ?_, Char.ofNat_toNat c⟩
  rw [List.mem_range'_1]
  omega

/-- English labels are written with digits and the letters of sides. -/
theorem mem_english {kind : AddressKind} {i : Nat} {c : Char}
    (h : c ∈ (kind.labelsAt i).english) : c ∈ englishSigns := by
  have digits {n : Nat} (h : c ∈ decimalNat n) : c ∈ englishSigns :=
    mem_englishSigns_of_isDigit (isDigit_of_mem_decimalNat h)
  have side : ∀ c ∈ ['a', 'b'], c ∈ englishSigns := forall_mem_of_all (by decide)
  cases kind with
  | talmudPage =>
    rw [show (talmudPage.labelsAt i).english =
      decimalNat (i / 2 + 1) ++ if i % 2 = 0 then ['a'] else ['b'] from rfl, List.mem_append] at h
    rcases h with h | h
    · exact digits h
    · refine side c ?_
      split at h <;> rw [List.mem_singleton.1 h] <;> decide
  | chapter | verse | integer | «section» | paragraph => exact digits h

/-- **English labels start with a digit.** -/
theorem exists_cons_english (kind : AddressKind) (i : Nat) :
    ∃ c rest, (kind.labelsAt i).english = c :: rest ∧ c.isDigit = true := by
  have digit (n : Nat) : ∃ c rest, decimalNat n = c :: rest ∧ c.isDigit = true := by
    obtain ⟨c, rest, hc⟩ := List.exists_cons_of_ne_nil (decimalNat_ne_nil n)
    exact ⟨c, rest, hc, isDigit_of_mem_decimalNat (hc ▸ List.mem_cons_self)⟩
  cases kind with
  | talmudPage =>
    obtain ⟨c, rest, hc, hd⟩ := digit (i / 2 + 1)
    refine ⟨c, rest ++ (DafAddress.ofIndex i).side, ?_, hd⟩
    show decimalNat (i / 2 + 1) ++ _ = _
    rw [hc, List.cons_append]
  | chapter | verse | integer | «section» | paragraph => exact digit (i + 1)

/-- An English label holds a digit. -/
theorem exists_digit_mem_english (kind : AddressKind) (i : Nat) :
    ∃ c ∈ (kind.labelsAt i).english, c.isDigit = true := by
  obtain ⟨c, rest, hc, hd⟩ := exists_cons_english kind i
  exact ⟨c, hc ▸ List.mem_cons_self, hd⟩

/-- A page and a side are known by their label. -/
theorem page_side_injective {m n : Nat} {s t : Text} (hs : s = ['a'] ∨ s = ['b'])
    (ht : t = ['a'] ∨ t = ['b']) (h : decimalNat m ++ s = decimalNat n ++ t) : m = n ∧ s = t := by
  have hlen : s.length = t.length := by rcases hs with rfl | rfl <;> rcases ht with rfl | rfl <;> rfl
  obtain ⟨hd, hst⟩ := List.append_inj' h hlen
  exact ⟨decimalNat_injective hd, hst⟩

/-- **Different items of a level have different English labels.** -/
theorem english_injective {kind : AddressKind} {i j : Nat}
    (h : (kind.labelsAt i).english = (kind.labelsAt j).english) : i = j := by
  have number (h : decimalNat (i + 1) = decimalNat (j + 1)) : i = j :=
    Nat.succ.inj (decimalNat_injective h)
  cases kind with
  | talmudPage =>
    have side (k : Nat) : (if k % 2 = 0 then ['a'] else ['b']) = ['a'] ∨
        (if k % 2 = 0 then ['a'] else ['b']) = ['b'] := by
      split
      · exact .inl rfl
      · exact .inr rfl
    obtain ⟨hpage, hside⟩ := page_side_injective (side i) (side j) h
    by_cases hi : i % 2 = 0 <;> by_cases hj : j % 2 = 0 <;> simp [hi, hj] at hside <;> omega
  | chapter | verse | integer | «section» | paragraph => exact number h

/-! ### Addresses -/

/-- The English labels of the items on the way to a place. -/
def englishLabels (kinds : List AddressKind) (place : List Nat) : List Text :=
  List.zipWith (fun kind i => (kind.labelsAt i).english) kinds place

/-- **An address**: the English labels of the items on the way to a place, with colons between
them. -/
def addressWord (kinds : List AddressKind) (place : List Nat) : Text :=
  joinWith [':'] (englishLabels kinds place)

/-- Every level but one of page sides is labelled by plain numbers. -/
theorem english_of_ne_talmudPage {kind : AddressKind} (h : kind ≠ .talmudPage) (i : Nat) :
    (kind.labelsAt i).english = decimalNat (i + 1) := by
  cases kind with
  | talmudPage => exact absurd rfl h
  | chapter | verse | integer | «section» | paragraph => rfl

/-- The first label stands in front of the address below it. -/
theorem addressWord_cons (kind : AddressKind) {kinds : List AddressKind} (i : Nat)
    {place : List Nat} (h : englishLabels kinds place ≠ []) :
    addressWord (kind :: kinds) (i :: place) =
      (kind.labelsAt i).english ++ ':' :: addressWord kinds place := by
  have hjoin := joinWith_cons [':'] (kind.labelsAt i).english h
  rw [List.append_assoc, List.singleton_append] at hjoin
  exact hjoin

/-- The last label stands behind the address above it. -/
theorem addressWord_concat {kinds : List AddressKind} (kind : AddressKind) {place : List Nat}
    (i : Nat) (hlen : place.length = kinds.length) (h : englishLabels kinds place ≠ []) :
    addressWord (kinds ++ [kind]) (place ++ [i]) =
      addressWord kinds place ++ ':' :: (kind.labelsAt i).english := by
  have hlabels : englishLabels (kinds ++ [kind]) (place ++ [i]) =
      englishLabels kinds place ++ [(kind.labelsAt i).english] :=
    List.zipWith_append hlen.symm
  rw [addressWord, hlabels, joinWith_append [':'] h (by simp), joinWith_singleton,
    List.append_assoc, List.singleton_append]
  rfl

/-- A label on the way to a place is the label of some item. -/
theorem exists_of_mem_englishLabels {kinds : List AddressKind} {place : List Nat} {label : Text}
    (h : label ∈ englishLabels kinds place) : ∃ kind i, label = (labelsAt kind i).english := by
  induction kinds generalizing place with
  | nil => cases h
  | cons kind kinds ih =>
    cases place with
    | nil => cases h
    | cons i place =>
      rcases List.mem_cons.1 h with rfl | h
      · exact ⟨kind, i, rfl⟩
      · exact ih h

/-- There is a label for each item on the way. -/
theorem length_englishLabels {kinds : List AddressKind} {place : List Nat}
    (h : place.length = kinds.length) : (englishLabels kinds place).length = kinds.length := by
  rw [englishLabels, List.length_zipWith, h, Nat.min_self]

/-- There are labels on a way through any levels. -/
theorem englishLabels_ne_nil {kinds : List AddressKind} {place : List Nat} (hk : kinds ≠ [])
    (h : place.length = kinds.length) : englishLabels kinds place ≠ [] := by
  intro hn
  have hlen := length_englishLabels h
  rw [hn] at hlen
  exact hk (List.eq_nil_of_length_eq_zero hlen.symm)

/-- No English label holds a colon. -/
theorem colon_not_mem_englishLabels {kinds : List AddressKind} {place : List Nat} {label : Text}
    (h : label ∈ englishLabels kinds place) : ':' ∉ label := by
  obtain ⟨kind, i, rfl⟩ := exists_of_mem_englishLabels h
  intro hc
  exact absurd (mem_english hc) (by decide)

/-- An address is written with the signs of English labels, and colons. -/
theorem mem_addressWord {kinds : List AddressKind} {place : List Nat} {c : Char}
    (h : c ∈ addressWord kinds place) : c ∈ ':' :: englishSigns := by
  rcases mem_joinWith h with h | ⟨label, hl, h⟩
  · rw [List.mem_singleton.1 h]
    exact List.mem_cons_self
  · obtain ⟨kind, i, rfl⟩ := exists_of_mem_englishLabels hl
    exact List.mem_cons_of_mem _ (mem_english h)

/-- Labels with colons between them are known by their text. -/
theorem englishLabels_eq_of_addressWord_eq {kinds kinds' : List AddressKind} {p q : List Nat}
    (hp : englishLabels kinds p ≠ []) (hq : englishLabels kinds' q ≠ [])
    (h : addressWord kinds p = addressWord kinds' q) :
    englishLabels kinds p = englishLabels kinds' q := by
  have hp := List.splitOn_intercalate ':' (fun _ hl => colon_not_mem_englishLabels hl) hp
  have hq := List.splitOn_intercalate ':' (fun _ hl => colon_not_mem_englishLabels hl) hq
  rw [← hp, ← hq]
  exact congrArg (List.splitOn ':') h

/-- Different places have different labels. -/
theorem englishLabels_injective {kinds : List AddressKind} {p q : List Nat}
    (hp : p.length = kinds.length) (hq : q.length = kinds.length)
    (h : englishLabels kinds p = englishLabels kinds q) : p = q := by
  induction kinds generalizing p q with
  | nil => rw [List.eq_nil_of_length_eq_zero hp, List.eq_nil_of_length_eq_zero hq]
  | cons kind kinds ih =>
    cases p with
    | nil => cases hp
    | cons i p =>
      cases q with
      | nil => cases hq
      | cons j q =>
        injection h with hi h
        rw [english_injective hi, ih (Nat.succ.inj hp) (Nat.succ.inj hq) h]

/-- **Different places have different addresses.** -/
theorem addressWord_injective {kinds : List AddressKind} {p q : List Nat}
    (hp : p.length = kinds.length) (hq : q.length = kinds.length)
    (h : addressWord kinds p = addressWord kinds q) : p = q := by
  cases kinds with
  | nil => rw [List.eq_nil_of_length_eq_zero hp, List.eq_nil_of_length_eq_zero hq]
  | cons kind kinds =>
    have hne {r : List Nat} (hr : r.length = (kind :: kinds).length) :
        englishLabels (kind :: kinds) r ≠ [] := englishLabels_ne_nil (List.cons_ne_nil _ _) hr
    exact englishLabels_injective hp hq (englishLabels_eq_of_addressWord_eq (hne hp) (hne hq) h)

/-- An address holds a digit. -/
theorem exists_digit_mem_addressWord {kinds : List AddressKind} {place : List Nat}
    (h : englishLabels kinds place ≠ []) : ∃ c ∈ addressWord kinds place, c.isDigit = true := by
  obtain ⟨label, labels, hl⟩ := List.exists_cons_of_ne_nil h
  have hmem : label ∈ englishLabels kinds place := hl ▸ List.mem_cons_self
  obtain ⟨kind, i, rfl⟩ := exists_of_mem_englishLabels hmem
  obtain ⟨c, hc, hd⟩ := exists_digit_mem_english kind i
  exact ⟨c, mem_joinWith_of_mem [':'] hmem hc, hd⟩

/-- The signs of addresses are fixed by canonical forms. -/
theorem isFixed_of_mem_englishSigns {c : Char} (h : c ∈ ':' :: englishSigns) :
    isBlankChar c = false ∧ isKept c = true ∧ lowerChar c = [c] := by
  have hall : ∀ c ∈ ':' :: englishSigns,
      isBlankChar c = false ∧ isKept c = true ∧ lowerChar c = [c] := forall_mem_of_all (by decide)
  exact hall c h

/-- **An address is a fixed word.** -/
theorem isFixedWord_addressWord {kinds : List AddressKind} {place : List Nat}
    (h : englishLabels kinds place ≠ []) : IsFixedWord (addressWord kinds place) := by
  obtain ⟨c, hc, -⟩ := exists_digit_mem_addressWord h
  exact ⟨List.ne_nil_of_mem hc, fun c hc => isFixed_of_mem_englishSigns (mem_addressWord hc)⟩

/-! ### Labels of other levels -/

/-- Whether items are labelled as page sides; all other labels are plain numbers. -/
def isPaged (kind : AddressKind) : Bool := kind = .talmudPage

/-- Levels that are both labelled as page sides or both not have the same English labels. -/
theorem english_congr {kind kind' : AddressKind} (h : kind.isPaged = kind'.isPaged) (i : Nat) :
    (kind.labelsAt i).english = (kind'.labelsAt i).english := by
  by_cases hk : kind = .talmudPage
  · have hk' : kind' = .talmudPage := by simpa [isPaged, hk] using h
    rw [hk, hk']
  · have hk' : kind' ≠ .talmudPage := by simpa [isPaged, hk] using h
    rw [english_of_ne_talmudPage hk, english_of_ne_talmudPage hk']

/-- The label of a page side is no plain number: it holds the letter of the side. -/
theorem english_talmudPage_ne (i j : Nat) :
    (talmudPage.labelsAt i).english ≠ decimalNat (j + 1) := by
  rw [show (talmudPage.labelsAt i).english =
    decimalNat (i / 2 + 1) ++ if i % 2 = 0 then ['a'] else ['b'] from rfl]
  intro h
  have digit {c : Char} (hc : c ∈ if i % 2 = 0 then ['a'] else ['b']) : c.isDigit = true :=
    isDigit_of_mem_decimalNat (h ▸ List.mem_append_right _ hc)
  split at digit
  · exact absurd (digit List.mem_cons_self) (by decide)
  · exact absurd (digit List.mem_cons_self) (by decide)

/-- **Labels are the same for the same item of levels that are labelled alike**, and otherwise not. -/
theorem english_eq_iff {kind kind' : AddressKind} {i j : Nat} :
    (kind.labelsAt i).english = (kind'.labelsAt j).english ↔
      i = j ∧ kind.isPaged = kind'.isPaged := by
  constructor
  · intro h
    have hpaged : kind.isPaged = kind'.isPaged := by
      by_cases hk : kind = .talmudPage <;> by_cases hk' : kind' = .talmudPage
      · rw [hk, hk']
      · rw [hk, english_of_ne_talmudPage hk'] at h
        exact absurd h (english_talmudPage_ne i j)
      · rw [hk', english_of_ne_talmudPage hk] at h
        exact absurd h.symm (english_talmudPage_ne j i)
      · simp [isPaged, hk, hk']
    rw [← english_congr hpaged j] at h
    exact ⟨english_injective h, hpaged⟩
  · rintro ⟨rfl, hpaged⟩
    exact english_congr hpaged i

/-- Lists of labels are the same for the same place in levels that are labelled alike. -/
theorem englishLabels_eq_iff {kinds kinds' : List AddressKind} {p q : List Nat}
    (hp : p.length = kinds.length) (hq : q.length = kinds'.length) :
    englishLabels kinds p = englishLabels kinds' q ↔
      p = q ∧ kinds.map isPaged = kinds'.map isPaged := by
  induction kinds generalizing kinds' p q with
  | nil =>
    obtain rfl := List.eq_nil_of_length_eq_zero hp
    cases kinds' with
    | nil => simp [englishLabels, List.eq_nil_of_length_eq_zero hq]
    | cons kind' kinds' => cases q <;> simp_all [englishLabels]
  | cons kind kinds ih =>
    cases p with
    | nil => cases hp
    | cons i p =>
      cases kinds' with
      | nil => simp [englishLabels]
      | cons kind' kinds' =>
        cases q with
        | nil => cases hq
        | cons j q =>
          have hrest := ih (Nat.succ.inj hp) (Nat.succ.inj hq)
          show _ :: englishLabels kinds p = _ :: englishLabels kinds' q ↔ _
          rw [List.cons.injEq, hrest, english_eq_iff, List.cons.injEq, List.map_cons, List.map_cons,
            List.cons.injEq]
          exact and_and_and_comm

/-- **Addresses are the same for the same place in levels that are labelled alike**, and otherwise
not. -/
theorem addressWord_eq_iff {kinds kinds' : List AddressKind} {p q : List Nat} (hk : kinds ≠ [])
    (hk' : kinds' ≠ []) (hp : p.length = kinds.length) (hq : q.length = kinds'.length) :
    addressWord kinds p = addressWord kinds' q ↔
      p = q ∧ kinds.map isPaged = kinds'.map isPaged := by
  rw [← englishLabels_eq_iff hp hq]
  refine ⟨englishLabels_eq_of_addressWord_eq (englishLabels_ne_nil hk hp)
    (englishLabels_ne_nil hk' hq), ?_⟩
  intro h
  rw [addressWord, addressWord, h]

/-! ### Hebrew labels -/

/-- **The number in the label of an item**: the page, or the position counted from 1. -/
def numberAt : (kind : AddressKind) → (i : Nat) → Nat
  | talmudPage, i => i / 2 + 1
  | _, i => i + 1

/-- The mark of a page side in a Hebrew label; other labels have none. -/
def sideMark : (kind : AddressKind) → (i : Nat) → Text
  | talmudPage, i => if i % 2 = 0 then ['.'] else [':']
  | _, _ => []

/-- **A Hebrew label is a numeral**, on page sides with the mark of the side. -/
theorem hebrew_eq (kind : AddressKind) (i : Nat) :
    (kind.labelsAt i).hebrew = gematria (kind.numberAt i) ++ kind.sideMark i := by
  cases kind with
  | talmudPage => by_cases h : i % 2 = 0 <;>
      simp [labelsAt, numberAt, sideMark, DafAddress.hebrew, DafAddress.ofIndex,
        DafAddress.isFirstSide, h]
  | chapter | verse | integer | «section» | paragraph => simp [labelsAt, numberAt, sideMark]

/-- Numbers in labels count from 1. -/
theorem numberAt_ne_zero (kind : AddressKind) (i : Nat) : kind.numberAt i ≠ 0 := by
  cases kind <;> simp [numberAt]

/-- A Hebrew label with a number below a thousand is one group of letters, and the mark. -/
theorem hebrew_of_lt {kind : AddressKind} {i : Nat} (h : kind.numberAt i < 1000) :
    (kind.labelsAt i).hebrew = gematriaGroup (kind.numberAt i) ++ kind.sideMark i := by
  rw [hebrew_eq, gematria_of_lt (kind.numberAt_ne_zero i) h]

/-- **Different items of a level have different Hebrew labels.** -/
theorem hebrew_injective {kind : AddressKind} {i j : Nat}
    (h : (kind.labelsAt i).hebrew = (kind.labelsAt j).hebrew) : i = j := by
  rw [hebrew_eq, hebrew_eq] at h
  have number (hn : kind.numberAt i = kind.numberAt j) (hm : kind.sideMark i = kind.sideMark j) :
      i = j := by
    cases kind with
    | talmudPage =>
      simp only [numberAt] at hn
      by_cases h₁ : i % 2 = 0 <;> by_cases h₂ : j % 2 = 0 <;> simp [sideMark, h₁, h₂] at hm <;>
        omega
    | chapter | verse | integer | «section» | paragraph => exact Nat.succ.inj hn
  have hlen : (kind.sideMark i).length = (kind.sideMark j).length := by
    cases kind <;> simp only [sideMark]
    split <;> split <;> rfl
  obtain ⟨hnumeral, hmark⟩ := List.append_inj' h hlen
  exact number (Int.ofNat.inj (gematria_injective hnumeral)) hmark

/-- The signs that Hebrew labels are written with. -/
def hebrewSigns : List Char := ' ' :: '.' :: ':' :: numeralLetters

/-- **Hebrew labels are written with the letters of numerals, spaces, points and colons.** -/
theorem mem_hebrew {kind : AddressKind} {i : Nat} {c : Char}
    (h : c ∈ (kind.labelsAt i).hebrew) : c ∈ hebrewSigns := by
  rw [hebrew_eq, List.mem_append] at h
  rcases h with h | h
  · rcases mem_gematria (kind.numberAt_ne_zero i) h with rfl | h
    · exact List.mem_cons_self
    · exact List.mem_cons_of_mem _ (List.mem_cons_of_mem _ (List.mem_cons_of_mem _ h))
  · cases kind with
    | talmudPage =>
      simp only [sideMark] at h
      split at h <;> rw [List.mem_singleton.1 h] <;> decide
    | chapter | verse | integer | «section» | paragraph => cases h

/-- A Hebrew label holds a sign that is no space. -/
theorem exists_mem_hebrew (kind : AddressKind) (i : Nat) :
    ∃ c ∈ (kind.labelsAt i).hebrew, c ∈ numeralLetters := by
  obtain ⟨c, hc, hl⟩ := exists_letter_mem_gematria (kind.numberAt_ne_zero i)
  rw [hebrew_eq]
  exact ⟨c, List.mem_append_left _ hc, hl⟩

end AddressKind

end HebrewCorpus
