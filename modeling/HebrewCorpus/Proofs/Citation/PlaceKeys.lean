import HebrewCorpus.Proofs.Book.Places
import HebrewCorpus.Proofs.Citation.Lookup
import HebrewCorpus.Proofs.Citation.NormalForms

/-! # Keys of the places of a leaf

Every line of a book that is one leaf registers six keys: its English and its Hebrew reference, each
in full, without the title and as an address alone. The English ones end in the address of the line
and the Hebrew ones in a word without digits, so no line registers a key that ends in the address of
another line.

* **`endsIn_of_mem_scopeKeysOf`**, **`isSuffix_of_mem_scopeKeysOf`**: all keys of a reference are
  ends of its canonical form, and end in its last word.
* **`exists_endsIn_placeHeRef`**: the word at the end of a Hebrew reference.
* **`eq_addressWord_of_mem_scopeKeys`**: a key that ends in a word with a digit ends in the address of
  its line.
* **`lookup_place`**, **`exists_place_of_lookup`**: what is found among the keys of all places. -/

namespace HebrewCorpus

open AddressKind Text

/-! ### The ends of references -/

/-- **All keys of a reference end as its canonical form does.** -/
theorem endsIn_of_mem_scopeKeysOf {w ref key : Text} {titles : List Text} (hw : IsWord w)
    (h : EndsIn w (canonical ref)) (hk : key ∈ scopeKeysOf titles ref) : EndsIn w key := by
  rcases RefIndex.eq_of_mem_scopeKeysOf hk with rfl | rfl | rfl
  · exact h
  · exact endsIn_stripAlias hw h titles
  · exact endsIn_addressTail hw.space_not_mem h

/-- **All keys of a reference are ends of its canonical form.** -/
theorem isSuffix_of_mem_scopeKeysOf {ref key : Text} {titles : List Text}
    (hk : key ∈ scopeKeysOf titles ref) : key <:+ canonical ref := by
  rcases RefIndex.eq_of_mem_scopeKeysOf hk with rfl | rfl | rfl
  · exact List.suffix_rfl
  · exact isSuffix_stripAlias _ titles
  · exact isSuffix_addressTail _

/-- A text with a space ends, in its canonical form, in the last canonical word of what follows. -/
theorem endsIn_canonical_append_space (front back : Text) {ws : List Text} {w : Text}
    (h : canonicalWords back = ws ++ [w]) : EndsIn w (canonical (front ++ ' ' :: back)) := by
  rw [canonical_eq_joinWith, canonicalWords_append_blank isBlankChar_space, h, ← List.append_assoc]
  exact .joinWith_concat _ w

/-- **An English reference ends in the address of its place.** -/
theorem endsIn_canonical_placeRef (title : Text) {kinds : List AddressKind} {place : List Nat}
    (h : englishLabels kinds place ≠ []) :
    EndsIn (addressWord kinds place) (canonical (placeRef title kinds place)) := by
  have hwords : canonicalWords (addressWord kinds place) = [] ++ [addressWord kinds place] :=
    (isFixedWord_addressWord h).canonicalWords_eq
  exact endsIn_canonical_append_space title _ hwords

/-- The canonical form of an English reference, behind a title that has one. -/
theorem canonical_placeRef {title : Text} (ht : canonical title ≠ []) {kinds : List AddressKind}
    {place : List Nat} (h : englishLabels kinds place ≠ []) :
    canonical (placeRef title kinds place) = canonical title ++ ' ' :: addressWord kinds place :=
  (isFixedWord_addressWord h).canonical_append ht

/-- The canonical words of a Hebrew label are written with the signs of Hebrew labels. -/
theorem mem_hebrewSigns_of_mem_canonicalWords {kind : AddressKind} {i : Nat} {w : Text} {c : Char}
    (hw : w ∈ canonicalWords (kind.labelsAt i).hebrew) (hc : c ∈ w) : c ∈ hebrewSigns := by
  have hfixed : ∀ c ∈ hebrewSigns, lowerChar c = [c] := forall_mem_of_all (by decide +kernel)
  obtain ⟨v, hv, rfl⟩ := List.mem_map.1 hw
  have hsigns : ∀ c ∈ v, c ∈ hebrewSigns := fun c hc =>
    mem_hebrew (List.mem_filter.1 (mem_of_mem_words hv hc)).1
  rw [lower_eq_self fun c hc => hfixed c (hsigns c hc)] at hc
  exact hsigns c hc

/-- A Hebrew label has canonical words. -/
theorem canonicalWords_hebrew_ne_nil (kind : AddressKind) (i : Nat) :
    canonicalWords (kind.labelsAt i).hebrew ≠ [] := by
  have hletters : ∀ c ∈ numeralLetters, isKept c = true ∧ isBlankChar c = false :=
    forall_mem_of_all (by decide)
  obtain ⟨c, hc, hl⟩ := exists_mem_hebrew kind i
  obtain ⟨hkept, hblank⟩ := hletters c hl
  intro h
  have hwords := List.map_eq_nil_iff.1 h
  have hall := List.all_eq_true.1 (words_eq_nil_iff.1 hwords) c (List.mem_filter.2 ⟨hc, hkept⟩)
  rw [hblank] at hall
  cases hall

/-- **A Hebrew reference ends in a word without digits.** -/
theorem exists_endsIn_placeHeRef (title : Text) {kinds : List AddressKind} {place : List Nat}
    (h : hebrewLabels kinds place ≠ []) :
    ∃ w, IsWord w ∧ (∀ c ∈ w, c.isDigit = false) ∧
      EndsIn w (canonical (placeHeRef title kinds place)) := by
  have hdigits : ∀ c ∈ hebrewSigns, c.isDigit = false := forall_mem_of_all (by decide)
  -- the last label is that of some item
  have hlabels {label : Text} (hl : label ∈ hebrewLabels kinds place) :
      ∃ kind i, label = (labelsAt kind i).hebrew := by
    rw [hebrewLabels, ← List.map_uncurry_zip_eq_zipWith] at hl
    obtain ⟨⟨kind, i⟩, -, rfl⟩ := List.mem_map.1 hl
    exact ⟨kind, i, rfl⟩
  have hsplit : hebrewLabels kinds place =
      (hebrewLabels kinds place).dropLast ++ [(hebrewLabels kinds place).getLast h] :=
    (List.dropLast_concat_getLast h).symm
  obtain ⟨kind, i, hlast⟩ := hlabels (List.getLast_mem h)
  rw [hlast] at hsplit
  have hne := canonicalWords_hebrew_ne_nil kind i
  obtain ⟨ws, w, hw⟩ : ∃ ws w, canonicalWords (kind.labelsAt i).hebrew = ws ++ [w] :=
    ⟨_, _, (List.dropLast_concat_getLast hne).symm⟩
  have hmem : w ∈ canonicalWords (kind.labelsAt i).hebrew := by simp [hw]
  refine ⟨w, isWord_of_mem_canonicalWords hmem,
    fun c hc => hdigits c (mem_hebrewSigns_of_mem_canonicalWords hmem hc), ?_⟩
  obtain ⟨front, hfront⟩ : ∃ front, placeHeRef title kinds place =
      front ++ ' ' :: (kind.labelsAt i).hebrew := by
    rw [placeHeRef, hsplit]
    by_cases hd : (hebrewLabels kinds place).dropLast = []
    · exact ⟨title, by rw [hd, List.nil_append, joinWith_singleton]⟩
    · rw [joinWith_append ", ".toList hd (by simp), joinWith_singleton]
      exact ⟨title ++ ' ' :: joinWith ", ".toList (hebrewLabels kinds place).dropLast ++ [','], by
        simp⟩
  rw [hfront]
  exact endsIn_canonical_append_space front _ hw

/-! ### The keys of a place -/

section Digits

variable {book : Int} {titleEn titleHe : Text} {kinds : List AddressKind} {place : List Nat}
  (h : englishLabels kinds place ≠ []) {before : Nat} {titles : List Text} {key w : Text}
  (hk : key ∈ (placeEntry book titleEn titleHe kinds place before).scopeKeys titles)
  (hw : EndsIn w key) (hspace : ' ' ∉ w) (hdigit : ∃ c ∈ w, c.isDigit = true)

include h hk hw hspace hdigit

/-- **A key that ends in a word with a digit** is a key of the English reference. -/
theorem mem_scopeKeysOf_placeRef : key ∈ scopeKeysOf titles (placeRef titleEn kinds place) := by
  rcases List.mem_append.1 hk with hk | hk
  · exact hk
  · have hne : hebrewLabels kinds place ≠ [] := by
      intro hn
      refine h (List.eq_nil_of_length_eq_zero ?_)
      have := congrArg List.length hn
      rwa [hebrewLabels, List.length_zipWith, ← List.length_zipWith (f := fun kind i =>
        (labelsAt kind i).english)] at this
    obtain ⟨v, hv, hno, hend⟩ := exists_endsIn_placeHeRef titleHe hne
    have heq := hw.unique hspace hv.space_not_mem (endsIn_of_mem_scopeKeysOf hv hend hk)
    obtain ⟨c, hc, hd⟩ := hdigit
    rw [hno c (heq ▸ hc)] at hd
    cases hd

/-- **A key that ends in a word with a digit** ends in the address of the line that registers it. -/
theorem eq_addressWord_of_mem_scopeKeys : w = addressWord kinds place := by
  have hword := (isFixedWord_addressWord h).isWord
  have hmem := mem_scopeKeysOf_placeRef h hk hw hspace hdigit
  have hend := endsIn_of_mem_scopeKeysOf hword (endsIn_canonical_placeRef titleEn h) hmem
  exact hw.unique hspace hword.space_not_mem hend

end Digits

/-- A reference with a canonical form has it as a key. -/
theorem canonical_mem_scopeKeysOf {ref : Text} (titles : List Text) (h : canonical ref ≠ []) :
    canonical ref ∈ scopeKeysOf titles ref := by
  simp [scopeKeysOf, h]

/-! ### The keys of all places -/

section Places

variable {book : Int} {titleEn titleHe : Text} {kinds : List AddressKind} {places : List (List Nat)}

/-- The reference entries of places in their order. -/
def placeEntries (book : Int) (titleEn titleHe : Text) (kinds : List AddressKind)
    (places : List (List Nat)) : List RefEntry :=
  places.zipIdx.map fun (place, i) => placeEntry book titleEn titleHe kinds place i

/-- A place stands at one index only. -/
theorem eq_of_mem_zipIdx (hnodup : places.Nodup) {place : List Nat} {i j : Nat}
    (hi : (place, i) ∈ places.zipIdx) (hj : (place, j) ∈ places.zipIdx) : i = j :=
  (List.getElem_inj hnodup).1 ((List.mem_zipIdx' hi).2.symm.trans (List.mem_zipIdx' hj).2)

variable (hk : kinds ≠ []) (hlen : ∀ place ∈ places, place.length = kinds.length)

include hk hlen

/-- **What a key ending in a word with a digit leads to** is the place with that word as address,
and the key is an end of its reference. -/
theorem exists_place_of_lookup {titles : List Text} {offset : Int} {key w : Text} {t : LineTarget}
    (h : (BookScope.build titles offset
      (placeEntries book titleEn titleHe kinds places)).keys.lookup key = some t)
    (hw : EndsIn w key) (hspace : ' ' ∉ w) (hdigit : ∃ c ∈ w, c.isDigit = true) :
    ∃ place i, (place, i) ∈ places.zipIdx ∧ addressWord kinds place = w ∧
      key <:+ canonical (placeRef titleEn kinds place) ∧
        t = (placeEntry book titleEn titleHe kinds place i).target offset := by
  obtain ⟨e, he, hkey, rfl⟩ := exists_of_lookup_flatMap h
  obtain ⟨⟨place, i⟩, hp, rfl⟩ := List.mem_map.1 he
  have hne := englishLabels_ne_nil hk (hlen place (List.fst_mem_of_mem_zipIdx hp))
  have hmem := mem_scopeKeysOf_placeRef hne hkey hw hspace hdigit
  exact ⟨place, i, hp, (eq_addressWord_of_mem_scopeKeys hne hkey hw hspace hdigit).symm,
    isSuffix_of_mem_scopeKeysOf hmem, rfl⟩

/-- **A place is found under its English reference**, and no other place is. -/
theorem lookup_place (hnodup : places.Nodup) (titles : List Text) (offset : Int) {place : List Nat}
    {i : Nat} (hp : (place, i) ∈ places.zipIdx) :
    (BookScope.build titles offset (placeEntries book titleEn titleHe kinds places)).keys.lookup
      (canonical (placeRef titleEn kinds place)) =
        some ((placeEntry book titleEn titleHe kinds place i).target offset) := by
  have hmem := List.fst_mem_of_mem_zipIdx hp
  have hne := englishLabels_ne_nil hk (hlen place hmem)
  have hword := (isFixedWord_addressWord hne).isWord
  have hend := endsIn_canonical_placeRef titleEn hne
  refine lookup_flatMap_eq_some (a := placeEntry book titleEn titleHe kinds place i)
    (List.mem_map.2 ⟨(place, i), hp, rfl⟩)
    (List.mem_append_left _ (canonical_mem_scopeKeysOf titles (hend.ne_nil hword.1))) ?_
  intro e he hkey
  obtain ⟨⟨other, j⟩, hother, rfl⟩ := List.mem_map.1 he
  have hmem' := List.fst_mem_of_mem_zipIdx hother
  have haddress := eq_addressWord_of_mem_scopeKeys (englishLabels_ne_nil hk (hlen other hmem')) hkey
    hend hword.space_not_mem (exists_digit_mem_addressWord hne)
  have hplace := addressWord_injective (hlen place hmem) (hlen other hmem') haddress
  subst hplace
  rw [eq_of_mem_zipIdx hnodup hp hother]

end Places

end HebrewCorpus
