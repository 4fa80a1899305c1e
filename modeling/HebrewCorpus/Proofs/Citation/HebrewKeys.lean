import HebrewCorpus.Proofs.Citation.PlaceKeys

/-! # Keys of Hebrew references

A Hebrew reference is a title and Hebrew numerals with commas between them. Its canonical form keeps
the words of all of them and nothing that parts them, so a numeral of several groups reads like
several numerals. Below a thousand every numeral is one word, and then the words tell the lines of a
book apart.

* **`canonicalWords_placeHeRef`**: the words of a Hebrew reference.
* **`length_words_of_mem_scopeKeysOf`**: the derived keys of a reference are shorter than it.
* **`IsShort`**: the places with numbers below a thousand.
* **`eq_of_heRef_mem_scopeKeys`**: a Hebrew reference is a key of no other short place. -/

namespace HebrewCorpus

open AddressKind Text

/-! ### The words of derived keys -/

/-- **A key without its title** has fewer words, if it is another key at all. -/
theorem length_words_stripAlias {key : Text} {titles : List Text}
    (htitles : ∀ title ∈ titles, title ≠ [] → words title ≠ []) :
    stripAlias key titles = key ∨ (words (stripAlias key titles)).length < (words key).length := by
  induction titles with
  | nil => exact .inl rfl
  | cons title titles ih =>
    have ih := ih fun t ht => htitles t (List.mem_cons_of_mem _ ht)
    rw [stripAlias]
    by_cases hempty : title.isEmpty = true
    · rwa [if_pos hempty]
    · rw [if_neg hempty]
      by_cases hkey : key = title
      · rw [if_pos hkey]
        exact .inl rfl
      · rw [if_neg hkey]
        cases hrest : dropLead? (title ++ [' ']) key with
        | none => exact ih
        | some rest =>
          have hwords : words key = words title ++ words rest := by
            rw [dropLead?_eq_some_iff.1 hrest, List.append_assoc, List.singleton_append,
              words_append_blank isBlankChar_space]
          have htitle := List.length_pos_iff.2
            (htitles title List.mem_cons_self (by simpa using hempty))
          show (if (trimStart rest).isEmpty then key else trimStart rest) = key ∨ _
          by_cases hblank : (trimStart rest).isEmpty = true
          · exact .inl (if_pos hblank)
          · refine .inr ?_
            show (words (if (trimStart rest).isEmpty then key else trimStart rest)).length < _
            rw [if_neg hblank, words_trimStart, hwords, List.length_append]
            omega

/-- **The address of a key** has fewer words, if it is not the whole key. -/
theorem length_words_addressTail {ws : List Text} (hws : ∀ w ∈ ws, IsWord w) :
    addressTail (joinWith [' '] ws) = joinWith [' '] ws ∨
      (words (addressTail (joinWith [' '] ws))).length < ws.length := by
  by_cases hne : ws = []
  · subst hne
    exact .inl (by decide)
  · have hsuffix := List.dropWhile_suffix (l := ws) (!isAddressWord ·)
    rw [addressTail, pieces_joinWith hws hne]
    split
    · exact .inl rfl
    · by_cases hlen : (ws.dropWhile (!isAddressWord ·)).length = ws.length
      · rw [hsuffix.eq_of_length hlen]
        exact .inl rfl
      · have hshort := hsuffix.length_le
        rw [words_joinWith fun w hw => hws w (hsuffix.subset hw)]
        exact .inr (by omega)

/-- **A key of a reference** is its canonical form or has fewer words. -/
theorem length_words_of_mem_scopeKeysOf {titles : List Text}
    (htitles : ∀ title ∈ titles, title ≠ [] → words title ≠ []) {ref key : Text}
    (h : key ∈ scopeKeysOf titles ref) :
    key = canonical ref ∨ (words key).length < (canonicalWords ref).length := by
  rcases RefIndex.eq_of_mem_scopeKeysOf h with rfl | rfl | rfl
  · exact .inl rfl
  · rw [← words_canonical]
    exact length_words_stripAlias htitles
  · rw [canonicalTail, canonical_eq_joinWith]
    exact length_words_addressTail fun w hw => isWord_of_mem_canonicalWords hw

/-- The titles of an index have words. -/
theorem words_ne_nil_of_mem_orderedTitles {title : Text} {titles : List Text}
    (h : title ∈ orderedTitles titles) (hne : title ≠ []) : words title ≠ [] := by
  have hcanonical (s : Text) (hs : canonical s = title) : words title ≠ [] := by
    rw [← hs, words_canonical]
    intro hn
    exact hne (hs ▸ canonical_eq_nil_iff.2 hn)
  have hkey := (sortOrdered_perm comesBefore _).mem_iff.1 h
  obtain ⟨s, -, hs⟩ := List.mem_flatMap.1 (mem_distinctKeys.1 hkey).1
  simp only [List.mem_cons, List.not_mem_nil, or_false] at hs
  rcases hs with hs | hs
  · exact hcanonical s hs.symm
  · -- the title of a blank text is empty
    unfold titleKey? at hs
    split at hs
    · exact absurd hs hne
    · dsimp only at hs
      split at hs
      · exact absurd hs hne
      · exact hcanonical _ hs.symm

/-! ### The words of Hebrew references -/

/-- A comma has no place among the words of a canonical form. -/
theorem canonicalWords_append_comma (s t : Text) :
    canonicalWords (s ++ ", ".toList ++ t) = canonicalWords s ++ canonicalWords t := by
  have hcomma : isKept ',' = false := by decide
  have hdrop : canonicalWords (s ++ ", ".toList ++ t) = canonicalWords (s ++ ' ' :: t) := by
    simp [canonicalWords, hcomma]
  rw [hdrop, canonicalWords_append_blank isBlankChar_space]

/-- Parts with commas between them have the words of the parts. -/
theorem canonicalWords_joinWith_comma (parts : List Text) :
    canonicalWords (joinWith ", ".toList parts) = parts.flatMap canonicalWords := by
  induction parts with
  | nil => decide
  | cons part parts ih =>
    by_cases hn : parts = []
    · subst hn
      simp
    · rw [joinWith_cons ", ".toList part hn, canonicalWords_append_comma, ih, List.flatMap_cons]

/-- **The words of a Hebrew reference** are those of its title and of its labels. -/
theorem canonicalWords_placeHeRef (title : Text) (kinds : List AddressKind) (place : List Nat) :
    canonicalWords (placeHeRef title kinds place) =
      canonicalWords title ++ (hebrewLabels kinds place).flatMap canonicalWords := by
  rw [placeHeRef, canonicalWords_append_blank isBlankChar_space, canonicalWords_joinWith_comma]

/-! ### Short places -/

/-- **A short place**: the numbers of all its labels are below a thousand. -/
def IsShort (kinds : List AddressKind) (place : List Nat) : Prop :=
  ∀ p ∈ kinds.zip place, p.1.numberAt p.2 < 1000

instance (kinds : List AddressKind) (place : List Nat) : Decidable (IsShort kinds place) :=
  inferInstanceAs (Decidable (∀ p ∈ kinds.zip place, p.1.numberAt p.2 < 1000))

/-- A place is short when its first item is, and the place below it. -/
theorem isShort_cons {kind : AddressKind} {kinds : List AddressKind} {i : Nat} {place : List Nat} :
    IsShort (kind :: kinds) (i :: place) ↔ kind.numberAt i < 1000 ∧ IsShort kinds place := by
  simp [IsShort]

/-- **A Hebrew label with a number below a thousand is a fixed word.** -/
theorem isFixedWord_hebrew {kind : AddressKind} {i : Nat} (h : kind.numberAt i < 1000) :
    IsFixedWord (kind.labelsAt i).hebrew := by
  have hfixed : ∀ c ∈ '.' :: ':' :: numeralLetters,
      isBlankChar c = false ∧ isKept c = true ∧ lowerChar c = [c] :=
    forall_mem_of_all (by decide +kernel)
  obtain ⟨c, hc, -⟩ := exists_mem_hebrew kind i
  refine ⟨List.ne_nil_of_mem hc, fun c hc => hfixed c ?_⟩
  rw [hebrew_of_lt h, List.mem_append] at hc
  rcases hc with hc | hc
  · simp [mem_gematriaGroup hc]
  · cases kind with
    | talmudPage =>
      simp only [sideMark] at hc
      split at hc <;> simp [List.mem_singleton.1 hc]
    | chapter | verse | integer | «section» | paragraph => cases hc

/-- The words of the labels of a short place are the labels. -/
theorem flatMap_canonicalWords_hebrewLabels {kinds : List AddressKind} {place : List Nat}
    (h : IsShort kinds place) :
    (hebrewLabels kinds place).flatMap canonicalWords = hebrewLabels kinds place := by
  induction kinds generalizing place with
  | nil => rfl
  | cons kind kinds ih =>
    cases place with
    | nil => rfl
    | cons i place =>
      obtain ⟨hi, hplace⟩ := isShort_cons.1 h
      show canonicalWords (kind.labelsAt i).hebrew ++ (hebrewLabels kinds place).flatMap _ = _
      rw [(isFixedWord_hebrew hi).canonicalWords_eq, ih hplace]
      rfl

/-- **Different places have different Hebrew labels.** -/
theorem hebrewLabels_injective {kinds : List AddressKind} {p q : List Nat}
    (hplen : p.length = kinds.length) (hqlen : q.length = kinds.length)
    (h : hebrewLabels kinds p = hebrewLabels kinds q) : p = q := by
  induction kinds generalizing p q with
  | nil => rw [List.eq_nil_of_length_eq_zero hplen, List.eq_nil_of_length_eq_zero hqlen]
  | cons kind kinds ih =>
    cases p with
    | nil => cases hplen
    | cons i p =>
      cases q with
      | nil => cases hqlen
      | cons j q =>
        injection h with hlabel h
        rw [hebrew_injective hlabel, ih (Nat.succ.inj hplen) (Nat.succ.inj hqlen) h]

/-- **Different short places have different Hebrew references**, behind any title. -/
theorem eq_of_canonical_placeHeRef_eq {title : Text} {kinds : List AddressKind} {p q : List Nat}
    (hp : IsShort kinds p) (hq : IsShort kinds q) (hplen : p.length = kinds.length)
    (hqlen : q.length = kinds.length)
    (h : canonical (placeHeRef title kinds p) = canonical (placeHeRef title kinds q)) : p = q := by
  have hwords : canonicalWords (placeHeRef title kinds p) =
      canonicalWords (placeHeRef title kinds q) := by
    rw [← words_canonical, h, words_canonical]
  rw [canonicalWords_placeHeRef, canonicalWords_placeHeRef,
    flatMap_canonicalWords_hebrewLabels hp, flatMap_canonicalWords_hebrewLabels hq] at hwords
  exact hebrewLabels_injective hplen hqlen (List.append_cancel_left hwords)

/-! ### The keys of a Hebrew reference -/

/-- There is a Hebrew label for each item on the way. -/
theorem length_hebrewLabels {kinds : List AddressKind} {place : List Nat}
    (h : place.length = kinds.length) : (hebrewLabels kinds place).length = kinds.length := by
  rw [hebrewLabels, List.length_zipWith, h, Nat.min_self]

/-- There are Hebrew labels on a way through any levels. -/
theorem hebrewLabels_ne_nil {kinds : List AddressKind} {place : List Nat} (hk : kinds ≠ [])
    (h : place.length = kinds.length) : hebrewLabels kinds place ≠ [] := by
  intro hn
  have hlen := length_hebrewLabels h
  rw [hn] at hlen
  exact hk (List.eq_nil_of_length_eq_zero hlen.symm)

/-- A Hebrew reference has a canonical form, whatever its title. -/
theorem canonical_placeHeRef_ne_nil (title : Text) {kinds : List AddressKind} {place : List Nat}
    (hk : kinds ≠ []) (h : place.length = kinds.length) :
    canonical (placeHeRef title kinds place) ≠ [] := by
  obtain ⟨w, hw, -, hend⟩ := exists_endsIn_placeHeRef title (hebrewLabels_ne_nil hk h)
  exact hend.ne_nil hw.1

/-- **A Hebrew reference is a key of no other short place.** -/
theorem eq_of_heRef_mem_scopeKeys {book : Int} {titleEn titleHe : Text} {kinds : List AddressKind}
    {p q : List Nat} (hk : kinds ≠ []) (hp : IsShort kinds p) (hq : IsShort kinds q)
    (hplen : p.length = kinds.length) (hqlen : q.length = kinds.length) {before : Nat}
    {titles : List Text} (htitles : ∀ title ∈ titles, title ≠ [] → words title ≠ [])
    (h : canonical (placeHeRef titleHe kinds p) ∈
      (placeEntry book titleEn titleHe kinds q before).scopeKeys titles) : p = q := by
  rcases List.mem_append.1 h with h | h
  · -- the English keys end in a digit, and Hebrew references do not
    have hlabels := englishLabels_ne_nil hk hqlen
    have hend := endsIn_of_mem_scopeKeysOf (isFixedWord_addressWord hlabels).isWord
      (endsIn_canonical_placeRef titleEn hlabels) h
    obtain ⟨w, hw, hno, hend'⟩ := exists_endsIn_placeHeRef titleHe (hebrewLabels_ne_nil hk hplen)
    obtain ⟨c, hc, hdigit⟩ := exists_digit_mem_addressWord hlabels
    rw [hend.unique (isFixedWord_addressWord hlabels).isWord.space_not_mem hw.space_not_mem hend']
      at hc
    rw [hno c hc] at hdigit
    cases hdigit
  · rcases length_words_of_mem_scopeKeysOf htitles h with h | h
    · exact eq_of_canonical_placeHeRef_eq hp hq hplen hqlen h
    · -- the words are as many, so the key is no shorter one
      have hcount {r : List Nat} (hr : IsShort kinds r) (hlen : r.length = kinds.length) :
          (canonicalWords (placeHeRef titleHe kinds r)).length =
            (canonicalWords titleHe).length + kinds.length := by
        rw [canonicalWords_placeHeRef, flatMap_canonicalWords_hebrewLabels hr, List.length_append,
          length_hebrewLabels hlen]
      rw [words_canonical, hcount hp hplen] at h
      have hless : (canonicalWords titleHe).length + kinds.length <
          (canonicalWords (placeHeRef titleHe kinds q)).length := h
      rw [hcount hq hqlen] at hless
      exact absurd hless (Nat.lt_irrefl _)

end HebrewCorpus
