import HebrewCorpus.Citation.Canonical
import HebrewCorpus.Proofs.Text.LowerCase

/-! # Canonical forms and the ends of keys

A canonical form is a list of words joined by single spaces. What is made of a key in order to look
it up (the key without a title, without the words before its address, in another reading) keeps the
word at its end, and that word is what tells the lines of a book apart.

* **`canonicalWords`**: the words of a canonical form; `canonical_append_space` is the joining law.
* **`endsIn_stripAlias`**, **`endsIn_addressTail`**, **`endsIn_of_mem_dottedVariants`**: the derived
  keys end as the key does.
* **`IsFixedWord`**: the words that are their own canonical form; `canonical_append_word` says what
  becomes of one right behind a text.
* **`findSome?_dottedVariants`**: the readings of a key with points, in their order. -/

namespace HebrewCorpus

open Text

/-! ### The words of a canonical form -/

/-- **The words of the canonical form of a text.** -/
def canonicalWords (s : Text) : List Text := (words (s.filter isKept)).map lower

/-- The words of a canonical form are words. -/
theorem isWord_of_mem_canonicalWords {s w : Text} (h : w ∈ canonicalWords s) : IsWord w := by
  obtain ⟨v, hv, rfl⟩ := List.mem_map.1 h
  exact isWord_lower (isWord_of_mem_words hv)

/-- **A canonical form is its words with single spaces between them.** -/
theorem canonical_eq_joinWith (s : Text) : canonical s = joinWith [' '] (canonicalWords s) :=
  lower_joinWith _

/-- The words of a canonical form are found in it again. -/
theorem words_canonical (s : Text) : words (canonical s) = canonicalWords s := by
  rw [canonical_eq_joinWith, words_joinWith fun _ h => isWord_of_mem_canonicalWords h]

/-- A canonical form has single spaces already. -/
theorem squeeze_canonical (s : Text) : squeeze (canonical s) = canonical s := by
  rw [squeeze, words_canonical, ← canonical_eq_joinWith]

/-- Only a text without canonical words has an empty canonical form. -/
theorem canonical_eq_nil_iff {s : Text} : canonical s = [] ↔ canonicalWords s = [] := by
  constructor
  · intro h
    rw [← words_canonical, h, words_nil]
  · intro h
    rw [canonical_eq_joinWith, h, joinWith_nil]

/-- What a canonical form leaves out is a comma or a quotation mark. -/
theorem isKept_eq_false_iff {c : Char} : isKept c = false ↔ c = ',' ∨ c ∈ quoteMarks := by
  simp only [isKept, Bool.not_eq_false', Bool.or_eq_true, decide_eq_true_eq, List.elem_eq_mem]
  exact or_comm

/-- A character of a class without commas and quotation marks is kept. -/
theorem isKept_of_forall {p : Char → Bool} (hmarks : ∀ m ∈ ',' :: quoteMarks, p m = false)
    {c : Char} (h : p c = true) : isKept c = true := by
  cases hk : isKept c with
  | true => rfl
  | false =>
    rw [hmarks c (List.mem_cons.2 (isKept_eq_false_iff.1 hk))] at h
    cases h

/-- No white space is left out of a canonical form as a mark. -/
theorem isKept_of_isBlankChar {c : Char} (h : isBlankChar c = true) : isKept c = true :=
  isKept_of_forall (forall_mem_of_all (by decide)) h

/-- The canonical words on the two sides of a white-space character. -/
theorem canonicalWords_append_blank {c : Char} (hc : isBlankChar c = true) (s t : Text) :
    canonicalWords (s ++ c :: t) = canonicalWords s ++ canonicalWords t := by
  rw [canonicalWords, List.filter_append, List.filter_cons_of_pos (isKept_of_isBlankChar hc),
    words_append_blank hc, List.map_append]
  rfl

/-- **The joining law**: the canonical form of two texts with a space between them. -/
theorem canonical_append_space {s t : Text} (hs : canonical s ≠ []) (ht : canonical t ≠ []) :
    canonical (s ++ ' ' :: t) = canonical s ++ ' ' :: canonical t := by
  have hs' : canonicalWords s ≠ [] := fun h => hs (canonical_eq_nil_iff.2 h)
  have ht' : canonicalWords t ≠ [] := fun h => ht (canonical_eq_nil_iff.2 h)
  rw [canonical_eq_joinWith, canonicalWords_append_blank isBlankChar_space,
    joinWith_append [' '] hs' ht', ← canonical_eq_joinWith, ← canonical_eq_joinWith]
  simp

/-! ### Words that are their own canonical form -/

/-- **A fixed word**: none of its characters is white space, left out, or changed by lower-casing. -/
def IsFixedWord (w : Text) : Prop :=
  w ≠ [] ∧ ∀ c ∈ w, isBlankChar c = false ∧ isKept c = true ∧ lowerChar c = [c]

namespace IsFixedWord

/-- A fixed word is a word. -/
theorem isWord {w : Text} (h : IsFixedWord w) : IsWord w := ⟨h.1, fun c hc => (h.2 c hc).1⟩

/-- A fixed word is its only canonical word. -/
theorem canonicalWords_eq {w : Text} (h : IsFixedWord w) : canonicalWords w = [w] := by
  have hk : w.filter isKept = w := List.filter_eq_self.2 fun c hc => (h.2 c hc).2.1
  rw [canonicalWords, hk, words_of_isWord h.isWord, List.map_singleton,
    lower_eq_self fun c hc => (h.2 c hc).2.2]

/-- A fixed word is its own canonical form. -/
theorem canonical_eq {w : Text} (h : IsFixedWord w) : canonical w = w := by
  rw [canonical_eq_joinWith, h.canonicalWords_eq, joinWith_singleton]

/-- The canonical form of a title and a fixed word behind it. -/
theorem canonical_append {title w : Text} (ht : canonical title ≠ []) (h : IsFixedWord w) :
    canonical (title ++ ' ' :: w) = canonical title ++ ' ' :: w := by
  have hne : canonical w ≠ [] := by
    rw [h.canonical_eq]
    exact h.1
  rw [canonical_append_space ht hne, h.canonical_eq]

end IsFixedWord

/-- **A fixed word right behind a text**, which does not go on with a letter: it stands at the end
of the canonical form, behind a space at most. -/
theorem canonical_append_word {s w : Text} (hs : canonical s ≠ []) (h : IsFixedWord w)
    (hstart : startsCased w = false) :
    ∃ gap, (gap = [] ∨ gap = [' ']) ∧ canonical (s ++ w) = canonical s ++ (gap ++ w) := by
  have hkept : (s ++ w).filter isKept = s.filter isKept ++ w := by
    rw [List.filter_append, List.filter_eq_self.2 fun c hc => (h.2 c hc).2.1]
  have hlower (v : Text) : lower (v ++ w) = lower v ++ w :=
    lower_append v hstart fun c hc => (h.2 c hc).2.2
  obtain ⟨ws, v, happend, hwords⟩ := exists_words_append (s.filter isKept)
  -- the last word of the text, if there is one at its end, goes on with the word
  have hcanonical : canonicalWords (s ++ w) = ws.map lower ++ [lower v ++ w] := by
    rw [canonicalWords, hkept, happend w h.isWord, List.map_append, List.map_singleton, hlower]
  rcases hwords with ⟨rfl, hwords⟩ | ⟨hv, hwords⟩
  · have hfront : canonicalWords s = ws.map lower := by rw [canonicalWords, hwords]
    have hne : ws.map lower ≠ [] := hfront ▸ mt canonical_eq_nil_iff.2 hs
    refine ⟨[' '], .inr rfl, ?_⟩
    rw [canonical_eq_joinWith, canonical_eq_joinWith, hcanonical, hfront,
      joinWith_append [' '] hne (by simp), joinWith_singleton, lower_nil, List.nil_append,
      List.append_assoc]
  · have hfront : canonicalWords s = ws.map lower ++ [lower v] := by
      rw [canonicalWords, hwords, List.map_append, List.map_singleton]
    refine ⟨[], .inl rfl, ?_⟩
    rw [canonical_eq_joinWith, canonical_eq_joinWith, hcanonical, hfront, joinWith_concat_append,
      List.nil_append]

/-! ### Keys without a title, or without what stands before the address -/

/-- **Stripping a title keeps the word at the end of a key.** -/
theorem endsIn_stripAlias {w key : Text} (hw : IsWord w) (h : EndsIn w key) (titles : List Text) :
    EndsIn w (stripAlias key titles) := by
  induction titles with
  | nil => exact h
  | cons title titles ih =>
    unfold stripAlias
    split
    · exact ih
    · split
      · exact h
      · split
        · next rest hr =>
          have hkey : key = title ++ ' ' :: rest := by
            rw [dropLead?_eq_some_iff.1 hr, List.append_assoc, List.singleton_append]
          -- the space after the title is the last one of the key or stands before it
          have hrest : EndsIn w rest := by
            rcases h with rfl | ⟨front, hf⟩
            · exact absurd (hkey ▸ by simp) hw.space_not_mem
            · rw [hkey] at hf
              rcases List.append_eq_append_iff.1 hf with ⟨x, -, hx⟩ | ⟨x, -, hx⟩
              · cases x with
                | nil => injection hx with _ hx; exact .inl hx
                | cons c x => injection hx with _ hx; exact .inr ⟨x, hx⟩
              · cases x with
                | nil => injection hx with _ hx; exact .inl hx.symm
                | cons c x =>
                  injection hx with _ hx
                  exact absurd (hx ▸ by simp) hw.space_not_mem
          obtain ⟨hend, hne⟩ := endsIn_trimStart hw hrest
          show EndsIn w (if (trimStart rest).isEmpty then key else trimStart rest)
          rw [if_neg (by simpa using hne)]
          exact hend
        · exact ih

/-- **A key without a title is the end of the key.** -/
theorem isSuffix_stripAlias (key : Text) (titles : List Text) : stripAlias key titles <:+ key := by
  induction titles with
  | nil => exact List.suffix_rfl
  | cons title titles ih =>
    unfold stripAlias
    split
    · exact ih
    · split
      · exact List.suffix_rfl
      · split
        · next rest hr =>
          have hrest : trimStart rest <:+ key := by
            rw [dropLead?_eq_some_iff.1 hr]
            exact (List.dropWhile_suffix _).trans (List.suffix_append _ _)
          show (if (trimStart rest).isEmpty then key else trimStart rest) <:+ key
          split
          · exact List.suffix_rfl
          · exact hrest
        · exact ih

/-- **The address at the end of a key keeps its last word.** -/
theorem endsIn_addressTail {w key : Text} (hw : ' ' ∉ w) (h : EndsIn w key) :
    EndsIn w (addressTail key) := by
  -- the word holds no space, so it is the last piece of the key
  have hlast : ∃ ps, pieces ' ' key = ps ++ [w] := by
    rcases h with rfl | ⟨front, rfl⟩
    · exact ⟨[], List.splitOn_eq_singleton hw⟩
    · exact ⟨front.splitOn ' ', by
        rw [pieces, List.splitOn_append_cons_self, List.splitOn_eq_singleton hw]⟩
  obtain ⟨ps, hps⟩ := hlast
  unfold addressTail
  split
  · exact h
  · next hne =>
    rw [hps, List.dropWhile_append] at hne ⊢
    by_cases hfront : (ps.dropWhile (!isAddressWord ·)).isEmpty = true
    · -- only the last word can be an address word
      rw [if_pos hfront] at hne ⊢
      cases ha : isAddressWord w with
      | false => exact absurd (by simp [ha]) hne
      | true =>
        have hkeep : [w].dropWhile (!isAddressWord ·) = [w] := by simp [ha]
        rw [hkeep, joinWith_singleton]
        exact .refl w
    · rw [if_neg hfront]
      exact .joinWith_concat _ w

/-! ### Readings -/

/-- Narrowing blanks keeps the word at the end. -/
theorem endsIn_squeeze {w s : Text} (hw : IsWord w) (h : EndsIn w s) : EndsIn w (squeeze s) := by
  have hwords : ∃ ws, words s = ws ++ [w] := by
    rcases h with rfl | ⟨front, rfl⟩
    · exact ⟨[], words_of_isWord hw⟩
    · exact ⟨words front, by rw [words_append_blank isBlankChar_space, words_of_isWord hw]⟩
  obtain ⟨ws, hws⟩ := hwords
  rw [squeeze, hws]
  exact .joinWith_concat ws w

/-- A point at the end of what stands before a space is not followed by a digit. -/
theorem startsWithDigit_append_space (s t : Text) :
    startsWithDigit (s ++ ' ' :: t) = startsWithDigit s := by
  cases s with
  | nil =>
    have h : isDecimalDigit ' ' = false := by decide
    simp [startsWithDigit, h]
  | cons c s => rfl

/-- Points are replaced on the two sides of a space each by itself. -/
theorem replacePoints_append_space (separator : Char) (s t : Text) :
    replacePoints separator (s ++ ' ' :: t) =
      replacePoints separator s ++ ' ' :: replacePoints separator t := by
  induction s with
  | nil => simp [replacePoints]
  | cons c s ih =>
    rw [List.cons_append, replacePoints, replacePoints, ih, startsWithDigit_append_space,
      List.cons_append]

/-- Points are replaced behind a text without points. -/
theorem replacePoints_append (separator : Char) {s : Text} (h : '.' ∉ s) (t : Text) :
    replacePoints separator (s ++ t) = s ++ replacePoints separator t := by
  induction s with
  | nil => rfl
  | cons c s ih =>
    rw [List.mem_cons, not_or] at h
    rw [List.cons_append, replacePoints, if_neg fun hc => h.1 hc.1.symm, ih h.2, List.cons_append]

/-- A text without points is not changed by what is done to points. -/
theorem replacePoints_eq_self (separator : Char) {s : Text} (h : '.' ∉ s) :
    replacePoints separator s = s := by
  have happend := replacePoints_append separator h []
  rwa [replacePoints, List.append_nil] at happend

/-- The first point is replaced behind a text without points. -/
theorem replaceFirstPoint_append {s : Text} (h : '.' ∉ s) (t : Text) :
    replaceFirstPoint (s ++ t) = s ++ replaceFirstPoint t := by
  induction s with
  | nil => rfl
  | cons c s ih =>
    rw [List.mem_cons, not_or] at h
    rw [List.cons_append, replaceFirstPoint, if_neg fun hc => h.1 hc.1.symm, ih h.2,
      List.cons_append]

/-- A text without points has no first point. -/
theorem replaceFirstPoint_eq_self {s : Text} (h : '.' ∉ s) : replaceFirstPoint s = s := by
  have happend := replaceFirstPoint_append h []
  rwa [replaceFirstPoint, List.append_nil] at happend

/-- Points before a space are replaced without regard to a text without points after it. -/
theorem replaceFirstPoint_append_space (s : Text) {t : Text} (h : '.' ∉ t) :
    replaceFirstPoint (s ++ ' ' :: t) = replaceFirstPoint s ++ ' ' :: t := by
  induction s with
  | nil => simp [replaceFirstPoint, replaceFirstPoint_eq_self h]
  | cons c s ih =>
    rw [List.cons_append, replaceFirstPoint, replaceFirstPoint, startsWithDigit_append_space, ih,
      replacePoints_append_space, replacePoints_eq_self ':' h]
    split <;> simp

/-- A character that is not in a text cannot be replaced there. -/
theorem replaceChar_eq_self {old : Char} (new : Text) {s : Text} (h : old ∉ s) :
    replaceChar old new s = s := by
  induction s with
  | nil => rfl
  | cons c s ih =>
    rw [List.mem_cons, not_or] at h
    rw [replaceChar, List.flatMap_cons, if_neg (Ne.symm h.1), ← replaceChar, ih h.2]
    rfl

/-- Characters are replaced in two texts each by itself. -/
theorem replaceChar_append (old : Char) (new s t : Text) :
    replaceChar old new (s ++ t) = replaceChar old new s ++ replaceChar old new t :=
  List.flatMap_append

/-- Points before a space are replaced without regard to a text without points after it. -/
theorem replaceChar_append_space (new s : Text) {t : Text} (h : '.' ∉ t) :
    replaceChar '.' new (s ++ ' ' :: t) = replaceChar '.' new s ++ ' ' :: t := by
  have hc := replaceChar_eq_self new h
  rw [replaceChar] at hc ⊢
  rw [List.flatMap_append, List.flatMap_cons, hc]
  rfl

/-- What is done to a text on the two sides of a space keeps a word at the end that it does not
change. -/
theorem endsIn_mapText {f : Text → Text} {w s : Text} (hself : f w = w)
    (hspace : ∀ front, f (front ++ ' ' :: w) = f front ++ ' ' :: w) (h : EndsIn w s) :
    EndsIn w (f s) := by
  rcases h with rfl | ⟨front, rfl⟩
  · rw [hself]
    exact .refl s
  · rw [hspace]
    exact .append _ w

/-! ### Lists of distinct keys -/

/-- Keys are collected behind those seen before. -/
theorem distinctKeys_cons {key : Text} (h : key ≠ []) (keys : List Text) :
    ∃ rest, distinctKeys (key :: keys) = key :: rest := by
  have grow (seen : List Text) : ∃ rest,
      keys.foldl (fun seen key => if key.isEmpty || seen.elem key then seen else seen ++ [key]) seen
        = seen ++ rest := by
    induction keys generalizing seen with
    | nil => exact ⟨[], by simp⟩
    | cons k keys ih =>
      rw [List.foldl_cons]
      split
      · exact ih seen
      · obtain ⟨rest, hr⟩ := ih (seen ++ [k])
        exact ⟨k :: rest, by rw [hr]; simp⟩
  obtain ⟨rest, hr⟩ := grow [key]
  refine ⟨rest, ?_⟩
  rw [distinctKeys, List.foldl_cons, if_neg (by simp [h])]
  exact hr

/-- **The distinct keys of a list** are those of its texts that are not empty. -/
theorem mem_distinctKeys {key : Text} {keys : List Text} :
    key ∈ distinctKeys keys ↔ key ∈ keys ∧ key ≠ [] := by
  -- the fold is generalised over the keys seen before
  have grow (seen : List Text) : (key ∈ keys.foldl
      (fun seen key => if key.isEmpty || seen.elem key then seen else seen ++ [key]) seen) ↔
        key ∈ seen ∨ key ∈ keys ∧ key ≠ [] := by
    induction keys generalizing seen with
    | nil => simp
    | cons k keys ih =>
      rw [List.foldl_cons, ih]
      split
      · next hk =>
        -- an empty key, or one that was seen before, adds nothing
        rw [Bool.or_eq_true, List.isEmpty_iff, List.elem_eq_mem, decide_eq_true_eq] at hk
        constructor
        · rintro (h | ⟨h, hne⟩)
          · exact .inl h
          · exact .inr ⟨List.mem_cons_of_mem _ h, hne⟩
        · rintro (h | ⟨h, hne⟩)
          · exact .inl h
          · rcases List.mem_cons.1 h with rfl | h
            · rcases hk with hk | hk
              · exact absurd hk hne
              · exact .inl hk
            · exact .inr ⟨h, hne⟩
      · next hk =>
        rw [Bool.or_eq_true, List.isEmpty_iff, List.elem_eq_mem, decide_eq_true_eq, not_or] at hk
        simp only [List.mem_append, List.mem_cons, List.not_mem_nil, or_false]
        constructor
        · rintro ((h | rfl) | ⟨h, hne⟩)
          · exact .inl h
          · exact .inr ⟨.inl rfl, hk.1⟩
          · exact .inr ⟨.inr h, hne⟩
        · rintro (h | ⟨rfl | h, hne⟩)
          · exact .inl (.inl h)
          · exact .inl (.inr rfl)
          · exact .inr ⟨h, hne⟩
  rw [distinctKeys, grow []]
  simp

/-- **The first result among the distinct keys of a list** is the first one among its texts that are
not empty. -/
theorem findSome?_distinctKeys {α : Type} (f : Text → Option α) (keys : List Text) :
    (distinctKeys keys).findSome? f = (keys.filter (!·.isEmpty)).findSome? f := by
  -- the fold is generalised over the keys seen before
  have grow (seen : List Text) :
      (keys.foldl (fun seen key =>
        if key.isEmpty || seen.elem key then seen else seen ++ [key]) seen).findSome? f =
          (seen.findSome? f).or ((keys.filter (!·.isEmpty)).findSome? f) := by
    induction keys generalizing seen with
    | nil => simp
    | cons k keys ih =>
      rw [List.foldl_cons, ih]
      by_cases hempty : k.isEmpty = true
      · simp [hempty]
      · by_cases hseen : seen.elem k = true
        · -- a key that was seen before had no result, or there is one already
          rw [if_pos (by rw [hseen, Bool.or_true]), List.filter_cons_of_pos (by simpa using hempty),
            List.findSome?_cons]
          cases hresult : seen.findSome? f with
          | some a => rfl
          | none =>
            rw [List.findSome?_eq_none_iff.1 hresult k (List.elem_iff.1 hseen)]
        · rw [if_neg (by rw [Bool.or_eq_true, not_or]; exact ⟨hempty, hseen⟩),
            List.filter_cons_of_pos (by simpa using hempty),
            List.findSome?_append, Option.or_assoc, List.findSome?_singleton, List.findSome?_cons]
          cases f k <;> rfl
  rw [distinctKeys, grow []]
  rfl

/-- **Every reading of a key ends as the key does**, when the word at its end holds no point. -/
theorem endsIn_of_mem_dottedVariants {w key reading : Text} (hw : IsWord w) (hp : '.' ∉ w)
    (h : EndsIn w key) (hr : reading ∈ dottedVariants key) : EndsIn w reading := by
  obtain ⟨r, hmem, rfl⟩ := List.mem_map.1 (mem_distinctKeys.1 hr).1
  refine endsIn_squeeze hw ?_
  have points (separator : Char) : EndsIn w (replacePoints separator key) :=
    endsIn_mapText (replacePoints_eq_self separator hp)
      (fun front => by rw [replacePoints_append_space, replacePoints_eq_self separator hp]) h
  have chars (new : Text) : EndsIn w (replaceChar '.' new key) :=
    endsIn_mapText (replaceChar_eq_self new hp) (replaceChar_append_space new · hp) h
  split at hmem
  · simp only [List.mem_cons, List.not_mem_nil, or_false] at hmem
    -- the six readings in the order in which they are tried
    rcases hmem with rfl | rfl | rfl | rfl | rfl | rfl
    · exact h
    · exact chars [' ']
    · exact endsIn_mapText (replaceFirstPoint_eq_self hp) (replaceFirstPoint_append_space · hp) h
    · exact points ':'
    · exact points ' '
    · exact chars []
  · rw [List.mem_singleton] at hmem
    exact hmem ▸ h

/-- **The readings of a key with points** in the order in which they are tried. -/
theorem findSome?_dottedVariants {α : Type} (f : Text → Option α) {key : Text} (h : '.' ∈ key) :
    (dottedVariants key).findSome? f =
      (([key, replaceChar '.' [' '] key, replaceFirstPoint key, replacePoints ':' key,
        replacePoints ' ' key, replaceChar '.' [] key].map squeeze).filter
          (!·.isEmpty)).findSome? f := by
  rw [dottedVariants, if_pos (by simpa using h), findSome?_distinctKeys]

/-- **The first reading of a canonical key is the key itself.** -/
theorem dottedVariants_eq_cons {key : Text} (hkey : key ≠ []) (hs : squeeze key = key) :
    ∃ rest, dottedVariants key = key :: rest := by
  unfold dottedVariants
  dsimp only
  split <;> rw [List.map_cons, hs] <;> exact distinctKeys_cons hkey _

end HebrewCorpus
