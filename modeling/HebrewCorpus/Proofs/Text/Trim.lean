import HebrewCorpus.Proofs.Text.Words

/-! # Trimmed texts

A text is trimmed when neither of its ends is white space. Trimming gives such a text and leaves it
alone from then on, so a text that was put together from trimmed parts with solid ends is read as it
stands.

* **`Text.IsTrimmed`**: the trimmed texts; `trim_eq_self` and `isTrimmed_trim` tie them to trimming.
* **`IsTrimmed.between`**, **`isTrimmed_joinWith`**: trimmed texts that are put together of others.
* **`cutAt_cases`**: a text is cut at its first separator, or not at all. -/

namespace HebrewCorpus.Text

/-- **A trimmed text**: there is no white space at its ends. -/
structure IsTrimmed (s : Text) : Prop where
  head : ∀ c ∈ s.head?, isBlankChar c = false
  last : ∀ c ∈ s.getLast?, isBlankChar c = false

/-- **A trimmed text is left alone.** -/
theorem trim_eq_self {s : Text} (h : IsTrimmed s) : trim s = s := by
  have hstart : trimStart s = s := dropWhile_isBlankChar_eq_self h.head
  have hend : s.reverse.dropWhile isBlankChar = s.reverse := by
    refine dropWhile_isBlankChar_eq_self ?_
    rw [List.head?_reverse]
    exact h.last
  rw [trim, hstart, trimEnd, hend, List.reverse_reverse]

/-- White space at the start is trimmed away. -/
theorem trim_cons_blank {c : Char} (hc : isBlankChar c = true) (s : Text) :
    trim (c :: s) = trim s := by
  rw [trim, trimStart, List.dropWhile_cons_of_pos hc, ← trimStart, ← trim]

/-- What is left of a text without the white space at its end is its beginning. -/
theorem isPrefix_trimEnd (s : Text) : trimEnd s <+: s := by
  have h : s.reverse.dropWhile isBlankChar <:+ s.reverse := List.dropWhile_suffix _
  rwa [← List.reverse_prefix, List.reverse_reverse] at h

/-- The first character that is left, if any, is no white space. -/
theorem isBlankChar_of_mem_head?_dropWhile {s : Text} {c : Char}
    (h : c ∈ (s.dropWhile isBlankChar).head?) : isBlankChar c = false := by
  have hnot := List.head?_dropWhile_not isBlankChar s
  rw [Option.mem_def.1 h] at hnot
  simpa using hnot

/-- **Trimming gives a trimmed text.** -/
theorem isTrimmed_trim (s : Text) : IsTrimmed (trim s) := by
  constructor
  · intro c hc
    -- the beginning of what is left starts with the same character
    obtain ⟨back, hback⟩ := isPrefix_trimEnd (trimStart s)
    have hhead : c ∈ (trimStart s).head? := by
      rw [← hback, ← trim, List.head?_append, Option.mem_def.1 hc]
      rfl
    exact isBlankChar_of_mem_head?_dropWhile hhead
  · intro c hc
    rw [trim, trimEnd, List.getLast?_reverse] at hc
    exact isBlankChar_of_mem_head?_dropWhile hc

/-- The characters of a trimmed text are characters of the text. -/
theorem mem_of_mem_trim {s : Text} {c : Char} (h : c ∈ trim s) : c ∈ s :=
  (List.dropWhile_sublist isBlankChar).subset ((isPrefix_trimEnd _).subset h)

/-- Something is left of a text that starts with a character that is no white space. -/
theorem trim_ne_nil {s : Text} (hs : s ≠ []) (hhead : ∀ c ∈ s.head?, isBlankChar c = false) :
    trim s ≠ [] := by
  obtain ⟨c, t, rfl⟩ := List.exists_cons_of_ne_nil hs
  rw [trim, trimStart, dropWhile_isBlankChar_eq_self hhead, trimEnd]
  intro h
  -- otherwise all of it was white space, its first character too
  have htake := List.takeWhile_append_dropWhile (p := isBlankChar) (l := (c :: t).reverse)
  have hall := List.all_takeWhile (p := isBlankChar) (l := (c :: t).reverse)
  rw [List.reverse_eq_nil_iff.1 h, List.append_nil] at htake
  rw [htake] at hall
  have hblank := List.all_eq_true.1 hall c (by simp)
  rw [hhead c rfl] at hblank
  cases hblank

/-- A text without white space is trimmed. -/
theorem isTrimmed_of_forall {s : Text} (h : ∀ c ∈ s, isBlankChar c = false) : IsTrimmed s :=
  ⟨fun c hc => h c (List.mem_of_head? hc), fun c hc => h c (List.mem_of_getLast? hc)⟩

/-- **Two texts with solid outer ends** make a trimmed text. -/
theorem IsTrimmed.between {s t : Text} (hs : s ≠ []) (ht : t ≠ [])
    (head : ∀ c ∈ s.head?, isBlankChar c = false) (last : ∀ c ∈ t.getLast?, isBlankChar c = false) :
    IsTrimmed (s ++ t) := by
  constructor
  · obtain ⟨c, s, rfl⟩ := List.exists_cons_of_ne_nil hs
    exact head
  · rw [List.getLast?_append]
    rw [List.getLast?_eq_some_getLast ht] at last ⊢
    exact last

/-- Words with single spaces between them are a trimmed text. -/
theorem isTrimmed_joinWith {ws : List Text} (h : ∀ w ∈ ws, IsWord w) :
    IsTrimmed (joinWith [' '] ws) := by
  induction ws with
  | nil => exact ⟨nofun, nofun⟩
  | cons w ws ih =>
    have hword := h w List.mem_cons_self
    have hrest := ih fun v hv => h v (List.mem_cons_of_mem _ hv)
    by_cases hne : ws = []
    · subst hne
      rw [joinWith_singleton]
      exact isTrimmed_of_forall hword.2
    · -- the first character is that of the first word, and the last one that of the others
      have hothers : joinWith [' '] ws ≠ [] := by
        obtain ⟨v, vs, rfl⟩ := List.exists_cons_of_ne_nil hne
        obtain ⟨c, hc⟩ := List.exists_mem_of_ne_nil v
          (h v (List.mem_cons_of_mem _ List.mem_cons_self)).1
        exact List.ne_nil_of_mem (mem_joinWith_of_mem [' '] List.mem_cons_self hc)
      rw [joinWith_cons [' '] w hne, List.append_assoc]
      obtain ⟨c, v, rfl⟩ := List.exists_cons_of_ne_nil hword.1
      refine IsTrimmed.between (List.cons_ne_nil c v) (List.cons_ne_nil _ _)
        (isTrimmed_of_forall hword.2).head ?_
      intro x hx
      rw [List.singleton_append, List.getLast?_cons_of_ne_nil hothers] at hx
      exact hrest.last x hx

/-- **Nothing is trimmed off words with single spaces between them.** -/
theorem trim_squeeze (s : Text) : trim (squeeze s) = squeeze s :=
  trim_eq_self (isTrimmed_joinWith fun _ hw => isWord_of_mem_words hw)

/-! ### Ways of being cut -/

/-- **A text is cut at its first separator**, or not at all. -/
theorem cutAt_cases (sep : Char) (s : Text) :
    sep ∉ s ∧ cutAt sep s = (s, none) ∨
      ∃ front back, sep ∉ front ∧ s = front ++ sep :: back ∧ cutAt sep s = (front, some back) := by
  by_cases h : sep ∈ s
  · obtain ⟨front, back, rfl, hfront⟩ := List.eq_append_cons_of_mem h
    exact .inr ⟨front, back, hfront, rfl, cutAt_append hfront back⟩
  · exact .inl ⟨h, cutAt_eq_self h⟩

end HebrewCorpus.Text
