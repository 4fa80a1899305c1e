import HebrewCorpus.Text.Blank
import Mathlib.Data.List.Induction

/-! # Words of a text

Words are cut at every white-space character, so a text is known by its words up to the width of
its blanks, and the last word of a key can be read off its end.

* **`Text.IsWord w`**: `w` is not empty and holds no white space.
* **`words_append_blank`**, **`words_joinWith`**, **`exists_words_append`**: the words of a text that
  is put together.
* **`Text.EndsIn w s`**: `w` stands at the end of `s`, after a space or as the whole of it. A text
  ends in one word only (`EndsIn.unique`).
* **`cutLast?_append`**, **`cutAt_append`**: texts that are put together and taken apart again. -/

namespace HebrewCorpus.Text

/-! ### Joining -/

@[simp] theorem joinWith_nil (sep : Text) : joinWith sep [] = [] := rfl

@[simp] theorem joinWith_singleton (sep s : Text) : joinWith sep [s] = s :=
  List.intercalate_singleton

/-- The first part stands in front of the separator and the others. -/
theorem joinWith_cons (sep s : Text) {parts : List Text} (h : parts ≠ []) :
    joinWith sep (s :: parts) = s ++ sep ++ joinWith sep parts :=
  List.intercalate_cons_of_ne_nil h

/-- Two lists of parts, neither of them empty, are joined around one more separator. -/
theorem joinWith_append (sep : Text) {front back : List Text} (hf : front ≠ []) (hb : back ≠ []) :
    joinWith sep (front ++ back) = joinWith sep front ++ sep ++ joinWith sep back := by
  induction front with
  | nil => exact absurd rfl hf
  | cons s front ih =>
    by_cases h : front = []
    · subst h
      rw [List.singleton_append, joinWith_cons sep s hb, joinWith_singleton]
    · rw [List.cons_append, joinWith_cons sep s (by simp [h]), ih h, joinWith_cons sep s h]
      simp only [List.append_assoc]

/-- What stands behind the last part stands behind the joined text. -/
theorem joinWith_concat_append (sep : Text) (parts : List Text) (s t : Text) :
    joinWith sep (parts ++ [s ++ t]) = joinWith sep (parts ++ [s]) ++ t := by
  by_cases h : parts = []
  · subst h
    simp
  · rw [joinWith_append sep h (by simp), joinWith_append sep h (by simp), joinWith_singleton,
      joinWith_singleton, List.append_assoc (joinWith sep parts ++ sep)]

/-- What is in a joined text is in a part or in the separator. -/
theorem mem_joinWith {sep : Text} {parts : List Text} {c : Char} (h : c ∈ joinWith sep parts) :
    c ∈ sep ∨ ∃ part ∈ parts, c ∈ part := by
  induction parts with
  | nil => cases h
  | cons s parts ih =>
    by_cases hn : parts = []
    · subst hn
      rw [joinWith_singleton] at h
      exact .inr ⟨s, List.mem_cons_self, h⟩
    · rw [joinWith_cons sep s hn, List.mem_append, List.mem_append] at h
      rcases h with (h | h) | h
      · exact .inr ⟨s, List.mem_cons_self, h⟩
      · exact .inl h
      · rcases ih h with h | ⟨part, hp, h⟩
        · exact .inl h
        · exact .inr ⟨part, List.mem_cons_of_mem _ hp, h⟩

/-- What is in a part is in the joined text. -/
theorem mem_joinWith_of_mem (sep : Text) {parts : List Text} {part : Text} {c : Char}
    (hp : part ∈ parts) (hc : c ∈ part) : c ∈ joinWith sep parts := by
  induction parts with
  | nil => cases hp
  | cons s parts ih =>
    by_cases hn : parts = []
    · subst hn
      rw [joinWith_singleton]
      exact List.mem_singleton.1 hp ▸ hc
    · rw [joinWith_cons sep s hn, List.mem_append, List.mem_append]
      rcases List.mem_cons.1 hp with rfl | hp
      · exact .inl (.inl hc)
      · exact .inr (ih hp)

/-! ### Words -/

/-- What a test says of each character of a list holds of it. -/
theorem forall_mem_of_all {P : Char → Prop} [DecidablePred P] {cs : List Char}
    (h : cs.all (fun c => decide (P c)) = true) : ∀ c ∈ cs, P c :=
  fun c hc => of_decide_eq_true (List.all_eq_true.1 h c hc)

/-- **A word**: a text with at least one character and no white space. -/
def IsWord (w : Text) : Prop := w ≠ [] ∧ ∀ c ∈ w, isBlankChar c = false

/-- A space is white space. -/
theorem isBlankChar_space : isBlankChar ' ' = true := by decide

/-- A word holds no space. -/
theorem IsWord.space_not_mem {w : Text} (h : IsWord w) : ' ' ∉ w := by
  intro hm
  have := h.2 ' ' hm
  rw [isBlankChar_space] at this
  cases this

/-- The words on the two sides of a white-space character. -/
theorem words_append_blank {c : Char} (hc : isBlankChar c = true) (s t : Text) :
    words (s ++ c :: t) = words s ++ words t := by
  rw [words, List.splitOnP_append_cons s t hc, List.filter_append]
  rfl

/-- White space at the start belongs to no word. -/
theorem words_cons_blank {c : Char} (hc : isBlankChar c = true) (s : Text) :
    words (c :: s) = words s := by
  have h := words_append_blank hc [] s
  simpa using h

/-- A word by itself is the only word of its text. -/
theorem words_of_isWord {w : Text} (h : IsWord w) : words w = [w] := by
  rw [words, List.splitOnP_eq_singleton h.2]
  simp [h.1]

/-- White space alone has no words. -/
theorem words_of_isBlank {s : Text} (h : isBlank s = true) : words s = [] := by
  induction s with
  | nil => exact words_nil
  | cons c s ih =>
    rw [isBlank, List.all_cons, Bool.and_eq_true] at h
    rw [words_cons_blank h.1]
    exact ih h.2

/-- White space at the end of a text holds none of its words. -/
theorem words_append_isBlank (s : Text) {t : Text} (h : isBlank t = true) :
    words (s ++ t) = words s := by
  cases t with
  | nil => rw [List.append_nil]
  | cons c t =>
    rw [isBlank, List.all_cons, Bool.and_eq_true] at h
    rw [words_append_blank h.1, words_of_isBlank h.2, List.append_nil]

/-- White space in front of a text holds none of its words. -/
theorem words_isBlank_append {s : Text} (h : isBlank s = true) (t : Text) :
    words (s ++ t) = words t := by
  induction s with
  | nil => rfl
  | cons c s ih =>
    rw [isBlank, List.all_cons, Bool.and_eq_true] at h
    rw [List.cons_append, words_cons_blank h.1]
    exact ih h.2

/-- The pieces between separators hold no separators, and nothing that is not in the text. -/
theorem chars_of_mem_splitOnP {p : Char → Bool} {s piece : Text} (h : piece ∈ s.splitOnP p) :
    ∀ c ∈ piece, p c = false ∧ c ∈ s := by
  induction s generalizing piece with
  | nil =>
    rw [List.splitOnP_nil, List.mem_singleton] at h
    subst h
    simp
  | cons a s ih =>
    rw [List.splitOnP_cons_eq_if_modifyHead] at h
    by_cases ha : p a = true
    · rw [if_pos ha, List.mem_cons] at h
      rcases h with rfl | h
      · simp
      · intro c hc
        exact ⟨(ih h c hc).1, List.mem_cons_of_mem _ (ih h c hc).2⟩
    · -- the character goes to the front of the first piece
      obtain ⟨q, qs, hq⟩ := List.exists_cons_of_ne_nil (List.splitOnP_ne_nil p s)
      rw [if_neg ha, hq, List.modifyHead_cons, List.mem_cons] at h
      intro c hc
      rcases h with rfl | h
      · rcases List.mem_cons.1 hc with rfl | hc
        · exact ⟨by simpa using ha, by simp⟩
        · have := ih (hq ▸ List.mem_cons_self) c hc
          exact ⟨this.1, List.mem_cons_of_mem _ this.2⟩
      · have := ih (hq ▸ List.mem_cons_of_mem _ h) c hc
        exact ⟨this.1, List.mem_cons_of_mem _ this.2⟩

/-- A piece holds no separator. -/
theorem not_mem_of_mem_pieces {sep : Char} {s piece : Text} (h : piece ∈ pieces sep s) :
    sep ∉ piece := by
  intro hsep
  rw [pieces, List.splitOn_eq_splitOnP] at h
  exact absurd (chars_of_mem_splitOnP h sep hsep).1 (by simp)

/-- Every word of a text is a word. -/
theorem isWord_of_mem_words {s w : Text} (h : w ∈ words s) : IsWord w :=
  ⟨ne_nil_of_mem_words h, fun c hc => (chars_of_mem_splitOnP (List.mem_filter.1 h).1 c hc).1⟩

/-- The characters of a word are characters of the text. -/
theorem mem_of_mem_words {s w : Text} {c : Char} (h : w ∈ words s) (hc : c ∈ w) : c ∈ s :=
  (chars_of_mem_splitOnP (List.mem_filter.1 h).1 c hc).2

/-- Only white space has no words. -/
theorem words_eq_nil_iff {s : Text} : words s = [] ↔ isBlank s = true := by
  constructor
  · induction s with
    | nil => intro _; rfl
    | cons c s ih =>
      intro h
      by_cases hc : isBlankChar c = true
      · rw [words_cons_blank hc] at h
        rw [isBlank, List.all_cons, hc]
        exact ih h
      · obtain ⟨p, ps, hp⟩ := List.exists_cons_of_ne_nil (List.splitOnP_ne_nil isBlankChar s)
        -- a character that is not white space makes the first piece a word
        rw [words, List.splitOnP_cons_eq_if_modifyHead, if_neg hc, hp] at h
        simp at h
  · exact words_of_isBlank

/-- Words that are joined by spaces are the words of the result. -/
theorem words_joinWith {ws : List Text} (h : ∀ w ∈ ws, IsWord w) :
    words (joinWith [' '] ws) = ws := by
  induction ws with
  | nil => exact words_nil
  | cons w ws ih =>
    have hw := h w List.mem_cons_self
    have hws := ih fun v hv => h v (List.mem_cons_of_mem _ hv)
    by_cases hn : ws = []
    · subst hn
      rw [joinWith_singleton, words_of_isWord hw]
    · rw [joinWith_cons [' '] w hn, List.append_assoc, List.singleton_append,
        words_append_blank isBlankChar_space, words_of_isWord hw, hws]
      rfl

/-- White space at the start of a text holds none of its words. -/
theorem words_trimStart (s : Text) : words (trimStart s) = words s := by
  induction s with
  | nil => rfl
  | cons c s ih =>
    by_cases hc : isBlankChar c = true
    · rw [trimStart, List.dropWhile_cons_of_pos hc, words_cons_blank hc, ← ih]
      rfl
    · rw [trimStart, List.dropWhile_cons_of_neg hc]

/-- **A word behind a text** goes on with the last word of the text, or is a word by itself when the
text ends in white space. -/
theorem exists_words_append (s : Text) :
    ∃ ws v, (∀ w, IsWord w → words (s ++ w) = ws ++ [v ++ w]) ∧
      (v = [] ∧ words s = ws ∨ v ≠ [] ∧ words s = ws ++ [v]) := by
  -- the induction adds the characters of the text at its end
  induction s using List.reverseRecOn with
  | nil => exact ⟨[], [], fun w hw => words_of_isWord hw, .inl ⟨rfl, words_nil⟩⟩
  | append_singleton s c ih =>
    by_cases hc : isBlankChar c = true
    · refine ⟨words s, [], fun w hw => ?_, .inl ⟨rfl, ?_⟩⟩
      · rw [List.append_assoc, List.singleton_append, words_append_blank hc, words_of_isWord hw,
          List.nil_append]
      · rw [words_append_blank hc, words_nil, List.append_nil]
    · obtain ⟨ws, v, happend, -⟩ := ih
      have hnot : isBlankChar c = false := by simpa using hc
      refine ⟨ws, v ++ [c], fun w hw => ?_, .inr ⟨by simp, ?_⟩⟩
      · have hword : IsWord (c :: w) :=
          ⟨List.cons_ne_nil c w, List.forall_mem_cons.2 ⟨hnot, hw.2⟩⟩
        rw [List.append_assoc, List.singleton_append, happend _ hword, List.append_assoc v,
          List.singleton_append]
      · exact happend [c] ⟨List.cons_ne_nil c [], by simpa using hnot⟩

/-- Words that are joined by spaces are the pieces between the spaces. -/
theorem pieces_joinWith {ws : List Text} (h : ∀ w ∈ ws, IsWord w) (hne : ws ≠ []) :
    pieces ' ' (joinWith [' '] ws) = ws :=
  List.splitOn_intercalate ' ' (fun w hw => (h w hw).space_not_mem) hne

/-! ### The word at the end -/

/-- **The text ends in a word**: the word is the whole of it or follows a space. -/
def EndsIn (w s : Text) : Prop := s = w ∨ ∃ front, s = front ++ ' ' :: w

namespace EndsIn

/-- A text that ends in a word is not empty. -/
theorem ne_nil {w s : Text} (h : EndsIn w s) (hw : w ≠ []) : s ≠ [] := by
  rcases h with rfl | ⟨front, rfl⟩
  · exact hw
  · simp

/-- A text that is one word ends in it. -/
theorem refl (w : Text) : EndsIn w w := .inl rfl

/-- A word after a space is the end of its text. -/
theorem append (front w : Text) : EndsIn w (front ++ ' ' :: w) := .inr ⟨front, rfl⟩

/-- The end of a text grows with the text. -/
theorem append_right {w s : Text} (h : EndsIn w s) (back : Text) :
    EndsIn (w ++ back) (s ++ back) := by
  rcases h with rfl | ⟨front, rfl⟩
  · exact refl _
  · exact .inr ⟨front, by simp⟩

/-- **A text ends in one word only.** -/
theorem unique {v w s : Text} (hv : ' ' ∉ v) (hw : ' ' ∉ w) (h₁ : EndsIn v s) (h₂ : EndsIn w s) :
    v = w := by
  rcases h₁ with rfl | ⟨f, rfl⟩
  · rcases h₂ with h | ⟨g, rfl⟩
    · exact h
    · simp at hv
  · rcases h₂ with rfl | ⟨g, h⟩
    · simp at hw
    · -- the two last spaces are the same one
      rcases List.append_eq_append_iff.1 h with ⟨x, hx, h⟩ | ⟨x, hx, h⟩
      · cases x with
        | nil => simpa using h
        | cons c x =>
          injection h with _ h
          exact absurd (h ▸ by simp) hv
      · cases x with
        | nil => simpa using h.symm
        | cons c x =>
          injection h with _ h
          exact absurd (h ▸ by simp) hw

/-- A list of words joined by spaces ends in its last word. -/
theorem joinWith_concat (ws : List Text) (w : Text) :
    EndsIn w (joinWith [' '] (ws ++ [w])) := by
  by_cases h : ws = []
  · subst h
    rw [List.nil_append, joinWith_singleton]
    exact refl w
  · rw [joinWith_append [' '] h (by simp), joinWith_singleton, List.append_assoc]
    exact append _ w

end EndsIn

/-- **White space in front of a word is all that trimming its text takes away.** -/
theorem endsIn_trimStart {w s : Text} (hw : IsWord w) (h : EndsIn w s) :
    EndsIn w (trimStart s) ∧ trimStart s ≠ [] := by
  have hself : trimStart w = w := by
    cases w with
    | nil => rfl
    | cons c w => rw [trimStart, List.dropWhile_cons_of_neg (by simp [hw.2 c])]
  rcases h with rfl | ⟨front, rfl⟩
  · rw [hself]
    exact ⟨.refl s, hw.1⟩
  · induction front with
    -- the induction follows the white space in front, and stops at the first other character
    | nil =>
      rw [List.nil_append, trimStart, List.dropWhile_cons_of_pos isBlankChar_space]
      rw [trimStart] at hself
      rw [hself]
      exact ⟨.refl w, hw.1⟩
    | cons c front ih =>
      by_cases hc : isBlankChar c = true
      · rw [List.cons_append, trimStart, List.dropWhile_cons_of_pos hc]
        exact ih
      · rw [trimStart, List.cons_append, List.dropWhile_cons_of_neg hc]
        exact ⟨.append (c :: front) w, by simp⟩

/-! ### Trimming and cutting -/

/-- Nothing is trimmed at the start of a text that does not start with white space. -/
theorem dropWhile_isBlankChar_eq_self {s : Text} (h : ∀ c ∈ s.head?, isBlankChar c = false) :
    s.dropWhile isBlankChar = s := by
  cases s with
  | nil => rfl
  | cons c s => exact List.dropWhile_cons_of_neg (by simp [h c rfl])

/-- **Cutting at the last separator** takes a text apart that was put together around it. -/
theorem cutLast?_append {sep : Char} (front : Text) {back : Text} (h : sep ∉ back) :
    cutLast? sep (front ++ sep :: back) = some (front, back) := by
  have hback : ∀ c ∈ back.reverse, (decide (c ≠ sep)) = true := by
    intro c hc
    exact decide_eq_true fun he => h (he ▸ List.mem_reverse.1 hc)
  have hreverse : (front ++ sep :: back).reverse = back.reverse ++ sep :: front.reverse := by simp
  rw [cutLast?, hreverse, List.dropWhile_append_of_pos hback, List.takeWhile_append_of_pos hback]
  simp

/-- A text without a separator is not cut. -/
theorem cutAt_eq_self {sep : Char} {s : Text} (h : sep ∉ s) : cutAt sep s = (s, none) := by
  have hall : ∀ c ∈ s, decide (c ≠ sep) = true := fun c hc => decide_eq_true fun he => h (he ▸ hc)
  rw [cutAt, ← List.append_nil s, List.takeWhile_append_of_pos (by simpa using hall),
    List.dropWhile_append_of_pos (by simpa using hall)]
  rfl

/-- **Cutting at the first separator** takes a text apart that was put together around it. -/
theorem cutAt_append {sep : Char} {front : Text} (h : sep ∉ front) (back : Text) :
    cutAt sep (front ++ sep :: back) = (front, some back) := by
  have hall : ∀ c ∈ front, decide (c ≠ sep) = true :=
    fun c hc => decide_eq_true fun he => h (he ▸ hc)
  rw [cutAt, List.takeWhile_append_of_pos hall, List.dropWhile_append_of_pos hall]
  simp

end HebrewCorpus.Text
