import HebrewCorpus.Proofs.Text.Trim
import HebrewCorpus.Text.Encoding

/-! # Line ends

Line ends are made uniform from left to right, a carriage return together with the line feed behind
it. What looks at words alone, or strips characters among which line ends count alike, finds the
same in the uniform text.

* **`Text.lineEndInduction`**: the steps in which line ends are made uniform.
* **`Text.unifyLineEnds_append_cons`**: a text is made uniform part by part.
* **`Text.AlikeButLineEnds`**: texts that differ in their line ends only, such as a text and its
  uniform one (`alikeButLineEnds_unifyLineEnds`).
* **`AlikeButLineEnds.trimWhere`**, **`AlikeButLineEnds.words_eq`**: what such texts have in
  common. -/

namespace HebrewCorpus.Text

/-! ### Uniform line ends -/

/-- **The steps in which line ends are made uniform.** -/
@[elab_as_elim] theorem lineEndInduction {motive : Text → Prop} (nil : motive [])
    (returnFeed : ∀ s, motive s → motive ('\r' :: '\n' :: s))
    (loneReturn : ∀ s, s.head? ≠ some '\n' → motive s → motive ('\r' :: s))
    (other : ∀ c s, c ≠ '\r' → motive s → motive (c :: s)) (s : Text) : motive s := by
  refine unifyLineEnds.go.induct (fun s _ => motive s) (fun _ => nil)
    (fun s _ ih => returnFeed s ih) (fun s _ hs ih => loneReturn s ?_ ih)
    (fun c s _ _ hc ih => other c s hc ih) s []
  intro hhead
  obtain ⟨rest, rfl⟩ := List.head?_eq_some_iff.1 hhead
  exact hs rest rfl

@[simp] theorem unifyLineEnds_nil : unifyLineEnds [] = [] := rfl

/-- What was written before stays in front. -/
theorem go_eq_append (s written : Text) :
    unifyLineEnds.go s written = unifyLineEnds.go s [] ++ written := by
  induction s using lineEndInduction generalizing written with
  | nil => rfl
  | returnFeed s ih =>
    rw [unifyLineEnds.go, unifyLineEnds.go, ih, ih ['\n'], List.append_assoc]
    rfl
  | loneReturn s hs ih =>
    have hne : ∀ rest, s = '\n' :: rest → False := fun rest h => hs (h ▸ rfl)
    rw [unifyLineEnds.go.eq_3 _ _ hne, unifyLineEnds.go.eq_3 _ _ hne, ih, ih ['\n'],
      List.append_assoc]
    rfl
  | other c s hc ih =>
    rw [unifyLineEnds.go.eq_4 _ _ _ (fun _ h => absurd h hc) hc,
      unifyLineEnds.go.eq_4 _ _ _ (fun _ h => absurd h hc) hc, ih, ih [c], List.append_assoc]
    rfl

/-- A carriage return and a line feed become one line feed. -/
theorem unifyLineEnds_returnFeed (s : Text) :
    unifyLineEnds ('\r' :: '\n' :: s) = '\n' :: unifyLineEnds s := by
  rw [unifyLineEnds, unifyLineEnds.go, go_eq_append, List.reverse_append, ← unifyLineEnds]
  rfl

/-- A carriage return alone becomes a line feed. -/
theorem unifyLineEnds_loneReturn {s : Text} (hs : s.head? ≠ some '\n') :
    unifyLineEnds ('\r' :: s) = '\n' :: unifyLineEnds s := by
  have hne : ∀ rest, s = '\n' :: rest → False := fun rest h => hs (h ▸ rfl)
  rw [unifyLineEnds, unifyLineEnds.go.eq_3 _ _ hne, go_eq_append, List.reverse_append,
    ← unifyLineEnds]
  rfl

/-- Any other character stays. -/
theorem unifyLineEnds_cons {c : Char} (hc : c ≠ '\r') (s : Text) :
    unifyLineEnds (c :: s) = c :: unifyLineEnds s := by
  rw [unifyLineEnds, unifyLineEnds.go.eq_4 _ _ _ (fun _ h => absurd h hc) hc, go_eq_append,
    List.reverse_append, ← unifyLineEnds]
  rfl

/-- **Line ends are made uniform on the two sides of any other character.** -/
theorem unifyLineEnds_append_cons {c : Char} (hreturn : c ≠ '\r') (hfeed : c ≠ '\n') (s t : Text) :
    unifyLineEnds (s ++ c :: t) = unifyLineEnds s ++ c :: unifyLineEnds t := by
  induction s using lineEndInduction with
  | nil => exact unifyLineEnds_cons hreturn t
  | returnFeed s ih =>
    rw [List.cons_append, List.cons_append, unifyLineEnds_returnFeed, unifyLineEnds_returnFeed, ih]
    rfl
  | loneReturn s hs ih =>
    have hhead : (s ++ c :: t).head? ≠ some '\n' := by
      cases s with
      | nil => simpa using hfeed
      | cons d s => exact hs
    rw [List.cons_append, unifyLineEnds_loneReturn hhead, unifyLineEnds_loneReturn hs, ih]
    rfl
  | other d s hd ih =>
    rw [List.cons_append, unifyLineEnds_cons hd, unifyLineEnds_cons hd, ih]
    rfl

/-- A uniform text is no longer than the text. -/
theorem length_unifyLineEnds_le (s : Text) : (unifyLineEnds s).length ≤ s.length := by
  induction s using lineEndInduction with
  | nil => exact Nat.le_refl 0
  | returnFeed s ih =>
    simp only [unifyLineEnds_returnFeed, List.length_cons]
    omega
  | loneReturn s hs ih =>
    simp only [unifyLineEnds_loneReturn hs, List.length_cons]
    omega
  | other c s hc ih =>
    simp only [unifyLineEnds_cons hc, List.length_cons]
    omega

/-! ### Texts that differ in their line ends -/

/-- The two characters of line ends. -/
def IsLineEnd (c : Char) : Prop := c = '\r' ∨ c = '\n'

instance : DecidablePred IsLineEnd := fun c => inferInstanceAs (Decidable (c = '\r' ∨ c = '\n'))

/-- Nothing is dropped from a text that starts with characters that are kept. -/
theorem dropWhile_append_eq_self {p : Char → Bool} {kept : Text} (hne : kept ≠ [])
    (h : ∀ c ∈ kept, p c = false) (s : Text) : (kept ++ s).dropWhile p = kept ++ s := by
  obtain ⟨c, kept, rfl⟩ := List.exists_cons_of_ne_nil hne
  rw [List.cons_append, List.dropWhile_cons_of_neg]
  rw [h c List.mem_cons_self]
  exact Bool.false_ne_true

/-- Line ends part the words on their two sides. -/
theorem words_lineEnds {ends : Text} (hne : ends ≠ []) (h : ∀ c ∈ ends, IsLineEnd c)
    (front s : Text) : words (front ++ (ends ++ s)) = words front ++ words s := by
  have hblank : ∀ c ∈ ends, isBlankChar c = true := by
    intro c hc
    rcases h c hc with rfl | rfl <;> decide
  obtain ⟨c, ends, rfl⟩ := List.exists_cons_of_ne_nil hne
  rw [List.forall_mem_cons] at hblank
  rw [List.cons_append, words_append_blank hblank.1,
    words_isBlank_append (List.all_eq_true.2 hblank.2)]

/-- **Texts that differ in their line ends only**: where one has some the other has some too. -/
inductive AlikeButLineEnds : Text → Text → Prop
  | nil : AlikeButLineEnds [] []
  | cons (c : Char) {s t : Text} (rest : AlikeButLineEnds s t) : AlikeButLineEnds (c :: s) (c :: t)
  | lineEnds {ends ends' s t : Text} (hne : ends ≠ []) (hne' : ends' ≠ [])
      (h : ∀ c ∈ ends, IsLineEnd c) (h' : ∀ c ∈ ends', IsLineEnd c) (rest : AlikeButLineEnds s t) :
      AlikeButLineEnds (ends ++ s) (ends' ++ t)

/-- **A text differs from its uniform one in its line ends only.** -/
theorem alikeButLineEnds_unifyLineEnds (s : Text) : AlikeButLineEnds s (unifyLineEnds s) := by
  induction s using lineEndInduction with
  | nil => exact .nil
  | returnFeed s ih =>
    rw [unifyLineEnds_returnFeed]
    exact .lineEnds (List.cons_ne_nil '\r' ['\n']) (List.cons_ne_nil '\n' [])
      (forall_mem_of_all (by decide)) (forall_mem_of_all (by decide)) ih
  | loneReturn s hs ih =>
    rw [unifyLineEnds_loneReturn hs]
    exact .lineEnds (List.cons_ne_nil '\r' []) (List.cons_ne_nil '\n' [])
      (forall_mem_of_all (by decide)) (forall_mem_of_all (by decide)) ih
  | other c s hc ih =>
    rw [unifyLineEnds_cons hc]
    exact .cons c ih

namespace AlikeButLineEnds

variable {s t : Text}

/-- Such texts one after the other. -/
theorem append {s' t' : Text} (h : AlikeButLineEnds s t) (h' : AlikeButLineEnds s' t') :
    AlikeButLineEnds (s ++ s') (t ++ t') := by
  induction h with
  | nil => exact h'
  | cons c _ ih => exact .cons c ih
  | lineEnds hne hne' hends hends' _ ih =>
    rw [List.append_assoc, List.append_assoc]
    exact .lineEnds hne hne' hends hends' ih

/-- Such texts read backwards. -/
theorem reverse (h : AlikeButLineEnds s t) : AlikeButLineEnds s.reverse t.reverse := by
  induction h with
  | nil => exact .nil
  | cons c _ ih =>
    rw [List.reverse_cons, List.reverse_cons]
    exact ih.append (.cons c .nil)
  | @lineEnds ends ends' _ _ hne hne' hends hends' _ ih =>
    rw [List.reverse_append, List.reverse_append]
    refine ih.append ?_
    have hlast : AlikeButLineEnds (ends.reverse ++ []) (ends'.reverse ++ []) := by
      refine .lineEnds (by simpa using hne) (by simpa using hne') ?_ ?_ .nil
      · simpa using hends
      · simpa using hends'
    simpa using hlast

/-- Characters are dropped alike when line ends count alike among them. -/
theorem dropWhile {p : Char → Bool} (hp : p '\r' = p '\n') (h : AlikeButLineEnds s t) :
    AlikeButLineEnds (s.dropWhile p) (t.dropWhile p) := by
  have hline : ∀ c, IsLineEnd c → p c = p '\n' := by
    rintro c (rfl | rfl)
    · exact hp
    · rfl
  induction h with
  | nil => exact .nil
  | cons c rest ih =>
    rw [List.dropWhile_cons, List.dropWhile_cons]
    split
    · exact ih
    · exact .cons c rest
  | lineEnds hne hne' hends hends' rest ih =>
    cases hfeed : p '\n' with
    | true =>
      rw [List.dropWhile_append_of_pos fun c hc => (hline c (hends c hc)).trans hfeed,
        List.dropWhile_append_of_pos fun c hc => (hline c (hends' c hc)).trans hfeed]
      exact ih
    | false =>
      rw [dropWhile_append_eq_self hne fun c hc => (hline c (hends c hc)).trans hfeed,
        dropWhile_append_eq_self hne' fun c hc => (hline c (hends' c hc)).trans hfeed]
      exact .lineEnds hne hne' hends hends' rest

/-- **Such texts are stripped alike** when line ends count alike among the stripped characters. -/
theorem trimWhere {p : Char → Bool} (hp : p '\r' = p '\n') (h : AlikeButLineEnds s t) :
    AlikeButLineEnds (trimWhere p s) (Text.trimWhere p t) :=
  ((h.dropWhile hp).reverse.dropWhile hp).reverse

/-- **Such texts have the same words.** -/
theorem words_eq (h : AlikeButLineEnds s t) : words s = words t := by
  -- a character may continue the word before it, so the words are compared behind any front
  have hfront : ∀ front, words (front ++ s) = words (front ++ t) := by
    induction h with
    | nil => exact fun _ => rfl
    | cons c _ ih =>
      intro front
      have hnext := ih (front ++ [c])
      rwa [List.append_assoc, List.append_assoc] at hnext
    | lineEnds hne hne' hends hends' _ ih =>
      intro front
      rw [words_lineEnds hne hends, words_lineEnds hne' hends']
      exact congrArg _ (ih [])
  exact hfront []

/-- Where there are no line ends, such texts are the same. -/
theorem eq_of_forall (h : AlikeButLineEnds s t) (ht : ∀ c ∈ t, ¬IsLineEnd c) : s = t := by
  induction h with
  | nil => rfl
  | cons c _ ih => rw [ih fun d hd => ht d (List.mem_cons_of_mem _ hd)]
  | lineEnds _ hne' _ hends' _ _ =>
    obtain ⟨c, hc⟩ := List.exists_mem_of_ne_nil _ hne'
    exact absurd (hends' c hc) (ht c (List.mem_append_left _ hc))

/-- The other way round. -/
theorem symm (h : AlikeButLineEnds s t) : AlikeButLineEnds t s := by
  induction h with
  | nil => exact .nil
  | cons c _ ih => exact .cons c ih
  | lineEnds hne hne' hends hends' _ ih => exact .lineEnds hne' hne hends' hends ih

end AlikeButLineEnds

end HebrewCorpus.Text
