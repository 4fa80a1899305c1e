import HebrewCorpus.Proofs.Book.Composition
import HebrewCorpus.Proofs.Book.Walk
import HebrewCorpus.Proofs.Schema.Labels
import Mathlib.Logic.Relation

/-! # Lines, references and headings in step

A book grows by steps of three kinds while its content is walked: a heading, a line together with its
reference, or a mismatch that is counted. Each step keeps lines, references and headings in step with
each other, and a walk does nothing to the book but such steps, also where it is abandoned half-way.

* **`FlatBook.Step`**: the steps.
* **`FlatBook.Aligned`**: lines, references and headings that are in step; `Aligned.step` says that
  they stay so.
* **`Walk.Grows`**: a walk that changes a book by such steps only, however it ends; `grows_walkLeaf`
  and `grows_walkNode` find every walk to be one.
* **`aligned_walkBook`**, **`aligned_flatten`**: every flattened book is in step. -/

namespace HebrewCorpus

namespace FlatBook

/-! ### Steps -/

/-- **What a book grows by**: a heading below the title, a line of text with its reference, or one
more mismatch. -/
inductive Step : FlatBook → FlatBook → Prop
  | heading (b : FlatBook) (title : Text) {level : Nat} (below : 1 ≤ level) :
      Step b { b with headings := b.headings ++ [⟨title, level, b.lines.length⟩] }
  | line (b : FlatBook) {content : Text} (path : RefPath) (unbroken : '\n' ∉ content)
      (worded : Text.isBlank content = false) :
      Step b { b with
        lines := b.lines ++
          [⟨none, b.book, b.lines.length, content, some path.ref, some path.heRef⟩]
        refs := b.refs ++ [⟨path.ref, path.heRef, b.lines.length + 1, b.book⟩] }
  | mismatch (b : FlatBook) : Step b { b with mismatches := b.mismatches + 1 }

/-- **Lines, references and headings of a book that are in step.** -/
structure Aligned (book : Int) (title : Text) (b : FlatBook) : Prop where
  own : b.book = book
  /-- Lines are numbered from 0 on. -/
  lines : ∀ (i : Nat) (l : Line), b.lines[i]? = some l → l.index = i ∧ l.book = book
  /-- There is one reference for each line, which counts it from 1. -/
  refs : ∀ (i : Nat) (l : Line), b.lines[i]? = some l → ∃ ref heRef, l.ref = some ref ∧
    l.heRef = some heRef ∧ b.refs[i]? = some ⟨ref, heRef, i + 1, book⟩
  length_refs : b.refs.length = b.lines.length
  /-- The title stands in front of the first line, and all other headings are below it. -/
  opening : ∃ rest, b.headings = ⟨title, 0, 0⟩ :: rest ∧ ∀ h ∈ rest, 1 ≤ h.level
  ascending : b.headings.Pairwise fun g h => g.lineIndex ≤ h.lineIndex
  within : ∀ h ∈ b.headings, h.lineIndex ≤ b.lines.length
  contents : ∀ l ∈ b.lines, '\n' ∉ l.content ∧ Text.isBlank l.content = false

/-- What holds of the entries of a list by their positions holds with one more entry. -/
theorem forall_getElem?_concat {α : Type} {P : Nat → α → Prop} {as : List α} {a : α}
    (h : ∀ i x, as[i]? = some x → P i x) (ha : P as.length a) :
    ∀ i x, (as ++ [a])[i]? = some x → P i x := by
  intro i x hx
  rw [List.getElem?_append] at hx
  split at hx
  · exact h i x hx
  · next hi =>
    obtain ⟨hlt, rfl⟩ := List.getElem?_eq_some_iff.1 hx
    have hlen : i = as.length := by
      rw [List.length_singleton] at hlt
      omega
    subst hlen
    simpa using ha

/-- **Each step keeps a book aligned.** -/
theorem Aligned.step {book : Int} {title : Text} {b b' : FlatBook} (h : b.Aligned book title)
    (hs : Step b b') : b'.Aligned book title := by
  cases hs with
  | mismatch => exact { h with }
  | heading next below =>
    refine { h with opening := ?_, ascending := ?_, within := ?_ }
    · obtain ⟨rest, hopen, hrest⟩ := h.opening
      refine ⟨_, by rw [hopen, List.cons_append], fun g hg => ?_⟩
      rcases List.mem_append.1 hg with hg | hg
      · exact hrest g hg
      · rw [List.mem_singleton.1 hg]
        exact Int.ofNat_le.2 below
    · -- the new heading stands behind all lines, where no heading is further on
      refine List.pairwise_append.2 ⟨h.ascending, List.pairwise_singleton .., fun g hg k hk => ?_⟩
      rw [List.mem_singleton.1 hk]
      exact h.within g hg
    · intro g hg
      rcases List.mem_append.1 hg with hg | hg
      · exact h.within g hg
      · obtain rfl := List.mem_singleton.1 hg
        exact Int.le_refl _
  | line path unbroken worded =>
    refine { h with lines := ?_, refs := ?_, length_refs := ?_, within := ?_, contents := ?_ }
    · exact forall_getElem?_concat h.lines ⟨rfl, h.own⟩
    · refine forall_getElem?_concat (fun i l hl => ?_) ⟨path.ref, path.heRef, rfl, rfl, ?_⟩
      · obtain ⟨ref, heRef, hr, hhe, he⟩ := h.refs i l hl
        exact ⟨ref, heRef, hr, hhe, List.getElem?_append_left (List.getElem?_eq_some_iff.1 he).1 ▸ he⟩
      · rw [← h.length_refs, h.own]
        simp
    · simp [h.length_refs]
    · intro g hg
      have := h.within g hg
      simp only [List.length_append, List.length_singleton]
      omega
    · intro l hl
      rcases List.mem_append.1 hl with hl | hl
      · exact h.contents l hl
      · rw [List.mem_singleton.1 hl]
        exact ⟨unbroken, worded⟩

/-- **A book stays aligned however long it grows.** -/
theorem Aligned.steps {book : Int} {title : Text} {b b' : FlatBook} (h : b.Aligned book title)
    (hs : Relation.ReflTransGen Step b b') : b'.Aligned book title := by
  induction hs with
  | refl => exact h
  | tail _ hstep ih => exact ih.step hstep

/-- A book that holds its title alone is aligned. -/
theorem aligned_title (book : Int) (titleEn title : Text) :
    (FlatBook.mk book titleEn title [] [⟨title, 0, 0⟩] [] 0).Aligned book title where
  own := rfl
  lines := by simp
  refs := by simp
  length_refs := rfl
  opening := ⟨[], rfl, by simp⟩
  ascending := List.pairwise_singleton ..
  within := by simp
  contents := by simp

end FlatBook

namespace Walk

/-! ### Walks that grow a book -/

/-- **A walk that changes a book by steps only**, whether it comes to its end or ends in a fault. -/
def Grows {α : Type} (x : Walk α) : Prop :=
  ∀ s, Relation.ReflTransGen FlatBook.Step s.flat (x.exec s).2.flat

variable {α β : Type} {x : Walk α}

/-- A walk of no steps. -/
theorem grows_pure (a : α) : Grows (pure a) := fun _ => .refl

/-- A fault leaves the book as it is. -/
theorem grows_throw (fault : WalkFault) : Grows (throw fault : Walk α) := fun _ => .refl

/-- **A walk goes on from where its first step ends**, or ends there in a fault. -/
theorem Grows.bind (hx : Grows x) {f : α → Walk β} (hf : ∀ a, Grows (f a)) : Grows (x >>= f) := by
  intro s
  have hfirst := hx s
  unfold exec at hfirst ⊢
  rw [ExceptT.run_bind, StateT.run_bind]
  rcases hrun : StateT.run (ExceptT.run x) s with ⟨fault | a, t⟩
  · rwa [hrun] at hfirst
  · rw [hrun] at hfirst
    exact hfirst.trans (hf a t)

/-- A heading below the title. -/
theorem grows_addHeading (title : Text) {level : Nat} (below : 1 ≤ level) :
    Grows (addHeading title level) := fun s => .single (.heading s.flat title below)

/-- A line of text. -/
theorem grows_addLine {content : Text} (path : RefPath) (unbroken : '\n' ∉ content)
    (worded : Text.isBlank content = false) : Grows (addLine content path) :=
  fun s => .single (.line s.flat path unbroken worded)

/-- A mismatch that is raised leaves the book as it is. -/
theorem grows_raise (m : ShapeMismatch) : Grows (raise m : Walk α) := fun _ => .refl

/-- **A walk below that is abandoned** leaves what it added, and is counted. -/
theorem Grows.guarded {x : Walk Unit} (hx : Grows x) : Grows (guarded x) := by
  intro s
  have hbelow := hx s
  unfold exec at hbelow ⊢
  rw [Walk.guarded, ExceptT.run_tryCatch, StateT.run_bind]
  rcases hrun : StateT.run (ExceptT.run x) s with ⟨fault | a, t⟩
  · rw [hrun] at hbelow
    cases fault with
    | mismatch m => exact hbelow.tail (.mismatch t.flat)
    | outOfRange index length => exact hbelow
    | unlabelled fault => exact hbelow
  · rwa [hrun] at hbelow

/-- Walks one after the other. -/
theorem grows_forM {f : α → Walk Unit} {as : List α} (h : ∀ a ∈ as, Grows (f a)) :
    Grows (as.forM f) := by
  induction as with
  | nil => exact grows_pure ()
  | cons a as ih =>
    exact (h a List.mem_cons_self).bind fun _ => ih fun b hb => h b (List.mem_cons_of_mem _ hb)

/-- Reading an entry of a list leaves the book as it is. -/
theorem grows_entryAt (entries : List α) (i : Nat) : Grows (entryAt entries i) := by
  unfold entryAt
  split
  · exact grows_pure _
  · exact grows_throw _

/-- Reading what the lists of a leaf say of a level leaves the book as it is. -/
theorem grows_readLevel (l : LeafLayout) (i : Nat) : Grows (readLevel l i) := by
  have hflag : Grows (readFlag l i) := by
    unfold readFlag
    split
    · exact grows_pure _
    · exact grows_entryAt _ _
  have hname (he : Text) : Grows (if Text.isBlank he then
      do return Text.trim (← entryAt l.sectionNames i) else return Text.trim he) := by
    split
    · exact (grows_entryAt _ _).bind fun _ => grows_pure _
    · exact grows_pure _
  have hheading : Grows (readHeading l i) := by
    unfold readHeading
    split
    · exact (grows_pure _).bind hname
    · exact (grows_entryAt _ _).bind hname
  exact (grows_entryAt _ _).bind fun _ => hflag.bind fun _ => hheading.bind fun _ => grows_pure _

/-- Reading the content of a child leaves the book as it is. -/
theorem grows_readChild (child : NodeName) (content : Json) : Grows (readChild child content) := by
  unfold readChild
  split
  · exact grows_pure _
  · exact grows_raise _

end Walk

/-! ### The walk through a book -/

section Walks

open Walk

/-- A Hebrew label holds no line break, nor does the lead that is made of it. -/
theorem not_mem_lead (kind : AddressKind) (i : Nat) :
    '\n' ∉ '(' :: (kind.labelsAt i).hebrew ++ ") ".toList := by
  have hlabel : '\n' ∉ (kind.labelsAt i).hebrew := fun h =>
    absurd (AddressKind.mem_hebrew h) (by decide)
  simp [hlabel]

/-- Text that is not blank stays so without its line breaks, behind any lead. -/
theorem isBlank_line {lead s : Text} (h : ¬ Text.isBlank s = true) :
    Text.isBlank (lead ++ s.filter (· ≠ '\n')) = false := by
  rw [Bool.not_eq_true, Text.isBlank, List.all_eq_false] at h
  obtain ⟨c, hc, hword⟩ := h
  have hne : c ≠ '\n' := by
    rintro rfl
    exact hword (by decide)
  rw [Text.isBlank, List.all_eq_false]
  exact ⟨c, List.mem_append_right _ (List.mem_filter.2 ⟨hc, by simpa using hne⟩), hword⟩

/-- **The walk through the content of a leaf grows the book**, whether its lists fit or not. -/
theorem grows_walkLeaf (l : LeafLayout) (left : Nat) {depth : Nat} (below : 1 ≤ depth)
    (path : RefPath) {lead : Text} (unbroken : '\n' ∉ lead) (content : Json) :
    Grows (walkLeaf l left depth path lead content) := by
  induction left generalizing depth path lead content with
  | zero =>
    unfold walkLeaf
    split
    · split
      · exact grows_pure _
      · next hword => exact grows_addLine path (by simp [unbroken]) (isBlank_line hword)
    · exact grows_raise _
  | succ left ih =>
    unfold walkLeaf
    split
    · refine (grows_readLevel _ _).bind fun level => grows_forM ?_
      rintro ⟨item, i⟩ -
      dsimp only
      split
      · exact grows_pure _
      · rw [readLabels_eq, pure_bind]
        split
        · -- the last level: the lines below may carry a label
          refine (ih below _ ?_ item).guarded
          split
          · exact not_mem_lead level.kind i
          · exact List.not_mem_nil
        · split
          · refine (grows_addHeading _ below).bind fun _ => ?_
            exact (ih (Nat.le_succ_of_le below) _ List.not_mem_nil item).guarded
          · exact (ih below _ List.not_mem_nil item).guarded
    · exact grows_raise _

mutual

/-- **The walk through the content of a node grows the book**, whatever the schema and the content. -/
theorem grows_walkNode {depth : Nat} (below : 1 ≤ depth) (path : RefPath) (content : Json) :
    (schema : SchemaNode) → Grows (walkNode depth path content schema)
  | .container name children => by
    unfold walkNode
    split
    · exact grows_walkChildren below path _ children
    · exact grows_raise _
  | .leaf name layout => by
    rw [walkNode]
    exact grows_walkLeaf layout layout.depth below path List.not_mem_nil content

/-- The walk through the contents of a container's children grows the book. -/
theorem grows_walkChildren {depth : Nat} (below : 1 ≤ depth) (path : RefPath) (content : Json) :
    (children : List SchemaNode) → Grows (walkChildren depth path content children)
  | [] => by
    rw [walkChildren]
    exact grows_pure _
  | child :: children => by
    have hrest := grows_walkChildren below path content children
    rw [walkChildren]
    refine (grows_readChild _ _).bind fun own => ?_
    dsimp only
    split
    · exact hrest
    · split
      · exact (grows_walkNode below path own child).guarded.bind fun _ => hrest
      · refine (grows_addHeading _ below).bind fun _ => ?_
        exact (grows_walkNode (Nat.le_succ_of_le below) _ own child).guarded.bind fun _ => hrest

end

/-- **A walk through a book leaves it aligned**, whatever the schema and the content, and wherever the
walk ends. -/
theorem aligned_walkBook (schema : SchemaNode) (content : Json) (titleEn titleHe : Text)
    (book : Int) : (walkBook schema content titleEn titleHe book).2.flat.Aligned book
      (if titleHe.isEmpty then titleEn else titleHe) := by
  let title := if titleHe.isEmpty then titleEn else titleHe
  have hgrows := (grows_walkNode (Nat.le_refl 1) (.root titleEn title) content schema).guarded
  -- the walk goes on from a book that holds its title alone
  exact (FlatBook.aligned_title book titleEn title).steps
    (hgrows ⟨⟨book, titleEn, title, [], [⟨title, 0, 0⟩], [], 0⟩, []⟩)

end Walks

/-- **Lines, references and headings of a flattened book are in step.** -/
theorem aligned_flatten {schema : SchemaNode} (h : schema.Accepted) (content : Json)
    (titleEn titleHe : Text) (book : Int) :
    ∃ flat, flatten schema content titleEn titleHe book = .ok flat ∧
      flat.Aligned book (if titleHe.isEmpty then titleEn else titleHe) := by
  obtain ⟨flat, raised, hflat, hwalk, -⟩ := walkBook_eq h content titleEn titleHe book
  have haligned := aligned_walkBook schema content titleEn titleHe book
  rw [hwalk] at haligned
  exact ⟨flat, hflat, haligned⟩

/-- An introduction with a line break in it, a siman with a number among its lines, and a siman that is
no list of lines. -/
def brokenContent : Json :=
  .object [("Introduction".toList, .array [.text "a\nb".toList, .text "\n".toList]),
    ([], .array [.array [.int 3, .text "c".toList], .text "lost".toList])]

/-- The walk goes on behind what it had to leave out, and the heading that lost its lines stands behind
all lines. -/
theorem aligned_flatten_broken :
    (SchemaNode.container ⟨[], "Tur".toList, []⟩ introducedParts).Accepted ∧
      ∃ flat, flatten (.container ⟨[], "Tur".toList, []⟩ introducedParts) brokenContent "Tur".toList
          "טור".toList 5 = .ok flat ∧
        flat.Aligned 5 "טור".toList ∧
        flat.lines.map (·.content) = ["ab".toList, "(ב) c".toList] ∧
        flat.headings.map (·.lineIndex) = [0, 0, 1, 2] ∧ flat.mismatches = 2 := by
  refine ⟨accepted_introduced, ?_⟩
  obtain ⟨flat, hflat, haligned⟩ :=
    aligned_flatten accepted_introduced brokenContent "Tur".toList "טור".toList 5
  refine ⟨flat, hflat, haligned, ?_⟩
  have hviews : (flatten (.container ⟨[], "Tur".toList, []⟩ introducedParts) brokenContent
      "Tur".toList "טור".toList 5).map (fun flat =>
        (flat.lines.map (·.content), flat.headings.map (·.lineIndex), flat.mismatches)) =
      .ok (["ab".toList, "(ב) c".toList], [0, 0, 1, 2], 2) := by
    decide +kernel
  rw [hflat] at hviews
  obtain ⟨hlines, hrest⟩ := Prod.mk.inj (Except.ok.inj hviews)
  obtain ⟨hheadings, hcount⟩ := Prod.mk.inj hrest
  exact ⟨hlines, hheadings, hcount⟩

end HebrewCorpus
