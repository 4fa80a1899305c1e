import HebrewCorpus.Proofs.Book.Composition

/-! # Blanks in a content

A blank contributes nothing to a book, and whether it is null, a text of white space or an array or
object of blanks makes no difference to what stands around it: neither to the headings above it nor to
the labels of the lines beside it nor to the choice of a child's content.

* **`Json.SameUpToBlanks`**: contents that differ only in how their blanks are spelled.
* **`isBlank_eq`**, **`selectChild`**: they are blank together, and so are the contents of a child.
* **`emitLeaf_eq`**, **`emitNode_eq`**: under every schema they emit the same.
* **`flatten_of_sameUpToBlanks`**: they give the same flat book. -/

namespace HebrewCorpus

/-- **Contents that differ only in how their blanks are spelled.** -/
inductive Json.SameUpToBlanks : Json → Json → Prop
  /-- Two blanks. -/
  | blank {a b : Json} (ha : a.isBlank = true) (hb : b.isBlank = true) : SameUpToBlanks a b
  /-- Twice the same value. -/
  | same (a : Json) : SameUpToBlanks a a
  /-- Two arrays of one length, item by item. -/
  | array {as bs : List Json} (length : as.length = bs.length)
      (items : ∀ (i : Nat) (a b : Json), as[i]? = some a → bs[i]? = some b → SameUpToBlanks a b) :
      SameUpToBlanks (.array as) (.array bs)
  /-- Two objects with the same keys, in whatever order, value by value. -/
  | object {as bs : Fields} (keys : ∀ key, key ∈ as.map (·.1) ↔ key ∈ bs.map (·.1))
      (values : ∀ (key : Text) (a b : Json), (key, a) ∈ as → (key, b) ∈ bs → SameUpToBlanks a b) :
      SameUpToBlanks (.object as) (.object bs)

/-- Lists of one length whose items agree under two functions have the same images. -/
theorem map_eq_map_of_getElem? {α β γ : Type} {f : α → γ} {g : β → γ} {as : List α} {bs : List β}
    (length : as.length = bs.length)
    (h : ∀ (i : Nat) a b, as[i]? = some a → bs[i]? = some b → f a = g b) : as.map f = bs.map g := by
  refine List.ext_getElem (by simpa using length) fun i hi hi' => ?_
  rw [List.length_map] at hi hi'
  rw [List.getElem_map, List.getElem_map]
  exact h i _ _ (List.getElem?_eq_getElem hi) (List.getElem?_eq_getElem hi')

namespace Json.SameUpToBlanks

/-- Objects of which one is blank hold blanks only under the keys of the other. -/
theorem all_isBlank {as bs : Fields} (keys : ∀ key, key ∈ bs.map (·.1) → key ∈ as.map (·.1))
    (values : ∀ key a b, (key, a) ∈ as → (key, b) ∈ bs → a.isBlank = b.isBlank)
    (h : as.all fun m => m.2.isBlank) : bs.all fun m => m.2.isBlank := by
  rw [List.all_eq_true] at h ⊢
  rintro ⟨key, b⟩ hb
  obtain ⟨⟨k, a⟩, ha, rfl⟩ := List.mem_map.1 (keys key (List.mem_map_of_mem hb))
  exact (values k a b ha hb).symm.trans (h _ ha)

/-- **They are blank together.** -/
theorem isBlank_eq {a b : Json} (h : a.SameUpToBlanks b) : a.isBlank = b.isBlank := by
  induction h with
  | blank ha hb => rw [ha, hb]
  | same a => rfl
  | @array as bs length items ih =>
    have hmap : as.map isBlank = bs.map isBlank := map_eq_map_of_getElem? length ih
    rw [isBlank, isBlank, areBlank_eq_all, areBlank_eq_all]
    simpa using congrArg (·.all id) hmap
  | @object as bs keys values ih =>
    rw [isBlank, isBlank, haveBlankValues_eq_all, haveBlankValues_eq_all, Bool.eq_iff_iff]
    exact ⟨all_isBlank (fun key => (keys key).2) ih,
      all_isBlank (fun key => (keys key).1) fun key b a hb ha => (ih key a b ha hb).symm⟩

section Members

variable {as bs : Fields} (keys : ∀ key, key ∈ as.map (·.1) ↔ key ∈ bs.map (·.1))
  (values : ∀ (key : Text) (a b : Json), (key, a) ∈ as → (key, b) ∈ bs → a.SameUpToBlanks b)

include keys values

/-- A key is in neither object, or the values under it are the same up to blanks. -/
theorem lookup (key : Text) :
    (as.lookup key = none ∧ bs.lookup key = none) ∨
      ∃ a b, as.lookup key = some a ∧ bs.lookup key = some b ∧ a.SameUpToBlanks b := by
  have hsome (ms : Fields) : (ms.lookup key).isSome ↔ key ∈ ms.map (·.1) := by
    rw [List.lookup_isSome_iff, List.mem_map]
    exact exists_congr fun m => and_congr_right fun _ => beq_iff_eq.trans eq_comm
  by_cases hkey : key ∈ as.map (·.1)
  · obtain ⟨a, ha⟩ := Option.isSome_iff_exists.1 ((hsome as).2 hkey)
    obtain ⟨b, hb⟩ := Option.isSome_iff_exists.1 ((hsome bs).2 ((keys key).1 hkey))
    obtain ⟨front, back, rfl, -⟩ := List.lookup_eq_some_iff.1 ha
    obtain ⟨front', back', rfl, -⟩ := List.lookup_eq_some_iff.1 hb
    exact .inr ⟨a, b, ha, hb, values key a b (by simp) (by simp)⟩
  · have ha := Option.not_isSome_iff_eq_none.1 (mt (hsome as).1 hkey)
    have hb := Option.not_isSome_iff_eq_none.1 (mt (hsome bs).1 (mt (keys key).2 hkey))
    exact .inl ⟨ha, hb⟩

/-- **The contents of a child are the same up to blanks.** -/
theorem selectChild (child : NodeName) :
    (HebrewCorpus.selectChild child as).SameUpToBlanks (HebrewCorpus.selectChild child bs) := by
  rw [HebrewCorpus.selectChild, HebrewCorpus.selectChild]
  induction child.contentKeys with
  | nil => exact .same .null
  | cons key rest ih =>
    rw [List.findSome?_cons, List.findSome?_cons]
    rcases lookup keys values key with ⟨ha, hb⟩ | ⟨a, b, ha, hb, hab⟩
    · rw [ha, hb]
      exact ih
    · rw [ha, hb]
      exact hab

end Members

/-! ### What they emit -/

/-- The lines of two arrays carry their labels together. -/
theorem labelsInline_eq {as bs : List Json} (h : as.map isBlank = bs.map isBlank) (level : Level) :
    labelsInline level as = labelsInline level bs := by
  have hcount (items : List Json) :
      items.countP (!·.isBlank) = (items.map isBlank).countP (!·) := by
    rw [List.countP_map]
    rfl
  rw [labelsInline, labelsInline, hcount, hcount, h]

/-- **Under the levels of a leaf they emit the same**, unless they are blank. -/
theorem emitLeaf_eq {a b : Json} (h : a.SameUpToBlanks b) (ha : a.isBlank = false)
    (levels : List Level) (depth : Nat) (path : RefPath) (lead : Text) :
    emitLeaf levels depth path lead a = emitLeaf levels depth path lead b := by
  induction levels generalizing a b depth path lead with
  | nil =>
    cases h with
    | blank hblank => rw [ha] at hblank; cases hblank
    | same => rfl
    | array | object => rfl
  | cons level levels ih =>
    cases h with
    | blank hblank => rw [ha] at hblank; cases hblank
    | same => rfl
    | object => rfl
    | @array as bs length items =>
      have hblanks : as.map isBlank = bs.map isBlank :=
        map_eq_map_of_getElem? length fun i a b hi hi' => (items i a b hi hi').isBlank_eq
      have hlead : itemLead level levels as = itemLead level levels bs := by
        funext i
        rw [itemLead, itemLead, labelsInline_eq hblanks]
      rw [emitLeaf_array, emitLeaf_array, hlead]
      -- at each place stand two blanks, or two items that emit the same
      refine congrArg List.flatten (map_eq_map_of_getElem? (by simpa using length) ?_)
      intro i x y hi hi'
      rw [List.getElem?_zipIdx, Option.map_eq_some_iff] at hi hi'
      obtain ⟨a, hi, rfl⟩ := hi
      obtain ⟨b, hi', rfl⟩ := hi'
      have hitem := items i a b hi hi'
      dsimp only
      rw [← hitem.isBlank_eq]
      split
      · rfl
      · next hblank => rw [ih hitem (by simpa using hblank)]

mutual

/-- **Under every schema they emit the same**, unless they are blank. -/
theorem emitNode_eq {a b : Json} (h : a.SameUpToBlanks b) (ha : a.isBlank = false) (depth : Nat)
    (path : RefPath) : (schema : SchemaNode) →
      emitNode depth path a schema = emitNode depth path b schema
  | .container name children => by
    unfold emitNode
    cases h with
    | blank hblank => rw [ha] at hblank; cases hblank
    | same => rfl
    | array => rfl
    | object keys values => exact emitChildren_eq keys values depth path children
  | .leaf name layout => by
    unfold emitNode
    cases layout.levels? with
    | none => rfl
    | some levels => exact congrArg Except.ok (emitLeaf_eq h ha levels depth path [])

/-- The children of a container emit the same. -/
theorem emitChildren_eq {as bs : Fields} (keys : ∀ key, key ∈ as.map (·.1) ↔ key ∈ bs.map (·.1))
    (values : ∀ (key : Text) (a b : Json), (key, a) ∈ as → (key, b) ∈ bs → a.SameUpToBlanks b)
    (depth : Nat) (path : RefPath) : (children : List SchemaNode) →
      emitChildren depth path as children = emitChildren depth path bs children
  | [] => rfl
  | child :: children => by
    have hcontent := selectChild keys values child.name
    rw [emitChildren_cons, emitChildren_cons, emitChild_eq hcontent depth path child,
      emitChildren_eq keys values depth path children]

/-- A child of a container emits the same, and nothing when its content is blank. -/
theorem emitChild_eq {a b : Json} (h : a.SameUpToBlanks b) (depth : Nat) (path : RefPath) :
    (child : SchemaNode) → emitChild depth path a child = emitChild depth path b child
  | child => by
    unfold emitChild
    rw [← h.isBlank_eq]
    split
    · rfl
    · next hblank =>
      have ha : a.isBlank = false := by simpa using hblank
      rw [emitNode_eq h ha depth path child, emitNode_eq h ha (depth + 1) _ child]

end

end Json.SameUpToBlanks

/-- **Blanks are interchangeable.** Two contents that are not blank and differ only in how their blanks
are spelled are flattened to one and the same book under every accepted schema: with the same lines,
labels, headings, references and mismatches. -/
theorem flatten_of_sameUpToBlanks {schema : SchemaNode} (h : schema.Accepted) {a b : Json}
    (hsame : a.SameUpToBlanks b) (ha : a.isBlank = false) (titleEn titleHe : Text) (book : Int) :
    ∃ flat, flatten schema a titleEn titleHe book = .ok flat ∧
      flatten schema b titleEn titleHe book = .ok flat := by
  obtain ⟨flat, hflat⟩ := flatten_eq_ok h a titleEn titleHe book
  refine ⟨flat, hflat, ?_⟩
  rw [← hflat, flatten, flatten, hsame.emitNode_eq ha]

/-- An introduction of two paragraphs with a gap, and two simanim of which the first is blank. -/
def gappedContent : Json :=
  .object [("Introduction".toList, .array [.text "a".toList, .null, .text "b".toList]),
    ([], .array [.array [.text " ".toList], .array [.text "c".toList]])]

/-- The same parts in the other order, with the gap and the blank siman spelled in other ways. -/
def respelledContent : Json :=
  .object [([], .array [.null, .array [.text "c".toList]]),
    ("Introduction".toList,
      .array [.text "a".toList, .object [("x".toList, .array [])], .text "b".toList])]

/-- Both spellings give the book in which the gap and the blank siman are counted but not seen. -/
theorem flatten_of_sameUpToBlanks_gapped :
    gappedContent.SameUpToBlanks respelledContent ∧ gappedContent.isBlank = false ∧
      ∃ flat,
        flatten (.container ⟨[], "Tur".toList, []⟩ introducedParts) gappedContent "Tur".toList []
          5 = .ok flat ∧
        flatten (.container ⟨[], "Tur".toList, []⟩ introducedParts) respelledContent "Tur".toList []
          5 = .ok flat ∧
        flat.lines.map (fun l => (l.content, l.ref)) =
          [("(א) a".toList, some "Tur, Introduction 1".toList),
            ("(ג) b".toList, some "Tur, Introduction 3".toList), ("c".toList, some "Tur 2:1".toList)] ∧
        flat.headings.map (·.title) =
          ["Tur".toList, "הקדמה".toList, "Siman ב".toList] := by
  have hgap : Json.SameUpToBlanks (.array [.text "a".toList, .null, .text "b".toList])
      (.array [.text "a".toList, .object [("x".toList, .array [])], .text "b".toList]) := by
    refine .array rfl fun i a b hi hi' => ?_
    match i with
    | 0 => cases hi; cases hi'; exact .same _
    | 1 => cases hi; cases hi'; exact .blank rfl rfl
    | 2 => cases hi; cases hi'; exact .same _
    | _ + 3 => cases hi
  have hsiman : Json.SameUpToBlanks (.array [.array [.text " ".toList], .array [.text "c".toList]])
      (.array [.null, .array [.text "c".toList]]) := by
    refine .array rfl fun i a b hi hi' => ?_
    match i with
    | 0 => cases hi; cases hi'; exact .blank rfl rfl
    | 1 => cases hi; cases hi'; exact .same _
    | _ + 2 => cases hi
  have hsame : gappedContent.SameUpToBlanks respelledContent := by
    refine .object (fun key => by simp [or_comm]) fun key a b ha hb => ?_
    simp only [List.mem_cons, List.not_mem_nil, or_false, Prod.mk.injEq] at ha hb
    rcases ha with ⟨rfl, rfl⟩ | ⟨rfl, rfl⟩ <;> rcases hb with ⟨hkey, rfl⟩ | ⟨hkey, rfl⟩
    · cases hkey
    · exact hgap
    · exact hsiman
    · cases hkey
  have hroot : gappedContent.isBlank = false := by decide
  obtain ⟨flat, hgapped, hrespelled⟩ :=
    flatten_of_sameUpToBlanks accepted_introduced hsame hroot "Tur".toList [] 5
  refine ⟨hsame, hroot, flat, hgapped, hrespelled, ?_⟩
  have hviews : (flatten (.container ⟨[], "Tur".toList, []⟩ introducedParts) gappedContent
      "Tur".toList [] 5).map (fun flat =>
        (flat.lines.map (fun l => (l.content, l.ref)), flat.headings.map (·.title))) = .ok
      ([("(א) a".toList, some "Tur, Introduction 1".toList),
        ("(ג) b".toList, some "Tur, Introduction 3".toList), ("c".toList, some "Tur 2:1".toList)],
      ["Tur".toList, "הקדמה".toList, "Siman ב".toList]) := by
    decide +kernel
  rw [hgapped] at hviews
  exact Prod.mk.inj (Except.ok.inj hviews)

/-- Blanks in place of a whole content are not interchangeable: null is no array of chapters. -/
example : flatten (.leaf ⟨[], "Ruth".toList, []⟩ twoLevels) .null "Ruth".toList [] 7 ≠
    flatten (.leaf ⟨[], "Ruth".toList, []⟩ twoLevels) (.array []) "Ruth".toList [] 7 := by
  decide +kernel

end HebrewCorpus
