import Mathlib.Data.Prod.Lex
import HebrewCorpus.Proofs.Link.Pairs

/-! # Directions of links

The two lines of a pair decide by themselves how its links are directed; which of them is cited first
does not matter. Links with a direction start in the book of lower rank: base texts come before the
others, then shallow categories before deep ones, then small numbers before great ones. How the books
depend on each other has no part in that, so a commentary may rank below its text.

* **`LinkContext.kindBetween`**: the kind of the links between two books.
* **`LinkContext.rank`**: the rank of a book; `firstIsBase_iff` says that it decides.
* **`resolveOne_swap`**: the links and the tally of a pair and of the pair the other way round.
* **`RunsFromBase`**, **`runsFromBase_iff`**: when links run from the text without a dependence to
  the one that depends. -/

namespace HebrewCorpus

/-- **The pair the other way round.** -/
def RawLink.swap (raw : RawLink) : RawLink := ⟨raw.second, raw.first, raw.label⟩

namespace LinkContext

/-! ### Kinds -/

/-- **The kind of the links between two books** under a label: what the label means, else what the
books imply. -/
def kindBetween (ctx : LinkContext) (label : Text) (book₁ book₂ : Int) : LinkKind :=
  (LinkKind.ofLabel? label).getD (ctx.inferredKind book₁ book₂)

/-- What two books imply does not depend on their order. -/
theorem inferredKind_comm (ctx : LinkContext) (book₁ book₂ : Int) :
    ctx.inferredKind book₁ book₂ = ctx.inferredKind book₂ book₁ := by
  unfold inferredKind
  cases (ctx.standing book₁).dependence <;> cases (ctx.standing book₂).dependence <;> rfl

/-- The kind of the links between two books does not depend on their order. -/
theorem kindBetween_comm (ctx : LinkContext) (label : Text) (book₁ book₂ : Int) :
    ctx.kindBetween label book₁ book₂ = ctx.kindBetween label book₂ book₁ := by
  rw [kindBetween, inferredKind_comm, ← kindBetween]

/-! ### Ranks -/

/-- **The rank of a book**: base texts before the others, then by the depth of the category, then by
the number. -/
def rank (ctx : LinkContext) (book : Int) : Bool ×ₗ Int ×ₗ Int :=
  toLex (!(ctx.standing book).isBase, toLex ((ctx.standing book).categoryLevel, book))

/-- No two books have one rank. -/
theorem rank_injective (ctx : LinkContext) : Function.Injective ctx.rank := by
  intro a b h
  have hpair := (Prod.mk.inj (toLex.injective h)).2
  exact (Prod.mk.inj (toLex.injective hpair)).2

/-- A base text ranks before a book that is none. -/
theorem rank_lt_of_isBase {ctx : LinkContext} {a b : Int} (ha : (ctx.standing a).isBase = true)
    (hb : (ctx.standing b).isBase = false) : ctx.rank a < ctx.rank b := by
  rw [rank, rank, Prod.Lex.toLex_lt_toLex, ha, hb]
  exact .inl Bool.false_lt_true

/-- **The rank decides** which of two lines lies in the base text. -/
theorem firstIsBase_iff {ctx : LinkContext} {first second : LineTarget} :
    ctx.firstIsBase first second = true ↔ ctx.rank first.book ≤ ctx.rank second.book := by
  rw [firstIsBase, rank, rank, Prod.Lex.toLex_le_toLex, Prod.Lex.toLex_le_toLex]
  dsimp only
  split
  · next hbase =>
    cases ha : (ctx.standing first.book).isBase <;> cases hb : (ctx.standing second.book).isBase <;>
      simp_all
  · next hbase =>
    rw [not_not.1 hbase]
    split
    · next hlevel => simp [hlevel]
    · next hlevel => simp [not_not.1 hlevel]

/-! ### Links of two lines -/

variable {ctx : LinkContext} {first second : LineTarget} {kind : LinkKind}

/-- Links without a direction lead from the first line to the second and back. -/
theorem orient_of_not_isDirectional (hkind : kind.isDirectional = false) :
    ctx.orient first second kind = [linkFrom first second kind, linkFrom second first kind] := by
  rw [orient, hkind]
  rfl

/-- **Links with a direction start in the book of lower rank**, whichever line comes first. -/
theorem orient_of_rank_lt (hkind : kind.isDirectional = true)
    (hrank : ctx.rank first.book < ctx.rank second.book) :
    ctx.orient first second kind = [linkFrom first second .source, linkFrom second first kind] ∧
      ctx.orient second first kind = [linkFrom first second .source, linkFrom second first kind] := by
  have hfirst : ctx.firstIsBase first second = true := firstIsBase_iff.2 hrank.le
  have hsecond : ¬ ctx.firstIsBase second first = true := fun h =>
    absurd hrank (firstIsBase_iff.1 h).not_gt
  constructor
  · rw [orient, hkind, if_pos hfirst]
    rfl
  · rw [orient, hkind, if_neg hsecond]
    rfl

/-- **The links of two lines the other way round** are the same, in reverse order when they have no
direction. -/
theorem orient_swap (hne : first.book ≠ second.book) (kind : LinkKind) :
    ctx.orient second first kind =
      if kind.isDirectional then ctx.orient first second kind
      else (ctx.orient first second kind).reverse := by
  cases hkind : kind.isDirectional with
  | false =>
    rw [orient_of_not_isDirectional hkind, orient_of_not_isDirectional hkind]
    rfl
  | true =>
    rw [if_pos rfl]
    rcases lt_or_gt_of_ne (ctx.rank_injective.ne hne) with hlt | hlt
    · rw [(orient_of_rank_lt hkind hlt).1, (orient_of_rank_lt hkind hlt).2]
    · rw [(orient_of_rank_lt hkind hlt).1, (orient_of_rank_lt hkind hlt).2]

/-- **The links of lines in different books** are two different ones. -/
theorem exists_orient_eq (ctx : LinkContext) (hne : first.book ≠ second.book) (kind : LinkKind) :
    ∃ a b, a ≠ b ∧ ctx.orient first second kind = [a, b] := by
  obtain ⟨s, t, k₁, k₂, hends, horient, -⟩ := ctx.orient_eq first second kind
  have hbooks : s.book ≠ t.book := by
    rcases hends with ⟨rfl, rfl⟩ | ⟨rfl, rfl⟩
    · exact hne
    · exact hne.symm
  exact ⟨_, _, fun h => hbooks (congrArg Link.sourceBook h), horient⟩

/-! ### Pairs of citations -/

/-- **The citation leads to the line**, on whichever side of a pair it stands. -/
def Cites (ctx : LinkContext) (citation : Text) (t : LineTarget) : Prop :=
  ∀ unresolved, ctx.sideTarget unresolved citation = .ok t

/-- A citation that leads to a line on one side of a pair does so on the other. -/
theorem cites_of_sideTarget (unresolved : DropReason) {citation : Text} {t : LineTarget}
    (h : ctx.sideTarget unresolved citation = .ok t) : ctx.Cites citation t := by
  intro other
  rw [sideTarget] at h ⊢
  split at h
  · cases h
  · split at h
    · cases h
    · next hbook =>
      split at h
      · next target htarget =>
        cases h
        rw [if_neg hbook]
      · cases h

/-- **A pair whose citations lead to two lines** makes the links of these. -/
theorem resolve_of_cites (raw : RawLink) (h₁ : ctx.Cites raw.first first)
    (h₂ : ctx.Cites raw.second second) :
    ctx.resolve raw =
      .ok (ctx.orient first second (ctx.kindBetween raw.label first.book second.book)) := by
  rw [resolve, h₁, h₂]
  rfl

/-- It is tallied as two links. -/
theorem resolveOne_of_cites (raw : RawLink) (h₁ : ctx.Cites raw.first first)
    (h₂ : ctx.Cites raw.second second) :
    ctx.resolveOne raw =
      (ctx.orient first second (ctx.kindBetween raw.label first.book second.book), .of 2 []) := by
  rw [resolveOne, resolve_of_cites raw h₁ h₂]
  dsimp only
  rw [length_orient]
  rfl

/-- **The order of a pair does not matter.** A pair whose citations lead to lines of two different
books makes two links and is tallied as these. The other way round the links are of the same kind, the
tally is the same and so are the links: in the same order when the kind has a direction, and in
reverse order when it has none. -/
theorem resolveOne_swap (raw : RawLink) (h₁ : ctx.Cites raw.first first)
    (h₂ : ctx.Cites raw.second second) (hne : first.book ≠ second.book) :
    ∃ a b, a ≠ b ∧ ctx.resolveOne raw = ([a, b], .of 2 []) ∧
      ctx.resolveOne raw.swap =
        (if (ctx.kindBetween raw.label first.book second.book).isDirectional then [a, b] else [b, a],
          .of 2 []) ∧
      ctx.kindBetween raw.swap.label second.book first.book =
        ctx.kindBetween raw.label first.book second.book := by
  have hkind := ctx.kindBetween_comm raw.label second.book first.book
  obtain ⟨a, b, hab, horient⟩ := exists_orient_eq ctx hne
    (ctx.kindBetween raw.label first.book second.book)
  refine ⟨a, b, hab, ?_, ?_, hkind⟩
  · rw [resolveOne_of_cites raw h₁ h₂, horient]
  · have hswap := resolveOne_of_cites raw.swap h₂ h₁
    dsimp only [RawLink.swap] at hswap ⊢
    rw [hswap, hkind, orient_swap hne, horient]
    rfl

/-- A corpus of one verse and one note on it, with what is known of the two books. -/
def verseAndNote (verse note : BookStanding) : LinkContext where
  index := .build [⟨"Ruth 1:1".toList, [], 1, 1⟩, ⟨"Notes on Ruth 1:1:1".toList, [], 1, 2⟩]
    [(1, ["Ruth".toList]), (2, ["Notes on Ruth".toList])] [(1, 1), (2, 2)]
  standings := [(1, verse), (2, note)]

/-- The two citations of that corpus. -/
theorem cites_verseAndNote (verse note : BookStanding) :
    (verseAndNote verse note).Cites "Ruth 1:1".toList ⟨1, 1, 0⟩ ∧
      (verseAndNote verse note).Cites "Notes on Ruth 1:1:1".toList ⟨2, 2, 0⟩ := by
  -- what is known of the books has no part in it
  have hverse : (verseAndNote .unknown .unknown).sideTarget .malformed "Ruth 1:1".toList =
      .ok ⟨1, 1, 0⟩ := by decide +kernel
  have hnote : (verseAndNote .unknown .unknown).sideTarget .malformed
      "Notes on Ruth 1:1:1".toList = .ok ⟨2, 2, 0⟩ := by decide +kernel
  exact ⟨cites_of_sideTarget .malformed hverse, cites_of_sideTarget .malformed hnote⟩

/-- Without a label, the dependence of the notes gives the links a direction; under the label of a
reference they have none. -/
theorem resolveOne_swap_verseAndNote :
    ∃ ctx : LinkContext, ctx = verseAndNote ⟨true, 0, none⟩ ⟨false, 2, some .commentary⟩ ∧
      (∃ a b, a ≠ b ∧
        (ctx.resolveOne ⟨"Ruth 1:1".toList, "Notes on Ruth 1:1:1".toList, []⟩).1 = [a, b] ∧
        (ctx.resolveOne ⟨"Notes on Ruth 1:1:1".toList, "Ruth 1:1".toList, []⟩).1 = [a, b]) ∧
      ∃ a b, a ≠ b ∧
        (ctx.resolveOne ⟨"Ruth 1:1".toList, "Notes on Ruth 1:1:1".toList, "Reference".toList⟩).1 =
          [a, b] ∧
        (ctx.resolveOne ⟨"Notes on Ruth 1:1:1".toList, "Ruth 1:1".toList, "Reference".toList⟩).1 =
          [b, a] := by
  refine ⟨_, rfl, ?_⟩
  obtain ⟨hverse, hnote⟩ := cites_verseAndNote ⟨true, 0, none⟩ ⟨false, 2, some .commentary⟩
  constructor
  · obtain ⟨a, b, hab, h, hswap, -⟩ := resolveOne_swap ⟨_, _, []⟩ hverse hnote (by decide)
    exact ⟨a, b, hab, congrArg Prod.fst h, congrArg Prod.fst hswap⟩
  · obtain ⟨a, b, hab, h, hswap, -⟩ :=
      resolveOne_swap ⟨_, _, "Reference".toList⟩ hverse hnote (by decide)
    exact ⟨a, b, hab, congrArg Prod.fst h, congrArg Prod.fst hswap⟩

/-! ### Links from the base text -/

/-- **The link runs as its kind says**: a source link starts in a book that depends on no other, and
one of a kind with a direction in a book that does. -/
def RunsFromBase (ctx : LinkContext) (l : Link) : Prop :=
  (l.kind = .source → (ctx.standing l.sourceBook).dependence = none) ∧
    (l.kind.isDirectional = true → (ctx.standing l.sourceBook).dependence ≠ none)

/-- Links from a book of lower rank run as their kinds say when it is the one without a dependence. -/
theorem forall_runsFromBase_iff {base other : LineTarget} (hkind : kind.isDirectional = true)
    (hother : (ctx.standing base.book).dependence = none →
      (ctx.standing other.book).dependence ≠ none) :
    (∀ l ∈ [linkFrom base other .source, linkFrom other base kind], ctx.RunsFromBase l) ↔
      (ctx.standing base.book).dependence = none := by
  have hsource : kind ≠ .source := by
    rintro rfl
    cases hkind
  rw [List.forall_mem_cons, List.forall_mem_singleton]
  constructor
  · intro h
    exact h.1.1 rfl
  · intro hbase
    exact ⟨⟨fun _ => hbase, fun h => by cases h⟩, fun h => absurd h hsource, fun _ => hother hbase⟩

/-- **When links run from the base text.** Of two lines to which a pair leads, let one lie in a book
that depends on no other and the other one in a book that does, and let the links have a direction.
Then the source link starts in the book of lower rank and leads to the other, and the second link leads
back. So the links run as their kinds say exactly when the book without a dependence ranks before the
other. -/
theorem runsFromBase_iff (raw : RawLink) (h₁ : ctx.Cites raw.first first)
    (h₂ : ctx.Cites raw.second second) {free bound : LineTarget}
    (hends : first = free ∧ second = bound ∨ first = bound ∧ second = free)
    (hfree : (ctx.standing free.book).dependence = none)
    (hbound : (ctx.standing bound.book).dependence ≠ none)
    (hkind : (ctx.kindBetween raw.label first.book second.book).isDirectional = true) :
    ∃ links, ctx.resolve raw = .ok links ∧
      (∃ base other, (base = free ∧ other = bound ∨ base = bound ∧ other = free) ∧
        ctx.rank base.book < ctx.rank other.book ∧
        links = [linkFrom base other .source,
          linkFrom other base (ctx.kindBetween raw.label first.book second.book)]) ∧
      ((∀ l ∈ links, ctx.RunsFromBase l) ↔ ctx.rank free.book < ctx.rank bound.book) := by
  have hne : free.book ≠ bound.book := fun h => hbound (h ▸ hfree)
  -- the books have an order, and the links follow it whichever line is cited first
  have hlinks {base other : LineTarget} (hrank : ctx.rank base.book < ctx.rank other.book)
      (hpair : first = base ∧ second = other ∨ first = other ∧ second = base) :
      ctx.orient first second (ctx.kindBetween raw.label first.book second.book) =
        [linkFrom base other .source,
          linkFrom other base (ctx.kindBetween raw.label first.book second.book)] := by
    rcases hpair with ⟨rfl, rfl⟩ | ⟨rfl, rfl⟩
    · exact (orient_of_rank_lt hkind hrank).1
    · exact (orient_of_rank_lt hkind hrank).2
  refine ⟨_, resolve_of_cites raw h₁ h₂, ?_⟩
  rcases lt_or_gt_of_ne (ctx.rank_injective.ne hne) with hrank | hrank
  · rw [hlinks hrank hends]
    refine ⟨⟨free, bound, .inl ⟨rfl, rfl⟩, hrank, rfl⟩, ?_⟩
    rw [forall_runsFromBase_iff hkind fun _ => hbound]
    exact iff_of_true hfree hrank
  · rw [hlinks hrank hends.symm]
    refine ⟨⟨bound, free, .inr ⟨rfl, rfl⟩, hrank, rfl⟩, ?_⟩
    rw [forall_runsFromBase_iff hkind fun h => absurd h hbound]
    exact iff_of_false hbound hrank.not_gt

/-- A text that is known as base text comes before its notes, however deep its category lies. -/
theorem runsFromBase_verseAndNote :
    ∃ links, (verseAndNote ⟨true, 3, none⟩ ⟨false, 0, some .commentary⟩).resolve
        ⟨"Notes on Ruth 1:1:1".toList, "Ruth 1:1".toList, []⟩ = .ok links ∧
      ∀ l ∈ links, (verseAndNote ⟨true, 3, none⟩ ⟨false, 0, some .commentary⟩).RunsFromBase l := by
  obtain ⟨hverse, hnote⟩ := cites_verseAndNote ⟨true, 3, none⟩ ⟨false, 0, some .commentary⟩
  obtain ⟨links, hlinks, -, hbase⟩ :=
    runsFromBase_iff ⟨_, _, []⟩ hnote hverse (.inr ⟨rfl, rfl⟩) rfl (by decide) (by decide)
  exact ⟨links, hlinks, hbase.2 (rank_lt_of_isBase rfl rfl)⟩

/-- **A commentary can be taken for its text.** The text depends on no other book and its notes are a
commentary, but it is not known as base text and its category lies deeper: the source link starts at
the note, and the commentary link at the text. -/
theorem resolve_deepVerse :
    (verseAndNote ⟨false, 3, none⟩ ⟨false, 1, some .commentary⟩).resolve
        ⟨"Ruth 1:1".toList, "Notes on Ruth 1:1:1".toList, "Commentary".toList⟩ =
        .ok [⟨2, 2, 1, 1, .source⟩, ⟨1, 1, 2, 2, .commentary⟩] ∧
      ¬ (verseAndNote ⟨false, 3, none⟩ ⟨false, 1, some .commentary⟩).RunsFromBase
          ⟨2, 2, 1, 1, .source⟩ ∧
      ¬ (verseAndNote ⟨false, 3, none⟩ ⟨false, 1, some .commentary⟩).RunsFromBase
          ⟨1, 1, 2, 2, .commentary⟩ := by
  refine ⟨by decide +kernel, ?_, ?_⟩
  · exact fun h => absurd (h.1 rfl) (by decide)
  · exact fun h => h.2 rfl rfl

end LinkContext

end HebrewCorpus
