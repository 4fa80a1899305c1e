import HebrewCorpus.Link.Resolve

/-! # Pairs of links

Every pair of citations makes two links that lead to and fro between the same two lines.

* **`Link.Mirrors`**: a link that leads back on another one.
* **`Link.Paired`**: a list of such pairs; `LinkContext.paired_resolveAll` finds all links paired.
* **`LinkContext.LeadsTo`**: what holds of every line that a citation leads to;
  `LinkContext.exists_targets_of_mem_resolveAll` finds it at both ends of every link. -/

namespace HebrewCorpus

namespace Link

/-- **A link that leads back on another one.** Without a direction both are of one kind; otherwise
the first one leads to the base text as a source, and the other one depends on it. -/
structure Mirrors (a b : Link) : Prop where
  source_eq : b.sourceBook = a.targetBook ∧ b.sourceLine = a.targetLine
  target_eq : b.targetBook = a.sourceBook ∧ b.targetLine = a.sourceLine
  kinds : (a.kind = b.kind ∧ a.kind.isDirectional = false) ∨
    (a.kind = .source ∧ (b.kind = .commentary ∨ b.kind = .targum))

/-- **A list of pairs** of links that lead to and fro. -/
inductive Paired : List Link → Prop
  | nil : Paired []
  | cons {a b : Link} {rest : List Link} (mirrors : a.Mirrors b) (later : Paired rest) :
      Paired (a :: b :: rest)

/-- Pairs behind pairs are pairs. -/
theorem Paired.append {as bs : List Link} (ha : Paired as) (hb : Paired bs) : Paired (as ++ bs) := by
  induction ha with
  | nil => exact hb
  | cons mirrors later ih => exact .cons mirrors ih

/-- **Pairs of many sources are pairs.** -/
theorem paired_flatMap {α : Type} {f : α → List Link} {as : List α} (h : ∀ a ∈ as, Paired (f a)) :
    Paired (as.flatMap f) := by
  induction as with
  | nil => exact .nil
  | cons a as ih =>
    rw [List.flatMap_cons]
    exact (h a List.mem_cons_self).append (ih fun b hb => h b (List.mem_cons_of_mem _ hb))

end Link

/-- Commentaries and targums are the kinds with a direction. -/
theorem LinkKind.isDirectional_iff {kind : LinkKind} :
    kind.isDirectional = true ↔ kind = .commentary ∨ kind = .targum := by
  cases kind <;> decide

namespace LinkContext

variable {ctx : LinkContext}

/-- **The two links of two lines** lead from one to the other and back. -/
theorem orient_eq (ctx : LinkContext) (first second : LineTarget) (kind : LinkKind) :
    ∃ s t k₁ k₂, (s = first ∧ t = second ∨ s = second ∧ t = first) ∧
      ctx.orient first second kind = [linkFrom s t k₁, linkFrom t s k₂] ∧
        (linkFrom s t k₁).Mirrors (linkFrom t s k₂) := by
  unfold orient
  cases hkind : kind.isDirectional with
  | false =>
    rw [Bool.not_false, if_pos rfl]
    exact ⟨first, second, kind, kind, .inl ⟨rfl, rfl⟩, rfl, ⟨rfl, rfl⟩, ⟨rfl, rfl⟩, .inl ⟨rfl, hkind⟩⟩
  | true =>
    have hkinds := LinkKind.isDirectional_iff.1 hkind
    rw [Bool.not_true, if_neg Bool.false_ne_true]
    -- the base text is the source of the first link
    by_cases hbase : ctx.firstIsBase first second = true
    · rw [if_pos hbase]
      exact ⟨first, second, .source, kind, .inl ⟨rfl, rfl⟩, rfl, ⟨rfl, rfl⟩, ⟨rfl, rfl⟩,
        .inr ⟨rfl, hkinds⟩⟩
    · rw [if_neg hbase]
      exact ⟨second, first, .source, kind, .inr ⟨rfl, rfl⟩, rfl, ⟨rfl, rfl⟩, ⟨rfl, rfl⟩,
        .inr ⟨rfl, hkinds⟩⟩

/-- A pair that is resolved makes the two links of two lines. -/
theorem exists_of_resolve_eq_ok {raw : RawLink} {links : List Link}
    (h : ctx.resolve raw = .ok links) :
    ∃ first second kind, ctx.sideTarget .unresolvedSource raw.first = .ok first ∧
      ctx.sideTarget .unresolvedTarget raw.second = .ok second ∧
        links = ctx.orient first second kind := by
  rw [resolve] at h
  cases hfirst : ctx.sideTarget .unresolvedSource raw.first with
  | error reason =>
    rw [hfirst] at h
    cases h
  | ok first =>
    cases hsecond : ctx.sideTarget .unresolvedTarget raw.second with
    | error reason =>
      rw [hfirst, hsecond] at h
      cases h
    | ok second =>
      rw [hfirst, hsecond] at h
      cases h
      exact ⟨first, second, _, rfl, rfl, rfl⟩

/-- The links of one pair of citations are two or none. -/
theorem resolveOne_fst (raw : RawLink) :
    (ctx.resolveOne raw).1 = [] ∨ ctx.resolve raw = .ok (ctx.resolveOne raw).1 := by
  rw [resolveOne]
  cases ctx.resolve raw with
  | error reason => exact .inl rfl
  | ok links => exact .inr rfl

/-! ### Lists of pairs -/

/-- **What holds of every line that a citation leads to.** -/
def LeadsTo (ctx : LinkContext) (P : LineTarget → Prop) : Prop :=
  ∀ text leeway t, ctx.index.resolve text none leeway = some t → P t

/-- A side of a pair leads to such a line. -/
theorem LeadsTo.sideTarget {P : LineTarget → Prop} (h : ctx.LeadsTo P) {unresolved : DropReason}
    {citation : Text} {t : LineTarget} (ht : ctx.sideTarget unresolved citation = .ok t) : P t := by
  rw [LinkContext.sideTarget] at ht
  split at ht
  · cases ht
  · split at ht
    · cases ht
    · split at ht
      · next target htarget =>
        cases ht
        obtain ⟨text, htext⟩ := RefIndex.exists_text_of_resolveCitation htarget
        exact h text _ _ htext
      · cases ht

/-- **All links are paired.** -/
theorem paired_resolveAll (ctx : LinkContext) (raws : List RawLink) :
    Link.Paired (ctx.resolveAll raws).1 := by
  rw [resolveAll, List.flatMap_map]
  refine Link.paired_flatMap fun raw _ => ?_
  -- a dropped pair makes no links, and another one makes two
  rcases resolveOne_fst raw with hnone | hsome
  · rw [hnone]
    exact .nil
  · obtain ⟨first, second, kind, -, -, hlinks⟩ := exists_of_resolve_eq_ok hsome
    obtain ⟨s, t, k₁, k₂, -, horient, hmirrors⟩ := ctx.orient_eq first second kind
    rw [hlinks, horient]
    exact .cons hmirrors .nil

/-- **Every link leads from such a line to such a line.** -/
theorem exists_targets_of_mem_resolveAll {P : LineTarget → Prop} (hctx : ctx.LeadsTo P)
    {raws : List RawLink} {l : Link} (h : l ∈ (ctx.resolveAll raws).1) :
    ∃ s t kind, P s ∧ P t ∧ l = linkFrom s t kind := by
  rw [resolveAll, List.flatMap_map] at h
  obtain ⟨raw, -, hl⟩ := List.mem_flatMap.1 h
  rcases resolveOne_fst raw with hnone | hsome
  · rw [hnone] at hl
    cases hl
  · obtain ⟨first, second, kind, hfirst, hsecond, hlinks⟩ := exists_of_resolve_eq_ok hsome
    obtain ⟨s, t, k₁, k₂, hends, horient, -⟩ := ctx.orient_eq first second kind
    have hs : P s ∧ P t := by
      rcases hends with ⟨rfl, rfl⟩ | ⟨rfl, rfl⟩
      · exact ⟨hctx.sideTarget hfirst, hctx.sideTarget hsecond⟩
      · exact ⟨hctx.sideTarget hsecond, hctx.sideTarget hfirst⟩
    rw [hlinks, horient] at hl
    rcases List.mem_cons.1 hl with rfl | hl
    · exact ⟨s, t, k₁, hs.1, hs.2, rfl⟩
    · rw [List.mem_singleton.1 hl]
      exact ⟨t, s, k₂, hs.2, hs.1, rfl⟩

end LinkContext

end HebrewCorpus
