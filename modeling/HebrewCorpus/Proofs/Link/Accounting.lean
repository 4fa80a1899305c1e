import Mathlib.Algebra.GroupWithZero.Nat
import HebrewCorpus.Proofs.Link.Pairs

/-! # Accounts of links

Every pair of citations is accounted for: it makes two links, or it is dropped for one reason.

* **`LinkTally.Accounts`**: a tally that is right about the links of some pairs.
* **`LinkContext.accounts_resolveAll`**: the tally of a list of pairs is right about its links.
* **`LinkContext.resolveAll_append`**: a list of pairs may be resolved piece by piece. -/

namespace HebrewCorpus

namespace LinkTally

/-- Later tallies may be merged first. -/
theorem foldl_merge (t : LinkTally) (ts : List LinkTally) :
    ts.foldl .merge t = t.merge (ts.foldl .merge .empty) := by
  induction ts generalizing t with
  | nil => exact (merge_empty t).symm
  | cons u us ih =>
    rw [List.foldl_cons, ih, List.foldl_cons, empty_merge, ih u, merge_assoc]

/-- The dropped pairs of both tallies are dropped. -/
theorem totalDropped_merge (t u : LinkTally) :
    (t.merge u).totalDropped = t.totalDropped + u.totalDropped := by
  simp only [merge, totalDropped]
  omega

/-- Numbers that are 0 add nothing. -/
theorem sum_filter_ne_zero (xs : List (DropReason × Nat)) :
    ((xs.filter (·.2 ≠ 0)).map (·.2)).sum = (xs.map (·.2)).sum := by
  induction xs with
  | nil => rfl
  | cons x xs ih =>
    by_cases hx : x.2 = 0
    · rw [List.filter_cons_of_neg (by simpa using hx), ih, List.map_cons, List.sum_cons, hx,
        Nat.zero_add]
    · rw [List.filter_cons_of_pos (by simpa using hx), List.map_cons, List.sum_cons, ih,
        List.map_cons, List.sum_cons]

/-- **The numbers of the reasons that occur** come to all dropped pairs. -/
theorem sum_occurring (t : LinkTally) : (t.occurring.map (·.2)).sum = t.totalDropped := by
  rw [occurring, sum_filter_ne_zero, List.map_map]
  simp [DropReason.reasons, dropped, totalDropped, Nat.add_assoc]

/-- **A tally that is right about the links of some pairs**: it counts the links, and every pair has
made two of them or was dropped. -/
structure Accounts (t : LinkTally) (links : List Link) (pairs : Nat) : Prop where
  created : t.created = links.length
  pairs : t.created + 2 * (t.totalDropped : Int) = 2 * pairs

/-- Without pairs, nothing is counted. -/
theorem Accounts.empty : LinkTally.empty.Accounts [] 0 := ⟨rfl, rfl⟩

/-- **Accounts are merged.** -/
theorem Accounts.merge {t u : LinkTally} {links more : List Link} {m n : Nat}
    (ht : t.Accounts links m) (hu : u.Accounts more n) :
    (t.merge u).Accounts (links ++ more) (m + n) := by
  have hcreated : (t.merge u).created = t.created + u.created := rfl
  constructor
  · rw [hcreated, ht.created, hu.created, List.length_append, Int.natCast_add]
  · have htpairs := ht.pairs
    have hupairs := hu.pairs
    rw [hcreated, totalDropped_merge]
    omega

end LinkTally

namespace LinkContext

/-- Nothing is made of no pairs. -/
theorem resolveAll_nil (ctx : LinkContext) : ctx.resolveAll [] = ([], .empty) := rfl

/-- The first pair is resolved first. -/
theorem resolveAll_cons (ctx : LinkContext) (raw : RawLink) (raws : List RawLink) :
    ctx.resolveAll (raw :: raws) =
      ((ctx.resolveOne raw).1 ++ (ctx.resolveAll raws).1,
        (ctx.resolveOne raw).2.merge (ctx.resolveAll raws).2) := by
  simp only [resolveAll, List.map_cons, List.flatMap_cons, List.foldl_cons, LinkTally.empty_merge]
  rw [LinkTally.foldl_merge]

/-- **Pairs may be resolved piece by piece**: the links follow those of the first piece, and the
tallies are merged. -/
theorem resolveAll_append (ctx : LinkContext) (raws more : List RawLink) :
    ctx.resolveAll (raws ++ more) =
      ((ctx.resolveAll raws).1 ++ (ctx.resolveAll more).1,
        (ctx.resolveAll raws).2.merge (ctx.resolveAll more).2) := by
  induction raws with
  | nil => rw [List.nil_append, resolveAll_nil, List.nil_append, LinkTally.empty_merge]
  | cons raw raws ih =>
    rw [List.cons_append, resolveAll_cons, ih, resolveAll_cons, List.append_assoc,
      LinkTally.merge_assoc]

/-- **One pair is accounted for**: it makes two links, or it is dropped. -/
theorem accounts_resolveOne (ctx : LinkContext) (raw : RawLink) :
    (ctx.resolveOne raw).2.Accounts (ctx.resolveOne raw).1 1 := by
  rw [resolveOne]
  cases hresolve : ctx.resolve raw with
  | error reason =>
    -- whichever the reason is, it is counted once
    cases reason <;> exact ⟨rfl, rfl⟩
  | ok links =>
    obtain ⟨first, second, kind, -, -, rfl⟩ := exists_of_resolve_eq_ok hresolve
    refine ⟨rfl, ?_⟩
    show ((ctx.orient first second kind).length : Int) + 2 * (0 : Nat) = 2 * (1 : Nat)
    rw [length_orient]
    rfl

/-- **All pairs are accounted for.** -/
theorem accounts_resolveAll (ctx : LinkContext) (raws : List RawLink) :
    (ctx.resolveAll raws).2.Accounts (ctx.resolveAll raws).1 raws.length := by
  induction raws with
  | nil => exact .empty
  | cons raw raws ih =>
    rw [resolveAll_cons, List.length_cons, Nat.add_comm]
    exact (ctx.accounts_resolveOne raw).merge ih

end LinkContext

end HebrewCorpus
