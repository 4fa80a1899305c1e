import HebrewCorpus.Citation.Resolve
import HebrewCorpus.Link.Basic

/-! # Resolution of links

A pair of citations that both lead to a line makes two links, one each way. Links that depend on a
base text are directed from it.

* **`LinkContext.sideTarget`**: the line of one side of a pair, or why it has none.
* **`LinkContext.resolve`**: the two links of a pair, or why it is dropped.
* **`LinkTally`**: how many links were made and how many pairs dropped, by reason.
* **`LinkContext.resolveAll`**: the links and the tally of a list of pairs. -/

namespace HebrewCorpus

/-- **Why a pair makes no links.** -/
inductive DropReason
  | unresolvedSource
  | unresolvedTarget
  /-- A side names no book, or no place in it. -/
  | malformed
  deriving DecidableEq, Repr

namespace DropReason

/-- The name of a reason. -/
def name : DropReason → Text
  | .unresolvedSource => "unresolved_source".toList
  | .unresolvedTarget => "unresolved_target".toList
  | .malformed => "malformed".toList

/-- The reasons in the order of their declaration. -/
def reasons : List DropReason := [.unresolvedSource, .unresolvedTarget, .malformed]

end DropReason

/-! ### Tallies -/

/-- **How many links were made, and how many pairs were dropped** for each reason. -/
structure LinkTally where
  created : Int
  unresolvedSource : Nat
  unresolvedTarget : Nat
  malformed : Nat
  deriving DecidableEq, Repr

namespace LinkTally

/-- The tally before any pair. -/
def empty : LinkTally := ⟨0, 0, 0, 0⟩

/-- The tally of the pairs of both tallies. -/
def merge (a b : LinkTally) : LinkTally :=
  ⟨a.created + b.created, a.unresolvedSource + b.unresolvedSource,
    a.unresolvedTarget + b.unresolvedTarget, a.malformed + b.malformed⟩

/-- The tally of links made and pairs dropped. -/
def of (created : Int) (dropped : List DropReason) : LinkTally :=
  ⟨created, dropped.count .unresolvedSource, dropped.count .unresolvedTarget,
    dropped.count .malformed⟩

/-- The number of pairs dropped for a reason. -/
def dropped (t : LinkTally) : DropReason → Nat
  | .unresolvedSource => t.unresolvedSource
  | .unresolvedTarget => t.unresolvedTarget
  | .malformed => t.malformed

/-- The number of dropped pairs. -/
def totalDropped (t : LinkTally) : Nat := t.unresolvedSource + t.unresolvedTarget + t.malformed

/-- The reasons for which any pair was dropped, with their numbers. -/
def occurring (t : LinkTally) : List (DropReason × Nat) :=
  (DropReason.reasons.map fun reason => (reason, t.dropped reason)).filter (·.2 ≠ 0)

@[simp] theorem empty_merge (t : LinkTally) : empty.merge t = t := by simp [empty, merge]

@[simp] theorem merge_empty (t : LinkTally) : t.merge empty = t := by simp [empty, merge]

/-- Tallies may be merged in any grouping. -/
theorem merge_assoc (a b c : LinkTally) : (a.merge b).merge c = a.merge (b.merge c) := by
  simp [merge, Int.add_assoc, Nat.add_assoc]

end LinkTally

/-! ### Pairs -/

/-- What links are resolved with: the reference index, and the standings of the books. -/
structure LinkContext where
  index : RefIndex
  standings : List (Int × BookStanding)

namespace LinkContext

/-- The line of one side of a pair. Nothing of a citation that names no book or no place is said to
be unresolved: it is malformed. -/
def sideTarget (ctx : LinkContext) (unresolved : DropReason) (citation : Text) :
    Except DropReason LineTarget :=
  match Citation.parse citation with
  | .error _ => .error .malformed
  | .ok c =>
    if c.book.isEmpty then .error .malformed
    else
      match ctx.index.resolveCitation c none ⟨!c.isDaf, true⟩ with
      | some target => .ok target
      | none => .error (if c.hasAddress then unresolved else .malformed)

/-- The standing of a book. -/
def standing (ctx : LinkContext) (book : Int) : BookStanding :=
  (ctx.standings.lookup book).getD .unknown

/-- The kind of a link without a label between two books: the dependence of the one book that has
any. -/
def inferredKind (ctx : LinkContext) (book₁ book₂ : Int) : LinkKind :=
  match (ctx.standing book₁).dependence, (ctx.standing book₂).dependence with
  | some kind, none => kind
  | none, some kind => kind
  | _, _ => .other

/-- Whether the first of two lines lies in the base text: the one marked as base, else the one
whose category is less deep, else the one whose book has the smaller number. -/
def firstIsBase (ctx : LinkContext) (first second : LineTarget) : Bool :=
  let a := ctx.standing first.book
  let b := ctx.standing second.book
  if a.isBase ≠ b.isBase then a.isBase
  else if a.categoryLevel ≠ b.categoryLevel then a.categoryLevel < b.categoryLevel
  else first.book ≤ second.book

/-- The link of a kind from one line to another. -/
def linkFrom (source target : LineTarget) (kind : LinkKind) : Link :=
  ⟨source.book, source.line, target.book, target.line, kind⟩

/-- **The two links of two lines.** Links with a direction lead from the base text as its source, and
back as what they are; others lead from the first line to the second and back. -/
def orient (ctx : LinkContext) (first second : LineTarget) (kind : LinkKind) : List Link :=
  if !kind.isDirectional then [linkFrom first second kind, linkFrom second first kind]
  else
    let (base, dependent) := if ctx.firstIsBase first second then (first, second) else (second, first)
    [linkFrom base dependent .source, linkFrom dependent base kind]

/-- **The two links of a pair**, or why it is dropped. -/
def resolve (ctx : LinkContext) (raw : RawLink) : Except DropReason (List Link) := do
  let first ← ctx.sideTarget .unresolvedSource raw.first
  let second ← ctx.sideTarget .unresolvedTarget raw.second
  let kind := (LinkKind.ofLabel? raw.label).getD (ctx.inferredKind first.book second.book)
  return ctx.orient first second kind

/-- The links and the tally of one pair. -/
def resolveOne (ctx : LinkContext) (raw : RawLink) : List Link × LinkTally :=
  match ctx.resolve raw with
  | .ok links => (links, .of links.length [])
  | .error reason => ([], .of 0 [reason])

/-- **The links and the tally of a list of pairs.** -/
def resolveAll (ctx : LinkContext) (raws : List RawLink) : List Link × LinkTally :=
  let results := raws.map ctx.resolveOne
  (results.flatMap (·.1), (results.map (·.2)).foldl .merge .empty)

/-- A pair makes two links or none. -/
theorem length_orient (ctx : LinkContext) (first second : LineTarget) (kind : LinkKind) :
    (ctx.orient first second kind).length = 2 := by
  unfold orient
  split <;> rfl

end LinkContext

end HebrewCorpus
