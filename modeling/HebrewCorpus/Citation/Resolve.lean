import HebrewCorpus.Citation.Basic
import HebrewCorpus.Citation.Index

/-! # Resolution of citations

A citation is resolved to a line by looking up a chain of keys made from it. The keys come in six
tiers; the first key that leads to a line wins, and later tiers are looser.

* **`Tier`**, **`Tier.keys`**: the tiers in order and the keys of each.
* **`RefIndex.matchKey`**: the line under a key, its readings and their continuations.
* **`RefIndex.resolve`**: the line that a citation leads to. -/

namespace HebrewCorpus

/-- What the keys of a citation are made from. -/
structure KeyQuery where
  key : Text
  /-- The titles of the book that the citation belongs to, the longest first. -/
  titles : List Text
  /-- Whether an address without its title may be looked up. -/
  allowTail : Bool
  deriving DecidableEq, Repr

/-- **The tiers of keys**, the strictest first. -/
inductive Tier
  | exact
  | aliasStripped
  | numericTail
  | rangeStart
  | chapterStart
  | withinChapter
  deriving DecidableEq, Repr

namespace Tier

/-- The tiers in their order. -/
def chain : List Tier :=
  [.exact, .aliasStripped, .numericTail, .rangeStart, .chapterStart, .withinChapter]

/-- The name of a tier. -/
def name : Tier → Text
  | .exact => "exact".toList
  | .aliasStripped => "alias_stripped".toList
  | .numericTail => "numeric_tail".toList
  | .rangeStart => "range_start".toList
  | .chapterStart => "chapter_start".toList
  | .withinChapter => "within_chapter".toList

/-- The tiers that lead to another line than the one cited. -/
def isFallback : Tier → Bool
  | .chapterStart | .withinChapter => true
  | _ => false

end Tier

namespace KeyQuery

/-- The keys of the three strict tiers for a key. -/
def directKeys (q : KeyQuery) (key : Text) : List Text :=
  [key, stripAlias key q.titles] ++ if q.allowTail then [canonicalTail key] else []

/-- The part of a key before its first hyphen and its first colon. -/
def chapterOf (key : Text) : Text :=
  Text.trim (Text.cutAt ':' (Text.cutAt '-' key).1).1

/-- The unit that a key counts within and the digits of its last number, when it ends in one. -/
def lastNumber? (key : Text) : Option (Text × Text) :=
  match Text.cutLast? ':' ((rangeStart? key).getD key) with
  | some (unit, last) =>
    let digits := last.takeWhile Text.isDecimalDigit
    if unit.isEmpty || digits.isEmpty then none else some (unit, digits)
  | none => none

/-- The keys of the numbers from `n` down to 1 within a unit, each in full and without title. -/
def countdownKeys (q : KeyQuery) (unit : Text) (n : Nat) : List Text :=
  (List.range' 1 n).reverse.flatMap fun k =>
    let key := unit ++ ':' :: decimalNat k
    [key, stripAlias key q.titles]

end KeyQuery

/-- **The keys of a tier.** Only the last number of a citation can make a tier fail. -/
def Tier.keys (q : KeyQuery) : Tier → Except NumeralFault (List Text)
  | .exact => .ok [q.key]
  | .aliasStripped => .ok [stripAlias q.key q.titles]
  | .numericTail => .ok (if q.allowTail then [canonicalTail q.key] else [])
  | .rangeStart => .ok (((rangeStart? q.key).map q.directKeys).getD [])
  | .chapterStart =>
    let chapter := KeyQuery.chapterOf q.key
    .ok (if chapter.isEmpty then [] else q.directKeys (chapter ++ ":1".toList))
  | .withinChapter =>
    match KeyQuery.lastNumber? q.key with
    | some (unit, digits) => (readDigits digits).map (q.countdownKeys unit)
    | none => .ok []

namespace RefIndex

/-- A key followed by `:1` up to the given number of times. -/
def continuations (key : Text) : (times : Nat) → List Text
  | 0 => [key]
  | times + 1 => key :: continuations (key ++ ":1".toList) times

/-- **The line under a key**: its readings are tried in order, each as it stands and then with `:1`
after it as often as the depth allows. -/
def matchKey (index : RefIndex) (key : Text) (book : Option Int) (depth : Int) : Option LineTarget :=
  (dottedVariants key).findSome? fun reading =>
    (continuations reading (depth - keyDepth reading).toNat).findSome? (index.lookup · book)

/-- The line under the first key of a tier that leads to one; a tier that fails leads to none. -/
def matchTier (index : RefIndex) (q : KeyQuery) (book : Option Int) (tier : Tier) :
    Option LineTarget :=
  match tier.keys q with
  | .ok keys =>
    keys.findSome? fun key =>
      if key.isEmpty then none else index.matchKey key book (index.depthOf book)
  | .error _ => none

/-- How freely a citation may be resolved. -/
structure Leeway where
  /-- Whether the tiers that lead to another line of the chapter may be tried. -/
  chapter : Bool
  /-- Whether an address without its title may be looked up. -/
  tail : Bool
  deriving DecidableEq, Repr

/-- **The line that a text cites**, in a given book or in the one whose title it starts with. -/
def resolve (index : RefIndex) (text : Text) (book : Option Int) (leeway : Leeway) :
    Option LineTarget :=
  let key := canonical text
  if key.isEmpty then none
  else
    let book := book.or (index.bookFor key)
    -- an address alone says nothing until the book is known
    let q : KeyQuery :=
      ⟨key, (book.map index.titlesOf).getD [], leeway.tail && book.isSome⟩
    (Tier.chain.filter fun t => leeway.chapter || !t.isFallback).findSome? (index.matchTier q book)

/-- The line that a citation leads to; one that cannot be written leads nowhere. -/
def resolveCitation (index : RefIndex) (c : Citation) (book : Option Int) (leeway : Leeway) :
    Option LineTarget :=
  match c.written with
  | .ok text => index.resolve text book leeway
  | .error _ => none

/-- A citation leads where its text does. -/
theorem exists_text_of_resolveCitation {index : RefIndex} {c : Citation} {book : Option Int}
    {leeway : Leeway} {t : LineTarget} (h : index.resolveCitation c book leeway = some t) :
    ∃ text, index.resolve text book leeway = some t := by
  unfold resolveCitation at h
  split at h
  · exact ⟨_, h⟩
  · cases h

end RefIndex

end HebrewCorpus
