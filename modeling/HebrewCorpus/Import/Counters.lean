import HebrewCorpus.Text.Basic

/-! # Number counters

Books, lines, outline entries, overlays and overlay entries are numbered across the whole corpus,
each kind by a counter of its own.

* **`IdCounters`**: the next number of each kind.
* **`IdCounters.take`**: a block of neighbouring numbers of one kind. -/

namespace HebrewCorpus

/-- **What is numbered.** -/
inductive IdKind
  | book
  | line
  | outlineEntry
  | overlay
  | overlayEntry
  deriving DecidableEq, Repr

/-- **The next number of each kind.** -/
structure IdCounters where
  book : Int := 1
  line : Int := 1
  outlineEntry : Int := 1
  overlay : Int := 1
  overlayEntry : Int := 1
  deriving DecidableEq, Repr

namespace IdCounters

/-- The next number of a kind. -/
def next (c : IdCounters) : IdKind → Int
  | .book => c.book
  | .line => c.line
  | .outlineEntry => c.outlineEntry
  | .overlay => c.overlay
  | .overlayEntry => c.overlayEntry

/-- The counters after a block of numbers of one kind. -/
def advance (c : IdCounters) (count : Int) : IdKind → IdCounters
  | .book => { c with book := c.book + count }
  | .line => { c with line := c.line + count }
  | .outlineEntry => { c with outlineEntry := c.outlineEntry + count }
  | .overlay => { c with overlay := c.overlay + count }
  | .overlayEntry => { c with overlayEntry := c.overlayEntry + count }

/-- **A block of `count` numbers of a kind**: its first number, and the counters after it. -/
def take (c : IdCounters) (kind : IdKind) (count : Int) : Int × IdCounters :=
  (c.next kind, c.advance count kind)

/-- The counter of a kind moves past the block. -/
@[simp] theorem next_advance_self (c : IdCounters) (kind : IdKind) (count : Int) :
    (c.advance count kind).next kind = c.next kind + count := by
  cases kind <;> rfl

/-- The other counters stay. -/
theorem next_advance_of_ne {kind other : IdKind} (h : other ≠ kind) (c : IdCounters) (count : Int) :
    (c.advance count kind).next other = c.next other := by
  cases kind <;> cases other <;> first | rfl | exact absurd rfl h

end IdCounters

end HebrewCorpus
