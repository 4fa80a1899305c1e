import HebrewCorpus.Record.Fault
import HebrewCorpus.Text.Blank
import HebrewCorpus.Text.LowerCase

/-! # Links

A link leads from a line of one book to a line of another.

* **`LinkKind`**: the kinds of links; **`LinkKind.ofLabel?`** is the kind that a label means.
* **`RawLink`**: two citations and a label, as link files hold them.
* **`Link`**: two lines and a kind; **`Link.reverse`** leads back. -/

namespace HebrewCorpus

/-- **The kinds of links.** -/
inductive LinkKind
  | commentary
  | targum
  | reference
  | source
  | other
  deriving DecidableEq, Repr

namespace LinkKind

/-- The name of a kind. -/
def name : LinkKind → Text
  | .commentary => "COMMENTARY".toList
  | .targum => "TARGUM".toList
  | .reference => "REFERENCE".toList
  | .source => "SOURCE".toList
  | .other => "OTHER".toList

/-- The kinds in the order of their declaration. -/
def kinds : List LinkKind := [.commentary, .targum, .reference, .source, .other]

/-- The kind with a name. -/
def ofName? (s : Text) : Option LinkKind := kinds.find? (·.name = s)

/-- The kind is found again by its name. -/
@[simp] theorem ofName?_name (k : LinkKind) : ofName? k.name = some k := by cases k <;> rfl

/-- The labels that mean each kind. -/
def vocabulary : List (Text × LinkKind) :=
  [("commentary".toList, commentary), ("targum".toList, targum), ("reference".toList, reference),
    ("source".toList, source)]

/-- **The kind that a label means.** A blank label means none, and one outside the vocabulary means
`other`. -/
def ofLabel? (label : Text) : Option LinkKind :=
  if Text.isBlank label then none
  else some ((vocabulary.lookup (Text.lower (Text.trim label))).getD .other)

/-- The kind that a value means as a label; null means none. -/
def ofLabelValue : Json → Checked (Option LinkKind)
  | .null => .ok none
  | .text s => .ok (ofLabel? s)
  | _ => .misuse .notText

/-- Whether links of the kind have a direction: commentaries and targums depend on a base
text. -/
def isDirectional : LinkKind → Bool
  | .commentary | .targum => true
  | _ => false

/-- A kind given by its name. -/
def ofJson : Json → Checked LinkKind
  | .text s =>
    match ofName? s with
    | some kind => .ok kind
    | none => .fault .notMember
  | _ => .fault .notMember

end LinkKind

/-- **Two citations and a label.** -/
structure RawLink where
  first : Text
  second : Text
  label : Text
  deriving DecidableEq, Repr

/-- **A link** from a line of one book to a line of another. Lines have their numbers in the
corpus. -/
structure Link where
  sourceBook : Int
  sourceLine : Int
  targetBook : Int
  targetLine : Int
  kind : LinkKind
  deriving DecidableEq, Repr

/-- What is known of a book when links are directed. -/
structure BookStanding where
  isBase : Bool
  /-- How deep the book's category lies. -/
  categoryLevel : Int
  /-- How the book depends on another one. -/
  dependence : Option LinkKind
  deriving DecidableEq, Repr

/-- The standing of a book of which nothing is known. -/
def BookStanding.unknown : BookStanding := ⟨false, 0, none⟩

end HebrewCorpus
