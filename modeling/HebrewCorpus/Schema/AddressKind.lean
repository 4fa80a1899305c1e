import HebrewCorpus.Numeral.Daf
import HebrewCorpus.Record.Field
import HebrewCorpus.Text.LowerCase

/-! # Kinds of addresses

Each level of a leaf of a book's schema is addressed in one of six ways. Pages of a paginated work
are addressed by leaf and side, every other level by plain numbers.

* **`AddressKind`**: the six kinds, with their names.
* **`AddressKind.ofLabel`**: the kind that a free-form label such as `Perek` means.
* **`AddressKind.labelsAt`**: the English and Hebrew label of an item by its index. -/

namespace HebrewCorpus

/-- **How one level of a leaf is addressed.** -/
inductive AddressKind
  | chapter
  | verse
  | talmudPage
  | integer
  | section
  | paragraph
  deriving DecidableEq, Repr

/-- The English and the Hebrew label of one position. -/
structure Labels where
  english : Text
  hebrew : Text
  deriving DecidableEq, Repr

namespace AddressKind

/-- The name of a kind. -/
def name : AddressKind → Text
  | .chapter => "Chapter".toList
  | .verse => "Verse".toList
  | .talmudPage => "TalmudPage".toList
  | .integer => "Integer".toList
  | .section => "Section".toList
  | .paragraph => "Paragraph".toList

/-- The kinds in the order of their declaration. -/
def kinds : List AddressKind := [.chapter, .verse, .talmudPage, .integer, .section, .paragraph]

/-- The kind with a name. -/
def ofName? (s : Text) : Option AddressKind := kinds.find? (·.name = s)

/-- The kind is found again by its name. -/
@[simp] theorem ofName?_name (k : AddressKind) : ofName? k.name = some k := by cases k <;> rfl

/-- The labels that mean each kind. -/
def vocabulary : List (Text × AddressKind) :=
  [("talmud", talmudPage), ("talmudpage", talmudPage), ("daf", talmudPage),
    ("chapter", chapter), ("perek", chapter),
    ("verse", verse), ("pasuk", verse), ("mishnah", verse),
    ("section", .section), ("siman", .section), ("halakhah", .section), ("volume", .section),
    ("paragraph", paragraph), ("seif", paragraph), ("comment", paragraph),
    ("integer", integer), ("line", integer)].map fun (label, kind) => (label.toList, kind)

/-- **The kind that a label means.** A label outside the vocabulary means a section. -/
def ofLabel (label : Text) : AddressKind :=
  (vocabulary.lookup (Text.lower (Text.trim label))).getD .section

/-- The kind that a value means as a label. A vacuous value means a section. -/
def ofLabelValue (label : Json) : Checked AddressKind :=
  if label.isVacuous then .ok .section
  else
    match label with
    | .text s => .ok (ofLabel s)
    | _ => .misuse .notText

/-- The labels of the item with 0-based index `i`. -/
def labelsAt (kind : AddressKind) (i : Nat) : Labels :=
  match kind with
  | .talmudPage => ⟨(DafAddress.ofIndex i).english, (DafAddress.ofIndex i).hebrew⟩
  | _ => ⟨decimal (i + 1), gematria (i + 1)⟩

/-- The labels of a position counted from 1; a page side below 1 has none. -/
def labels (kind : AddressKind) (position : Int) : Except NumeralFault Labels :=
  match kind with
  | .talmudPage => (DafAddress.ofPosition position).map fun d => ⟨d.english, d.hebrew⟩
  | _ => .ok ⟨decimal position, gematria position⟩

/-- **The item of index `i` has the labels of position `i + 1`.** -/
theorem labels_natCast_add_one (kind : AddressKind) (i : Nat) :
    kind.labels (i + 1) = .ok (kind.labelsAt i) := by
  cases kind <;> simp [labels, labelsAt, DafAddress.ofPosition_natCast_add_one, Except.map]

/-- A kind given by its name. -/
def ofJson : Json → Checked AddressKind
  | .text s =>
    match ofName? s with
    | some kind => .ok kind
    | none => .fault .notMember
  | _ => .fault .notMember

end AddressKind

end HebrewCorpus
