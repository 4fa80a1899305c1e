import HebrewCorpus.Schema.Node

/-! # Contents

The content of a book is a tree of arrays and objects with texts at its ends, shaped as the book's
schema says.

* **`Json.isBlank`**: content that contributes nothing.
* **`selectChild`**: the content of one child of a container.
* **`ShapeMismatch`**: content of another shape than the schema asks for, with its wording. -/

namespace HebrewCorpus

namespace Json

mutual

/-- **Content that contributes nothing**: null, a text of white space, and an array or object of
nothing but blank values. -/
def isBlank : Json → Bool
  | .null => true
  | .text s => Text.isBlank s
  | .array items => areBlank items
  | .object members => haveBlankValues members
  | _ => false

/-- Whether all values of a list are blank. -/
def areBlank : List Json → Bool
  | [] => true
  | item :: items => isBlank item && areBlank items

/-- Whether all members of an object have blank values. -/
def haveBlankValues : List (Text × Json) → Bool
  | [] => true
  | (_, value) :: members => isBlank value && haveBlankValues members

end

/-- An array is blank exactly when all its items are. -/
theorem areBlank_eq_all (items : List Json) : areBlank items = items.all isBlank := by
  induction items with
  | nil => simp [areBlank]
  | cons item items ih => simp [areBlank, ih]

/-- An object is blank exactly when all its values are. -/
theorem haveBlankValues_eq_all (members : List (Text × Json)) :
    haveBlankValues members = members.all fun m => m.2.isBlank := by
  induction members with
  | nil => simp [haveBlankValues]
  | cons m members ih => obtain ⟨key, value⟩ := m; simp [haveBlankValues, ih]

/-- The name of a kind of value in messages. -/
def Kind.name : Kind → Text
  | .null => "NoneType".toList
  | .bool => "bool".toList
  | .int => "int".toList
  | .real => "float".toList
  | .text => "str".toList
  | .array => "list".toList
  | .object => "dict".toList

end Json

/-- The shapes that a schema asks of content. -/
inductive Shape
  | array
  | object
  | text
  deriving DecidableEq, Repr

/-- The name of a shape in messages. -/
def Shape.name : Shape → Text
  | .array => "array".toList
  | .object => "object".toList
  | .text => "string".toList

/-- **Content of another shape than the schema asks for.** -/
structure ShapeMismatch where
  place : Text
  expected : Shape
  found : Json.Kind
  deriving DecidableEq, Repr

/-- The wording of a mismatch. -/
def ShapeMismatch.message (m : ShapeMismatch) : Text :=
  m.place ++ ": expected ".toList ++ m.expected.name ++ ", got ".toList ++ m.found.name

/-- The keys under which a container holds the content of a child, the first choice first. -/
def NodeName.contentKeys (n : NodeName) : List Text :=
  if n.isDefault then [[], n.title, n.key] else [n.title, n.key]

/-- **The content of a child** among the members of its container's content; null when there is
none. -/
def selectChild (child : NodeName) (members : Fields) : Json :=
  (child.contentKeys.findSome? fun key => members.lookup key).getD .null

/-- The content of a child, when the container's content is an object. -/
def selectChild? (child : NodeName) (content : Json) : Except ShapeMismatch Json :=
  match content with
  | .object members => .ok (selectChild child members)
  | _ => .error ⟨if child.title.isEmpty then child.key else child.title, .object, content.kind⟩

end HebrewCorpus
