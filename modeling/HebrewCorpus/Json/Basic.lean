import HebrewCorpus.Json.Binary64

/-! # JSON values

A JSON value keeps the order of an object's members and tells whole numbers from numbers with a
fraction. An object that was read holds each key once.

* **`Json`**, **`Json.Kind`**: values, and the seven kinds of them.
* **`Json.member?`**: the value under a key of an object.
* **`Json.isVacuous`**: null, false, zero, and the empty text, array and object; `Json.orElse` puts
  another value in place of a vacuous one.
* **`Json.elements?`**: what a value is made of, when it is made of anything. -/

namespace HebrewCorpus

/-- **A JSON value.** -/
inductive Json
  | null
  | bool (value : Bool)
  | int (value : Int)
  | real (value : Binary64)
  | text (value : Text)
  | array (items : List Json)
  | object (members : List (Text × Json))
  deriving Repr, Inhabited

namespace Json

/-- The kinds of JSON values. -/
inductive Kind
  | null
  | bool
  | int
  | real
  | text
  | array
  | object
  deriving DecidableEq, Repr

/-- The kind of a value. -/
def kind : Json → Kind
  | .null => .null
  | .bool _ => .bool
  | .int _ => .int
  | .real _ => .real
  | .text _ => .text
  | .array _ => .array
  | .object _ => .object

/-- The value under a key, when the value is an object that holds the key. -/
def member? (key : Text) : Json → Option Json
  | .object members => members.lookup key
  | _ => none

/-- Null, false, zero, and the empty text, array and object. -/
def isVacuous : Json → Bool
  | .null => true
  | .bool b => !b
  | .int n => n == 0
  | .real x => x.isZero
  | .text s => s.isEmpty
  | .array items => items.isEmpty
  | .object members => members.isEmpty

/-- The value, or another one in its place when it is vacuous. -/
def orElse (a b : Json) : Json := if a.isVacuous then b else a

/-- The parts of a value: an array's items, an object's keys, a text's characters. -/
def elements? : Json → Option (List Json)
  | .array items => some items
  | .object members => some (members.map fun m => .text m.1)
  | .text s => some (s.map fun c => .text [c])
  | _ => none

/-- The texts among the items of an array, in order; other values have none. -/
def texts : Json → List Text
  | .array items => items.filterMap fun | .text s => some s | _ => none
  | _ => []

/-- The whole numbers among the items of an array, in order; other values have none. -/
def ints : Json → List Int
  | .array items => items.filterMap fun | .int n => some n | _ => none
  | _ => []

/-- A list of members with a value put under a key: in place of the value that was there, else at
the end. -/
def put (key : Text) (value : Json) : List (Text × Json) → List (Text × Json)
  | [] => [(key, value)]
  | (k, v) :: members =>
    if k = key then (k, value) :: members else (k, v) :: put key value members

/-- The value put under a key is found there. -/
@[simp] theorem lookup_put_self (key : Text) (value : Json) (members : List (Text × Json)) :
    (put key value members).lookup key = some value := by
  induction members with
  | nil => simp [put]
  | cons m members ih =>
    obtain ⟨k, v⟩ := m
    by_cases h : k = key
    · simp [put, h]
    · rw [put, if_neg h, List.lookup_cons, beq_false_of_ne (Ne.symm h)]
      exact ih

/-- The other keys keep their values. -/
theorem lookup_put_of_ne {key other : Text} (h : other ≠ key) (value : Json)
    (members : List (Text × Json)) : (put key value members).lookup other = members.lookup other := by
  induction members with
  | nil => simp [put, List.lookup_cons, beq_false_of_ne h]
  | cons m members ih =>
    obtain ⟨k, v⟩ := m
    by_cases hk : k = key
    · rw [put, if_pos hk, List.lookup_cons, List.lookup_cons, beq_false_of_ne (hk ▸ h)]
    · rw [put, if_neg hk, List.lookup_cons, List.lookup_cons, ih]

end Json

end HebrewCorpus
