import HebrewCorpus.Json.Basic

/-! # Faults of records

A record is read from a JSON object field by field, and every field that cannot be read is
reported, in the order in which the fields are declared. A check of the whole record is made only
when all its fields are valid.

* **`Fault`**: what is wrong, and at which place.
* **`Rejection`**: why a record is refused although each field by itself is valid.
* **`Misuse`**: a value used as something it is not, or a value beyond what the machine can hold; it
  ends the reading at once.
* **`Checked`**: a value, or the refusal in its place; **`Checked.zip`** gathers the faults of both
  sides, and **`Checked.within`** adds a step to their places. -/

namespace HebrewCorpus

/-- Why a record with valid fields is refused as a whole. -/
inductive Rejection
  /-- A list with one entry per level has not as many entries as there are levels. -/
  | levelCount (list : Text) (entries depth : Nat)
  /-- Two children of one node answer to the same key. -/
  | duplicateChild (key parent : Text)
  deriving DecidableEq, Repr

/-- The wording of a rejection. -/
def Rejection.message : Rejection → Text
  | .levelCount list entries depth =>
    list ++ " has ".toList ++ decimalNat entries ++ " entries but depth is ".toList ++
      decimalNat depth
  | .duplicateChild key parent =>
    "Duplicate child key '".toList ++ key ++ "' in '".toList ++ parent ++ "'".toList

/-- What is wrong at one place. -/
inductive FaultKind
  /-- A required field is not there. -/
  | missing
  | notText
  | notList
  /-- No list where a set of values is read from one. -/
  | notSet
  | notWhole
  /-- A text that is no whole number. -/
  | notNumeral
  /-- A text with more digits than a whole number may have. -/
  | numeralTooLong
  | fractional
  | notFinite
  | notTruth
  /-- A text or number that stands for neither truth value. -/
  | unclearTruth
  | belowMinimum
  /-- A value outside the closed set of names of a type. -/
  | notMember
  /-- A value outside the few that are allowed. -/
  | notAllowed
  /-- No object where a record is read. -/
  | notRecord
  /-- No object where one of several records is read. -/
  | notTagged
  | unknownTag
  | missingTag
  | rejected (reason : Rejection)
  deriving DecidableEq, Repr

/-- **A fault**: its kind, and the fields and list positions that lead to its place. -/
structure Fault where
  place : List Text
  kind : FaultKind
  deriving DecidableEq, Repr

/-- A value used as something it is not, or one that the machine cannot hold. -/
inductive Misuse
  /-- A member of a value that is no object. -/
  | notObject
  /-- The characters of a value that is no text. -/
  | notText
  /-- The elements of a value that has none. -/
  | notIterable
  /-- A list with more entries than a list can be asked for. -/
  | tooLong
  /-- A value for which memory or stack do not suffice. -/
  | exhausted
  deriving DecidableEq, Repr

/-- Why a record is refused. -/
inductive Refusal
  | misuse (misuse : Misuse)
  | invalid (faults : List Fault)
  deriving DecidableEq, Repr

/-- **A value, or the refusal in its place.** -/
abbrev Checked (α : Type) := Except Refusal α

namespace Checked

/-- One fault at the present place. -/
def fault {α : Type} (kind : FaultKind) : Checked α := .error (.invalid [⟨[], kind⟩])

/-- A misuse. -/
def misuse {α : Type} (m : Misuse) : Checked α := .error (.misuse m)

/-- Both values, or the faults of both; a misuse on either side outweighs all faults. -/
def zip {α β : Type} (a : Checked α) (b : Checked β) : Checked (α × β) :=
  match a, b with
  | .ok a, .ok b => .ok (a, b)
  | .error (.misuse m), _ => .error (.misuse m)
  | _, .error (.misuse m) => .error (.misuse m)
  | .error (.invalid fs), .error (.invalid gs) => .error (.invalid (fs ++ gs))
  | .error (.invalid fs), .ok _ => .error (.invalid fs)
  | .ok _, .error (.invalid gs) => .error (.invalid gs)

/-- The same with one more step in front of every fault's place. -/
def within {α : Type} (step : Text) : Checked α → Checked α
  | .error (.invalid fs) => .error (.invalid (fs.map fun f => ⟨step :: f.place, f.kind⟩))
  | a => a

/-- The values of a list of readings, or the faults of all, each at its position from `i` on. -/
def all {α : Type} (i : Nat) : List (Checked α) → Checked (List α)
  | [] => .ok []
  | a :: as => ((a.within (decimalNat i)).zip (all (i + 1) as)).map fun (a, as) => a :: as

/-- Two readings succeed together exactly when each succeeds. -/
theorem zip_eq_ok_iff {α β : Type} {a : Checked α} {b : Checked β} {p : α × β} :
    a.zip b = .ok p ↔ a = .ok p.1 ∧ b = .ok p.2 := by
  obtain ⟨x, y⟩ := p
  rcases a with (m | fs) | a <;> rcases b with (n | gs) | b <;> simp [zip]

/-- A step in front changes no success. -/
@[simp] theorem within_eq_ok_iff {α : Type} {step : Text} {a : Checked α} {x : α} :
    a.within step = .ok x ↔ a = .ok x := by
  rcases a with (m | fs) | a <;> simp [within]

/-- A list of readings succeeds exactly when each of them does. -/
theorem all_eq_ok_iff {α : Type} {i : Nat} {as : List (Checked α)} {xs : List α} :
    all i as = .ok xs ↔ as = xs.map .ok := by
  induction as generalizing i xs with
  | nil => cases xs <;> simp [all]
  | cons a as ih =>
    unfold all
    constructor
    · intro h
      rcases hz : (a.within (decimalNat i)).zip (all (i + 1) as) with e | p
      · rw [hz] at h; cases h
      · rw [hz] at h
        obtain ⟨h₁, h₂⟩ := zip_eq_ok_iff.1 hz
        cases h
        rw [within_eq_ok_iff.1 h₁, ih.1 h₂]
        rfl
    · intro h
      cases xs with
      | nil => cases h
      | cons x xs =>
        injection h with h₁ h₂
        have hz : (a.within (decimalNat i)).zip (all (i + 1) as) = .ok (x, xs) :=
          zip_eq_ok_iff.2 ⟨within_eq_ok_iff.2 h₁, ih.2 h₂⟩
        rw [hz]
        rfl

end Checked

end HebrewCorpus
