import HebrewCorpus.Text.Basic

/-! # Tables

A table holds rows under distinct whole numbers, in ascending order of these keys.

* **`Table.insert?`**: a new row, refused where its key is taken.
* **`Table.put`**: a row in place of the one with its key, if there is one.
* **`Table.nextKey`**: the key of a row that is added without one. -/

namespace HebrewCorpus

/-- **Rows under keys**, in ascending order of the keys. -/
abbrev Table (α : Type) := List (Int × α)

namespace Table

variable {α : Type}

/-- The row under a key. -/
def find? (key : Int) (t : Table α) : Option α := t.lookup key

/-- A row put under its key, in place of the one that may be there. -/
def put (key : Int) (row : α) : Table α → Table α
  | [] => [(key, row)]
  | (k, r) :: t =>
    if key < k then (key, row) :: (k, r) :: t
    else if key = k then (key, row) :: t
    else (k, r) :: put key row t

/-- A new row; a key that is taken is refused. -/
def insert? (key : Int) (row : α) (t : Table α) : Option (Table α) :=
  if (t.find? key).isSome then none else some (t.put key row)

/-- The key after the last one, 1 in an empty table. -/
def nextKey (t : Table α) : Int := (t.getLast?.map (·.1 + 1)).getD 1

/-- The row put under a key is found there. -/
@[simp] theorem find?_put_self (key : Int) (row : α) (t : Table α) :
    (t.put key row).find? key = some row := by
  induction t with
  | nil => simp [put, find?]
  | cons r t ih =>
    obtain ⟨k, r⟩ := r
    unfold put
    split
    · simp [find?]
    · split
      · simp [find?]
      · next h => rw [find?, List.lookup_cons, beq_false_of_ne h]; exact ih

/-- The rows under other keys stay. -/
theorem find?_put_of_ne {key other : Int} (h : other ≠ key) (row : α) (t : Table α) :
    (t.put key row).find? other = t.find? other := by
  induction t with
  | nil => simp [put, find?, List.lookup_cons, beq_false_of_ne h]
  | cons r t ih =>
    obtain ⟨k, r⟩ := r
    unfold put
    split
    · simp [find?, List.lookup_cons, beq_false_of_ne h]
    · split
      · next hk => subst hk; simp [find?, List.lookup_cons, beq_false_of_ne h]
      · simp only [find?, List.lookup_cons]
        split
        · rfl
        · exact ih

end Table

end HebrewCorpus
