import HebrewCorpus.Record.Field

/-! # Readings without misuse

A record that is refused tells its faults, but a value used as something it is not ends the reading
at once. Readings put together from readings that end in no misuse end in none.

* **`Checked.NoMisuse`**: a reading that gives a value, or the faults of a record.
* **`Checked.NoMisuse.bind`**, **`Checked.NoMisuse.zip`**, **`Checked.NoMisuse.mapM`**: how such
  readings are put together. -/

namespace HebrewCorpus

namespace Checked

variable {α β : Type}

/-- **A reading that ends in no misuse**: it gives a value, or the faults of a record. -/
def NoMisuse (a : Checked α) : Prop := ∀ m, a ≠ .error (.misuse m)

/-- A value is no misuse. -/
@[simp] theorem noMisuse_ok (x : α) : NoMisuse (.ok x : Checked α) := fun _ h => nomatch h

/-- A value that is handed on is no misuse. -/
@[simp] theorem noMisuse_pure (x : α) : NoMisuse (pure x : Checked α) := noMisuse_ok x

/-- Faults are no misuse. -/
@[simp] theorem noMisuse_invalid (faults : List Fault) :
    NoMisuse (.error (.invalid faults) : Checked α) := fun _ h => nomatch h

/-- A fault is no misuse. -/
@[simp] theorem noMisuse_fault (kind : FaultKind) : NoMisuse (fault kind : Checked α) :=
  noMisuse_invalid _

namespace NoMisuse

variable {a : Checked α} {b : Checked β}

/-- A step in front of the faults makes no misuse of them. -/
theorem within (h : NoMisuse a) (step : Text) : NoMisuse (a.within step) := by
  rcases a with (m | faults) | x
  · exact absurd rfl (h m)
  · exact noMisuse_invalid _
  · exact noMisuse_ok x

/-- Two readings without misuse have none together. -/
theorem zip (ha : NoMisuse a) (hb : NoMisuse b) : NoMisuse (a.zip b) := by
  rcases a with (m | faults) | x
  · exact absurd rfl (ha m)
  all_goals
    rcases b with (n | others) | y
    · exact absurd rfl (hb n)
    all_goals exact fun _ h => nomatch h

/-- A reading goes on without misuse when what follows every value has none. -/
theorem bind {f : α → Checked β} (ha : NoMisuse a) (hf : ∀ x, a = .ok x → NoMisuse (f x)) :
    NoMisuse (a >>= f) := by
  rcases a with (m | faults) | x
  · exact absurd rfl (ha m)
  · exact noMisuse_invalid faults
  · exact hf x rfl

/-- What is made of the value adds no misuse. -/
theorem map (ha : NoMisuse a) (f : α → β) : NoMisuse (Except.map f a) :=
  bind (f := fun x => .ok (f x)) ha fun x _ => noMisuse_ok (f x)

/-- A list is read without misuse when each of its items is. -/
theorem mapM {f : α → Checked β} {as : List α} (h : ∀ a ∈ as, NoMisuse (f a)) :
    NoMisuse (as.mapM f) := by
  induction as with
  | nil => exact noMisuse_pure []
  | cons a as ih =>
    rw [List.mapM_cons]
    refine (h a List.mem_cons_self).bind fun b _ => ?_
    refine (ih fun a ha => h a (List.mem_cons_of_mem _ ha)).bind fun bs _ => ?_
    exact noMisuse_pure (b :: bs)

end NoMisuse

end Checked

open Checked

/-- A text is read without misuse, whatever the value. -/
theorem noMisuse_readText (value : Json) : NoMisuse (readText value) := by
  cases value <;> first | exact noMisuse_ok _ | exact noMisuse_fault _

/-- A text that may be null is read without misuse, whatever the value. -/
theorem noMisuse_readOptional_readText (value : Json) :
    NoMisuse (readOptional readText value) := by
  unfold readOptional
  split
  · exact noMisuse_ok none
  · exact (noMisuse_readText _).map some

end HebrewCorpus
