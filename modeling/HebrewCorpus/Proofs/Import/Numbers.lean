import HebrewCorpus.Import.Counters

/-! # Neighbouring numbers

* **`numbersFrom`**: a block of neighbouring numbers, as a counter hands them out.
* **`numbersFrom_add`**: neighbouring blocks are one block.
* **`totalOf`**: what the counts of some items come to. -/

namespace HebrewCorpus

/-- **Neighbouring numbers**, in ascending order from the first one on. -/
def numbersFrom (first : Int) : (count : Nat) → List Int
  | 0 => []
  | count + 1 => first :: numbersFrom (first + 1) count

@[simp] theorem length_numbersFrom (first : Int) (count : Nat) :
    (numbersFrom first count).length = count := by
  induction count generalizing first with
  | zero => rfl
  | succ count ih => exact congrArg Nat.succ (ih (first + 1))

/-- The numbers of a block. -/
@[simp] theorem mem_numbersFrom {first n : Int} {count : Nat} :
    n ∈ numbersFrom first count ↔ first ≤ n ∧ n < first + count := by
  induction count generalizing first with
  | zero =>
    simp only [numbersFrom, List.not_mem_nil, false_iff]
    omega
  | succ count ih =>
    rw [numbersFrom, List.mem_cons, ih]
    omega

/-- The number at a position of a block. -/
theorem getElem?_numbersFrom (first : Int) {count i : Nat} (h : i < count) :
    (numbersFrom first count)[i]? = some (first + i) := by
  induction i generalizing first count with
  | zero =>
    cases count with
    | zero => cases h
    | succ count => simp [numbersFrom]
  | succ i ih =>
    cases count with
    | zero => cases h
    | succ count =>
      rw [numbersFrom, List.getElem?_cons_succ, ih (first + 1) (by omega)]
      congr 1
      omega

/-- **Neighbouring blocks are one block.** -/
theorem numbersFrom_add (first : Int) (m n : Nat) :
    numbersFrom first (m + n) = numbersFrom first m ++ numbersFrom (first + m) n := by
  induction m generalizing first with
  | zero => simp [numbersFrom]
  | succ m ih =>
    have hfirst : first + 1 + (m : Int) = first + (m + 1 : Nat) := by omega
    rw [Nat.succ_add, numbersFrom, ih, numbersFrom, hfirst, List.cons_append]

/-- A block is moved as a whole. -/
theorem map_add_numbersFrom (offset first : Int) (count : Nat) :
    (numbersFrom first count).map (· + offset) = numbersFrom (first + offset) count := by
  induction count generalizing first with
  | zero => rfl
  | succ count ih =>
    have hfirst : first + 1 + offset = first + offset + 1 := by omega
    rw [numbersFrom, List.map_cons, ih, hfirst, numbersFrom]

/-- **No number is in a block twice.** -/
theorem nodup_numbersFrom (first : Int) (count : Nat) : (numbersFrom first count).Nodup := by
  induction count generalizing first with
  | zero => exact .nil
  | succ count ih =>
    refine List.nodup_cons.2 ⟨?_, ih (first + 1)⟩
    rw [mem_numbersFrom]
    omega

/-- A list of things with neighbouring numbers is as long as their block. -/
theorem map_eq_numbersFrom_length {α β : Type} {f : α → β} {g : Int → β} {as : List α} {first : Int}
    {count : Nat} (h : as.map f = (numbersFrom first count).map g) :
    as.map f = (numbersFrom first as.length).map g := by
  have hlength := congrArg List.length h
  rw [List.length_map, List.length_map, length_numbersFrom] at hlength
  rw [h, hlength]

/-- Things with neighbouring numbers have those of a block as long as their list. -/
theorem eq_numbersFrom_length {α : Type} {f : α → Int} {as : List α} {first : Int} {count : Nat}
    (h : as.map f = numbersFrom first count) : as.map f = numbersFrom first as.length := by
  rw [← List.map_id (numbersFrom first count)] at h
  rw [map_eq_numbersFrom_length h, List.map_id]

/-! ### Totals -/

/-- **What the counts of some items come to.** -/
def totalOf {α : Type} (count : α → Nat) : List α → Nat
  | [] => 0
  | a :: as => count a + totalOf count as

section Total

variable {α : Type} (count : α → Nat)

@[simp] theorem totalOf_nil : totalOf count [] = 0 := rfl

@[simp] theorem totalOf_cons (a : α) (as : List α) :
    totalOf count (a :: as) = count a + totalOf count as := rfl

/-- Totals of neighbours are added. -/
@[simp] theorem totalOf_append (as bs : List α) :
    totalOf count (as ++ bs) = totalOf count as + totalOf count bs := by
  induction as with
  | nil => exact (Nat.zero_add _).symm
  | cons a as ih => rw [List.cons_append, totalOf_cons, ih, totalOf_cons, Nat.add_assoc]

end Total

end HebrewCorpus
