import HebrewCorpus.Text.Basic

/-! # Batches

Lines and links are handed over a given number at a time.

* **`chunks`**: the pieces of a list; put together again they are the list.
* **`batches`**: the pieces of a list for a size that was asked for.
* **`ImportFault`**: why an import cannot go on. -/

namespace HebrewCorpus

/-- Why an import cannot go on. -/
inductive ImportFault
  /-- Deliveries of no lines or links at a time are asked for. -/
  | emptyBatch
  deriving DecidableEq, Repr

/-- The pieces of a list, all of `size` items but the last; a size of 0 counts as 1. -/
def chunks {α : Type} (size : Nat) : List α → List (List α)
  | [] => []
  | a :: as => (a :: as.take (size - 1)) :: chunks size (as.drop (size - 1))
termination_by as => as.length
decreasing_by simp only [List.length_drop, List.length_cons]; omega

/-- The pieces put together again are the list. -/
@[simp] theorem flatten_chunks {α : Type} (size : Nat) (as : List α) :
    (chunks size as).flatten = as := by
  fun_induction chunks size as with
  | case1 => rfl
  | case2 a as ih => simp [ih]

/-- **A list in pieces of a given size.** A negative size makes no pieces, and 0 is refused. -/
def batches {α : Type} (size : Int) (as : List α) : Except ImportFault (List (List α)) :=
  if size = 0 then .error .emptyBatch
  else .ok (if size < 0 then [] else chunks size.toNat as)

end HebrewCorpus
