import HebrewCorpus.Text.Basic

/-! # Order of texts

* **`insertOrdered`**, **`sortOrdered`**: values in an order; where it holds both ways between two
  values they keep their places. `pairwise_sortOrdered` says in which orders they then stand.
* **`pathLe`**: the order of lists of texts by their first difference. -/

namespace HebrewCorpus

/-- A value put among others in order, in front of the first one that it comes before. -/
def insertOrdered {α : Type} (before : α → α → Bool) (a : α) : List α → List α
  | [] => [a]
  | b :: bs => if before a b then a :: b :: bs else b :: insertOrdered before a bs

/-- **The values in order.** -/
def sortOrdered {α : Type} (before : α → α → Bool) (as : List α) : List α :=
  as.foldr (insertOrdered before) []

/-- Order by the first text that differs, a proper beginning before its continuations. -/
def pathLe : (p q : List Text) → Bool
  | [], _ => true
  | _ :: _, [] => false
  | a :: p, b :: q => if a = b then pathLe p q else Text.le a b

/-- Putting a value among others adds that value. -/
theorem insertOrdered_perm {α : Type} (before : α → α → Bool) (a : α) (as : List α) :
    (insertOrdered before a as).Perm (a :: as) := by
  induction as with
  | nil => exact .refl _
  | cons b bs ih =>
    unfold insertOrdered
    split
    · exact .refl _
    · exact (ih.cons b).trans (.swap a b bs)

/-- Ordering values neither loses nor adds any. -/
theorem sortOrdered_perm {α : Type} (before : α → α → Bool) (as : List α) :
    (sortOrdered before as).Perm as := by
  induction as with
  | nil => exact .refl _
  | cons a as ih => exact (insertOrdered_perm before a _).trans (ih.cons a)

section Pairwise

variable {α : Type} {before : α → α → Bool} {r : α → α → Prop}
  (htrans : ∀ a b c, r a b → r b c → r a c) (hbefore : ∀ a b, before a b = true → r a b)
  (hbehind : ∀ a b, before a b = false → r b a)

include htrans hbefore hbehind

/-- A value put among ordered ones leaves them ordered. -/
theorem pairwise_insertOrdered (a : α) {as : List α} (h : as.Pairwise r) :
    (insertOrdered before a as).Pairwise r := by
  induction as with
  | nil => exact List.pairwise_singleton r a
  | cons b bs ih =>
    obtain ⟨hb, hbs⟩ := List.pairwise_cons.1 h
    rw [insertOrdered]
    split
    · next hab =>
      refine List.pairwise_cons.2 ⟨?_, h⟩
      intro c hc
      rcases List.mem_cons.1 hc with rfl | hc
      · exact hbefore a c hab
      · exact htrans a b c (hbefore a b hab) (hb c hc)
    · next hab =>
      refine List.pairwise_cons.2 ⟨?_, ih hbs⟩
      intro c hc
      rcases List.mem_cons.1 ((insertOrdered_perm before a bs).mem_iff.1 hc) with rfl | hc
      · exact hbehind c b (Bool.eq_false_iff.2 hab)
      · exact hb c hc

/-- **Ordered values stand in every order that the comparison decides** for any two of them. -/
theorem pairwise_sortOrdered (as : List α) : (sortOrdered before as).Pairwise r := by
  induction as with
  | nil => exact .nil
  | cons a as ih => exact pairwise_insertOrdered htrans hbefore hbehind a ih

end Pairwise

end HebrewCorpus
