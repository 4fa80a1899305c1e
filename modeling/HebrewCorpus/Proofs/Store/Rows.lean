import HebrewCorpus.Proofs.Import.Numbers
import HebrewCorpus.Store.Table

/-! # Rows of a table

A table holds rows in ascending order of their keys. What it holds after some rows were put into it
is said by a plain list of these rows, in the order in which they came.

* **`Table.Lists`**: a table of all rows of a list, no two under one key; `Lists.insertAll?` says
  when more rows can be inserted.
* **`Table.Enumerates`**: a table of all rows of a list, under the numbers from 1 on.
* **`Table.Keeps`**, **`Table.KeepsPairs`**: a table that keeps the last row of a list under each
  key, and under each pair of keys.
* **`keyedBy`**: the rows of a list of things, each under a key of its own. -/

namespace HebrewCorpus

section Keyed

variable {α β : Type} (key : α → Int) (row : α → β)

/-- **The rows of things**, each under a key of its own. -/
def keyedBy (as : List α) : List (Int × β) := as.map fun a => (key a, row a)

/-- The keys of rows that are made of things. -/
@[simp] theorem map_fst_keyedBy (as : List α) : (keyedBy key row as).map (·.1) = as.map key :=
  List.map_map

/-- Rows of neighbours are neighbours. -/
theorem keyedBy_append (as bs : List α) :
    keyedBy key row (as ++ bs) = keyedBy key row as ++ keyedBy key row bs := List.map_append

end Keyed

namespace Table

variable {α : Type} {t u : Table α} {rows : List (Int × α)} {key : Int} {row : α}

/-! ### Keys -/

/-- **Keys that ascend** from row to row. -/
def Ascends (t : Table α) : Prop := t.Pairwise fun a b => a.1 < b.1

/-- A key is found where it stands. -/
theorem find?_eq_none_iff : t.find? key = none ↔ key ∉ t.map (·.1) := by
  rw [find?, List.lookup_eq_none_iff, List.mem_map]
  constructor
  · rintro h ⟨p, hp, rfl⟩
    exact absurd (h p hp) (by simp)
  · intro h p hp
    exact bne_iff_ne.2 fun he => h ⟨p, hp, he.symm⟩

/-- The rows after a row is put are that row and rows that were there. -/
theorem mem_of_mem_put {p : Int × α} (h : p ∈ t.put key row) : p = (key, row) ∨ p ∈ t := by
  induction t with
  | nil => exact .inl (List.mem_singleton.1 h)
  | cons r t ih =>
    obtain ⟨k, r⟩ := r
    unfold put at h
    split at h
    · exact List.mem_cons.1 h
    · split at h
      · exact (List.mem_cons.1 h).imp_right (List.mem_cons_of_mem _)
      · rcases List.mem_cons.1 h with rfl | h
        · exact .inr List.mem_cons_self
        · exact (ih h).imp_right (List.mem_cons_of_mem _)

/-- **Keys still ascend after a row is put.** -/
theorem Ascends.put (h : t.Ascends) (key : Int) (row : α) : (t.put key row).Ascends := by
  induction t with
  | nil => exact List.pairwise_singleton _ _
  | cons r t ih =>
    obtain ⟨k, r⟩ := r
    obtain ⟨hfirst, hrest⟩ := List.pairwise_cons.1 h
    unfold Table.put
    split
    · next hlt =>
      refine List.pairwise_cons.2 ⟨fun p hp => ?_, h⟩
      rcases List.mem_cons.1 hp with rfl | hp
      · exact hlt
      · exact Int.lt_trans hlt (hfirst p hp)
    · split
      · next heq =>
        subst heq
        exact List.pairwise_cons.2 ⟨hfirst, hrest⟩
      · refine List.pairwise_cons.2 ⟨fun p hp => ?_, ih hrest⟩
        rcases mem_of_mem_put hp with rfl | hp
        · show k < key
          omega
        · exact hfirst p hp

/-- A row with a key above all others is put at the end. -/
theorem put_of_lt (h : ∀ p ∈ t, p.1 < key) : t.put key row = t ++ [(key, row)] := by
  induction t with
  | nil => rfl
  | cons r t ih =>
    obtain ⟨k, r⟩ := r
    have hk : k < key := h (k, r) List.mem_cons_self
    rw [put, if_neg (by omega), if_neg (by omega), ih fun p hp => h p (List.mem_cons_of_mem _ hp),
      List.cons_append]

/-- Keys that ascend are distinct. -/
theorem Ascends.distinct (h : t.Ascends) : (t.map (·.1)).Nodup :=
  List.pairwise_map.2 (h.imp fun hlt => Int.ne_of_lt hlt)

/-- Where keys are distinct, every row is found under its key. -/
theorem lookup_eq_some_iff_mem (distinct : (rows.map (·.1)).Nodup) :
    rows.lookup key = some row ↔ (key, row) ∈ rows := by
  induction rows with
  | nil => simp
  | cons r rows ih =>
    obtain ⟨k, r⟩ := r
    rw [List.map_cons, List.nodup_cons] at distinct
    rw [List.lookup_cons, List.mem_cons]
    by_cases hk : key = k
    · -- no other row has the key of the first one
      subst hk
      have hother : (key, row) ∉ rows := fun hmem =>
        distinct.1 (List.mem_map_of_mem (f := (·.1)) hmem)
      rw [beq_self_eq_true]
      simp [hother, eq_comm]
    · rw [beq_false_of_ne hk]
      simp [ih distinct.2, hk]

/-! ### Insertions -/

/-- A row is inserted under a key that is free. -/
theorem insert?_eq_some_iff :
    t.insert? key row = some u ↔ key ∉ t.map (·.1) ∧ u = t.put key row := by
  rw [insert?, ← find?_eq_none_iff]
  cases t.find? key <;> simp [eq_comm]

/-- An insertion adds a row. -/
theorem length_of_insert? (h : t.insert? key row = some u) : u.length = t.length + 1 := by
  obtain ⟨hnew, rfl⟩ := insert?_eq_some_iff.1 h
  clear h
  induction t with
  | nil => rfl
  | cons r t ih =>
    obtain ⟨k, r⟩ := r
    rw [List.map_cons, List.mem_cons, not_or] at hnew
    unfold put
    split
    · rfl
    · rw [if_neg hnew.1, List.length_cons, ih hnew.2, List.length_cons]

/-- **A table with several rows inserted**, unless a key is taken. -/
def insertAll? (rows : List (Int × α)) (t : Table α) : Option (Table α) :=
  rows.foldlM (fun t r => t.insert? r.1 r.2) t

/-- **A table of all rows of a list**, in ascending order of their keys. -/
structure Lists (t : Table α) (rows : List (Int × α)) : Prop where
  ascends : t.Ascends
  perm : t.Perm rows

namespace Lists

/-- An empty table lists no rows. -/
theorem nil : Lists ([] : Table α) [] := ⟨.nil, .nil⟩

/-- No two rows have one key. -/
theorem distinct (h : t.Lists rows) : (rows.map (·.1)).Nodup :=
  (h.perm.map (·.1)).nodup_iff.1 h.ascends.distinct

/-- The rows are found under their keys. -/
theorem find?_eq (h : t.Lists rows) (key : Int) : t.find? key = rows.lookup key := by
  refine Option.ext fun row => ?_
  rw [find?, lookup_eq_some_iff_mem h.ascends.distinct, lookup_eq_some_iff_mem h.distinct,
    h.perm.mem_iff]

/-- **A table lists the rows that are found in it.** -/
theorem of_find? (ascends : t.Ascends) (distinct : (rows.map (·.1)).Nodup)
    (h : ∀ key, t.find? key = rows.lookup key) : t.Lists rows where
  ascends := ascends
  perm := by
    have hrows : rows.Pairwise (· ≠ ·) :=
      (List.pairwise_map.1 distinct).imp fun hne he => hne (congrArg Prod.fst he)
    have htable : t.Pairwise (· ≠ ·) :=
      ascends.imp fun hlt he => Int.ne_of_lt hlt (congrArg Prod.fst he)
    refine (List.perm_ext_iff_of_nodup htable hrows).2 fun ⟨key, row⟩ => ?_
    rw [← lookup_eq_some_iff_mem ascends.distinct, ← lookup_eq_some_iff_mem distinct, ← h key,
      find?]

/-- A row under a new key is listed behind the others. -/
theorem put_new (h : t.Lists rows) (hnew : key ∉ rows.map (·.1)) (row : α) :
    (t.put key row).Lists (rows ++ [(key, row)]) := by
  have hnone : rows.lookup key = none := find?_eq_none_iff.2 hnew
  refine of_find? (h.ascends.put key row) ?_ fun k => ?_
  · rw [List.map_append, List.nodup_append]
    refine ⟨h.distinct, by simp, ?_⟩
    rintro k hk _ hlast rfl
    rw [List.map_singleton, List.mem_singleton] at hlast
    subst hlast
    exact hnew hk
  · rw [List.lookup_append]
    by_cases hk : k = key
    · subst hk
      rw [find?_put_self, hnone, Option.none_or, List.lookup_cons, beq_self_eq_true]
    · rw [find?_put_of_ne hk, h.find?_eq, List.lookup_cons, beq_false_of_ne hk, List.lookup_nil,
        Option.or_none]

/-- **Rows can be inserted when no key occurs twice**, and are then listed behind the others. -/
theorem insertAll? (h : t.Lists rows) (more : List (Int × α)) :
    (((rows ++ more).map (·.1)).Nodup → (t.insertAll? more).isSome) ∧
      ∀ u, t.insertAll? more = some u → u.Lists (rows ++ more) := by
  induction more generalizing t rows with
  | nil =>
    refine ⟨fun _ => rfl, fun u hu => ?_⟩
    cases hu
    rwa [List.append_nil]
  | cons r more ih =>
    obtain ⟨key, row⟩ := r
    have hsplit : rows ++ (key, row) :: more = (rows ++ [(key, row)]) ++ more := by simp
    rw [Table.insertAll?, List.foldlM_cons, hsplit]
    by_cases hnew : key ∈ rows.map (·.1)
    · -- the key is taken, and occurs twice
      have hrefused : t.insert? key row = none := by
        refine Option.eq_none_iff_forall_ne_some.2 fun u hu => ?_
        exact (insert?_eq_some_iff.1 hu).1 ((h.perm.map (·.1)).mem_iff.2 hnew)
      rw [hrefused]
      refine ⟨fun hdistinct => ?_, fun u hu => by cases hu⟩
      rw [List.map_append, List.map_append] at hdistinct
      have hfront := (List.nodup_append.1 hdistinct).1
      exact absurd rfl ((List.nodup_append.1 hfront).2.2 key hnew key (by simp))
    · have hput : t.insert? key row = some (t.put key row) :=
        insert?_eq_some_iff.2 ⟨fun hmem => hnew ((h.perm.map (·.1)).mem_iff.1 hmem), rfl⟩
      rw [hput]
      exact ih (h.put_new hnew row)

/-- The same of things that have keys of their own. -/
theorem insertAll?_keyedBy {β : Type} {key : β → Int} {row : β → α} {as : List β}
    (h : t.Lists (keyedBy key row as)) (more : List β) :
    (((as ++ more).map key).Nodup → (t.insertAll? (keyedBy key row more)).isSome) ∧
      ∀ u, t.insertAll? (keyedBy key row more) = some u →
        u.Lists (keyedBy key row (as ++ more)) := by
  rw [← map_fst_keyedBy key row, keyedBy_append]
  exact h.insertAll? (keyedBy key row more)

end Lists

/-- **A table of all rows of a list under the numbers from 1 on.** -/
structure Enumerates (t : Table α) (rows : List α) : Prop where
  keys : t.map (·.1) = numbersFrom 1 rows.length
  rows : t.map (·.2) = rows

/-- **A row without a key of its own takes the next number.** -/
theorem Enumerates.insert? {rows : List α} (h : t.Enumerates rows) (row : α) :
    ∃ u, t.insert? t.nextKey row = some u ∧ u.Enumerates (rows ++ [row]) := by
  have hlength : t.length = rows.length := by rw [← h.rows, List.length_map]
  have hnext : t.nextKey = 1 + rows.length := by
    -- the last key is the number of rows
    rcases List.eq_nil_or_concat t with rfl | ⟨init, r, rfl⟩
    · rw [← h.rows]
      rfl
    · have hkeys := h.keys
      rw [List.concat_eq_append] at hlength hkeys ⊢
      have hcount : rows.length = init.length + 1 := by rw [← hlength, List.length_append]; rfl
      rw [hcount, List.map_append, numbersFrom_add] at hkeys
      obtain ⟨-, hlast⟩ := List.append_inj' hkeys (by simp)
      have hr : r.1 = 1 + init.length := List.head_eq_of_cons_eq hlast
      rw [nextKey, List.getLast?_concat, hcount]
      simp [hr, Int.add_assoc]
  have hbelow : ∀ p ∈ t, p.1 < t.nextKey := by
    intro p hp
    have hmem : p.1 ∈ t.map (·.1) := List.mem_map_of_mem hp
    rw [h.keys, mem_numbersFrom] at hmem
    omega
  have hfree : t.nextKey ∉ t.map (·.1) := by
    intro hmem
    obtain ⟨p, hp, he⟩ := List.mem_map.1 hmem
    exact absurd (hbelow p hp) (by omega)
  refine ⟨t ++ [(t.nextKey, row)], insert?_eq_some_iff.2 ⟨hfree, (put_of_lt hbelow).symm⟩, ?_, ?_⟩
  · rw [List.map_append, h.keys, List.length_append, numbersFrom_add, hnext]
    rfl
  · rw [List.map_append, h.rows]
    rfl

/-- **A table with several rows added**, each under the next number. -/
def numberAll? (rows : List α) (t : Table α) : Option (Table α) :=
  rows.foldlM (fun t row => t.insert? t.nextKey row) t

/-- **Rows without keys of their own are never refused**, and take the next numbers. -/
theorem Enumerates.numberAll? {rows : List α} (h : t.Enumerates rows) (more : List α) :
    ∃ u, t.numberAll? more = some u ∧ u.Enumerates (rows ++ more) := by
  induction more generalizing t rows with
  | nil => exact ⟨t, rfl, by rwa [List.append_nil]⟩
  | cons row more ih =>
    obtain ⟨v, hinsert, hv⟩ := h.insert? row
    obtain ⟨u, hrest, hu⟩ := ih hv
    refine ⟨u, ?_, by rwa [List.append_cons]⟩
    rw [Table.numberAll?, List.foldlM_cons, hinsert]
    exact hrest

/-- A table with several rows put under their keys. -/
def putAll (rows : List (Int × α)) (t : Table α) : Table α :=
  rows.foldl (fun t r => t.put r.1 r.2) t

/-- **A table that keeps the last row of a list under each key.** -/
structure Keeps (t : Table α) (rows : List (Int × α)) : Prop where
  ascends : t.Ascends
  find?_eq : ∀ key, t.find? key = rows.reverse.lookup key

/-- A row that is put takes the place of the one under its key. -/
theorem Keeps.put (h : t.Keeps rows) (key : Int) (row : α) :
    (t.put key row).Keeps (rows ++ [(key, row)]) where
  ascends := h.ascends.put key row
  find?_eq := by
    intro k
    rw [List.reverse_append, List.reverse_singleton, List.singleton_append, List.lookup_cons]
    by_cases hk : k = key
    · subst hk
      rw [find?_put_self, beq_self_eq_true]
    · rw [find?_put_of_ne hk, h.find?_eq, beq_false_of_ne hk]

/-- **The last of several rows is kept** under each key. -/
theorem Keeps.putAll (h : t.Keeps rows) (more : List (Int × α)) :
    (t.putAll more).Keeps (rows ++ more) := by
  induction more generalizing t rows with
  | nil => rwa [List.append_nil]
  | cons r more ih =>
    rw [List.append_cons]
    exact ih (h.put r.1 r.2)

/-- A value put under a pair of keys. -/
def putPair (key inner : Int) (value : α) (t : Table (Table α)) : Table (Table α) :=
  t.put key (((t.find? key).getD []).put inner value)

/-- A table of tables with several values put under pairs of keys. -/
def putPairs (rows : List ((Int × Int) × α)) (t : Table (Table α)) : Table (Table α) :=
  rows.foldl (fun t r => putPair r.1.1 r.1.2 r.2 t) t

/-- **A table of tables that keeps the last value of a list under each pair of keys.** -/
structure KeepsPairs (t : Table (Table α)) (rows : List ((Int × Int) × α)) : Prop where
  ascends : t.Ascends
  inner_ascends : ∀ p ∈ t, Ascends p.2
  find?_eq : ∀ key inner, (t.find? key).bind (find? inner) = rows.reverse.lookup (key, inner)

/-- A value that is put takes the place of the one under its pair of keys. -/
theorem KeepsPairs.putPair {t : Table (Table α)} {rows : List ((Int × Int) × α)}
    (h : t.KeepsPairs rows) (key inner : Int) (value : α) :
    (putPair key inner value t).KeepsPairs (rows ++ [((key, inner), value)]) where
  ascends := h.ascends.put key _
  inner_ascends := by
    intro p hp
    rcases mem_of_mem_put hp with rfl | hp
    · refine Ascends.put ?_ inner value
      cases hfound : t.find? key with
      | none => exact .nil
      | some row =>
        have hmem : (key, row) ∈ t := (lookup_eq_some_iff_mem h.ascends.distinct).1 hfound
        exact h.inner_ascends _ hmem
    · exact h.inner_ascends p hp
  find?_eq := by
    intro k i
    rw [List.reverse_append, List.reverse_singleton, List.singleton_append, List.lookup_cons,
      Table.putPair, ← h.find?_eq]
    by_cases hk : k = key
    · subst hk
      rw [find?_put_self, Option.bind_some]
      by_cases hi : i = inner
      · subst hi
        rw [find?_put_self, beq_self_eq_true]
      · have hne : ((k, i) == (k, inner)) = false := beq_false_of_ne (by simp [hi])
        rw [find?_put_of_ne hi, hne]
        cases t.find? k <;> rfl
    · have hne : ((k, i) == (key, inner)) = false := beq_false_of_ne (by simp [hk])
      rw [find?_put_of_ne hk, hne]

/-- **The last of several values is kept** under each pair of keys. -/
theorem KeepsPairs.putPairs {t : Table (Table α)} {rows : List ((Int × Int) × α)}
    (h : t.KeepsPairs rows) (more : List ((Int × Int) × α)) :
    (t.putPairs more).KeepsPairs (rows ++ more) := by
  induction more generalizing t rows with
  | nil => rwa [List.append_nil]
  | cons r more ih =>
    rw [List.append_cons]
    exact ih (h.putPair r.1.1 r.1.2 r.2)

end Table

end HebrewCorpus
