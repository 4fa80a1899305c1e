import HebrewCorpus.Proofs.Store.Rows
import HebrewCorpus.Store.Database

/-! # Changes of a database

A delivery succeeds when none of its changes is refused. The changes in front of a refused one are
not taken back, and the next delivery that succeeds settles them with its own.

* **`Tables.changeAll?`**: the tables after several changes, unless one is refused.
* **`Database.takeAll?`**: the database after several deliveries that all succeed.
* **`Database.deliver_refused`**: what a refused delivery leaves, and what later ones settle of
  it. -/

namespace HebrewCorpus

namespace Tables

variable {t u : Tables} {change : RowChange} {changes : List RowChange}

/-- **The tables after several changes**, unless one is refused. -/
def changeAll? (t : Tables) (changes : List RowChange) : Option Tables := changes.foldlM change? t

/-- No change leaves the tables as they are. -/
@[simp] theorem changeAll?_nil (t : Tables) : t.changeAll? [] = some t := rfl

/-- The first change comes first. -/
@[simp] theorem changeAll?_cons (t : Tables) (change : RowChange) (changes : List RowChange) :
    t.changeAll? (change :: changes) = (t.change? change).bind (·.changeAll? changes) :=
  List.foldlM_cons ..

/-- Changes are made one after the other. -/
theorem changeAll?_append (t : Tables) (front back : List RowChange) :
    t.changeAll? (front ++ back) = (t.changeAll? front).bind (·.changeAll? back) :=
  List.foldlM_append ..

/-- **Changes up to the first one that is refused are all changes** when none is. -/
theorem applyAll_eq_true_iff : t.applyAll changes = (u, true) ↔ t.changeAll? changes = some u := by
  induction changes generalizing t with
  | nil => simp [applyAll]
  | cons change changes ih =>
    rw [applyAll, changeAll?_cons]
    cases t.change? change with
    | none => simp
    | some t' => exact ih

/-- **The changes in front of a refused one are made.** -/
theorem exists_refused_of_applyAll (h : t.applyAll changes = (u, false)) :
    ∃ front change back, changes = front ++ change :: back ∧ t.changeAll? front = some u ∧
      u.change? change = none := by
  induction changes generalizing t with
  | nil => cases h
  | cons change changes ih =>
    rw [applyAll] at h
    cases hchange : t.change? change with
    | none =>
      rw [hchange] at h
      cases h
      exact ⟨[], change, changes, rfl, rfl, hchange⟩
    | some t' =>
      rw [hchange] at h
      obtain ⟨front, refused, back, rfl, hfront, hrefused⟩ := ih h
      refine ⟨change :: front, refused, back, rfl, ?_, hrefused⟩
      rw [changeAll?_cons, hchange]
      exact hfront

end Tables

/-! ### New rows -/

/-- Whether a change adds a row, and may be refused. -/
def RowChange.isNew : RowChange → Bool
  | .line _ _ | .outlineEntry _ _ | .overlay _ _ | .overlayEntry _ _ | .link _ => true
  | .book _ _ | .lineOutline _ _ | .lineOverlay _ _ _ | .overlayMark _ _ => false

/-- How many rows were added. -/
def Tables.rowCount (t : Tables) : Nat :=
  t.lines.length + t.outlineEntries.length + t.overlays.length + t.overlayEntries.length +
    t.links.length

namespace Tables

variable {t u : Tables} {change : RowChange} {changes : List RowChange}

/-- Only new rows are refused. -/
theorem isNew_of_refused (h : t.change? change = none) : change.isNew = true := by
  cases change with
  | overlayMark book value =>
    rw [change?] at h
    split at h <;> cases h
  | _ => first | rfl | cases h

/-- A new row is one row more. -/
theorem rowCount_of_change? (h : t.change? change = some u) (hnew : change.isNew = true) :
    u.rowCount = t.rowCount + 1 := by
  cases change with
  | line _ _ | outlineEntry _ _ | overlay _ _ | overlayEntry _ _ | link _ =>
    obtain ⟨table, htable, rfl⟩ := Option.map_eq_some_iff.1 h
    have hlength := Table.length_of_insert? htable
    simp only [rowCount, hlength]
    omega
  | book _ _ | lineOutline _ _ | lineOverlay _ _ _ | overlayMark _ _ => cases hnew

/-- **New rows are as many rows more.** -/
theorem rowCount_of_changeAll? (h : t.changeAll? changes = some u)
    (hnew : ∀ change ∈ changes, change.isNew = true) :
    u.rowCount = t.rowCount + changes.length := by
  induction changes generalizing t with
  | nil =>
    cases h
    rfl
  | cons change changes ih =>
    rw [changeAll?_cons] at h
    obtain ⟨v, hchange, h⟩ := Option.bind_eq_some_iff.1 h
    obtain ⟨hfirst, hrest⟩ := List.forall_mem_cons.1 hnew
    rw [ih h hrest, rowCount_of_change? hchange hfirst, List.length_cons]
    omega

/-- **New rows change the tables.** -/
theorem eq_nil_of_changeAll?_self (h : t.changeAll? changes = some t)
    (hnew : ∀ change ∈ changes, change.isNew = true) : changes = [] := by
  have hcount := rowCount_of_changeAll? h hnew
  exact List.eq_nil_of_length_eq_zero (by omega)

end Tables

/-- New rows in front of replaced ones. -/
theorem RowChange.pairwise_isNew {α β : Type} {new : α → RowChange} {old : β → RowChange}
    (hnew : ∀ a, (new a).isNew = true) (hold : ∀ b, (old b).isNew = false) (as : List α)
    (bs : List β) :
    (as.map new ++ bs.map old).Pairwise
      fun first later => later.isNew = true → first.isNew = true := by
  refine List.pairwise_append.2 ⟨?_, ?_, ?_⟩
  · exact List.pairwise_map.2 (List.pairwise_of_forall fun a _ _ => hnew a)
  · refine List.pairwise_map.2 (List.pairwise_of_forall fun _ b h => ?_)
    rw [hold b] at h
    cases h
  · intro first hfirst _ _ _
    obtain ⟨a, -, rfl⟩ := List.mem_map.1 hfirst
    exact hnew a

/-- **A delivery adds its new rows first**, and replaces rows behind them. -/
theorem Delivery.pairwise_isNew_changes (d : Delivery) :
    d.changes.Pairwise fun first later => later.isNew = true → first.isNew = true := by
  cases d with
  | book _ | overlayMark _ _ => exact List.pairwise_singleton _ _
  | lines _ | links _ => exact List.pairwise_map.2 (List.pairwise_of_forall fun _ _ _ => rfl)
  | outline o => exact RowChange.pairwise_isNew (fun _ => rfl) (fun _ => rfl) o.entries o.lineMap
  | overlay tree =>
    refine List.pairwise_cons.2 ⟨fun _ _ _ => rfl, ?_⟩
    exact RowChange.pairwise_isNew (fun _ => rfl) (fun _ => rfl) tree.entries tree.lineMap

/-- All changes in front of a refused one add rows. -/
theorem Delivery.isNew_of_mem_front {d : Delivery} {front back : List RowChange}
    {change : RowChange} {t : Tables} (h : d.changes = front ++ change :: back)
    (hrefused : t.change? change = none) : ∀ first ∈ front, first.isNew = true := by
  intro first hfirst
  have hpairs := d.pairwise_isNew_changes
  rw [h] at hpairs
  exact (List.pairwise_append.1 hpairs).2.2 first hfirst change List.mem_cons_self
    (Tables.isNew_of_refused hrefused)

namespace Database

variable {db after : Database} {d : Delivery} {ds : List Delivery} {t : Tables}

/-- The database after a delivery that succeeds. -/
def take? (db : Database) (d : Delivery) : Option Database :=
  match db.deliver d with
  | (db, true) => some db
  | (_, false) => none

/-- **The database after several deliveries** that all succeed. -/
def takeAll? (db : Database) (ds : List Delivery) : Option Database := ds.foldlM take? db

/-- A delivery that succeeds makes all its changes and settles them. -/
theorem take?_eq (db : Database) (d : Delivery) :
    db.take? d = (db.current.changeAll? d.changes).map fun t => ⟨t, t⟩ := by
  rw [take?, deliver]
  cases happlied : db.current.applyAll d.changes with
  | mk t succeeded =>
    cases succeeded with
    | true => rw [Tables.applyAll_eq_true_iff.1 happlied]; rfl
    | false =>
      have hnone : db.current.changeAll? d.changes = none := by
        refine Option.eq_none_iff_forall_ne_some.2 fun u hu => ?_
        rw [Tables.applyAll_eq_true_iff.2 hu] at happlied
        cases happlied
      rw [hnone]
      rfl

/-- The first delivery comes first. -/
theorem takeAll?_cons (db : Database) (d : Delivery) (ds : List Delivery) :
    db.takeAll? (d :: ds) = (db.take? d).bind (·.takeAll? ds) := List.foldlM_cons ..

/-- **Deliveries that all succeed make the changes of all of them**, and settle these. -/
theorem takeAll?_eq (hds : ds ≠ []) (db : Database) :
    db.takeAll? ds = (db.current.changeAll? (ds.flatMap (·.changes))).map fun t => ⟨t, t⟩ := by
  induction ds generalizing db with
  | nil => exact absurd rfl hds
  | cons d ds ih =>
    rw [takeAll?_cons, take?_eq, List.flatMap_cons, Tables.changeAll?_append]
    cases db.current.changeAll? d.changes with
    | none => rfl
    | some t =>
      cases ds with
      | nil => rfl
      | cons d' ds => exact ih (List.cons_ne_nil d' ds) ⟨t, t⟩

/-- A delivery is refused with one of its changes; those in front of it stay, unsettled. -/
theorem exists_refused_of_deliver (h : (db.deliver d).2 = false) :
    ∃ front change back t, d.changes = front ++ change :: back ∧
      db.current.changeAll? front = some t ∧ t.change? change = none ∧
      (db.deliver d).1 = ⟨t, db.settled⟩ := by
  rw [deliver] at h ⊢
  cases happlied : db.current.applyAll d.changes with
  | mk t succeeded =>
    rw [happlied] at h
    cases succeeded with
    | true => cases h
    | false =>
      obtain ⟨front, change, back, hchanges, hfront, hrefused⟩ :=
        Tables.exists_refused_of_applyAll happlied
      exact ⟨front, change, back, t, hchanges, hfront, hrefused, rfl⟩

/-- **What a refused delivery leaves.** The changes in front of the refused one stay, unsettled.
Deliveries that succeed later settle them together with their own changes, so the refused delivery
leaves no trace exactly when its first change is refused. -/
theorem deliver_refused (h : (db.deliver d).2 = false) :
    ∃ front change back t, d.changes = front ++ change :: back ∧
      db.current.changeAll? front = some t ∧ t.change? change = none ∧
      (db.deliver d).1 = ⟨t, db.settled⟩ ∧
      (∀ ds after, ds ≠ [] → (db.deliver d).1.takeAll? ds = some after →
        db.current.changeAll? (front ++ ds.flatMap (·.changes)) = some after.settled ∧
          after.current = after.settled) ∧
      ((∀ ds after, (db.deliver d).1.takeAll? ds = some after →
        ∃ plain, db.takeAll? ds = some plain ∧ after.settled = plain.settled) ↔ front = []) := by
  obtain ⟨front, change, back, t, hchanges, hfront, hrefused, hleft⟩ := exists_refused_of_deliver h
  refine ⟨front, change, back, t, hchanges, hfront, hrefused, hleft, ?_, ?_⟩
  · intro ds after hds hafter
    rw [hleft, takeAll?_eq hds] at hafter
    obtain ⟨u, hu, rfl⟩ := Option.map_eq_some_iff.1 hafter
    rw [Tables.changeAll?_append, hfront]
    exact ⟨hu, rfl⟩
  · constructor
    · intro hsame
      -- a later delivery of nothing settles what the refused one left
      obtain ⟨plain, hplain, hsettled⟩ := hsame [.links []] ⟨t, t⟩ (by rw [hleft]; rfl)
      cases hplain
      have hunchanged : t = db.current := hsettled
      subst hunchanged
      exact Tables.eq_nil_of_changeAll?_self hfront (Delivery.isNew_of_mem_front hchanges hrefused)
    · rintro rfl ds after hafter
      -- then it left the database as it was
      cases hfront
      rw [hleft] at hafter
      exact ⟨after, hafter, rfl⟩

/-- Two lines under one number. -/
def twoLines : Delivery :=
  .lines [⟨some 1, 7, 0, ['a'], none, none⟩, ⟨some 1, 7, 1, ['b'], none, none⟩]

/-- Two lines under one number are refused, and the first of them stays. -/
theorem deliver_refused_twoLines :
    ∃ front change back t, twoLines.changes = front ++ change :: back ∧
      (empty.deliver twoLines).1 = ⟨t, .empty⟩ ∧ front ≠ [] := by
  have hrefused : (empty.deliver twoLines).2 = false := by decide
  obtain ⟨front, change, back, t, hchanges, hfront, hchange, hleft, -, -⟩ :=
    deliver_refused hrefused
  refine ⟨front, change, back, t, hchanges, hleft, ?_⟩
  rintro rfl
  -- the first line alone is not refused
  cases hfront
  cases hchanges
  cases hchange

/-- **A refused delivery leaves a trace.** A delivery of no links settles the first of two lines
under one number; without the refused delivery it settles no line. -/
theorem settled_lines_twoLines :
    (empty.deliver twoLines).2 = false ∧
      ((empty.deliver twoLines).1.takeAll? [.links []]).map (·.settled.lines.length) = some 1 ∧
      (empty.takeAll? [.links []]).map (·.settled.lines.length) = some 0 := by
  decide

end Database

end HebrewCorpus
