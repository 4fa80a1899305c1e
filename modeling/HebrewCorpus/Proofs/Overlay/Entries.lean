import HebrewCorpus.Overlay.Tree
import HebrewCorpus.Proofs.Book.LineMap

/-! # Entries of an overlay tree

The entries of a forest of branches are numbered one after the other, every entry before those below
it, and each stands at the line of its branch.

* **`map_id_entriesBelow`**: the numbers of the entries.
* **`parent_of_mem_entriesBelow`**: every parent is an earlier entry.
* **`Branch.All`**: what holds of all targets of a branch; `exists_target_of_mem_entriesBelow` hands
  it on to the entries.
* **`OverlayTree.WellFormed`**: a tree whose parents and lines are its own; `wellFormed_ofBranches`
  builds one and `WellFormed.rebased` moves it. -/

namespace HebrewCorpus

/-! ### Numbers -/

mutual

/-- The entries of a branch are numbered one after the other. -/
theorem map_id_entriesOf (level : Nat) (parent : Option Int) (isLast : Bool) (id : Int) :
    (b : Branch) → (entriesOf level parent isLast id b).map (·.id) = numbersFrom id b.size
  | .branch text target below => by
    rw [entriesOf, List.map_cons, map_id_entriesBelow (level + 1) (some id) (id + 1) below,
      Branch.size, numbersFrom]

/-- **The entries of neighbours are numbered one after the other.** -/
theorem map_id_entriesBelow (level : Nat) (parent : Option Int) (id : Int) :
    (bs : List Branch) →
      (entriesBelow level parent id bs).map (·.id) = numbersFrom id (Branch.sizes bs)
  | [] => rfl
  | b :: bs => by
    rw [entriesBelow, List.map_append, map_id_entriesOf level parent bs.isEmpty id b,
      map_id_entriesBelow level parent (id + b.size) bs, Branch.sizes, numbersFrom_add]

end

/-! ### Parents -/

/-- The parent of an entry is an entry from a number on, or the parent of all. -/
def OverlayEntry.ParentFrom (parent : Option Int) (id : Int) (e : OverlayEntry) : Prop :=
  e.parent = parent ∨ ∃ q, e.parent = some q ∧ id ≤ q ∧ q < e.id

/-- A parent from a later number on is one from an earlier number on. -/
theorem OverlayEntry.ParentFrom.mono {parent : Option Int} {id id' : Int} {e : OverlayEntry}
    (h : e.ParentFrom parent id') (hid : id ≤ id') : e.ParentFrom parent id := by
  rcases h with h | ⟨q, hq, hle, hlt⟩
  · exact .inl h
  · exact .inr ⟨q, hq, Int.le_trans hid hle, hlt⟩

mutual

/-- Within a branch, parents come before their children. -/
theorem parent_of_mem_entriesOf (level : Nat) (parent : Option Int) (isLast : Bool) (id : Int) :
    (b : Branch) → ∀ e ∈ entriesOf level parent isLast id b, e.ParentFrom parent id
  | .branch text target below => by
    intro e he
    rw [entriesOf] at he
    rcases List.mem_cons.1 he with rfl | he
    · exact .inl rfl
    · have hid : e.id ∈ numbersFrom (id + 1) (Branch.sizes below) := by
        rw [← map_id_entriesBelow (level + 1) (some id) (id + 1) below]
        exact List.mem_map_of_mem he
      rw [mem_numbersFrom] at hid
      -- below the branch, what is not deeper down has the branch as its parent
      rcases parent_of_mem_entriesBelow (level + 1) (some id) (id + 1) below e he with h | h
      · exact .inr ⟨id, h, Int.le_refl id, by omega⟩
      · obtain ⟨q, hq, hle, hlt⟩ := h
        exact .inr ⟨q, hq, by omega, hlt⟩

/-- **Among neighbours, parents come before their children.** -/
theorem parent_of_mem_entriesBelow (level : Nat) (parent : Option Int) (id : Int) :
    (bs : List Branch) → ∀ e ∈ entriesBelow level parent id bs, e.ParentFrom parent id
  | [] => fun e he => nomatch he
  | b :: bs => by
    intro e he
    rw [entriesBelow] at he
    rcases List.mem_append.1 he with he | he
    · exact parent_of_mem_entriesOf level parent bs.isEmpty id b e he
    · exact (parent_of_mem_entriesBelow level parent (id + b.size) bs e he).mono (by omega)

end

/-! ### Targets -/

/-- **What holds of all targets of a branch.** -/
inductive Branch.All (P : LineTarget → Prop) : Branch → Prop
  | branch {text : Text} {target : LineTarget} {below : List Branch} (here : P target)
      (deeper : ∀ b ∈ below, b.All P) : All P (.branch text target below)

/-- The target of a branch is one of all its targets. -/
theorem Branch.All.target {P : LineTarget → Prop} {b : Branch} (h : b.All P) : P b.target := by
  cases h with
  | branch here deeper => exact here

/-- An entry stands at a line of which something holds. -/
def OverlayEntry.At (P : LineTarget → Prop) (e : OverlayEntry) : Prop :=
  ∃ t, P t ∧ e.line = some t.line ∧ e.lineIndex = some t.index

section Targets

variable {P : LineTarget → Prop}

mutual

/-- The entries of a branch stand at its targets. -/
theorem exists_target_of_mem_entriesOf (level : Nat) (parent : Option Int) (isLast : Bool)
    (id : Int) : (b : Branch) → b.All P → ∀ e ∈ entriesOf level parent isLast id b, e.At P
  | .branch text target below, h => by
    intro e he
    cases h with
    | branch here deeper =>
      rw [entriesOf] at he
      rcases List.mem_cons.1 he with rfl | he
      · exact ⟨target, here, rfl, rfl⟩
      · exact exists_target_of_mem_entriesBelow (level + 1) (some id) (id + 1) below deeper e he

/-- **The entries of neighbours stand at their targets.** -/
theorem exists_target_of_mem_entriesBelow (level : Nat) (parent : Option Int) (id : Int) :
    (bs : List Branch) → (∀ b ∈ bs, b.All P) → ∀ e ∈ entriesBelow level parent id bs, e.At P
  | [], _ => fun e he => nomatch he
  | b :: bs, h => by
    intro e he
    rw [entriesBelow] at he
    rcases List.mem_append.1 he with he | he
    · exact exists_target_of_mem_entriesOf level parent bs.isEmpty id b (h b List.mem_cons_self) e he
    · exact exists_target_of_mem_entriesBelow level parent (id + b.size) bs
        (fun c hc => h c (List.mem_cons_of_mem _ hc)) e he

end

end Targets

/-! ### Trees -/

/-- **A line of a book** that has lines from a number in the corpus on. -/
structure LineTarget.Within (book firstLine : Int) (total : Nat) (t : LineTarget) : Prop where
  book_eq : t.book = book
  index_nonneg : 0 ≤ t.index
  index_lt : t.index < total
  line_eq : t.line = firstLine + t.index

namespace OverlayTree

/-- **A tree whose parents and lines are its own**, over a block of lines. -/
structure WellFormed (firstLine : Int) (total : Nat) (t : OverlayTree) : Prop where
  entry_line : ∀ e ∈ t.entries, ∃ i : Int, 0 ≤ i ∧ i < total ∧ e.lineIndex = some i ∧
    e.line = some (firstLine + i)
  entry_parent : ∀ e ∈ t.entries, ∀ q, e.parent = some q → ∃ f ∈ t.entries, f.id = q ∧ q < e.id
  /-- Lines are mapped in their order, each at most once. -/
  lineMap_line : (t.lineMap.map (·.1)).Sublist (numbersFrom firstLine total)
  lineMap_entry : ∀ m ∈ t.lineMap, ∃ e ∈ t.entries, e.id = m.2

section OfBranches

variable {book firstLine : Int} {total : Nat} {branches : List Branch}

/-- The entries of a placed overlay are numbered from 1 on. -/
theorem map_id_entries_ofBranches (head : OverlayHead) (branches : List Branch)
    (firstLine total : Int) :
    (ofBranches head branches firstLine total).entries.map (·.id) =
      numbersFrom 1 (ofBranches head branches firstLine total).entries.length := by
  have hids := map_id_entriesBelow 0 none 1 branches
  rw [← length_entriesBelow 0 none 1 branches] at hids
  exact hids

/-- **Branches placed at lines of a book make a well-formed tree.** -/
theorem wellFormed_ofBranches (h : ∀ b ∈ branches, b.All (·.Within book firstLine total))
    (head : OverlayHead) :
    (ofBranches head branches firstLine total).WellFormed firstLine total where
  entry_line := by
    intro e he
    obtain ⟨t, ht, hline, hindex⟩ := exists_target_of_mem_entriesBelow 0 none 1 branches h e he
    exact ⟨t.index, ht.index_nonneg, ht.index_lt, hindex, ht.line_eq ▸ hline⟩
  entry_parent := by
    intro e he q hq
    rcases parent_of_mem_entriesBelow 0 none 1 branches e he with hroot | ⟨r, hr, hle, hlt⟩
    · rw [hq] at hroot
      cases hroot
    · obtain rfl : r = q := Option.some.inj (hr.symm.trans hq)
      -- the numbers of the entries have no gap, so an earlier number is that of an entry
      have hids := map_id_entriesBelow 0 none 1 branches
      have hid : e.id ∈ numbersFrom 1 (Branch.sizes branches) := hids ▸ List.mem_map_of_mem he
      have hparent : r ∈ numbersFrom 1 (Branch.sizes branches) := by
        rw [mem_numbersFrom] at hid ⊢
        omega
      rw [← hids] at hparent
      obtain ⟨f, hf, hfid⟩ := List.mem_map.1 hparent
      exact ⟨f, hf, hfid, hlt⟩
  lineMap_line := map_fst_mapLines_sublist _ firstLine total
  lineMap_entry := by
    intro m hm
    obtain ⟨a, ha, hid⟩ := exists_anchor_of_mem_mapLines hm
    obtain ⟨e, he, hstart⟩ := List.mem_filterMap.1 ha
    obtain ⟨line, -, rfl⟩ := Option.map_eq_some_iff.1 hstart
    exact ⟨e, he, hid⟩

end OfBranches

section Rebased

variable {firstLine : Int} {total : Nat} {t : OverlayTree}

/-- The numbers of the entries are moved as a block. -/
theorem map_id_entries_rebased (h : t.entries.map (·.id) = numbersFrom 1 t.entries.length)
    (id offset : Int) :
    (t.rebased id offset).entries.map (·.id) = numbersFrom (1 + offset) t.entries.length := by
  rw [← map_add_numbersFrom, ← h, rebased, List.map_map, List.map_map]
  rfl

/-- The entries of a renumbered tree have its number. -/
theorem overlay_of_mem_rebased {id offset : Int} {e : OverlayEntry}
    (h : e ∈ (t.rebased id offset).entries) : e.overlay = id := by
  obtain ⟨f, -, rfl⟩ := List.mem_map.1 h
  rfl

/-- **A tree stays well-formed when it is renumbered.** -/
theorem WellFormed.rebased (h : t.WellFormed firstLine total) (id offset : Int) :
    (t.rebased id offset).WellFormed firstLine total where
  entry_line := by
    intro e he
    obtain ⟨f, hf, rfl⟩ := List.mem_map.1 he
    exact h.entry_line f hf
  entry_parent := by
    intro e he q hq
    obtain ⟨f, hf, rfl⟩ := List.mem_map.1 he
    obtain ⟨r, hr, rfl⟩ := Option.map_eq_some_iff.1 hq
    obtain ⟨g, hg, rfl, hlt⟩ := h.entry_parent f hf r hr
    refine ⟨_, List.mem_map_of_mem hg, rfl, ?_⟩
    show g.id + offset < f.id + offset
    omega
  lineMap_line := by
    rw [OverlayTree.rebased, List.map_map]
    exact h.lineMap_line
  lineMap_entry := by
    intro m hm
    obtain ⟨n, hn, rfl⟩ := List.mem_map.1 hm
    obtain ⟨e, he, hid⟩ := h.lineMap_entry n hn
    refine ⟨_, List.mem_map_of_mem he, ?_⟩
    show e.id + offset = n.2 + offset
    rw [hid]

end Rebased

end OverlayTree

end HebrewCorpus
