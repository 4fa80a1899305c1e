import HebrewCorpus.Proofs.Overlay.Entries

/-! # The order of overlay entries

The entries of a forest of branches stand in depth-first order: right behind an entry come those
below it, and behind those the others.

* **`exists_parent_of_mem_entriesBelow`**: an entry stands one level below its parent.
* **`OverlayEntry.Heads`**: where an entry stands among others; `exists_heads_of_mem` finds the place
  of every entry.
* **`OverlayEntry.Descends`**: an entry is below another one.
* **`OverlayTree.PreOrdered`**: entries in depth-first order, with parents, levels and marks that are
  right; `preOrdered_ofBranches` finds those of all branches so. -/

namespace HebrewCorpus

/-! ### Levels -/

/-- **The parent of an entry is among some entries**, one level above; or it is the parent of all,
and the level is that of all. -/
def OverlayEntry.ParentAmong (parent : Option Int) (level : Nat) (es : List OverlayEntry)
    (e : OverlayEntry) : Prop :=
  e.parent = parent ∧ e.level = level ∨
    ∃ f ∈ es, e.parent = some f.id ∧ f.id < e.id ∧ e.level = f.level + 1

/-- A parent among some entries is among more. -/
theorem OverlayEntry.ParentAmong.mono {parent : Option Int} {level : Nat}
    {es more : List OverlayEntry} {e : OverlayEntry} (h : e.ParentAmong parent level es)
    (hsub : ∀ f ∈ es, f ∈ more) : e.ParentAmong parent level more := by
  rcases h with h | ⟨f, hf, h⟩
  · exact .inl h
  · exact .inr ⟨f, hsub f hf, h⟩

/-- The numbers of entries. -/
theorem id_of_mem_entriesBelow {level : Nat} {parent : Option Int} {id : Int} {bs : List Branch}
    {e : OverlayEntry} (he : e ∈ entriesBelow level parent id bs) :
    id ≤ e.id ∧ e.id < id + Branch.sizes bs := by
  have hid := List.mem_map_of_mem (f := fun e : OverlayEntry => e.id) he
  rwa [map_id_entriesBelow, mem_numbersFrom] at hid

mutual

/-- Within a branch, entries stand one level below their parents. -/
theorem exists_parent_of_mem_entriesOf (level : Nat) (parent : Option Int) (isLast : Bool)
    (id : Int) : (b : Branch) → ∀ e ∈ entriesOf level parent isLast id b,
      e.ParentAmong parent level (entriesOf level parent isLast id b)
  | .branch text target below => by
    intro e he
    rw [entriesOf] at he ⊢
    rcases List.mem_cons.1 he with rfl | he
    · exact .inl ⟨rfl, rfl⟩
    · refine .inr ?_
      have hid := id_of_mem_entriesBelow he
      rcases exists_parent_of_mem_entriesBelow (level + 1) (some id) (id + 1) below e he with h | h
      · -- the head of the branch is the parent of those right below it
        obtain ⟨hparent, hlevel⟩ := h
        exact ⟨_, List.mem_cons_self, hparent, by dsimp only; omega, by dsimp only; omega⟩
      · obtain ⟨f, hf, h⟩ := h
        exact ⟨f, List.mem_cons_of_mem _ hf, h⟩

/-- **Among neighbours, entries stand one level below their parents.** -/
theorem exists_parent_of_mem_entriesBelow (level : Nat) (parent : Option Int) (id : Int) :
    (bs : List Branch) → ∀ e ∈ entriesBelow level parent id bs,
      e.ParentAmong parent level (entriesBelow level parent id bs)
  | [] => fun e he => nomatch he
  | b :: bs => by
    intro e he
    rw [entriesBelow] at he ⊢
    rcases List.mem_append.1 he with he | he
    · exact (exists_parent_of_mem_entriesOf level parent bs.isEmpty id b e he).mono
        fun f hf => List.mem_append_left _ hf
    · exact (exists_parent_of_mem_entriesBelow level parent (id + b.size) bs e he).mono
        fun f hf => List.mem_append_right _ hf

end

/-! ### Places -/

/-- **Where an entry stands among others**: the entries below it come right behind it. Of those that
follow, none has its parent in between, and the entry is marked as the last child when none shares
its parent. -/
structure OverlayEntry.Heads (e : OverlayEntry) (es front behind : List OverlayEntry) (level : Nat)
    (below : List Branch) : Prop where
  split : es = front ++ e :: (entriesBelow level (some e.id) (e.id + 1) below ++ behind)
  hasChildren : e.hasChildren = !below.isEmpty
  parent_behind : ∀ f ∈ behind, ∀ q, f.parent = some q → q < e.id ∨ e.id + Branch.sizes below < q
  last_iff : e.isLastChild = true ↔ ∀ f ∈ behind, f.parent ≠ e.parent

namespace OverlayEntry.Heads

variable {e : OverlayEntry} {es front behind : List OverlayEntry} {level : Nat} {below : List Branch}

/-- More entries in front. -/
theorem append_front (h : e.Heads es front behind level below) (more : List OverlayEntry) :
    e.Heads (more ++ es) (more ++ front) behind level below where
  split := by rw [h.split, List.append_assoc]
  hasChildren := h.hasChildren
  parent_behind := h.parent_behind
  last_iff := h.last_iff

/-- More entries behind, none of which is below the entry or has its parent. -/
theorem append_behind (h : e.Heads es front behind level below) {more : List OverlayEntry}
    (hmore : ∀ f ∈ more, ∀ q, f.parent = some q → q < e.id ∨ e.id + Branch.sizes below < q)
    (hparent : ∀ f ∈ more, f.parent ≠ e.parent) :
    e.Heads (es ++ more) front (behind ++ more) level below where
  split := by simp [h.split]
  hasChildren := h.hasChildren
  parent_behind := by
    intro f hf
    rcases List.mem_append.1 hf with hf | hf
    · exact h.parent_behind f hf
    · exact hmore f hf
  last_iff := by
    rw [h.last_iff]
    constructor
    · intro hbehind f hf
      rcases List.mem_append.1 hf with hf | hf
      · exact hbehind f hf
      · exact hparent f hf
    · intro hall f hf
      exact hall f (List.mem_append_left _ hf)

/-- **The numbers around an entry**, when all are numbered one after the other. -/
theorem ids (h : e.Heads es front behind level below) {first : Int} {count : Nat}
    (hids : es.map (·.id) = numbersFrom first count) :
    count = front.length + (Branch.sizes below + 1 + behind.length) ∧
      e.id = first + front.length ∧ (∀ f ∈ front, f.id < e.id) ∧
        ∀ f ∈ behind, e.id + Branch.sizes below < f.id := by
  have hlength := congrArg List.length hids
  rw [h.split, List.length_map, length_numbersFrom] at hlength
  simp only [List.length_append, List.length_cons, length_entriesBelow] at hlength
  have hcount : count = front.length + (Branch.sizes below + 1 + behind.length) := by omega
  -- the numbers in front of the entry fill the block up to it, and those behind it the rest
  rw [h.split, hcount, numbersFrom_add, List.map_append, numbersFrom_add _ (_ + 1),
    ← List.cons_append, List.map_append] at hids
  obtain ⟨hfront, hback⟩ := List.append_inj hids (by simp)
  obtain ⟨hrun, hbehind⟩ := List.append_inj hback (by simp [length_entriesBelow])
  rw [numbersFrom, List.map_cons] at hrun
  have hid := (List.cons.inj hrun).1
  refine ⟨hcount, hid, ?_, ?_⟩
  · intro f hf
    have hmem := List.mem_map_of_mem (f := fun e : OverlayEntry => e.id) hf
    rw [hfront, mem_numbersFrom] at hmem
    omega
  · intro f hf
    have hmem := List.mem_map_of_mem (f := fun e : OverlayEntry => e.id) hf
    rw [hbehind, mem_numbersFrom] at hmem
    omega

end OverlayEntry.Heads

section Places

variable {level : Nat} {parent : Option Int} {id : Int}

/-- The parent of an entry is not between an earlier branch and its end. -/
theorem parent_outside_of_mem (hparent : ∀ q, parent = some q → q < id) {size : Nat}
    {bs : List Branch} {f : OverlayEntry}
    (hf : f ∈ entriesBelow level parent (id + size) bs) {q : Int} (hq : f.parent = some q) :
    q < id ∨ id + size ≤ q := by
  rcases parent_of_mem_entriesBelow level parent (id + size) bs f hf with hroot | ⟨r, hr, hle, -⟩
  · exact .inl (hparent q (hroot ▸ hq))
  · obtain rfl : r = q := Option.some.inj (hr.symm.trans hq)
    exact .inr hle

/-- **The head of the first branch** is marked as the last child when there is no other branch. -/
theorem heads_first (hparent : ∀ q, parent = some q → q < id) (text : Text) (target : LineTarget)
    (below bs : List Branch) :
    OverlayEntry.Heads ⟨id, 0, parent, text, level, some target.line, some target.index,
        !below.isEmpty, bs.isEmpty⟩
      (entriesBelow level parent id (.branch text target below :: bs)) []
      (entriesBelow level parent (id + (Branch.sizes below + 1 : Nat)) bs) (level + 1) below where
  split := by simp [entriesBelow, entriesOf, Branch.size]
  hasChildren := rfl
  parent_behind := by
    intro f hf q hq
    have houtside := parent_outside_of_mem hparent hf hq
    dsimp only
    omega
  last_iff := by
    cases bs with
    | nil => simp [entriesBelow]
    | cons c bs =>
      -- the next branch has the same parent
      obtain ⟨text', target', below'⟩ := c
      simp [entriesBelow, entriesOf]

/-- An entry of a later branch keeps its place. -/
theorem OverlayEntry.Heads.of_rest {e : OverlayEntry} {front behind : List OverlayEntry} {lv : Nat}
    {text : Text} {target : LineTarget} {below bs deeper : List Branch}
    (h : e.Heads (entriesBelow level parent (id + (Branch.sizes below + 1 : Nat)) bs) front behind lv
      deeper) :
    ∃ front behind lv deeper,
      e.Heads (entriesBelow level parent id (.branch text target below :: bs)) front behind lv
        deeper := by
  rw [entriesBelow, Branch.size]
  exact ⟨_, _, lv, deeper, h.append_front _⟩

/-- An entry below the first branch keeps its place, as no entry of a later branch has a parent in
the first one. -/
theorem OverlayEntry.Heads.of_below (hparent : ∀ q, parent = some q → q < id) {e : OverlayEntry}
    {front behind : List OverlayEntry} {lv : Nat} {text : Text} {target : LineTarget}
    {below bs deeper : List Branch} (he : e ∈ entriesBelow (level + 1) (some id) (id + 1) below)
    (h : e.Heads (entriesBelow (level + 1) (some id) (id + 1) below) front behind lv deeper) :
    ∃ front behind lv deeper,
      e.Heads (entriesBelow level parent id (.branch text target below :: bs)) front behind lv
        deeper := by
  obtain ⟨hcount, hid, -⟩ := h.ids (map_id_entriesBelow (level + 1) (some id) (id + 1) below)
  obtain ⟨r, hr, hle, hlt⟩ : ∃ r, e.parent = some r ∧ id ≤ r ∧ r < e.id := by
    rcases parent_of_mem_entriesBelow (level + 1) (some id) (id + 1) below e he with
      hr | ⟨r, hr, hle, hlt⟩
    · exact ⟨id, hr, by omega, by omega⟩
    · exact ⟨r, hr, by omega, hlt⟩
  rw [entriesBelow, entriesOf, Branch.size]
  refine ⟨_ :: front, _, lv, deeper, (h.append_front [_]).append_behind ?_ ?_⟩
  · intro f hf q hq
    have houtside := parent_outside_of_mem hparent hf hq
    omega
  · intro f hf heq
    have houtside := parent_outside_of_mem hparent hf (heq.trans hr)
    omega

end Places

/-- **Every entry has its place** among its neighbours, whose common parent has an earlier number. -/
theorem exists_heads_of_mem (level : Nat) (parent : Option Int) (id : Int)
    (hparent : ∀ q, parent = some q → q < id) :
    (bs : List Branch) → ∀ e ∈ entriesBelow level parent id bs,
      ∃ front behind lv deeper, e.Heads (entriesBelow level parent id bs) front behind lv deeper
  | [] => fun e he => nomatch he
  | .branch text target below :: bs => by
    intro e he
    rw [entriesBelow, entriesOf, Branch.size] at he
    rcases List.mem_append.1 he with he | he
    · rcases List.mem_cons.1 he with rfl | he
      · exact ⟨_, _, _, _, heads_first hparent text target below bs⟩
      · have hid : ∀ q, some id = some q → q < id + 1 := by
          intro q hq
          cases hq
          omega
        obtain ⟨front, behind, lv, deeper, h⟩ :=
          exists_heads_of_mem (level + 1) (some id) (id + 1) hid below e he
        exact h.of_below hparent he
    · have hrest : ∀ q, parent = some q → q < id + (Branch.sizes below + 1 : Nat) := by
        intro q hq
        have hlt := hparent q hq
        omega
      obtain ⟨front, behind, lv, deeper, h⟩ := exists_heads_of_mem level parent _ hrest bs e he
      exact h.of_rest
termination_by bs => Branch.sizes bs
decreasing_by
  all_goals
    simp only [Branch.sizes, Branch.size]
    omega

/-! ### Descent -/

/-- **An entry is below another one**: it names that one as its parent, or one below that. -/
inductive OverlayEntry.Descends (es : List OverlayEntry) (e : OverlayEntry) : OverlayEntry → Prop
  | child {f : OverlayEntry} (parent : f.parent = some e.id) : Descends es e f
  | deeper {f g : OverlayEntry} (mem : g ∈ es) (above : Descends es e g)
      (parent : f.parent = some g.id) : Descends es e f

section Descent

variable {level : Nat} {parent : Option Int} {id : Int} {bs : List Branch}

/-- A parent has an earlier number. -/
theorem parent_lt_of_mem (hparent : ∀ q, parent = some q → q < id) {e : OverlayEntry}
    (he : e ∈ entriesBelow level parent id bs) {q : Int} (hq : e.parent = some q) : q < e.id := by
  rcases parent_of_mem_entriesBelow level parent id bs e he with hroot | ⟨r, hr, -, hlt⟩
  · have hid := (id_of_mem_entriesBelow he).1
    have hlt := hparent q (hroot ▸ hq)
    omega
  · obtain rfl : r = q := Option.some.inj (hr.symm.trans hq)
    exact hlt

variable {e : OverlayEntry} {front behind : List OverlayEntry} {lv : Nat} {below : List Branch}

namespace OverlayEntry.Heads

/-- An entry in front, the entry itself, one right behind it, or another one. -/
theorem mem_iff (h : e.Heads (entriesBelow level parent id bs) front behind lv below)
    {f : OverlayEntry} : f ∈ entriesBelow level parent id bs ↔
      f ∈ front ∨ f = e ∨ f ∈ entriesBelow lv (some e.id) (e.id + 1) below ∨ f ∈ behind := by
  rw [h.split, List.mem_append, List.mem_cons, List.mem_append]

/-- An entry whose parent is the entry or right behind it is right behind it, too. -/
theorem mem_run_of_parent (h : e.Heads (entriesBelow level parent id bs) front behind lv below)
    (hparent : ∀ q, parent = some q → q < id) {f : OverlayEntry}
    (hf : f ∈ entriesBelow level parent id bs) {q : Int} (hq : f.parent = some q)
    (hle : e.id ≤ q) (hge : q ≤ e.id + Branch.sizes below) :
    f ∈ entriesBelow lv (some e.id) (e.id + 1) below := by
  obtain ⟨-, -, hfront, -⟩ := h.ids (map_id_entriesBelow level parent id bs)
  have hlt := parent_lt_of_mem hparent hf hq
  rcases h.mem_iff.1 hf with hf | rfl | hf | hf
  · have hid := hfront f hf
    omega
  · omega
  · exact hf
  · have hbehind := h.parent_behind f hf q hq
    omega

/-- **Those right behind an entry are those below it.** -/
theorem mem_run_iff (h : e.Heads (entriesBelow level parent id bs) front behind lv below)
    (hparent : ∀ q, parent = some q → q < id) {f : OverlayEntry}
    (hf : f ∈ entriesBelow level parent id bs) :
    f ∈ entriesBelow lv (some e.id) (e.id + 1) below ↔
      e.Descends (entriesBelow level parent id bs) f := by
  have hmem {g : OverlayEntry} (hg : g ∈ entriesBelow lv (some e.id) (e.id + 1) below) :
      g ∈ entriesBelow level parent id bs := h.mem_iff.2 (.inr (.inr (.inl hg)))
  constructor
  · -- by induction on the number: the parent of an entry has an earlier one
    intro hrun
    induction hn : (f.id - e.id).toNat using Nat.strongRecOn generalizing f with
    | ind n ih =>
      rcases exists_parent_of_mem_entriesBelow lv (some e.id) (e.id + 1) below f hrun with
        ⟨hchild, -⟩ | ⟨g, hg, hchild, hlt, -⟩
      · exact .child hchild
      · have hid := id_of_mem_entriesBelow hg
        exact .deeper (hmem hg) (ih _ (by omega) (hmem hg) hg rfl) hchild
  · intro hdescends
    induction hdescends with
    | child hchild => exact h.mem_run_of_parent hparent hf hchild (by omega) (by omega)
    | deeper hg _ hchild ih =>
      have hid := id_of_mem_entriesBelow (ih hg)
      exact h.mem_run_of_parent hparent hf hchild (by omega) (by omega)

/-- **An entry is marked as a parent** when another one names it. -/
theorem hasChildren_iff (h : e.Heads (entriesBelow level parent id bs) front behind lv below)
    (hparent : ∀ q, parent = some q → q < id) :
    e.hasChildren = true ↔ ∃ f ∈ entriesBelow level parent id bs, f.parent = some e.id := by
  rw [h.hasChildren]
  constructor
  · intro hbelow
    cases below with
    | nil => cases hbelow
    | cons c cs =>
      obtain ⟨text, target, deeper⟩ := c
      -- the first entry right behind it names it
      have hfirst : (⟨e.id + 1, 0, some e.id, text, lv, some target.line, some target.index,
          !deeper.isEmpty, cs.isEmpty⟩ : OverlayEntry) ∈
            entriesBelow lv (some e.id) (e.id + 1) (.branch text target deeper :: cs) :=
        List.mem_append_left _ List.mem_cons_self
      exact ⟨_, h.mem_iff.2 (.inr (.inr (.inl hfirst))), rfl⟩
  · rintro ⟨f, hf, hchild⟩
    have hrun := h.mem_run_of_parent hparent hf hchild (by omega) (by omega)
    cases below with
    | nil => cases hrun
    | cons c cs => rfl

/-- **An entry is marked as the last child** when none with its parent has a later number. -/
theorem isLastChild_iff (h : e.Heads (entriesBelow level parent id bs) front behind lv below)
    (hparent : ∀ q, parent = some q → q < id) (he : e ∈ entriesBelow level parent id bs) :
    e.isLastChild = true ↔
      ∀ f ∈ entriesBelow level parent id bs, f.parent = e.parent → f.id ≤ e.id := by
  obtain ⟨-, -, hfront, hbehind⟩ := h.ids (map_id_entriesBelow level parent id bs)
  rw [h.last_iff]
  constructor
  · intro hlast f hf hshare
    rcases h.mem_iff.1 hf with hf | rfl | hf | hf
    · have hid := hfront f hf
      omega
    · exact Int.le_refl _
    · -- those below the entry have it or another one below it as their parent
      exfalso
      rcases parent_of_mem_entriesBelow lv (some e.id) (e.id + 1) below f hf with
        hq | ⟨q, hq, hle, -⟩
      · have hlt := parent_lt_of_mem hparent he (hshare.symm.trans hq)
        omega
      · have hlt := parent_lt_of_mem hparent he (hshare.symm.trans hq)
        omega
    · exact absurd hshare (hlast f hf)
  · intro hall f hf hshare
    have hle := hall f (h.mem_iff.2 (.inr (.inr (.inr hf)))) hshare
    have hid := hbehind f hf
    omega

end OverlayEntry.Heads

end Descent

namespace OverlayTree

/-- **Entries in depth-first order**, with parents, levels and marks that are right. -/
structure PreOrdered (t : OverlayTree) : Prop where
  entry_ids : t.entries.map (·.id) = numbersFrom 1 t.entries.length
  root_level : ∀ e ∈ t.entries, e.parent = none → e.level = 0
  entry_parent : ∀ e ∈ t.entries, ∀ q, e.parent = some q →
    ∃ f ∈ t.entries, f.id = q ∧ q < e.id ∧ e.level = f.level + 1
  /-- Those below an entry come right behind it, one after the other. -/
  entry_run : ∀ e ∈ t.entries, ∃ front run behind, t.entries = front ++ e :: (run ++ behind) ∧
    ∀ f ∈ t.entries, f ∈ run ↔ e.Descends t.entries f
  hasChildren_iff : ∀ e ∈ t.entries, e.hasChildren = true ↔ ∃ f ∈ t.entries, f.parent = some e.id
  isLastChild_iff : ∀ e ∈ t.entries, e.isLastChild = true ↔
    ∀ f ∈ t.entries, f.parent = e.parent → f.id ≤ e.id
  placed : ∀ e ∈ t.entries, e.line.isSome = true ∧ e.lineIndex.isSome = true

/-- Something holds of all targets of a branch that holds of every target. -/
theorem all_of_forall {P : LineTarget → Prop} (h : ∀ t, P t) : (b : Branch) → b.All P
  | .branch _ target below => .branch (h target) fun c _ => all_of_forall h c

/-- **Branches make entries in depth-first order.** -/
theorem preOrdered_ofBranches (head : OverlayHead) (branches : List Branch)
    (firstLine total : Int) : (ofBranches head branches firstLine total).PreOrdered := by
  -- there is no entry above all of them
  have hparent : ∀ q, (none : Option Int) = some q → q < 1 := fun q hq => nomatch hq
  have parents := exists_parent_of_mem_entriesBelow 0 none 1 branches
  have heads := exists_heads_of_mem 0 none 1 hparent branches
  exact {
    entry_ids := map_id_entries_ofBranches head branches firstLine total
    root_level := by
      intro e he hroot
      rcases parents e he with ⟨-, hlevel⟩ | ⟨f, -, hq, -⟩
      · exact hlevel
      · rw [hroot] at hq
        cases hq
    entry_parent := by
      intro e he q hq
      rcases parents e he with ⟨hroot, -⟩ | ⟨f, hf, hr, hlt, hlevel⟩
      · rw [hq] at hroot
        cases hroot
      · obtain rfl : f.id = q := Option.some.inj (hr.symm.trans hq)
        exact ⟨f, hf, rfl, hlt, hlevel⟩
    entry_run := by
      intro e he
      obtain ⟨front, behind, lv, deeper, h⟩ := heads e he
      exact ⟨front, _, behind, h.split, fun f hf => h.mem_run_iff hparent hf⟩
    hasChildren_iff := by
      intro e he
      obtain ⟨front, behind, lv, deeper, h⟩ := heads e he
      exact h.hasChildren_iff hparent
    isLastChild_iff := by
      intro e he
      obtain ⟨front, behind, lv, deeper, h⟩ := heads e he
      exact h.isLastChild_iff hparent he
    placed := by
      intro e he
      have hall : ∀ b ∈ branches, b.All fun _ => True := fun b _ =>
        all_of_forall (fun _ => trivial) b
      obtain ⟨t, -, hline, hindex⟩ := exists_target_of_mem_entriesBelow 0 none 1 branches hall e he
      rw [hline, hindex]
      exact ⟨rfl, rfl⟩ }

end OverlayTree

end HebrewCorpus
