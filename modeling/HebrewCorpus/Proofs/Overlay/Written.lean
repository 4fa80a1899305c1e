import HebrewCorpus.Proofs.Book.Flat
import HebrewCorpus.Proofs.Overlay.Items
import HebrewCorpus.Proofs.Overlay.Preorder
import HebrewCorpus.Proofs.Overlay.Walk

/-! # Overlays as they are written

The drafts that are left on a sheet, numbered in their order, are the entries of the placed overlay.

* **`DraftSheet.numberIn_eq`**: distinct numbers are numbered by their places.
* **`NumberedBranch.Lasts`**: some numbers are those of the last nodes among their neighbours.
* **`DraftSheet.entries_eq_ok`**: the entries of a sheet that holds branches are theirs.
* **`OverlayTree.draft_eq`**: an overlay is written as it is placed; `preOrdered_build` is what holds
  of the tree, however it is made. -/

namespace HebrewCorpus

namespace DraftSheet

/-! ### Numbers -/

/-- A number behind others is found at its place. -/
theorem numberIn_append {front behind : List Nat} {id : Nat} (h : id ∉ front) :
    numberIn (front ++ id :: behind) id = .ok (front.length + 1 : Nat) := by
  have hidx : (front ++ id :: behind).idxOf? id = some front.length := by
    rw [List.idxOf?_eq_some_iff]
    refine ⟨by simp, by simp, fun j hj => ?_⟩
    rw [List.getElem_append_left hj]
    exact fun heq => h (heq ▸ List.getElem_mem hj)
  rw [numberIn, hidx]
  rfl

/-- **Distinct numbers are numbered by their places.** -/
theorem map_numberIn (front ids : List Nat) (h : (front ++ ids).Nodup) :
    ids.map (numberIn (front ++ ids)) =
      (numbersFrom (front.length + 1 : Nat) ids.length).map .ok := by
  induction ids generalizing front with
  | nil => rfl
  | cons id ids ih =>
    have hfront : id ∉ front := by
      intro hmem
      exact (List.nodup_append.1 h).2.2 id hmem id List.mem_cons_self rfl
    have happend : front ++ id :: ids = (front ++ [id]) ++ ids := by
      rw [List.append_assoc, List.singleton_append]
    have hrest := ih (front ++ [id]) (happend ▸ h)
    rw [← happend, List.length_append, List.length_singleton] at hrest
    rw [List.map_cons, numberIn_append hfront, hrest]
    rfl

end DraftSheet

namespace NumberedBranch

mutual

/-- A branch has as many numbers as entries. -/
theorem length_ids : (b : NumberedBranch) → b.ids.length = b.plain.size
  | .branch id text target below => by
    rw [ids, plain, Branch.size, List.length_cons, length_idsBelow below]

/-- Neighbours have as many numbers as entries. -/
theorem length_idsBelow : (bs : List NumberedBranch) →
    (idsBelow bs).length = Branch.sizes (plains bs)
  | [] => rfl
  | b :: bs => by
    rw [idsBelow, plains, Branch.sizes, List.length_append, length_ids b, length_idsBelow bs]

end

/-! ### Last ones -/

mutual

/-- **Below a branch, some numbers are those of the last nodes** among their neighbours. -/
def Last (last : List Nat) : NumberedBranch → Prop
  | .branch _ _ _ below => Lasts last below

/-- **Some numbers are those of the last nodes** among neighbours, and below them. -/
def Lasts (last : List Nat) : List NumberedBranch → Prop
  | [] => True
  | b :: bs => last.elem b.id = bs.isEmpty ∧ b.Last last ∧ Lasts last bs

end

/-- Lists without common items that share one are the same. -/
theorem eq_of_mem_of_mem {ls : List (List Nat)} (h : ls.flatten.Nodup) {l m : List Nat} (hl : l ∈ ls)
    (hm : m ∈ ls) {i : Nat} (hil : i ∈ l) (him : i ∈ m) : l = m := by
  have hdisjoint := List.pairwise_iff_getElem.1 (List.pairwise_flatten.1 h).2
  obtain ⟨a, ha, rfl⟩ := List.mem_iff_getElem.1 hl
  obtain ⟨b, hb, rfl⟩ := List.mem_iff_getElem.1 hm
  by_cases hab : a = b
  · subst hab
    rfl
  · rcases Nat.lt_or_gt_of_ne hab with hlt | hgt
    · exact absurd rfl (hdisjoint a b ha hb hlt i hil i him)
    · exact absurd rfl (hdisjoint b a hb ha hgt i him i hil)

/-- **In lists without common items, an item is the last one of a list** when it is the last one of
its own. -/
theorem mem_lasts_iff {ls : List (List Nat)} (h : ls.flatten.Nodup) {front behind : List Nat}
    {i : Nat} (hmem : front ++ i :: behind ∈ ls) :
    i ∈ ls.filterMap (·.getLast?) ↔ behind = [] := by
  rw [List.mem_filterMap]
  constructor
  · rintro ⟨l, hl, hlast⟩
    obtain ⟨init, rfl⟩ := List.getLast?_eq_some_iff.1 hlast
    have heq := eq_of_mem_of_mem h hl hmem (i := i) (by simp) (by simp)
    -- the item is in its list once, so nothing can stand behind it
    have hnodup := (List.pairwise_flatten.1 h).1 _ hmem
    cases behind with
    | nil => rfl
    | cons j js =>
      exfalso
      have hlast : (j :: js).getLast? = some i := by
        have hget := congrArg List.getLast? heq
        simpa using hget.symm
      have hlater : i ∈ j :: js := List.mem_of_getLast? hlast
      exact (List.nodup_cons.1 (List.nodup_append.1 hnodup).2.1).1 hlater
  · rintro rfl
    exact ⟨_, hmem, by simp⟩

/-- The numbers right below some drafts. -/
def childrenOf (ds : List Draft) : List Nat := (ds.map (·.children)).flatten

mutual

/-- Each number of a branch but the first one is right below one draft. -/
theorem perm_ids (level : Nat) (parent : Option Nat) :
    (b : NumberedBranch) → (b.id :: childrenOf (b.drafts level parent)).Perm b.ids
  | .branch id text target below => by
    rw [drafts, ids]
    exact .cons _ (perm_idsBelow (level + 1) (some id) below)

/-- **Each number is right below one draft**, or one of the first ones. -/
theorem perm_idsBelow (level : Nat) (parent : Option Nat) : (bs : List NumberedBranch) →
    (bs.map (·.id) ++ childrenOf (draftsBelow level parent bs)).Perm (idsBelow bs)
  | [] => .nil
  | b :: bs => by
    have hfirst := List.perm_iff_count.1 (perm_ids level parent b)
    have hrest := List.perm_iff_count.1 (perm_idsBelow level parent bs)
    rw [draftsBelow, idsBelow, List.perm_iff_count]
    intro i
    have hfirst := hfirst i
    have hrest := hrest i
    simp only [childrenOf, List.map_cons, List.map_append, List.flatten_append, List.cons_append,
      List.count_cons, List.count_append] at hfirst hrest ⊢
    omega

end

mutual

/-- Below a branch, the last nodes are those of the lists they are in. -/
theorem last_of_mem {ls : List (List Nat)} (h : ls.flatten.Nodup) (level : Nat)
    (parent : Option Nat) : (b : NumberedBranch) → (∀ d ∈ b.drafts level parent, d.children ∈ ls) →
      b.Last (ls.filterMap (·.getLast?))
  | .branch id text target below, hls => by
    rw [drafts] at hls
    exact lasts_of_mem h (level + 1) (some id) [] below (hls _ List.mem_cons_self)
      fun d hd => hls d (List.mem_cons_of_mem _ hd)

/-- **The last nodes are those of the lists they are in**, when no two lists have a common item. -/
theorem lasts_of_mem {ls : List (List Nat)} (h : ls.flatten.Nodup) (level : Nat)
    (parent : Option Nat) (front : List Nat) : (bs : List NumberedBranch) →
      front ++ bs.map (·.id) ∈ ls → (∀ d ∈ draftsBelow level parent bs, d.children ∈ ls) →
        Lasts (ls.filterMap (·.getLast?)) bs
  | [], _, _ => trivial
  | b :: bs, hmem, hls => by
    rw [draftsBelow] at hls
    refine ⟨?_, last_of_mem h level parent b fun d hd => hls d (List.mem_append_left _ hd), ?_⟩
    · rw [Bool.eq_iff_iff, List.elem_iff, mem_lasts_iff h hmem]
      cases bs <;> simp
    · refine lasts_of_mem h level parent (front ++ [b.id]) bs ?_
        fun d hd => hls d (List.mem_append_right _ hd)
      rw [List.append_assoc]
      exact hmem

end

end NumberedBranch

/-! ### Entries -/

namespace NumberedBranch

open DraftSheet (entryOf numberIn parentNumberIn)

variable {all last : List Nat}

mutual

/-- **The drafts of a branch become its entries**, when its numbers are numbered one after the
other. -/
theorem mapM_entryOf_drafts (level : Nat) {parent : Option Nat} {above : Option Int} (isLast : Bool)
    (id : Int) : (b : NumberedBranch) → parentNumberIn all parent = .ok above →
      b.ids.map (numberIn all) = (numbersFrom id b.plain.size).map .ok → last.elem b.id = isLast →
        b.Last last →
          (b.drafts level parent).mapM (entryOf all last) =
            .ok (entriesOf level above isLast id b.plain)
  | .branch i text target below, habove, hnumbers, hlast, hlasts => by
    rw [ids, plain, Branch.size, numbersFrom, List.map_cons, List.map_cons] at hnumbers
    obtain ⟨hid, hnumbers⟩ := List.cons.inj hnumbers
    have hparent : parentNumberIn all (some i) = .ok (some id) := by
      rw [parentNumberIn, hid]
      rfl
    have hbelow := mapM_entryOf_draftsBelow (level + 1) (id + 1) below hparent hnumbers hlasts
    have hchildren : (below.map (·.id)).isEmpty = (plains below).isEmpty := by
      rw [List.isEmpty_map, isEmpty_plains]
    have hlast : last.elem i = isLast := hlast
    rw [drafts, List.mapM_cons, entryOf]
    simp only [hid, habove, hbelow, bind, Except.bind, pure, Except.pure, hlast, hchildren, plain,
      entriesOf, Option.map_some]

/-- **The drafts of neighbours become their entries.** -/
theorem mapM_entryOf_draftsBelow (level : Nat) {parent : Option Nat} {above : Option Int} (id : Int) :
    (bs : List NumberedBranch) → parentNumberIn all parent = .ok above →
      (idsBelow bs).map (numberIn all) = (numbersFrom id (Branch.sizes (plains bs))).map .ok →
        Lasts last bs →
          (draftsBelow level parent bs).mapM (entryOf all last) =
            .ok (entriesBelow level above id (plains bs))
  | [], _, _, _ => rfl
  | b :: bs, habove, hnumbers, hlasts => by
    rw [idsBelow, plains, Branch.sizes, numbersFrom_add, List.map_append, List.map_append] at hnumbers
    obtain ⟨hfirst, hrest⟩ := List.append_inj hnumbers (by simp [length_ids])
    obtain ⟨hlast, hbelow, hlasts⟩ := hlasts
    have hempty : (plains bs).isEmpty = bs.isEmpty := isEmpty_plains bs
    rw [draftsBelow, List.mapM_append, mapM_entryOf_drafts level _ id b habove hfirst hlast hbelow,
      mapM_entryOf_draftsBelow level (id + b.plain.size) bs habove hrest hlasts, plains,
      entriesBelow, hempty]
    rfl

end

end NumberedBranch

namespace DraftSheet

open NumberedBranch

/-- **The entries of a sheet that holds branches are theirs.** -/
theorem entries_eq_ok {bs : List NumberedBranch} (h : (idsBelow bs).Pairwise (· < ·)) :
    DraftSheet.entries ⟨draftsBelow 0 none bs, bs.map (·.id)⟩ =
      .ok (entriesBelow 0 none 1 (plains bs)) := by
  have hids := map_id_draftsBelow 0 none bs
  -- the drafts are in the order of their numbers already
  have hsorted : (⟨draftsBelow 0 none bs, bs.map (·.id)⟩ : DraftSheet).sorted =
      draftsBelow 0 none bs := by
    refine List.mergeSort_of_pairwise ?_
    rw [← hids, List.pairwise_map] at h
    exact h.imp fun hlt => decide_eq_true (Nat.le_of_lt hlt)
  have hnodup : (idsBelow bs).Nodup := h.imp Nat.ne_of_lt
  have hnumbers := map_numberIn [] (idsBelow bs) hnodup
  rw [List.nil_append, length_idsBelow] at hnumbers
  have hlists : ((bs.map (·.id)) :: (draftsBelow 0 none bs).map (·.children)).flatten.Nodup :=
    (perm_idsBelow 0 none bs).nodup_iff.2 hnodup
  have hlasts := lasts_of_mem hlists 0 none [] bs List.mem_cons_self fun d hd =>
    List.mem_cons_of_mem _ (List.mem_map_of_mem hd)
  rw [entries, lasts, hsorted, hids]
  exact mapM_entryOf_draftsBelow 0 1 bs rfl hnumbers hlasts

end DraftSheet

/-! ### Overlays -/

/-- The empty sheet is sound. -/
theorem Drafting.sound_start : Drafting.start.Sound where
  draft_lt := fun _ hd => nomatch hd
  child_lt := fun _ hd => nomatch hd
  root_lt := fun _ hi => nomatch hi
  taken_lt := fun _ hc => nomatch hc

/-- **An overlay is written as it is placed**; so no draft is ever missing. -/
theorem OverlayTree.draft_eq (rules : PlacementRules) (index : RefIndex) (book : Int)
    (categories : List Text) (firstLine total : Int) (overlay : Overlay) :
    draft rules index book categories firstLine total overlay =
      (build rules index book categories firstLine total overlay).mapError .numeral := by
  have hroots : Drafting.start.sheet.Has none := fun _ hid => nomatch hid
  have htook : Drafting.start.Took none [] := fun line => by simp [Drafting.start]
  have hfollows := Drafting.follows_walkNodes Drafting.sound_start hroots htook 0 0 overlay.nodes
    (p := placement rules index book categories overlay)
  rw [draft, build]
  dsimp only
  cases hplaced : (placement rules index book categories overlay).placeNodes 0 [] overlay.nodes with
  | error fault =>
    rw [hfollows.of_error hplaced]
    rfl
  | ok placed =>
    obtain ⟨ns, t, hwritten, hplain, hgrows⟩ := hfollows.of_ok hplaced
    have hsheet : t.sheet = ⟨NumberedBranch.draftsBelow 0 none ns, ns.map (·.id)⟩ := by
      rw [hgrows.sheet]
      rfl
    have hentries := DraftSheet.entries_eq_ok hgrows.ascending
    rw [← hsheet, hplain] at hentries
    simp only [hwritten, bind, Except.bind, hentries]
    rfl

/-- **Every overlay has its entries in depth-first order.** When it is written draft by draft, the
outcome is the same, and no draft is ever missing. An overlay whose starting addresses can be read
has a tree. -/
theorem OverlayTree.preOrdered_build (rules : PlacementRules) (index : RefIndex) (book : Int)
    (categories : List Text) (firstLine total : Int) (overlay : Overlay) :
    (∀ tree, build rules index book categories firstLine total overlay = .ok tree →
        tree.PreOrdered) ∧
      draft rules index book categories firstLine total overlay =
        (build rules index book categories firstLine total overlay).mapError .numeral ∧
      (∀ id, draft rules index book categories firstLine total overlay ≠ .error (.absent id)) ∧
      ((∀ i ∈ overlay.items, i.Addressed) →
        ∃ tree, build rules index book categories firstLine total overlay = .ok tree) := by
  have hdraft := draft_eq rules index book categories firstLine total overlay
  refine ⟨?_, hdraft, ?_, fun h => exists_build_eq_ok h rules index book categories firstLine total⟩
  · intro tree htree
    rw [build] at htree
    obtain ⟨⟨branches, taken⟩, -, htree⟩ := exists_of_bind_eq_ok htree
    cases htree
    exact preOrdered_ofBranches _ branches firstLine total
  · intro id
    rw [hdraft]
    intro h
    cases hbuild : build rules index book categories firstLine total overlay <;> rw [hbuild] at h <;>
      cases h

/-- The small overlay makes five entries, two of which are below the second one. -/
theorem OverlayTree.preOrdered_build_ruth :
    ∃ tree, build {} ruthIndex 7 [] 1 3 ruthPortions = .ok tree ∧ tree.PreOrdered ∧
      tree.entries.map (fun e => (e.parent, e.level, e.lineIndex)) =
        [(none, 0, some 0), (some 1, 1, some 0), (some 2, 2, some 0), (some 2, 2, some 1),
          (some 1, 1, some 2)] := by
  obtain ⟨hordered, -, -, hplaced⟩ := preOrdered_build {} ruthIndex 7 [] 1 3 ruthPortions
  have haddressed : ∀ i ∈ ruthPortions.items, i.Addressed := by decide +kernel
  obtain ⟨tree, htree⟩ := hplaced haddressed
  refine ⟨tree, htree, hordered tree htree, ?_⟩
  have hentries : (build {} ruthIndex 7 [] 1 3 ruthPortions).toOption.map
      (fun t => t.entries.map fun e => (e.parent, e.level, e.lineIndex)) =
        some [(none, 0, some 0), (some 1, 1, some 0), (some 2, 2, some 0), (some 2, 2, some 1),
          (some 1, 1, some 2)] := by
    decide +kernel
  rw [htree] at hentries
  exact Option.some.inj hentries

end HebrewCorpus
