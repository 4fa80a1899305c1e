import HebrewCorpus.Proofs.Overlay.Draft

/-! # Branches on a sheet

What the nodes of an overlay leave on a sheet are branches whose placed nodes carry numbers.

* **`NumberedBranch`**: such a branch, **`NumberedBranch.drafts`** what it is on a sheet.
* **`DraftSheet.extend`**: a sheet with more drafts below a parent; `extend_extend` and
  `extend_below` put branches side by side and below one another.
* **`DraftSheet.write_eq_ok`**, **`DraftSheet.close_nil`**, **`DraftSheet.close_cons`**: what the
  operations leave of a sheet on which the drafts are there. -/

namespace HebrewCorpus

/-- **A branch whose placed nodes carry numbers.** -/
inductive NumberedBranch
  | branch (id : Nat) (text : Text) (target : LineTarget) (below : List NumberedBranch)

namespace NumberedBranch

/-- The number of the first node. -/
def id : NumberedBranch → Nat
  | .branch id _ _ _ => id

/-- The line of the first node. -/
def target : NumberedBranch → LineTarget
  | .branch _ _ target _ => target

mutual

/-- The branch without its numbers. -/
def plain : NumberedBranch → Branch
  | .branch _ text target below => .branch text target (plains below)

/-- Branches without their numbers. -/
def plains : List NumberedBranch → List Branch
  | [] => []
  | b :: bs => b.plain :: plains bs

end

mutual

/-- All numbers of a branch, in the order of its entries. -/
def ids : NumberedBranch → List Nat
  | .branch id _ _ below => id :: idsBelow below

/-- All numbers of neighbours. -/
def idsBelow : List NumberedBranch → List Nat
  | [] => []
  | b :: bs => b.ids ++ idsBelow bs

end

mutual

/-- **The drafts of a branch** below a parent. -/
def drafts (level : Nat) (parent : Option Nat) : NumberedBranch → List Draft
  | .branch id text target below =>
    ⟨id, parent, text, level, some target, below.map (·.id)⟩ ::
      draftsBelow (level + 1) (some id) below

/-- **The drafts of neighbours** below their parent. -/
def draftsBelow (level : Nat) (parent : Option Nat) : List NumberedBranch → List Draft
  | [] => []
  | b :: bs => b.drafts level parent ++ draftsBelow level parent bs

end

/-! ### Neighbours -/

@[simp] theorem plains_append (bs cs : List NumberedBranch) :
    plains (bs ++ cs) = plains bs ++ plains cs := by
  induction bs with
  | nil => rfl
  | cons b bs ih => simp [plains, ih]

@[simp] theorem idsBelow_append (bs cs : List NumberedBranch) :
    idsBelow (bs ++ cs) = idsBelow bs ++ idsBelow cs := by
  induction bs with
  | nil => rfl
  | cons b bs ih => simp [idsBelow, ih]

@[simp] theorem draftsBelow_append (level : Nat) (parent : Option Nat) (bs cs : List NumberedBranch) :
    draftsBelow level parent (bs ++ cs) =
      draftsBelow level parent bs ++ draftsBelow level parent cs := by
  induction bs with
  | nil => rfl
  | cons b bs ih => simp [draftsBelow, ih]

/-- There are as many branches without their numbers. -/
theorem isEmpty_plains (bs : List NumberedBranch) : (plains bs).isEmpty = bs.isEmpty := by
  cases bs <;> rfl

mutual

/-- The drafts of a branch have its numbers. -/
theorem map_id_drafts (level : Nat) (parent : Option Nat) :
    (b : NumberedBranch) → (b.drafts level parent).map (·.id) = b.ids
  | .branch id text target below => by
    rw [drafts, ids, List.map_cons, map_id_draftsBelow (level + 1) (some id) below]

/-- **The drafts of neighbours have their numbers.** -/
theorem map_id_draftsBelow (level : Nat) (parent : Option Nat) :
    (bs : List NumberedBranch) → (draftsBelow level parent bs).map (·.id) = idsBelow bs
  | [] => rfl
  | b :: bs => by
    rw [draftsBelow, idsBelow, List.map_append, map_id_drafts level parent b,
      map_id_draftsBelow level parent bs]

end

/-- A draft has one of the numbers. -/
theorem id_mem_of_mem_draftsBelow {level : Nat} {parent : Option Nat} {bs : List NumberedBranch}
    {d : Draft} (h : d ∈ draftsBelow level parent bs) : d.id ∈ idsBelow bs := by
  rw [← map_id_draftsBelow level parent bs]
  exact List.mem_map_of_mem h

/-- The first numbers are among all. -/
theorem map_id_subset (bs : List NumberedBranch) {i : Nat} (h : i ∈ bs.map (·.id)) :
    i ∈ idsBelow bs := by
  induction bs with
  | nil => cases h
  | cons b bs ih =>
    obtain ⟨id, text, target, below⟩ := b
    rw [idsBelow, ids]
    rcases List.mem_cons.1 h with rfl | h
    · exact List.mem_cons_self
    · exact List.mem_append_right _ (ih h)

mutual

/-- Drafts of a branch name drafts of the branch as those below them. -/
theorem child_mem_of_mem_drafts (level : Nat) (parent : Option Nat) :
    (b : NumberedBranch) → ∀ d ∈ b.drafts level parent, ∀ i ∈ d.children, i ∈ b.ids
  | .branch id text target below => by
    intro d hd i hi
    rw [drafts] at hd
    rw [ids]
    refine List.mem_cons_of_mem _ ?_
    rcases List.mem_cons.1 hd with rfl | hd
    · exact map_id_subset below hi
    · exact child_mem_of_mem_draftsBelow (level + 1) (some id) below d hd i hi

/-- **Drafts of neighbours name drafts of these** as those below them. -/
theorem child_mem_of_mem_draftsBelow (level : Nat) (parent : Option Nat) :
    (bs : List NumberedBranch) →
      ∀ d ∈ draftsBelow level parent bs, ∀ i ∈ d.children, i ∈ idsBelow bs
  | [] => fun d hd => nomatch hd
  | b :: bs => by
    intro d hd i hi
    rw [draftsBelow] at hd
    rw [idsBelow]
    rcases List.mem_append.1 hd with hd | hd
    · exact List.mem_append_left _ (child_mem_of_mem_drafts level parent b d hd i hi)
    · exact List.mem_append_right _ (child_mem_of_mem_draftsBelow level parent bs d hd i hi)

end

end NumberedBranch

/-! ### Sheets -/

namespace DraftSheet

/-- **The sheet with more drafts**, some of them right below a parent. -/
def extend (s : DraftSheet) (parent : Option Nat) (ids : List Nat) (ds : List Draft) : DraftSheet :=
  match parent with
  | none => ⟨s.drafts ++ ds, s.roots ++ ids⟩
  | some id =>
    { s with drafts := (s.edit id fun d => { d with children := d.children ++ ids }).drafts ++ ds }

/-- A parent that is on the sheet. -/
def Has (s : DraftSheet) (parent : Option Nat) : Prop :=
  ∀ id, parent = some id → ∃ d ∈ s.drafts, d.id = id

/-- The sheet has none with the number. -/
def Lacks (s : DraftSheet) (id : Nat) : Prop := ∀ d ∈ s.drafts, d.id ≠ id

variable {s : DraftSheet} {parent : Option Nat} {id : Nat} {ids more : List Nat} {ds es : List Draft}

/-- What is done to a draft that is not there changes nothing. -/
theorem map_edit_of_ne (h : ∀ d ∈ ds, d.id ≠ id) (f : Draft → Draft) :
    ds.map (fun d => if d.id = id then f d else d) = ds := by
  rw [List.map_congr_left fun d hd => if_neg (h d hd), List.map_id']

/-- The numbers of edited drafts stay. -/
theorem map_id_edit {f : Draft → Draft} (h : ∀ d, (f d).id = d.id) :
    (s.edit id f).drafts.map (·.id) = s.drafts.map (·.id) := by
  rw [edit, List.map_map]
  refine List.map_congr_left fun d _ => ?_
  by_cases hd : d.id = id <;> simp [hd, h]

/-- No drafts change nothing. -/
theorem extend_nil (s : DraftSheet) (parent : Option Nat) : s.extend parent [] [] = s := by
  cases parent <;> simp [extend, edit]

/-- **Drafts are side by side** when none of the first ones is the parent. -/
theorem extend_extend (h : ∀ d ∈ ds, parent ≠ some d.id) :
    (s.extend parent ids ds).extend parent more es = s.extend parent (ids ++ more) (ds ++ es) := by
  cases parent with
  | none => simp [extend]
  | some id =>
    have hds : ∀ d ∈ ds, d.id ≠ id := fun d hd hid => h d hd (congrArg some hid.symm)
    simp only [extend, edit, List.map_append, List.map_map, map_edit_of_ne hds, List.append_assoc,
      mk.injEq, and_true]
    congr 1
    refine List.map_congr_left fun d _ => ?_
    by_cases hd : d.id = id <;> simp [hd]

/-- The numbers on the sheet, and those of more drafts. -/
theorem map_id_extend :
    (s.extend parent ids ds).drafts.map (·.id) = s.drafts.map (·.id) ++ ds.map (·.id) := by
  cases parent with
  | none => simp [extend]
  | some id =>
    rw [extend, List.map_append]
    exact congrArg (· ++ _) (map_id_edit fun d => rfl)

/-- The sheet with more drafts still has a parent. -/
theorem Has.extend (h : s.Has parent) (other : Option Nat) :
    (s.extend other ids ds).Has parent := by
  intro id hid
  obtain ⟨d, hd, hid⟩ := h id hid
  have hmem : id ∈ (s.extend other ids ds).drafts.map (·.id) := by
    rw [map_id_extend]
    exact List.mem_append_left _ (hid ▸ List.mem_map_of_mem hd)
  obtain ⟨e, he, hid⟩ := List.mem_map.1 hmem
  exact ⟨e, he, hid⟩

/-- The drafts that were on the sheet before it was extended. -/
def old (s : DraftSheet) (parent : Option Nat) (ids : List Nat) : List Draft :=
  (s.extend parent ids []).drafts

/-- The numbers of all drafts without a parent. -/
def newRoots (s : DraftSheet) (parent : Option Nat) (ids : List Nat) : List Nat :=
  (s.extend parent ids []).roots

/-- **The new drafts stand behind the old ones.** -/
theorem extend_eq (s : DraftSheet) (parent : Option Nat) (ids : List Nat) (ds : List Draft) :
    s.extend parent ids ds = ⟨s.old parent ids ++ ds, s.newRoots parent ids⟩ := by
  cases parent <;> simp [old, newRoots, extend]

/-- The drafts of the sheet. -/
theorem drafts_extend : (s.extend parent ids ds).drafts = s.old parent ids ++ ds := by
  rw [extend_eq]

/-- Their numbers stay. -/
theorem map_id_old : (s.old parent ids).map (·.id) = s.drafts.map (·.id) := by
  rw [old, map_id_extend, List.map_nil, List.append_nil]

/-- The sheet lacks a number before and after. -/
theorem ne_of_mem_old (h : s.Lacks id) {d : Draft} (hd : d ∈ s.old parent ids) : d.id ≠ id := by
  have hmem : d.id ∈ s.drafts.map (·.id) := by
    rw [← map_id_old]
    exact List.mem_map_of_mem hd
  obtain ⟨e, he, hid⟩ := List.mem_map.1 hmem
  exact hid ▸ h e he

/-- A number below an old draft was there, or is a new one. -/
theorem child_of_mem_old {d : Draft} (hd : d ∈ s.old parent ids) {i : Nat} (hi : i ∈ d.children) :
    i ∈ ids ∨ ∃ e ∈ s.drafts, i ∈ e.children := by
  cases parent with
  | none =>
    rw [old, extend, List.append_nil] at hd
    exact .inr ⟨d, hd, hi⟩
  | some q =>
    rw [old, extend, List.append_nil, edit] at hd
    obtain ⟨e, he, rfl⟩ := List.mem_map.1 hd
    by_cases hq : e.id = q
    · rw [if_pos hq] at hi
      rcases List.mem_append.1 hi with hi | hi
      · exact .inr ⟨e, he, hi⟩
      · exact .inl hi
    · rw [if_neg hq] at hi
      exact .inr ⟨e, he, hi⟩

/-- A number without a parent was there, or is a new one. -/
theorem root_of_mem_newRoots {i : Nat} (hi : i ∈ s.newRoots parent ids) : i ∈ ids ∨ i ∈ s.roots := by
  cases parent with
  | none => exact (List.mem_append.1 hi).symm
  | some q => exact .inr hi

/-- **Drafts are below the last one**, which is written already. -/
theorem extend_below {d : Draft} (hfresh : s.Lacks d.id) :
    (s.extend parent [d.id] [d]).extend (some d.id) ids ds =
      s.extend parent [d.id] ({ d with children := d.children ++ ids } :: ds) := by
  have hold : ∀ e ∈ s.old parent [d.id], e.id ≠ d.id := fun e he => ne_of_mem_old hfresh he
  rw [extend_eq s, extend_eq s, extend, edit, List.map_append, map_edit_of_ne hold]
  simp

/-! ### Operations -/

/-- A draft behind others is found when none of those has its number. -/
theorem find_eq_ok {front behind : List Draft} {d : Draft} (hdrafts : s.drafts = front ++ d :: behind)
    (hfront : ∀ e ∈ front, e.id ≠ d.id) : s.find d.id = .ok d := by
  have hnone : front.find? (fun e => decide (e.id = d.id)) = none :=
    List.find?_eq_none.2 fun e he => by simpa using hfront e he
  rw [find, hdrafts, List.find?_append, hnone]
  simp

/-- A draft that is there is found. -/
theorem exists_find_eq_ok (h : ∃ d ∈ s.drafts, d.id = id) : ∃ d, s.find id = .ok d := by
  obtain ⟨d, hd, hid⟩ := h
  have hsome : (s.drafts.find? (fun e => decide (e.id = id))).isSome = true :=
    List.find?_isSome.2 ⟨d, hd, by simpa using hid⟩
  obtain ⟨e, he⟩ := Option.isSome_iff_exists.1 hsome
  exact ⟨e, by rw [find, he]⟩

/-- **A draft is written** below a parent that is on the sheet. -/
theorem write_eq_ok {d : Draft} (h : s.Has d.parent) (hself : d.parent ≠ some d.id) :
    s.write d = .ok (s.extend d.parent [d.id] [d]) := by
  rw [write]
  cases hparent : d.parent with
  | none => rfl
  | some id =>
    obtain ⟨e, he, hid⟩ := h id hparent
    obtain ⟨f, hf⟩ := exists_find_eq_ok (s := { s with drafts := s.drafts ++ [d] })
      ⟨e, List.mem_append_left _ he, hid⟩
    have hne : d.id ≠ id := fun heq => hself (heq ▸ hparent)
    rw [editSiblings, hf]
    simp [Except.map, edit, extend, hne]

/-- A number that no draft names as one below it. -/
def Unnamed (s : DraftSheet) (id : Nat) : Prop := id ∉ s.roots ∧ ∀ d ∈ s.drafts, id ∉ d.children

/-- The siblings of the last draft, which are found and hold it. -/
theorem siblings_extend {d : Draft} (h : s.Has parent) (hparent : parent ≠ some d.id) :
    ∃ ids, (s.extend parent [d.id] [d]).siblings parent = .ok ids ∧ d.id ∈ ids := by
  cases parent with
  | none => exact ⟨_, rfl, List.mem_append_right _ (List.mem_singleton.2 rfl)⟩
  | some q =>
    obtain ⟨e, he⟩ := exists_find_eq_ok (h.extend (some q) q rfl)
    refine ⟨e.children, by rw [siblings, he]; rfl, ?_⟩
    -- what is found has the number of the parent, so the draft was put below it
    rw [find] at he
    split at he
    · next e' hfind =>
      obtain rfl : e' = e := Except.ok.inj he
      have hid : e'.id = q := by simpa using List.find?_some hfind
      have hmem := List.mem_of_find?_eq_some hfind
      rw [extend, edit] at hmem
      rcases List.mem_append.1 hmem with hmem | hmem
      · obtain ⟨f, -, rfl⟩ := List.mem_map.1 hmem
        by_cases hf : f.id = q
        · simp [hf]
        · rw [if_neg hf] at hid
          exact absurd hid hf
      · rw [List.mem_singleton.1 hmem] at hid
        exact absurd (congrArg some hid.symm) hparent
    · cases he

/-- **The last draft is struck out** as if it had never been written. -/
theorem strike_extend {d : Draft} (hd : d.parent = parent) (h : s.Has parent)
    (hparent : parent ≠ some d.id) (hfresh : s.Lacks d.id) (hunnamed : s.Unnamed d.id) :
    (s.extend parent [d.id] [d]).strike d.id = .ok s := by
  have hfind : (s.extend parent [d.id] [d]).find d.id = .ok d :=
    find_eq_ok drafts_extend fun e he => ne_of_mem_old hfresh he
  obtain ⟨ids, hids, hmem⟩ := siblings_extend h hparent
  have herase {is : List Nat} (his : d.id ∉ is) : (is ++ [d.id]).erase d.id = is := by
    rw [List.erase_append_right _ his, List.erase_cons_head, List.append_nil]
  have hfilter : s.drafts.filter (fun e => !decide (e.id = d.id)) = s.drafts :=
    List.filter_eq_self.2 fun e he => by simpa using hfresh e he
  rw [strike, hfind]
  simp only [bind, Except.bind, hd, hids, List.elem_eq_true_of_mem hmem, if_pos]
  cases parent with
  | none =>
    simp only [editSiblings, extend, herase hunnamed.1]
    simp [pure, Except.pure, hfilter]
  | some q =>
    obtain ⟨e, he⟩ := exists_find_eq_ok (h.extend (some q) q rfl)
    have hne : d.id ≠ q := fun heq => hparent (congrArg some heq.symm)
    have hundo : s.drafts.map ((fun e => if e.id = q then { e with children := e.children.erase d.id }
        else e) ∘ fun e => if e.id = q then { e with children := e.children ++ [d.id] } else e) =
          s.drafts := by
      refine (List.map_congr_left fun f hf => ?_).trans (List.map_id _)
      by_cases heq : f.id = q
      · subst heq
        simp [herase (hunnamed.2 f hf)]
      · simp [heq]
    rw [editSiblings, he]
    simp only [Except.map, extend, edit, List.map_append, List.map_map, hundo]
    simp [pure, Except.pure, hne, hfilter]

/-- **A draft that groups nothing is struck out** when it is closed. -/
theorem close_nil {d : Draft} (hd : d.parent = parent) (hchildren : d.children = [])
    (h : s.Has parent) (hparent : parent ≠ some d.id) (hfresh : s.Lacks d.id)
    (hunnamed : s.Unnamed d.id) : (s.extend parent [d.id] [d]).close d.id = .ok s := by
  have hfind : (s.extend parent [d.id] [d]).find d.id = .ok d :=
    find_eq_ok drafts_extend fun e he => ne_of_mem_old hfresh he
  rw [close, hfind]
  simp only [bind, Except.bind, hchildren]
  exact strike_extend hd h hparent hfresh hunnamed

/-- **A draft that groups others takes over the line of the first one** when it is closed. -/
theorem close_cons {d first : Draft} {behind : List Draft}
    (hchildren : d.children.head? = some first.id) (hfresh : s.Lacks d.id)
    (hfirst : s.Lacks first.id) (hbehind : ∀ e ∈ first :: behind, e.id ≠ d.id) :
    (s.extend parent [d.id] (d :: first :: behind)).close d.id =
      .ok (s.extend parent [d.id] ({ d with target := first.target } :: first :: behind)) := by
  have hfind : (s.extend parent [d.id] (d :: first :: behind)).find d.id = .ok d :=
    find_eq_ok drafts_extend fun e he => ne_of_mem_old hfresh he
  have hfind' : (s.extend parent [d.id] (d :: first :: behind)).find first.id = .ok first := by
    have hdrafts : (s.extend parent [d.id] (d :: first :: behind)).drafts =
        (s.old parent [d.id] ++ [d]) ++ first :: behind := by
      rw [drafts_extend, List.append_assoc]
      rfl
    refine find_eq_ok hdrafts fun e he => ?_
    rcases List.mem_append.1 he with he | he
    · exact ne_of_mem_old hfirst he
    · rw [List.mem_singleton.1 he]
      exact (hbehind first List.mem_cons_self).symm
  obtain ⟨rest, hchildren⟩ := List.head?_eq_some_iff.1 hchildren
  rw [close, hfind]
  simp only [bind, Except.bind, hchildren, hfind', pure, Except.pure]
  -- of all drafts only this one has its number
  have hold : ∀ e ∈ s.old parent [d.id], e.id ≠ d.id := fun e he => ne_of_mem_old hfresh he
  rw [edit, extend_eq, extend_eq, List.map_append, map_edit_of_ne hold, List.map_cons,
    map_edit_of_ne hbehind, if_pos rfl, ← hchildren]

end DraftSheet

end HebrewCorpus
