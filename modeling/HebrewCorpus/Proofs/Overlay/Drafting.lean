import HebrewCorpus.Proofs.Overlay.Sheet

/-! # Sheets that grow

A walk through the nodes of an overlay adds branches to a sheet, side by side and below one another,
and takes lines for them. All numbers on the sheet stay smaller than that of the next draft.

* **`Drafting.Sound`**: all numbers on the sheet are smaller than the next one.
* **`Drafting.Grows`**: a sheet that has grown by some branches below a parent.
* **`Drafting.Grows.trans`**, **`Drafting.Grows.placed`**, **`Drafting.Grows.closed`**: branches side
  by side, below a placed node, and below one that only groups them. -/

namespace HebrewCorpus

namespace Drafting

/-- **All numbers on the sheet are smaller than the next one.** -/
structure Sound (s : Drafting) : Prop where
  draft_lt : ∀ d ∈ s.sheet.drafts, d.id < s.next
  child_lt : ∀ d ∈ s.sheet.drafts, ∀ i ∈ d.children, i < s.next
  root_lt : ∀ i ∈ s.sheet.roots, i < s.next
  taken_lt : ∀ c ∈ s.taken, ∀ q, c.1 = some q → q < s.next

/-- The lines taken below a parent. -/
def Took (s : Drafting) (parent : Option Nat) (taken : Taken) : Prop :=
  ∀ line, (parent, line) ∈ s.taken ↔ line ∈ taken

/-- **A sheet that has grown** by some branches below a parent, with numbers from the next one on.
Lines were taken below the parent, and below the new drafts. -/
structure Grows (s : Drafting) (level : Nat) (parent : Option Nat) (bs : List NumberedBranch)
    (taken : Taken) (t : Drafting) : Prop where
  sheet : t.sheet = s.sheet.extend parent (bs.map (·.id)) (NumberedBranch.draftsBelow level parent bs)
  ascending : (NumberedBranch.idsBelow bs).Pairwise (· < ·)
  id_ge : ∀ i ∈ NumberedBranch.idsBelow bs, s.next ≤ i
  id_lt : ∀ i ∈ NumberedBranch.idsBelow bs, i < t.next
  next_le : s.next ≤ t.next
  claims : ∃ cs, t.taken = cs ++ s.taken ∧
    ∀ c ∈ cs, c.1 = parent ∨ ∃ q, c.1 = some q ∧ s.next ≤ q ∧ q < t.next
  took : t.Took parent taken

variable {s t u : Drafting} {level : Nat} {parent : Option Nat} {bs cs : List NumberedBranch}
  {taken taken' : Taken}

/-- A parent on the sheet has an earlier number than the next draft. -/
theorem Sound.parent_lt (hs : s.Sound) (hp : s.sheet.Has parent) {q : Nat} (hq : parent = some q) :
    q < s.next := by
  obtain ⟨d, hd, rfl⟩ := hp q hq
  exact hs.draft_lt d hd

/-- The next number is not on the sheet yet. -/
theorem Sound.lacks (hs : s.Sound) {i : Nat} (hi : s.next ≤ i) : s.sheet.Lacks i := by
  intro d hd
  have hlt := hs.draft_lt d hd
  omega

/-- No draft names the next one. -/
theorem Sound.unnamed (hs : s.Sound) : s.sheet.Unnamed s.next := by
  refine ⟨fun hroot => ?_, fun d hd hchild => ?_⟩
  · have hlt := hs.root_lt _ hroot
    omega
  · have hlt := hs.child_lt d hd _ hchild
    omega

/-- Nothing was taken below the next draft. -/
theorem Sound.took_next (hs : s.Sound) : s.Took (some s.next) [] := by
  intro line
  constructor
  · intro hmem
    have hlt := hs.taken_lt _ hmem _ rfl
    omega
  · intro hmem
    cases hmem

/-- **A sheet with more drafts is sound**, when their numbers lie below the next one. -/
theorem Sound.extend (hs : s.Sound) (hp : s.sheet.Has parent) {ids : List Nat} {ds : List Draft}
    {cs : List (Option Nat × Int)} {next : Nat} (hnext : s.next ≤ next)
    (hids : ∀ i ∈ ids, i < next) (hds : ∀ d ∈ ds, d.id < next ∧ ∀ i ∈ d.children, i < next)
    (hcs : ∀ c ∈ cs, c.1 = parent ∨ ∃ q, c.1 = some q ∧ s.next ≤ q ∧ q < next) :
    Sound ⟨s.sheet.extend parent ids ds, cs ++ s.taken, next⟩ := by
  rw [DraftSheet.extend_eq]
  constructor
  case draft_lt =>
    intro d hd
    rcases List.mem_append.1 hd with hd | hd
    · have hid : d.id ∈ s.sheet.drafts.map (·.id) := by
        rw [← DraftSheet.map_id_old]
        exact List.mem_map_of_mem hd
      obtain ⟨e, he, heq⟩ := List.mem_map.1 hid
      have hlt := hs.draft_lt e he
      dsimp only
      omega
    · exact (hds d hd).1
  case child_lt =>
    intro d hd i hi
    rcases List.mem_append.1 hd with hd | hd
    · rcases DraftSheet.child_of_mem_old hd hi with hi | ⟨e, he, hi⟩
      · exact hids i hi
      · exact Nat.lt_of_lt_of_le (hs.child_lt e he i hi) hnext
    · exact (hds d hd).2 i hi
  case root_lt =>
    intro i hi
    rcases DraftSheet.root_of_mem_newRoots hi with hi | hi
    · exact hids i hi
    · exact Nat.lt_of_lt_of_le (hs.root_lt i hi) hnext
  case taken_lt =>
    intro c hc q hq
    rcases List.mem_append.1 hc with hc | hc
    · rcases hcs c hc with heq | ⟨r, hr, -, hlt⟩
      · have hlt := hs.parent_lt hp (heq.symm.trans hq)
        dsimp only
        omega
      · obtain rfl : r = q := Option.some.inj (hr.symm.trans hq)
        exact hlt
    · exact Nat.lt_of_lt_of_le (hs.taken_lt c hc q hq) hnext

/-! ### Growth -/

/-- Nothing is added. -/
theorem Grows.refl (h : s.Took parent taken) : Grows s level parent [] taken s where
  sheet := (s.sheet.extend_nil parent).symm
  ascending := .nil
  id_ge := fun _ hi => nomatch hi
  id_lt := fun _ hi => nomatch hi
  next_le := Nat.le_refl _
  claims := ⟨[], rfl, fun _ hc => nomatch hc⟩
  took := h

/-- **A sound sheet stays sound.** -/
theorem Grows.sound (h : Grows s level parent bs taken t) (hs : s.Sound)
    (hp : s.sheet.Has parent) : t.Sound := by
  obtain ⟨cs, htaken, hcs⟩ := h.claims
  have ht : t = ⟨s.sheet.extend parent (bs.map (·.id)) (NumberedBranch.draftsBelow level parent bs),
      cs ++ s.taken, t.next⟩ := by
    rw [← h.sheet, ← htaken]
  rw [ht]
  refine hs.extend hp h.next_le ?_ ?_ hcs
  · intro i hi
    exact h.id_lt i (NumberedBranch.map_id_subset bs hi)
  · intro d hd
    refine ⟨h.id_lt _ (NumberedBranch.id_mem_of_mem_draftsBelow hd), fun i hi => ?_⟩
    exact h.id_lt i (NumberedBranch.child_mem_of_mem_draftsBelow level parent bs d hd i hi)

/-- What is on the sheet stays there. -/
theorem Grows.has (h : Grows s level parent bs taken t) {other : Option Nat}
    (hp : s.sheet.Has other) : t.sheet.Has other := by
  rw [h.sheet]
  exact hp.extend parent

/-- **Branches are added side by side.** -/
theorem Grows.trans (h : Grows s level parent bs taken t) (h' : Grows t level parent cs taken' u)
    (hs : s.Sound) (hp : s.sheet.Has parent) : Grows s level parent (bs ++ cs) taken' u where
  sheet := by
    rw [h'.sheet, h.sheet, DraftSheet.extend_extend, List.map_append,
      NumberedBranch.draftsBelow_append]
    -- the parent was there before the new drafts
    intro d hd heq
    have hge := h.id_ge _ (NumberedBranch.id_mem_of_mem_draftsBelow hd)
    have hlt := hs.parent_lt hp heq
    omega
  ascending := by
    rw [NumberedBranch.idsBelow_append]
    refine List.pairwise_append.2 ⟨h.ascending, h'.ascending, fun i hi j hj => ?_⟩
    exact Nat.lt_of_lt_of_le (h.id_lt i hi) (h'.id_ge j hj)
  id_ge := by
    intro i hi
    rw [NumberedBranch.idsBelow_append] at hi
    rcases List.mem_append.1 hi with hi | hi
    · exact h.id_ge i hi
    · exact Nat.le_trans h.next_le (h'.id_ge i hi)
  id_lt := by
    intro i hi
    rw [NumberedBranch.idsBelow_append] at hi
    rcases List.mem_append.1 hi with hi | hi
    · exact Nat.lt_of_lt_of_le (h.id_lt i hi) h'.next_le
    · exact h'.id_lt i hi
  next_le := Nat.le_trans h.next_le h'.next_le
  claims := by
    obtain ⟨cs, hcs, hclaims⟩ := h.claims
    obtain ⟨ds, hds, hclaims'⟩ := h'.claims
    refine ⟨ds ++ cs, by rw [hds, hcs, List.append_assoc], fun c hc => ?_⟩
    rcases List.mem_append.1 hc with hc | hc
    · rcases hclaims' c hc with heq | ⟨q, hq, hle, hlt⟩
      · exact .inl heq
      · exact .inr ⟨q, hq, Nat.le_trans h.next_le hle, hlt⟩
    · rcases hclaims c hc with heq | ⟨q, hq, hle, hlt⟩
      · exact .inl heq
      · exact .inr ⟨q, hq, hle, Nat.lt_of_lt_of_le hlt h'.next_le⟩
  took := h'.took

/-! ### Lines -/

/-- The sheet with a line taken below a parent. -/
def claim (s : Drafting) (parent : Option Nat) (line : Int) : Drafting :=
  { s with taken := (parent, line) :: s.taken }

@[simp] theorem next_claim (s : Drafting) (parent : Option Nat) (line : Int) :
    (s.claim parent line).next = s.next := rfl

/-- A line can be taken unless it is. -/
theorem claim?_eq (h : s.Took parent taken) (line : Int) :
    s.claim? parent line = if taken.elem line then none else some (s.claim parent line) := by
  have helem : s.taken.elem (parent, line) = taken.elem line := by
    rw [Bool.eq_iff_iff, List.elem_iff, List.elem_iff]
    exact h line
  rw [claim?, helem]
  rfl

/-- The line is taken then. -/
theorem Took.claim (h : s.Took parent taken) (line : Int) :
    (s.claim parent line).Took parent (line :: taken) := by
  intro other
  rw [Drafting.claim, List.mem_cons, List.mem_cons, h other, Prod.mk.injEq]
  simp

/-- A sound sheet stays sound. -/
theorem Sound.claim (hs : s.Sound) (hp : s.sheet.Has parent) (line : Int) :
    (s.claim parent line).Sound where
  draft_lt := hs.draft_lt
  child_lt := hs.child_lt
  root_lt := hs.root_lt
  taken_lt := by
    intro c hc q hq
    rcases List.mem_cons.1 hc with rfl | hc
    · exact hs.parent_lt hp hq
    · exact hs.taken_lt c hc q hq

/-- What grows after a line was taken has grown. -/
theorem Grows.of_claim {line : Int} (h : Grows (s.claim parent line) level parent bs taken t) :
    Grows s level parent bs taken t where
  sheet := h.sheet
  ascending := h.ascending
  id_ge := h.id_ge
  id_lt := h.id_lt
  next_le := h.next_le
  claims := by
    obtain ⟨cs, hcs, hclaims⟩ := h.claims
    refine ⟨cs ++ [(parent, line)], by rw [hcs, claim, List.append_assoc]; rfl, fun c hc => ?_⟩
    rcases List.mem_append.1 hc with hc | hc
    · exact hclaims c hc
    · exact .inl (by rw [List.mem_singleton.1 hc])
  took := h.took

/-! ### Drafts -/

/-- The sheet with the next draft. -/
def added (s : Drafting) (parent : Option Nat) (text : Text) (level : Nat)
    (target : Option LineTarget) : Drafting where
  sheet := s.sheet.extend parent [s.next] [s.nextDraft parent text level target]
  taken := s.taken
  next := s.next + 1

section Added

variable {text : Text} {target : Option LineTarget}

/-- **The next draft is written** below a parent that is there. -/
theorem add_eq_ok (hs : s.Sound) (hp : s.sheet.Has parent) (text : Text) (level : Nat)
    (target : Option LineTarget) :
    s.add parent text level target = .ok (s.next, s.added parent text level target) := by
  have hself : parent ≠ some s.next := by
    intro heq
    have hlt := hs.parent_lt hp heq
    omega
  rw [add, DraftSheet.write_eq_ok hp hself]
  rfl

/-- A sound sheet stays sound. -/
theorem Sound.added (hs : s.Sound) (hp : s.sheet.Has parent) :
    (s.added parent text level target).Sound := by
  show Sound ⟨_, [] ++ s.taken, _⟩
  refine hs.extend hp (Nat.le_succ _) ?_ ?_ fun c hc => nomatch hc
  · intro i hi
    rw [List.mem_singleton.1 hi]
    exact Nat.lt_succ_self _
  · intro d hd
    rw [List.mem_singleton.1 hd]
    exact ⟨Nat.lt_succ_self _, fun i hi => nomatch hi⟩

/-- The next draft is on the sheet. -/
theorem has_added : (s.added parent text level target).sheet.Has (some s.next) := by
  intro id hid
  cases hid
  refine ⟨s.nextDraft parent text level target, ?_, rfl⟩
  rw [added, DraftSheet.drafts_extend]
  exact List.mem_append_right _ (List.mem_singleton.2 rfl)

/-- Nothing was taken below it. -/
theorem Sound.took_added (hs : s.Sound) :
    (s.added parent text level target).Took (some s.next) [] := hs.took_next

/-- **A sheet has grown below the next draft.** With that draft in front of them, or without any, the
branches have grown below its parent. -/
theorem Grows.above {inner : Taken}
    (h : Grows (s.added parent text level target) (level + 1) (some s.next) bs inner t)
    (hs : s.Sound) (hp : s.sheet.Has parent) (htook : s.Took parent taken) {sheet : DraftSheet}
    (hsheet : sheet = s.sheet.extend parent (cs.map (·.id)) (NumberedBranch.draftsBelow level parent cs))
    (hids : NumberedBranch.idsBelow cs = [] ∨
      NumberedBranch.idsBelow cs = s.next :: NumberedBranch.idsBelow bs) :
    Grows s level parent cs taken { t with sheet } := by
  have hmem : ∀ i ∈ NumberedBranch.idsBelow cs, i = s.next ∨ i ∈ NumberedBranch.idsBelow bs := by
    intro i hi
    rcases hids with hnone | hsome
    · rw [hnone] at hi
      cases hi
    · rw [hsome] at hi
      exact List.mem_cons.1 hi
  obtain ⟨claims, hclaims, hbelow⟩ := h.claims
  exact {
    sheet := hsheet
    ascending := by
      rcases hids with hnone | hsome
      · rw [hnone]
        exact .nil
      · rw [hsome]
        exact .cons (fun i hi => h.id_ge i hi) h.ascending
    id_ge := by
      intro i hi
      rcases hmem i hi with rfl | hi
      · exact Nat.le_refl _
      · exact Nat.le_of_succ_le (h.id_ge i hi)
    id_lt := by
      intro i hi
      rcases hmem i hi with rfl | hi
      · exact h.next_le
      · exact h.id_lt i hi
    next_le := Nat.le_of_succ_le h.next_le
    claims := by
      refine ⟨claims, hclaims, fun c hc => .inr ?_⟩
      rcases hbelow c hc with heq | ⟨q, hq, hle, hlt⟩
      · exact ⟨s.next, heq, Nat.le_refl _, h.next_le⟩
      · exact ⟨q, hq, Nat.le_of_succ_le hle, hlt⟩
    took := by
      -- below the draft and later ones, nothing was taken of the lines of its siblings
      intro line
      have hiff : (parent, line) ∈ t.taken ↔ (parent, line) ∈ s.taken := by
        rw [hclaims, List.mem_append]
        refine or_iff_right fun hmem => ?_
        rcases hbelow _ hmem with heq | ⟨q, hq, hle, -⟩
        · have hlt := hs.parent_lt hp heq
          omega
        · have hlt := hs.parent_lt hp hq
          have hnext : s.next + 1 ≤ q := hle
          omega
      exact hiff.trans (htook line) }

/-- **A placed node grows** with what is below it. -/
theorem Grows.placed {place : LineTarget} {inner : Taken}
    (h : Grows (s.added parent text level (some place)) (level + 1) (some s.next) bs inner t)
    (hs : s.Sound) (hp : s.sheet.Has parent) (htook : s.Took parent taken) :
    Grows s level parent [.branch s.next text place bs] taken t := by
  refine h.above hs hp htook ?_ (.inr ?_)
  · rw [h.sheet]
    refine (DraftSheet.extend_below (hs.lacks (Nat.le_refl _))).trans ?_
    simp [NumberedBranch.draftsBelow, NumberedBranch.drafts, NumberedBranch.id, nextDraft]
  · simp [NumberedBranch.idsBelow, NumberedBranch.ids]

/-- **A node that groups others is left**: it stands where the first of them does, or nothing of it is
left. -/
theorem Grows.closed {inner : Taken}
    (h : Grows (s.added parent text level none) (level + 1) (some s.next) bs inner t)
    (hs : s.Sound) (hp : s.sheet.Has parent) (htook : s.Took parent taken) :
    ∃ cs sheet, t.sheet.close s.next = .ok sheet ∧
      NumberedBranch.plains cs = Branch.grouping text (NumberedBranch.plains bs) ∧
        Grows s level parent cs taken { t with sheet } := by
  have hself : parent ≠ some s.next := by
    intro heq
    have hlt := hs.parent_lt hp heq
    omega
  have hsheet : t.sheet = s.sheet.extend parent [s.next]
      ({ s.nextDraft parent text level none with children := bs.map (·.id) } ::
        NumberedBranch.draftsBelow (level + 1) (some s.next) bs) := by
    rw [h.sheet]
    exact DraftSheet.extend_below (hs.lacks (Nat.le_refl _))
  cases bs with
  | nil =>
    refine ⟨[], s.sheet, ?_, rfl, h.above hs hp htook (s.sheet.extend_nil parent).symm (.inl rfl)⟩
    rw [hsheet]
    exact DraftSheet.close_nil rfl rfl hp hself (hs.lacks (Nat.le_refl _)) hs.unnamed
  | cons b bs =>
    obtain ⟨id, label, place, below⟩ := b
    have hgroup : ∀ i ∈ NumberedBranch.idsBelow (.branch id label place below :: bs), s.next < i :=
      fun i hi => h.id_ge i hi
    refine ⟨[.branch s.next text place (.branch id label place below :: bs)], _, ?_, rfl,
      h.above hs hp htook rfl (.inr ?_)⟩
    · rw [hsheet, NumberedBranch.draftsBelow, NumberedBranch.drafts]
      refine (DraftSheet.close_cons rfl (hs.lacks (Nat.le_refl _)) (hs.lacks ?_) ?_).trans ?_
      · exact Nat.le_of_lt (hgroup id List.mem_cons_self)
      · intro e he
        have hmem : e ∈ NumberedBranch.draftsBelow (level + 1) (some s.next)
          (.branch id label place below :: bs) := he
        exact Nat.ne_of_gt (hgroup _ (NumberedBranch.id_mem_of_mem_draftsBelow hmem))
      · simp [NumberedBranch.draftsBelow, NumberedBranch.drafts, NumberedBranch.id, nextDraft]
    · simp [NumberedBranch.idsBelow, NumberedBranch.ids]

end Added

end Drafting

end HebrewCorpus
