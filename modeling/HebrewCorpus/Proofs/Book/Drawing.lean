import HebrewCorpus.Proofs.Book.Parents
import Mathlib.Data.List.AList

/-! # Outlines drawn in one pass

An outline can be drawn while its headings go by once. Whether an entry has children, and whether it
is the last one below its parent, shows only later; so the pass notes the parent of every heading,
the number of children of every entry and the last child of every parent, and what it noted is read
when all headings have gone by.

* **`OutlineNotes`**, **`OutlineNotes.add`**: what is noted, heading by heading.
* **`OutlineNotes.Correct`**: notes that say what the parents so far say.
* **`Outline.draw`**, **`Outline.draw_eq`**: the outline of one pass.
* **`Outline.Placed`**: an entry among those before and after it.
* **`Outline.Draws`**, **`Outline.draws_ofHeadings`**: every entry of an outline is in its place. -/

namespace HebrewCorpus

/-- A list with an element at its end is divided at that element or at an earlier one. -/
theorem concat_eq_append_cons {α : Type} {xs before after : List α} {x y : α} :
    xs ++ [x] = before ++ y :: after ↔
      (xs = before ∧ x = y ∧ after = []) ∨
        ∃ rest, xs = before ++ y :: rest ∧ after = rest ++ [x] := by
  constructor
  · intro h
    rcases List.eq_nil_or_concat after with rfl | ⟨rest, z, rfl⟩
    · obtain ⟨hxs, hx⟩ := List.append_inj' h rfl
      exact .inl ⟨hxs, List.cons.inj hx |>.1, rfl⟩
    · rw [List.concat_eq_append, ← List.cons_append, ← List.append_assoc] at h
      obtain ⟨hxs, hx⟩ := List.append_inj' h rfl
      obtain ⟨rfl, -⟩ := List.cons.inj hx
      exact .inr ⟨rest, hxs, List.concat_eq_append⟩
  · rintro (⟨rfl, rfl, rfl⟩ | ⟨rest, rfl, rfl⟩)
    · rfl
    · rw [List.append_assoc, List.cons_append]

/-! ### Notes -/

/-- **What is noted of the headings so far**: the open slots, the parent of every heading, how many
children an entry has, and the last child of every parent. Roots are the children of none. -/
structure OutlineNotes where
  slots : List (Option Int)
  parents : List (Option Int)
  childCount : AList fun _ : Int => Nat
  lastChild : AList fun _ : Option Int => Int

namespace OutlineNotes

/-- Nothing is noted before the first heading. -/
def blank : OutlineNotes := ⟨[], [], ∅, ∅⟩

/-- **A heading is noted**, the entry of which has number `id`. -/
def add (n : OutlineNotes) (level id : Int) : OutlineNotes :=
  let kept := keepOpen level n.slots
  let parent := deepest? kept
  { slots := openSlot level id kept
    parents := n.parents ++ [parent]
    childCount :=
      match parent with
      | none => n.childCount
      | some q => n.childCount.insert q ((n.childCount.lookup q).getD 0 + 1)
    lastChild := n.lastChild.insert parent id }

/-- Headings with the given levels are noted, the first of which has number `id`. -/
def addAll (n : OutlineNotes) (id : Int) : List Int → OutlineNotes
  | [] => n
  | level :: levels => (n.add level id).addAll (id + 1) levels

/-- **The entry of a heading**, read from the notes; `offset` headings are before it. -/
def entry (n : OutlineNotes) (book firstLine total firstEntry : Int) (offset : Nat) (h : Heading) :
    OutlineEntry :=
  let id := firstEntry + offset
  { id, book
    parent := n.parents[offset]?.join
    text := h.title
    level := h.level
    lineIndex := h.lineIndex
    line := if h.lineIndex < total then some (firstLine + h.lineIndex) else none
    hasChildren := decide (0 < (n.childCount.lookup id).getD 0)
    isLastChild := (n.lastChild.entries.map (·.2)).elem id }

/-- **Notes that say what the parents say**: how often each entry is a parent, and the number of the
last heading with each parent. The first heading has number `first`. -/
structure Correct (n : OutlineNotes) (first : Int) : Prop where
  childCount : ∀ q, (n.childCount.lookup q).getD 0 = n.parents.count (some q)
  lastChild : ∀ parent id, n.lastChild.lookup parent = some id ↔
    ∃ before after, n.parents = before ++ parent :: after ∧ parent ∉ after ∧
      id = first + before.length

section Steps

variable {n : OutlineNotes} {first : Int}

/-- Without headings there are no parents. -/
theorem correct_blank (first : Int) : blank.Correct first where
  childCount _ := rfl
  lastChild parent id := by simp [blank]

/-- The parent of the next heading is noted behind the others. -/
@[simp] theorem parents_add (n : OutlineNotes) (level id : Int) :
    (n.add level id).parents = n.parents ++ [deepest? (keepOpen level n.slots)] := rfl

/-- **Notes stay correct** when the next heading is noted. -/
theorem Correct.add (h : n.Correct first) (level : Int) :
    (n.add level (first + n.parents.length)).Correct first where
  childCount q := by
    rw [parents_add, List.count_append, ← h.childCount, OutlineNotes.add]
    dsimp only
    cases deepest? (keepOpen level n.slots) with
    | none => rfl
    | some r =>
      by_cases hq : q = r
      · subst hq
        simp [AList.lookup_insert]
      · have hne : some r ≠ some q := fun h => hq (Option.some.inj h).symm
        simp [AList.lookup_insert_ne hq, hne]
  lastChild parent id := by
    rw [parents_add, OutlineNotes.add]
    dsimp only
    generalize deepest? (keepOpen level n.slots) = newest
    simp only [concat_eq_append_cons]
    by_cases hp : parent = newest
    · -- the next heading is now the last one with its parent
      subst hp
      rw [AList.lookup_insert]
      constructor
      · intro hid
        exact ⟨n.parents, [], .inl ⟨rfl, rfl, rfl⟩, List.not_mem_nil, (Option.some.inj hid).symm⟩
      · rintro ⟨before, after, ⟨rfl, -, rfl⟩ | ⟨rest, -, rfl⟩, hlast, rfl⟩
        · rfl
        · exact absurd (List.mem_append_right rest List.mem_cons_self) hlast
    · -- other parents keep their last child
      rw [AList.lookup_insert_ne hp, h.lastChild]
      constructor
      · rintro ⟨before, rest, hparents, hlast, rfl⟩
        refine ⟨before, rest ++ [newest], .inr ⟨rest, hparents, rfl⟩, ?_, rfl⟩
        rw [List.mem_append, List.mem_singleton]
        exact not_or.2 ⟨hlast, hp⟩
      · rintro ⟨before, after, ⟨-, rfl, -⟩ | ⟨rest, hparents, rfl⟩, hlast, rfl⟩
        · exact absurd rfl hp
        · exact ⟨before, rest, hparents, fun hm => hlast (List.mem_append_left _ hm), rfl⟩

/-- **Notes are correct after any number of headings.** -/
theorem Correct.addAll (h : n.Correct first) (levels : List Int) :
    (n.addAll (first + n.parents.length) levels).Correct first := by
  induction levels generalizing n with
  | nil => exact h
  | cons level levels ih =>
    have hnext : first + n.parents.length + 1 =
        first + (n.add level (first + n.parents.length)).parents.length := by
      rw [parents_add, List.length_append, List.length_singleton]
      omega
    rw [OutlineNotes.addAll, hnext]
    exact ih (h.add level)

/-- The parents noted are those of the headings. -/
theorem parents_addAll (n : OutlineNotes) (id : Int) (levels : List Int) :
    (n.addAll id levels).parents = n.parents ++ parentsFrom n.slots id levels := by
  induction levels generalizing n id with
  | nil => exact (List.append_nil _).symm
  | cons level levels ih =>
    rw [addAll, ih, parents_add, parentsFrom, List.append_assoc]
    rfl

/-- **An entry has children** when it is some heading's parent. -/
theorem Correct.hasChildren (h : n.Correct first) (id : Int) :
    decide (0 < (n.childCount.lookup id).getD 0) = n.parents.elem (some id) := by
  rw [h.childCount, Bool.eq_iff_iff, decide_eq_true_eq, List.count_pos_iff, List.elem_iff]

/-- **An entry is a last child** when no later heading has its parent. -/
theorem Correct.isLastChild (h : n.Correct first) {before after : List (Option Int)}
    {parent : Option Int} (hparents : n.parents = before ++ parent :: after) :
    (n.lastChild.entries.map (·.2)).elem (first + before.length) = !after.elem parent := by
  rw [Bool.eq_iff_iff, Bool.not_eq_true', ← Bool.not_eq_true, List.elem_iff, List.elem_iff,
    List.mem_map]
  constructor
  · rintro ⟨⟨p, id⟩, hentry, rfl⟩
    obtain ⟨front, back, hsplit, hlast, hid⟩ := (h.lastChild p _).1 (AList.mem_lookup_iff.2 hentry)
    -- the parents are divided at one place only
    have hlength : before.length = front.length := by omega
    obtain ⟨-, htail⟩ := List.append_inj (hparents.symm.trans hsplit) hlength
    obtain ⟨rfl, rfl⟩ := List.cons.inj htail
    exact hlast
  · intro hlast
    exact ⟨⟨parent, first + before.length⟩,
      AList.mem_lookup_iff.1 ((h.lastChild _ _).2 ⟨before, after, hparents, hlast, rfl⟩), rfl⟩

end Steps

end OutlineNotes

namespace Outline

/-! ### Outlines of one pass -/

/-- **The outline of a sequence of headings, drawn in one pass** over them. -/
def draw (book : Int) (headings : List Heading) (firstLine total firstEntry : Int) : Outline :=
  let notes := OutlineNotes.blank.addAll firstEntry (headings.map (·.level))
  let entries := headings.mapIdx (notes.entry book firstLine total firstEntry)
  ⟨book, entries, mapLines (entries.map fun e => (e.lineIndex, e.id)) firstLine total⟩

/-- Correct notes give the entries of the headings still to come. -/
theorem mapIdx_entry {n : OutlineNotes} {first : Int} (h : n.Correct first)
    (book firstLine total : Int) (hs : List Heading) (before : List (Option Int))
    {parents : List (Option Int)} (hparents : n.parents = before ++ parents)
    (hlength : parents.length = hs.length) :
    hs.mapIdx (fun k => n.entry book firstLine total first (before.length + k)) =
      entriesFrom book firstLine total n.parents (first + before.length) hs parents := by
  induction hs generalizing before parents with
  | nil => rfl
  | cons heading hs ih =>
    cases parents with
    | nil => cases hlength
    | cons parent parents =>
      have hrest := ih (before ++ [parent]) (by rw [hparents, List.append_assoc]; rfl)
        (Nat.succ.inj hlength)
      have hnext : first + ((before ++ [parent]).length : Int) = first + before.length + 1 := by
        rw [List.length_append, List.length_singleton]
        omega
      have hparent : n.parents[before.length]?.join = parent := by
        rw [hparents, List.getElem?_append_right (Nat.le_refl _), Nat.sub_self]
        rfl
      rw [List.mapIdx_cons, entriesFrom, ← hnext, ← hrest, OutlineNotes.entry, Nat.add_zero,
        hparent, h.hasChildren, h.isLastChild hparents, List.length_append, List.length_singleton]
      simp only [Nat.add_assoc, Nat.add_comm 1]
      rfl

/-- **One pass draws the outline of the headings.** -/
theorem draw_eq (book : Int) (headings : List Heading) (firstLine total firstEntry : Int) :
    draw book headings firstLine total firstEntry =
      ofHeadings book headings firstLine total firstEntry := by
  have hnotes := (OutlineNotes.correct_blank firstEntry).addAll (headings.map (·.level))
  have hparents := OutlineNotes.parents_addAll .blank firstEntry (headings.map (·.level))
  simp only [OutlineNotes.blank, List.length_nil, List.nil_append, Int.natCast_zero,
    Int.add_zero] at hnotes hparents
  have hentries := mapIdx_entry hnotes book firstLine total headings [] hparents
    (by rw [length_parentsFrom, List.length_map])
  simp only [List.length_nil, Nat.zero_add, Int.natCast_zero, Int.add_zero, hparents] at hentries
  rw [draw, ofHeadings, OutlineNotes.blank, hentries]

/-! ### Entries in their places -/

/-- **An entry in its place** among the entries before and after it. -/
structure Placed (before : List OutlineEntry) (e : OutlineEntry) (after : List OutlineEntry) :
    Prop where
  /-- Its parent is an entry above it after which there is none above it. -/
  parent : ∀ q, e.parent = some q ↔ ∃ front p between, before = front ++ p :: between ∧ p.id = q ∧
    p.level < e.level ∧ ∀ g ∈ between, e.level ≤ g.level
  /-- A root has no entry above it. -/
  root : e.parent = none ↔ ∀ g ∈ before, e.level ≤ g.level
  hasChildren : e.hasChildren = true ↔ ∃ g ∈ before ++ e :: after, g.parent = some e.id
  isLastChild : e.isLastChild = true ↔ ∀ g ∈ after, g.parent ≠ e.parent

/-- **An outline that draws headings**: it has their entries, numbered from `firstEntry`, each one
in its place and at the line below its heading, if there is one. -/
structure Draws (o : Outline) (headings : List Heading) (firstLine total firstEntry : Int) :
    Prop where
  standFor : o.entries.map OutlineEntry.heading = headings
  numbered : o.entries.map (·.id) = numbersFrom firstEntry headings.length
  book : ∀ e ∈ o.entries, e.book = o.book
  placed : ∀ before e after, o.entries = before ++ e :: after → Placed before e after
  line : ∀ e ∈ o.entries,
    e.line = if e.lineIndex < total then some (firstLine + e.lineIndex) else none

/-- The nearest entry above a level is the last one that is above it. -/
theorem nearestAbove?_reverse_eq_some {level q : Int} {before : List OutlineEntry} :
    nearestAbove? level before.reverse = some q ↔ ∃ front p between,
      before = front ++ p :: between ∧ p.id = q ∧ p.level < level ∧
        ∀ g ∈ between, level ≤ g.level := by
  simp only [nearestAbove?, Option.map_eq_some_iff, List.find?_eq_some_iff_append]
  constructor
  · rintro ⟨p, ⟨hp, between, front, hsplit, hbetween⟩, rfl⟩
    refine ⟨front.reverse, p, between.reverse, ?_, rfl, of_decide_eq_true hp, ?_⟩
    · rw [← List.reverse_reverse before, hsplit]
      simp
    · intro g hg
      simpa using hbetween g (List.mem_reverse.1 hg)
  · rintro ⟨front, p, between, rfl, rfl, hp, hbetween⟩
    refine ⟨p, ⟨decide_eq_true hp, between.reverse, front.reverse, by simp, ?_⟩, rfl⟩
    intro g hg
    simpa using hbetween g (List.mem_reverse.1 hg)

/-- There is no entry above a level when none is. -/
theorem nearestAbove?_reverse_eq_none {level : Int} {before : List OutlineEntry} :
    nearestAbove? level before.reverse = none ↔ ∀ g ∈ before, level ≤ g.level := by
  simp [nearestAbove?]

section Entries

variable {book firstLine total : Int} {all : List (Option Int)}

/-- The parents of the entries are the given ones. -/
theorem map_parent_entriesFrom (id : Int) (hs : List Heading) {parents : List (Option Int)}
    (h : parents.length = hs.length) :
    (entriesFrom book firstLine total all id hs parents).map (·.parent) = parents := by
  induction hs generalizing id parents with
  | nil => exact (List.length_eq_zero_iff.1 h).symm
  | cons heading hs ih =>
    cases parents with
    | nil => cases h
    | cons parent parents =>
      rw [entriesFrom, List.map_cons, ih (id + 1) (Nat.succ.inj h)]

/-- What an entry says of its children and of its place among its siblings. -/
theorem flags_of_entriesFrom {id : Int} {hs : List Heading} {parents : List (Option Int)}
    (hlength : parents.length = hs.length) {before after : List OutlineEntry} {e : OutlineEntry}
    (h : entriesFrom book firstLine total all id hs parents = before ++ e :: after) :
    e.hasChildren = all.elem (some e.id) ∧
      e.isLastChild = !(after.map (·.parent)).elem e.parent := by
  induction hs generalizing id parents before with
  | nil => cases before <;> cases h
  | cons heading hs ih =>
    cases parents with
    | nil => cases hlength
    | cons parent parents =>
      have hlength := Nat.succ.inj hlength
      rw [entriesFrom] at h
      cases before with
      | nil =>
        obtain ⟨rfl, rfl⟩ := List.cons.inj h
        rw [map_parent_entriesFrom (id + 1) hs hlength]
        exact ⟨rfl, rfl⟩
      | cons first before => exact ih hlength (List.cons.inj h).2

end Entries

section OfHeadings

variable {book firstLine total firstEntry : Int} {headings : List Heading}

/-- Every entry of an outline is in its place. -/
theorem placed_of_entries (hlevels : ∀ h ∈ headings, 0 ≤ h.level)
    {before after : List OutlineEntry} {e : OutlineEntry}
    (h : (ofHeadings book headings firstLine total firstEntry).entries = before ++ e :: after) :
    Placed before e after := by
  have hlength : (parentsFrom [] firstEntry (headings.map (·.level))).length = headings.length := by
    rw [length_parentsFrom, List.length_map]
  have hparent := parent_ofHeadings hlevels h
  have hparents : (ofHeadings book headings firstLine total firstEntry).entries.map (·.parent) =
      parentsFrom [] firstEntry (headings.map (·.level)) :=
    map_parent_entriesFrom firstEntry headings hlength
  obtain ⟨hchildren, hlast⟩ := flags_of_entriesFrom hlength h
  refine ⟨?_, ?_, ?_, ?_⟩
  · intro q
    rw [hparent, nearestAbove?_reverse_eq_some]
  · rw [hparent, nearestAbove?_reverse_eq_none]
  · rw [hchildren, List.elem_iff, ← hparents, List.mem_map, h]
  · rw [hlast]
    simp

variable (book firstLine total firstEntry)

/-- **An outline draws its headings**, whatever levels they jump to, and one pass over them is
enough to draw it. -/
theorem draws_ofHeadings (hlevels : ∀ h ∈ headings, 0 ≤ h.level) :
    let outline := ofHeadings book headings firstLine total firstEntry
    outline.Draws headings firstLine total firstEntry ∧
      draw book headings firstLine total firstEntry = outline := by
  intro outline
  refine ⟨⟨map_heading_entries_ofHeadings .., map_id_entries_ofHeadings .., ?_, ?_, ?_⟩,
    draw_eq book headings firstLine total firstEntry⟩
  · intro e he
    exact (exists_heading_of_mem_entries he).1
  · intro before e after h
    exact placed_of_entries hlevels h
  · intro e he
    obtain ⟨-, heading, -, hindex, hline⟩ := exists_heading_of_mem_entries he
    rw [hline, hindex]

end OfHeadings

/-- Headings that go down two levels at once and come back by one, a second root, and one behind all
lines. -/
def jumpingHeadings : List Heading :=
  [⟨"Tur".toList, 0, 0⟩, ⟨"Blessings".toList, 2, 0⟩, ⟨"Siman".toList, 1, 1⟩, ⟨"Notes".toList, 0, 2⟩,
    ⟨"End".toList, 3, 4⟩]

/-- Siblings need not be on one level, and only the last of them is a last child. -/
theorem draws_ofHeadings_jumping :
    (∀ h ∈ jumpingHeadings, 0 ≤ h.level) ∧
      (ofHeadings 5 jumpingHeadings 100 4 10).Draws jumpingHeadings 100 4 10 ∧
      draw 5 jumpingHeadings 100 4 10 = ofHeadings 5 jumpingHeadings 100 4 10 ∧
      (ofHeadings 5 jumpingHeadings 100 4 10).entries.map
          (fun e => (e.parent, e.line, e.hasChildren, e.isLastChild)) =
        [(none, some 100, true, false), (some 10, some 100, false, false),
          (some 10, some 101, false, true), (none, some 102, true, true),
          (some 13, none, false, true)] := by
  have hlevels : ∀ h ∈ jumpingHeadings, 0 ≤ h.level := by decide +kernel
  obtain ⟨hdraws, hdraw⟩ := draws_ofHeadings 5 100 4 10 hlevels
  exact ⟨hlevels, hdraws, hdraw, by decide +kernel⟩

end Outline

end HebrewCorpus
