import HebrewCorpus.Proofs.Book.Outline
import Mathlib.Data.List.Chain

/-! # Nearest entries above

The open slots of an outline hold, for every level, the nearest entry so far that is above it. So the
parent of an entry is the nearest one before it on a higher level, and where levels go down by single
steps it is exactly one level higher.

* **`OutlineEntry.heading`**: the heading that an entry stands for.
* **`nearestAbove?`**, **`Tracks`**: the nearest earlier entry above a level, and slots that hold it.
* **`parent_ofHeadings`**: the parent of every entry of an outline.
* **`exists_nearestAbove`**: parents one level higher. -/

namespace HebrewCorpus

/-! ### Slots -/

/-- A slot with an entry is the deepest one at the end. -/
@[simp] theorem deepest?_concat (slots : List (Option Int)) (id : Int) :
    deepest? (slots ++ [some id]) = some id := by
  rw [deepest?, List.reverse_concat]
  rfl

/-- Empty slots at the end do not count. -/
@[simp] theorem deepest?_append_replicate (slots : List (Option Int)) (n : Nat) :
    deepest? (slots ++ List.replicate n none) = deepest? slots := by
  have hnone : (List.replicate n (none : Option Int)).findSome? id = none := by
    rw [List.findSome?_eq_none_iff]
    intro slot hs
    exact (List.mem_replicate.1 hs).2
  rw [deepest?, List.reverse_append, List.reverse_replicate, List.findSome?_append, hnone]
  rfl

/-- As many slots stay open as the level says. -/
theorem keepOpen_of_nonneg {level : Int} (h : 0 ≤ level) (slots : List (Option Int)) :
    keepOpen level slots = slots.take level.toNat := by
  rw [keepOpen, if_neg (by omega)]

/-! ### Nearest entries -/

/-- The heading that an entry stands for. -/
def OutlineEntry.heading (e : OutlineEntry) : Heading := ⟨e.text, e.level, e.lineIndex⟩

/-- **The nearest entry above a level** among earlier ones, the last of which comes first. -/
def nearestAbove? (level : Int) (earlier : List OutlineEntry) : Option Int :=
  (earlier.find? (·.level < level)).map (·.id)

/-- **Slots that hold the nearest earlier entry above every level.** -/
def Tracks (slots : List (Option Int)) (earlier : List OutlineEntry) : Prop :=
  ∀ level : Int, 0 ≤ level → deepest? (keepOpen level slots) = nearestAbove? level earlier

/-- Without slots there is nothing to hold. -/
theorem tracks_nil : Tracks [] [] := by
  intro level hlevel
  rw [keepOpen_of_nonneg hlevel, List.take_nil]
  rfl

/-- **Slots keep track of one more entry** when those at its level and below it are closed. -/
theorem Tracks.cons {slots : List (Option Int)} {earlier : List OutlineEntry}
    (h : Tracks slots earlier) {e : OutlineEntry} (he : 0 ≤ e.level) :
    Tracks (openSlot e.level e.id (keepOpen e.level slots)) (e :: earlier) := by
  intro level hlevel
  rw [keepOpen_of_nonneg he, keepOpen_of_nonneg hlevel, openSlot]
  have hkept : (slots.take e.level.toNat).length ≤ e.level.toNat := List.length_take_le ..
  -- the slots down to the level of the entry
  have hpadded : (slots.take e.level.toNat ++ List.replicate
      (e.level - (slots.take e.level.toNat).length).toNat none).length = e.level.toNat := by
    rw [List.length_append, List.length_replicate]
    omega
  by_cases hlt : e.level < level
  · -- below its own level the entry is the nearest one
    rw [List.take_of_length_le, deepest?_concat, nearestAbove?, List.find?_cons_of_pos]
    · rfl
    · simpa using hlt
    · rw [List.length_append, hpadded, List.length_singleton]
      omega
  · -- from its level upwards it does not count
    rw [List.take_append_of_le_length (by omega), List.take_append, List.take_replicate,
      deepest?_append_replicate, List.take_take, Nat.min_eq_left (by omega), nearestAbove?,
      List.find?_cons_of_neg (by simpa using hlt), ← keepOpen_of_nonneg hlevel]
    exact h level hlevel

namespace Outline

section Entries

variable {book firstLine total : Int} {all : List (Option Int)}

/-- The entries stand for the headings in their order. -/
theorem map_heading_entriesFrom (id : Int) (hs : List Heading) {parents : List (Option Int)}
    (h : parents.length = hs.length) :
    (entriesFrom book firstLine total all id hs parents).map OutlineEntry.heading = hs := by
  induction hs generalizing id parents with
  | nil => rfl
  | cons heading hs ih =>
    cases parents with
    | nil => cases h
    | cons parent parents =>
      rw [entriesFrom, List.map_cons, ih (id + 1) (Nat.succ.inj h)]
      rfl

/-- The parent of an entry is the nearest one above it, among those before the headings and those of
the headings. -/
theorem parent_entriesFrom {id : Int} {hs : List Heading} (hlevels : ∀ h ∈ hs, 0 ≤ h.level)
    {slots : List (Option Int)} {earlier : List OutlineEntry} (htracks : Tracks slots earlier)
    {before after : List OutlineEntry} {e : OutlineEntry}
    (h : entriesFrom book firstLine total all id hs (parentsFrom slots id (hs.map (·.level))) =
      before ++ e :: after) :
    e.parent = nearestAbove? e.level (before.reverse ++ earlier) := by
  induction hs generalizing id slots earlier before with
  | nil => cases before <;> cases h
  | cons heading hs ih =>
    have hlevel : 0 ≤ heading.level := hlevels heading List.mem_cons_self
    rw [List.map_cons, parentsFrom, entriesFrom] at h
    cases before with
    | nil =>
      obtain ⟨rfl, -⟩ := List.cons.inj h
      exact htracks heading.level hlevel
    | cons first before =>
      obtain ⟨rfl, hrest⟩ := List.cons.inj h
      rw [List.reverse_cons, List.append_assoc]
      exact ih (fun g hg => hlevels g (List.mem_cons_of_mem _ hg)) (htracks.cons hlevel) hrest

end Entries

section OfHeadings

variable (book : Int) (headings : List Heading) (firstLine total firstEntry : Int)

/-- **The entries of an outline stand for its headings**, in their order. -/
theorem map_heading_entries_ofHeadings :
    (ofHeadings book headings firstLine total firstEntry).entries.map OutlineEntry.heading =
      headings := by
  refine map_heading_entriesFrom firstEntry headings ?_
  rw [length_parentsFrom, List.length_map]

variable {book headings firstLine total firstEntry}

/-- **The parent of an entry is the nearest one before it on a higher level**, and it has none when
there is no such entry. -/
theorem parent_ofHeadings (hlevels : ∀ h ∈ headings, 0 ≤ h.level) {before after : List OutlineEntry}
    {e : OutlineEntry}
    (h : (ofHeadings book headings firstLine total firstEntry).entries = before ++ e :: after) :
    e.parent = nearestAbove? e.level before.reverse := by
  have hparent := parent_entriesFrom hlevels tracks_nil h
  rwa [List.append_nil] at hparent

end OfHeadings

end Outline

/-! ### Levels that go down by single steps -/

/-- **Where levels go down by single steps, the nearest entry above is one level higher.** -/
theorem exists_nearestAbove {level : Int} {earlier : List OutlineEntry}
    (hfirst : ∀ e ∈ earlier.head?, level ≤ e.level + 1)
    (hsteps : earlier.IsChain fun e f => e.level ≤ f.level + 1)
    (hroot : ∃ e ∈ earlier, e.level < level) :
    ∃ f ∈ earlier, nearestAbove? level earlier = some f.id ∧ f.level + 1 = level := by
  induction earlier with
  | nil =>
    obtain ⟨e, he, -⟩ := hroot
    cases he
  | cons e earlier ih =>
    have hnext : level ≤ e.level + 1 := hfirst e rfl
    by_cases hlt : e.level < level
    · refine ⟨e, List.mem_cons_self, ?_, by omega⟩
      rw [nearestAbove?, List.find?_cons_of_pos (by simpa using hlt)]
      rfl
    · -- the entry is not above the level, so the one before it is at most one level higher
      obtain ⟨hstep, hsteps⟩ := List.isChain_cons.1 hsteps
      obtain ⟨f, hf, hfind, hlevel⟩ := ih
        (fun g hg => by
          have := hstep g hg
          omega)
        hsteps
        (by
          obtain ⟨r, hr, hrlt⟩ := hroot
          rcases List.mem_cons.1 hr with rfl | hr
          · exact absurd hrlt hlt
          · exact ⟨r, hr, hrlt⟩)
      refine ⟨f, List.mem_cons_of_mem _ hf, ?_, hlevel⟩
      rwa [nearestAbove?, List.find?_cons_of_neg (by simpa using hlt)]

end HebrewCorpus
