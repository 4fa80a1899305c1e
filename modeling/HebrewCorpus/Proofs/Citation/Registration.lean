import HebrewCorpus.Proofs.Citation.Lookup
import Mathlib.Data.List.Find

/-! # Who keeps a key

The references of a book are registered in the order of its lines, each in full, without a title and
by its address alone. All these keys share one table, and the line that registers a key first keeps
it.

* **`RefEntry.derivedKeys`**: the keys of a reference other than its canonical form.
* **`RefIndex.lookup_build_eq_find?`**: a key of a book leads to the first line that registers it.
* **`RefIndex.exists_carrier_of_lookup`**: for a key that is a reference in full this is the first
  line with that reference, unless a line before it registers it as a derived key. -/

namespace HebrewCorpus

open Text

/-- The first of several things with a property stands behind things without it. -/
theorem exists_first {α : Type} {p : α → Prop} [DecidablePred p] {as : List α} {a : α} (ha : a ∈ as)
    (h : p a) : ∃ front first back, as = front ++ first :: back ∧ p first ∧ ∀ b ∈ front, ¬ p b := by
  have hsome : (as.find? fun b => decide (p b)).isSome :=
    List.find?_isSome.2 ⟨a, ha, decide_eq_true h⟩
  obtain ⟨first, hfirst⟩ := Option.isSome_iff_exists.1 hsome
  obtain ⟨hp, front, back, hsplit, hnone⟩ := List.find?_eq_some_iff_append.1 hfirst
  exact ⟨front, first, back, hsplit, of_decide_eq_true hp, fun b hb => by simpa using hnone b hb⟩

namespace RefEntry

/-- **The derived keys of an entry**: its two references without a title, and by their addresses
alone. -/
def derivedKeys (titles : List Text) (e : RefEntry) : List Text :=
  ([e.ref, e.heRef].filter fun ref => !(canonical ref).isEmpty).flatMap fun ref =>
    [stripAlias (canonical ref) titles, canonicalTail ref]

/-- The keys of one reference are its canonical form and what is derived from it. -/
theorem mem_scopeKeysOf {titles : List Text} {ref key : Text} (hkey : key ≠ []) :
    key ∈ scopeKeysOf titles ref ↔ canonical ref ≠ [] ∧
      (key = canonical ref ∨ key = stripAlias (canonical ref) titles ∨ key = canonicalTail ref) := by
  unfold scopeKeysOf
  by_cases h : canonical ref = []
  · simp [h]
  · simp [h, hkey]

/-- **The keys of an entry within its book** are its references in full and the derived keys. -/
theorem mem_scopeKeys {titles : List Text} {e : RefEntry} {key : Text} (hkey : key ≠ []) :
    key ∈ e.scopeKeys titles ↔ key ∈ e.fullKeys ∨ key ∈ e.derivedKeys titles := by
  have hfull : key ∈ e.fullKeys ↔ key = canonical e.ref ∨ key = canonical e.heRef := by
    simp [fullKeys, hkey]
  have hderived : key ∈ e.derivedKeys titles ↔ ∃ ref ∈ [e.ref, e.heRef], canonical ref ≠ [] ∧
      (key = stripAlias (canonical ref) titles ∨ key = canonicalTail ref) := by
    simp [derivedKeys, and_assoc]
  rw [scopeKeys, List.mem_append, mem_scopeKeysOf hkey, mem_scopeKeysOf hkey, hfull, hderived]
  -- a key that is a canonical form is not empty, so neither is the canonical form
  have hne {ref : Text} (h : key = canonical ref) : canonical ref ≠ [] := h ▸ hkey
  constructor
  · rintro (⟨hr, h | h⟩ | ⟨hr, h | h⟩)
    · exact .inl (.inl h)
    · exact .inr ⟨e.ref, by simp, hr, h⟩
    · exact .inl (.inr h)
    · exact .inr ⟨e.heRef, by simp, hr, h⟩
  · rintro ((h | h) | ⟨ref, hmem, hr, h⟩)
    · exact .inl ⟨hne h, .inl h⟩
    · exact .inr ⟨hne h, .inl h⟩
    · simp only [List.mem_cons, List.not_mem_nil, or_false] at hmem
      rcases hmem with rfl | rfl
      · exact .inl ⟨hr, .inr h⟩
      · exact .inr ⟨hr, .inr h⟩

end RefEntry

namespace RefIndex

section Build

variable (entries : List RefEntry) (titles : List (Int × List Text)) (offsets : List (Int × Int))

/-- The titles that an index holds of a book. -/
theorem titlesOf_build (book : Int) :
    (build entries titles offsets).titlesOf book =
      orderedTitles ((titles.lookup book).getD []) :=
  getD_lookup_scopes_build entries titles offsets (·.titles) [] rfl book

/-- **A key of a book leads to the first line that registers it.** -/
theorem lookup_build_eq_find? (key : Text) (book : Int) :
    (build entries titles offsets).lookup key (some book) =
      (entries.find? fun e => e.book = book ∧
        key ∈ e.scopeKeys ((build entries titles offsets).titlesOf book)).map
          (·.target ((offsets.lookup book).getD 0)) := by
  rw [lookup_build, titlesOf_build]
  show ((entries.filter (·.book = book)).flatMap _).lookup key = _
  rw [lookup_flatMap_eq_find?, List.find?_filter]
  simp

/-- **Who keeps a reference.** The canonical form of a line's reference leads to the first line of the
book with that canonical form, unless a line before that one has it as a derived key: then it leads
to the first such line. No line behind the first one with the reference ever takes it. -/
theorem exists_carrier_of_lookup {e : RefEntry} (he : e ∈ entries) (hk : canonical e.ref ≠ []) :
    ∃ front carrier back, entries = front ++ carrier :: back ∧
      (carrier.book = e.book ∧ canonical e.ref ∈ carrier.fullKeys) ∧
      (∀ d ∈ front, ¬ (d.book = e.book ∧ canonical e.ref ∈ d.fullKeys)) ∧
      (build entries titles offsets).lookup (canonical e.ref) (some e.book) =
        some (((front.find? fun d => d.book = e.book ∧
            canonical e.ref ∈ d.derivedKeys ((build entries titles offsets).titlesOf e.book)).getD
          carrier).target ((offsets.lookup e.book).getD 0)) := by
  have hown : canonical e.ref ∈ e.fullKeys := by simp [RefEntry.fullKeys, hk]
  obtain ⟨front, carrier, back, hsplit, hcarrier, hfront⟩ :=
    exists_first (p := fun d => d.book = e.book ∧ canonical e.ref ∈ d.fullKeys) he ⟨rfl, hown⟩
  refine ⟨front, carrier, back, hsplit, hcarrier, hfront, ?_⟩
  let names := (build entries titles offsets).titlesOf e.book
  -- in front of the carrier a key can only be a derived one
  have hderived : (front.find? fun d => decide (d.book = e.book ∧
      canonical e.ref ∈ d.scopeKeys names)) =
        front.find? fun d => decide (d.book = e.book ∧ canonical e.ref ∈ d.derivedKeys names) := by
    refine List.find?_congr fun d hd => ?_
    simp only [RefEntry.mem_scopeKeys hk, decide_eq_decide]
    refine and_congr_right fun hbook => or_iff_right fun hfull => hfront d hd ⟨hbook, hfull⟩
  have hlast : decide (carrier.book = e.book ∧ canonical e.ref ∈ carrier.scopeKeys names) = true :=
    decide_eq_true ⟨hcarrier.1, (RefEntry.mem_scopeKeys hk).2 (.inl hcarrier.2)⟩
  have hfind : (entries.find? fun d => decide (d.book = e.book ∧
      canonical e.ref ∈ d.scopeKeys names)) = some ((front.find? fun d =>
        decide (d.book = e.book ∧ canonical e.ref ∈ d.derivedKeys names)).getD carrier) := by
    rw [hsplit, List.find?_append, hderived, List.find?_cons, hlast]
    cases front.find? _ <;> rfl
  rw [lookup_build_eq_find?, hfind, Option.map_some]

end Build

/-- Two lines of a book, the first in a part that has the title of the book. -/
def namesakeRefs : List RefEntry :=
  [⟨"Ruth, Ruth 1".toList, "רות, רות א".toList, 1, 7⟩, ⟨"Ruth 1".toList, "רות א".toList, 2, 7⟩]

/-- The index of the two lines. -/
def namesakeIndex : RefIndex := build namesakeRefs [(7, ["Ruth".toList, "רות".toList])] [(7, 100)]

/-- The second line carries the reference, and the first one has it as a derived key. -/
theorem exists_carrier_of_lookup_namesake :
    canonical "Ruth 1".toList ≠ [] ∧
      namesakeIndex.lookup (canonical "Ruth 1".toList) (some 7) = some ⟨7, 100, 0⟩ := by
  refine ⟨by decide, ?_⟩
  obtain ⟨front, carrier, back, hsplit, hcarrier, -, hlookup⟩ :=
    exists_carrier_of_lookup namesakeRefs [(7, ["Ruth".toList, "רות".toList])] [(7, 100)]
      (e := ⟨"Ruth 1".toList, "רות א".toList, 2, 7⟩) (by simp [namesakeRefs]) (by decide)
  -- only the second line has the reference in full
  have hfront : front = namesakeRefs.take 1 := by
    match front, hsplit with
    | [], h =>
      injection h with h
      exact absurd (h ▸ hcarrier.2) (by decide +kernel)
    | [_], h =>
      injection h with h
      rw [← h]
      rfl
    | _ :: _ :: _, h => simp [namesakeRefs] at h
  refine hlookup.trans ?_
  subst hfront
  rfl

/-- **A reference may lead to an earlier line that does not carry it**: the part with the book's title
takes the reference of the line behind it. -/
theorem lookup_namesake_ne_carrier :
    namesakeIndex.lookup (canonical "Ruth 1".toList) (some 7) = some ⟨7, 100, 0⟩ ∧
      (namesakeRefs.find? fun d => d.book = 7 ∧ canonical "Ruth 1".toList ∈ d.fullKeys).map
        (·.target 100) = some ⟨7, 101, 1⟩ := by
  decide +kernel

end RefIndex

end HebrewCorpus
