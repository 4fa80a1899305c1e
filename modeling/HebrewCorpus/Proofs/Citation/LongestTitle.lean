import HebrewCorpus.Proofs.Citation.SourceBook
import Mathlib.Data.Set.Finite.Lemmas

/-! # The longest title

Titles are tried in falling lengths, and the first one that fits a key is taken. A key starts with
one text of each length only, so this is the longest title that fits, however titles of one length
are arranged.

* **`Longest`**: the longest of the titles with a property.
* **`Stripped`**: what a key is without a title, by the set of titles; `stripped_stripAlias` says so
  of titles in falling lengths.
* **`NamesTitle`**: a key that is a title or goes on behind it; `find?_of_longest` finds the book of
  the longest such title. -/

namespace HebrewCorpus

open Text

/-! ### The longest title -/

/-- **The longest of the titles with a property.** -/
structure Longest (titles : List Text) (p : Text → Prop) (title : Text) : Prop where
  mem : title ∈ titles
  holds : p title
  longest : ∀ t ∈ titles, p t → t.length ≤ title.length

/-- If any of some titles has a property, there is a longest one that has it. -/
theorem exists_longest {titles : List Text} {p : Text → Prop} {title : Text} (hm : title ∈ titles)
    (hp : p title) : ∃ longest, Longest titles p longest := by
  have hfinite : {t | t ∈ titles ∧ p t}.Finite :=
    (List.finite_toSet titles).subset fun t ht => ht.1
  obtain ⟨t, ⟨htm, htp⟩, hmax⟩ :=
    Set.exists_max_image {t | t ∈ titles ∧ p t} List.length hfinite ⟨title, hm, hp⟩
  exact ⟨t, htm, htp, fun s hs hsp => hmax s ⟨hs, hsp⟩⟩

/-- Two beginnings of a key of one length are the same. -/
theorem eq_of_starts {s t key : Text} (hs : s <+: key) (ht : t <+: key) (h : s.length = t.length) :
    s = t :=
  (List.prefix_of_prefix_length_le hs ht (Nat.le_of_eq h)).eq_of_length h

/-! ### A key without its title -/

/-- **A key without a title at its start** and the white space behind it; the whole key when nothing
else is in it. -/
def withoutTitle (key title : Text) : Text :=
  let rest := trimStart (key.drop title.length)
  if rest.isEmpty then key else rest

section Strip

variable {key title : Text} {titles : List Text}

/-- The first title is stripped if the key goes on with a space behind it. -/
theorem stripAlias_cons (h : title ≠ []) (titles : List Text) :
    stripAlias key (title :: titles) =
      if key = title then key
      else if title ++ [' '] <+: key then withoutTitle key title
      else stripAlias key titles := by
  rw [stripAlias, if_neg (by simpa using h)]
  split
  · rfl
  · split
    · next rest hr =>
      have hkey : key = title ++ [' '] ++ rest := dropLead?_eq_some_iff.1 hr
      have hpre : title ++ [' '] <+: key := ⟨rest, hkey.symm⟩
      have hdrop : key.drop title.length = ' ' :: rest := by
        rw [hkey, List.append_assoc, List.drop_left]
        rfl
      rw [if_pos hpre, withoutTitle, hdrop]
      rfl
    · next hr =>
      have hnot : ¬ title ++ [' '] <+: key := by
        rintro ⟨rest, hrest⟩
        rw [dropLead?_eq_some_iff.2 hrest.symm] at hr
        cases hr
      rw [if_neg hnot]

/-- **A key with a space behind none of the titles is kept.** -/
theorem stripAlias_of_none (hne : ∀ t ∈ titles, t ≠ []) (h : ∀ t ∈ titles, ¬ t ++ [' '] <+: key) :
    stripAlias key titles = key := by
  induction titles with
  | nil => rfl
  | cons t titles ih =>
    rw [List.forall_mem_cons] at hne h
    rw [stripAlias_cons hne.1, if_neg h.1, ih hne.2 h.2, ite_self]

/-- **A title itself is kept**: no title that comes before it can be followed by a space. -/
theorem stripAlias_of_mem (hne : ∀ t ∈ titles, t ≠ [])
    (hfalling : titles.Pairwise fun s t => t.length ≤ s.length) (h : key ∈ titles) :
    stripAlias key titles = key := by
  induction titles with
  | nil => rfl
  | cons t titles ih =>
    rw [List.forall_mem_cons] at hne
    obtain ⟨hlater, hfalling⟩ := List.pairwise_cons.1 hfalling
    rw [stripAlias_cons hne.1]
    rcases List.mem_cons.1 h with rfl | h
    · rw [if_pos rfl]
    · have hlong : ¬ t ++ [' '] <+: key := by
        intro hpre
        have hle := hpre.length_le
        have := hlater key h
        rw [List.length_append, List.length_singleton] at hle
        omega
      rw [if_neg hlong, ih hne.2 hfalling h, ite_self]

/-- **The longest title with a space behind it is stripped** when longer titles stand first. -/
theorem stripAlias_of_longest (hne : ∀ t ∈ titles, t ≠ [])
    (hfalling : titles.Pairwise fun s t => t.length ≤ s.length) (hkey : key ∉ titles)
    (h : Longest titles (· ++ [' '] <+: key) title) :
    stripAlias key titles = withoutTitle key title := by
  induction titles with
  | nil => cases h.mem
  | cons t titles ih =>
    rw [List.forall_mem_cons] at hne
    rw [List.mem_cons, not_or] at hkey
    obtain ⟨hlater, hfalling⟩ := List.pairwise_cons.1 hfalling
    rw [stripAlias_cons hne.1, if_neg hkey.1]
    by_cases hpre : t ++ [' '] <+: key
    · -- the two titles are of one length, and the key starts with both
      have hle : title.length ≤ t.length := by
        rcases List.mem_cons.1 h.mem with heq | hm
        · rw [heq]
        · exact hlater title hm
      have heq : t = title :=
        eq_of_starts ((List.prefix_append _ _).trans hpre) ((List.prefix_append _ _).trans h.holds)
          (Nat.le_antisymm (h.longest t List.mem_cons_self hpre) hle)
      rw [if_pos hpre, heq]
    · rw [if_neg hpre]
      refine ih hne.2 hfalling hkey.2 ⟨?_, h.holds, ?_⟩
      · rcases List.mem_cons.1 h.mem with heq | hm
        · exact absurd (heq ▸ h.holds) hpre
        · exact hm
      · exact fun s hs => h.longest s (List.mem_cons_of_mem _ hs)

end Strip

/-- **What a key is without a title at its start**: the key itself when it is a title or starts with
none, and otherwise what follows the longest title that it goes on behind with a space. -/
inductive Stripped (titles : List Text) (key : Text) : Text → Prop
  | isTitle : key ∈ titles → Stripped titles key key
  | longest {title : Text} : key ∉ titles → Longest titles (· ++ [' '] <+: key) title →
      Stripped titles key (withoutTitle key title)
  | untitled : (∀ t ∈ titles, ¬ t ++ [' '] <+: key) → Stripped titles key key

/-- Titles count as a set. -/
theorem Longest.congr {titles titles' : List Text} (h : ∀ t, t ∈ titles ↔ t ∈ titles')
    {p : Text → Prop} {title : Text} (hlongest : Longest titles p title) :
    Longest titles' p title where
  mem := (h title).1 hlongest.mem
  holds := hlongest.holds
  longest t ht := hlongest.longest t ((h t).2 ht)

/-- What a key is without a title depends on the set of titles. -/
theorem Stripped.congr {titles titles' : List Text} (h : ∀ t, t ∈ titles ↔ t ∈ titles')
    {key result : Text} (hresult : Stripped titles key result) : Stripped titles' key result := by
  cases hresult with
  | isTitle hkey => exact .isTitle ((h key).1 hkey)
  | longest hnot hlongest => exact .longest (fun hkey => hnot ((h key).2 hkey)) (hlongest.congr h)
  | untitled hnone => exact .untitled fun t ht => hnone t ((h t).2 ht)

/-- A key can be stripped in one way only. -/
theorem Stripped.unique {titles : List Text} {key result result' : Text}
    (h : Stripped titles key result) (h' : Stripped titles key result') : result = result' := by
  cases h with
  | isTitle hkey =>
    cases h' with
    | isTitle | untitled => rfl
    | longest hnot => exact absurd hkey hnot
  | longest hnot hlongest =>
    cases h' with
    | isTitle hkey => exact absurd hkey hnot
    | longest _ hlongest' =>
      have hlength := Nat.le_antisymm (hlongest'.longest _ hlongest.mem hlongest.holds)
        (hlongest.longest _ hlongest'.mem hlongest'.holds)
      rw [eq_of_starts ((List.prefix_append _ _).trans hlongest.holds)
        ((List.prefix_append _ _).trans hlongest'.holds) hlength]
    | untitled hnone => exact absurd hlongest.holds (hnone _ hlongest.mem)
  | untitled hnone =>
    cases h' with
    | isTitle | untitled => rfl
    | longest _ hlongest => exact absurd hlongest.holds (hnone _ hlongest.mem)

/-- **Titles in falling lengths strip a key**, whatever their order else. -/
theorem stripped_stripAlias {titles : List Text} (hne : ∀ t ∈ titles, t ≠ [])
    (hfalling : titles.Pairwise fun s t => t.length ≤ s.length) (key : Text) :
    Stripped titles key (stripAlias key titles) := by
  by_cases hkey : key ∈ titles
  · rw [stripAlias_of_mem hne hfalling hkey]
    exact .isTitle hkey
  · by_cases hany : ∃ t ∈ titles, t ++ [' '] <+: key
    · obtain ⟨t, ht, hpre⟩ := hany
      obtain ⟨title, hlongest⟩ := exists_longest (p := (· ++ [' '] <+: key)) ht hpre
      rw [stripAlias_of_longest hne hfalling hkey hlongest]
      exact .longest hkey hlongest
    · have hnone : ∀ t ∈ titles, ¬ t ++ [' '] <+: key := fun t ht hpre => hany ⟨t, ht, hpre⟩
      rw [stripAlias_of_none hne hnone]
      exact .untitled hnone

/-! ### The book of a key -/

/-- A title belongs to the book that declared it first. -/
theorem lookup_firstBooks (declared : List (Text × Int)) (title : Text) :
    (firstBooks declared).lookup title = declared.lookup title := by
  rw [firstBooks, lookup_foldl_first, List.lookup_nil, Option.none_or]

/-- Every title that has a book has the one that declared it first. -/
theorem lookup_of_mem_firstBooks {declared : List (Text × Int)} {d : Text × Int}
    (h : d ∈ firstBooks declared) : declared.lookup d.1 = some d.2 := by
  induction declared using List.reverseRecOn with
  | nil => cases h
  | append_singleton declared c ih =>
    rw [firstBooks, List.foldl_concat] at h
    rw [List.lookup_append]
    split at h
    · rw [ih h, Option.some_or]
    · next hnew =>
      rcases List.mem_append.1 h with h | h
      · rw [ih h, Option.some_or]
      · -- the last title was not declared before
        obtain rfl := List.mem_singleton.1 h
        have hnone : declared.lookup d.1 = none := by
          rw [← lookup_firstBooks]
          exact Option.not_isSome_iff_eq_none.1 hnew
        rw [hnone, Option.none_or, List.lookup_cons_self]

/-- **A key names a title** when it is the title or goes on behind it with a space. -/
def NamesTitle (key title : Text) : Prop := key = title ∨ title ++ [' '] <+: key

/-- A title that a key names is a beginning of the key. -/
theorem NamesTitle.starts {key title : Text} (h : NamesTitle key title) : title <+: key := by
  rcases h with rfl | h
  · exact List.prefix_rfl
  · exact (List.prefix_append _ _).trans h

/-- **The longest title that a key names is found first** when longer titles stand first. -/
theorem find?_of_longest {declared all : List (Text × Int)} (hperm : all.Perm (firstBooks declared))
    (hfalling : all.Pairwise fun s t => t.1.length ≤ s.1.length) {key title : Text}
    (h : Longest (declared.map (·.1)) (NamesTitle key) title) :
    (all.find? fun t => RefIndex.startsWithTitle key t.1).map (·.2) = declared.lookup title := by
  obtain ⟨d, hd, rfl⟩ := List.mem_map.1 h.mem
  obtain ⟨hfrom, hall⟩ := firstBooks_spec declared
  obtain ⟨owner, howner⟩ := hall d hd
  have hmem : (d.1, owner) ∈ all := hperm.mem_iff.2 howner
  have hsome : (all.find? fun t => RefIndex.startsWithTitle key t.1).isSome :=
    List.find?_isSome.2 ⟨_, hmem, startsWithTitle_iff.2 h.holds⟩
  obtain ⟨first, hfirst⟩ := Option.isSome_iff_exists.1 hsome
  obtain ⟨hnames, front, back, rfl, hfront⟩ := List.find?_eq_some_iff_append.1 hfirst
  have hnames : NamesTitle key first.1 := startsWithTitle_iff.1 hnames
  have hdeclared : first.1 ∈ declared.map (·.1) :=
    List.mem_map_of_mem (hfrom first (hperm.mem_iff.1 (by simp)))
  -- nothing in front of it is named, so the longest title is not longer than the one found
  have hle : d.1.length ≤ first.1.length := by
    rcases List.mem_append.1 hmem with hm | hm
    · have hnot := hfront _ hm
      rw [startsWithTitle_iff.2 h.holds] at hnot
      cases hnot
    · rcases List.mem_cons.1 hm with heq | hm
      · rw [← heq]
      · exact (List.pairwise_cons.1 (List.pairwise_append.1 hfalling).2.1).1 (d.1, owner) hm
  have htitle : first.1 = d.1 := eq_of_starts hnames.starts h.holds.starts
    (Nat.le_antisymm (h.longest _ hdeclared hnames) hle)
  rw [hfirst, Option.map_some, ← htitle]
  exact (lookup_of_mem_firstBooks (hperm.mem_iff.1 (by simp))).symm

end HebrewCorpus
