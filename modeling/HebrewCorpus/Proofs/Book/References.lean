import HebrewCorpus.Proofs.Book.Composition

/-! # References that tell lines apart

A reference is made of the titles above a leaf and of the address in it. Which lines share one can be
read off the leaves that a schema reaches in a content: the titles, the way in which their levels are
labelled, and the paths that hold lines.

* **`LeafSite`**, **`SchemaNode.sites`**: the leaves of a schema, each with the titles above it;
  `SchemaNode.parts` adds the content of each.
* **`LeafSite.refAt_eq_iff`**: when the references of two places are the same.
* **`map_ref_emitNode`**: the references of a walk are those of its parts.
* **`nodup_refs_flatten_iff`**: the references of a book tell its lines apart exactly when no two of
  its parts clash. -/

namespace HebrewCorpus

open AddressKind Text

/-! ### Leaves and their places -/

/-- **A leaf where it stands**: the titles in front of its references, and its levels. -/
structure LeafSite where
  title : Text
  layout : LeafLayout
  deriving DecidableEq, Repr

namespace LeafSite

/-- The English reference of the line at a path. -/
def refAt (s : LeafSite) (path : List Nat) : Text :=
  if s.layout.depth = 0 then s.title else placeRef s.title s.layout.addressKinds path

/-- Which levels are labelled as page sides. -/
def paging (s : LeafSite) : List Bool := s.layout.addressKinds.map isPaged

/-- **Places that are referred to alike**: the same path below the same titles, in levels that are
labelled alike; or the only place of a leaf without levels, when its titles read like the reference
of the other one. -/
def AlikeAt (s : LeafSite) (path : List Nat) (t : LeafSite) (path' : List Nat) : Prop :=
  (s.title = t.title ∧ s.paging = t.paging ∧ path = path') ∨
    (s.layout.depth = 0 ∧ t.layout.depth ≠ 0 ∧
      s.title = placeRef t.title t.layout.addressKinds path') ∨
    (s.layout.depth ≠ 0 ∧ t.layout.depth = 0 ∧
      t.title = placeRef s.title s.layout.addressKinds path)

/-- **Leaves that may clash**: there could be lines in them that are referred to alike. -/
def MayClash (s t : LeafSite) : Prop :=
  ∃ path path' : List Nat, path.length = s.layout.depth ∧ path'.length = t.layout.depth ∧
    s.AlikeAt path t path'

end LeafSite

/-- No address holds a space. -/
theorem space_not_mem_addressWord (kinds : List AddressKind) (path : List Nat) :
    ' ' ∉ addressWord kinds path := by
  intro h
  exact absurd (mem_addressWord h) (by decide)

/-- **The reference of a place is known by its title and its address.** -/
theorem placeRef_eq_iff {title title' : Text} {kinds kinds' : List AddressKind}
    {path path' : List Nat} :
    placeRef title kinds path = placeRef title' kinds' path' ↔
      title = title' ∧ addressWord kinds path = addressWord kinds' path' := by
  constructor
  · intro h
    -- the address is what stands behind the last space
    have hcut := congrArg (cutLast? ' ') h
    rw [placeRef, placeRef, cutLast?_append _ (space_not_mem_addressWord kinds path),
      cutLast?_append _ (space_not_mem_addressWord kinds' path')] at hcut
    exact Prod.mk.inj (Option.some.inj hcut)
  · rintro ⟨rfl, h⟩
    rw [placeRef, placeRef, h]

/-- **When two places have the same reference.** -/
theorem LeafSite.refAt_eq_iff {s t : LeafSite} (hs : s.layout.rejection? = none)
    (ht : t.layout.rejection? = none) {path path' : List Nat} (hp : path.length = s.layout.depth)
    (hp' : path'.length = t.layout.depth) : s.refAt path = t.refAt path' ↔ s.AlikeAt path t path' := by
  have hks : s.layout.addressKinds.length = s.layout.depth := (LeafLayout.lengths_of_rejection? hs).2.1
  have hkt : t.layout.addressKinds.length = t.layout.depth := (LeafLayout.lengths_of_rejection? ht).2.1
  -- levels that are labelled alike are as many
  have hdepth (h : s.paging = t.paging) : s.layout.depth = t.layout.depth := by
    have hlen := congrArg List.length h
    rwa [paging, paging, List.length_map, List.length_map, hks, hkt] at hlen
  unfold refAt AlikeAt
  by_cases hs₀ : s.layout.depth = 0 <;> by_cases ht₀ : t.layout.depth = 0
  · have hpaging : s.paging = t.paging := by
      rw [paging, paging, List.eq_nil_of_length_eq_zero (hks.trans hs₀),
        List.eq_nil_of_length_eq_zero (hkt.trans ht₀)]
    have hpath : path = path' := by
      rw [List.eq_nil_of_length_eq_zero (hp.trans hs₀),
        List.eq_nil_of_length_eq_zero (hp'.trans ht₀)]
    simp [hs₀, ht₀, hpaging, hpath]
  · have hne : s.paging ≠ t.paging := fun h => ht₀ ((hdepth h).symm.trans hs₀)
    simp [hs₀, ht₀, hne]
  · have hne : s.paging ≠ t.paging := fun h => hs₀ ((hdepth h).trans ht₀)
    simp [hs₀, ht₀, hne, eq_comm]
  · have hkinds : s.layout.addressKinds ≠ [] := by
      intro h
      rw [h] at hks
      exact hs₀ hks.symm
    have hkinds' : t.layout.addressKinds ≠ [] := by
      intro h
      rw [h] at hkt
      exact ht₀ hkt.symm
    rw [if_neg hs₀, if_neg ht₀, placeRef_eq_iff,
      addressWord_eq_iff hkinds hkinds' (hp.trans hks.symm) (hp'.trans hkt.symm)]
    simp [hs₀, ht₀, paging, and_comm]

/-! ### The parts of a walk -/

/-- A leaf with the content that it is walked with. -/
abbrev LeafPart := LeafSite × Json

namespace LeafPart

/-- The references of the lines of a part, in their order. -/
def refs (p : LeafPart) : List Text := (leafPlaces p.1.layout.depth p.2).map p.1.refAt

/-- **Parts that clash**: lines in them are referred to alike. -/
def Clashes (p q : LeafPart) : Prop :=
  ∃ path path', HoldsLine p.1.layout.depth p.2 path ∧ HoldsLine q.1.layout.depth q.2 path' ∧
    p.1.AlikeAt path q.1 path'

end LeafPart

namespace SchemaNode

mutual

/-- **The leaves of a schema**, with the titles of all containers above them. -/
def sites (title : Text) : SchemaNode → List LeafSite
  | .container _ children => sitesBelow title children
  | .leaf _ layout => [⟨title, layout⟩]

/-- The leaves of the children of a container with the given titles. -/
def sitesBelow (title : Text) : List SchemaNode → List LeafSite
  | [] => []
  | child :: children => child.sites (child.name.titleUnder title) ++ sitesBelow title children

end

mutual

/-- **The leaves that are reached in a content**, each with its own. -/
def parts (title : Text) (content : Json) : SchemaNode → List LeafPart
  | .container _ children =>
    match content with
    | .object members => partsBelow title members children
    | _ => []
  | .leaf _ layout => [(⟨title, layout⟩, content)]

/-- The leaves that are reached below a container with the given titles. -/
def partsBelow (title : Text) (members : Fields) : List SchemaNode → List LeafPart
  | [] => []
  | child :: children =>
    let content := selectChild child.name members
    (if content.isBlank then [] else child.parts (child.name.titleUnder title) content) ++
      partsBelow title members children

end

mutual

/-- **Leaves are reached in the order of the schema**, each once at most. -/
theorem map_fst_parts_sublist (title : Text) (content : Json) :
    (schema : SchemaNode) → ((schema.parts title content).map (·.1)).Sublist (schema.sites title)
  | .container name children => by
    unfold parts sites
    cases content with
    | object members => exact map_fst_partsBelow_sublist title members children
    | null | bool | int | real | text | array => exact List.nil_sublist _
  | .leaf name layout => by
    unfold parts sites
    exact .refl _

/-- Below a container leaves are reached in the order of its children. -/
theorem map_fst_partsBelow_sublist (title : Text) (members : Fields) :
    (children : List SchemaNode) →
      ((partsBelow title members children).map (·.1)).Sublist (sitesBelow title children)
  | [] => .refl _
  | child :: children => by
    have hchild := map_fst_parts_sublist (child.name.titleUnder title)
      (selectChild child.name members) child
    have hrest := map_fst_partsBelow_sublist title members children
    unfold partsBelow sitesBelow
    dsimp only
    rw [List.map_append]
    refine List.Sublist.append ?_ hrest
    split
    · exact List.nil_sublist _
    · exact hchild

end

mutual

/-- The leaves of an accepted schema are accepted. -/
theorem rejection?_of_mem_sites {title : Text} :
    (schema : SchemaNode) → schema.Accepted → ∀ s ∈ schema.sites title, s.layout.rejection? = none
  | .container name children, h, s, hs => by
    cases h with
    | container distinct below => exact rejection?_of_mem_sitesBelow children below s hs
  | .leaf name layout, h, s, hs => by
    cases h with
    | leaf fits =>
      unfold sites at hs
      obtain rfl := List.mem_singleton.1 hs
      exact fits

/-- The leaves below an accepted container are accepted. -/
theorem rejection?_of_mem_sitesBelow {title : Text} :
    (children : List SchemaNode) → (∀ child ∈ children, child.Accepted) →
      ∀ s ∈ sitesBelow title children, s.layout.rejection? = none
  | [], _, s, hs => by cases hs
  | child :: children, h, s, hs => by
    unfold sitesBelow at hs
    rcases List.mem_append.1 hs with hs | hs
    · exact rejection?_of_mem_sites child (h child List.mem_cons_self) s hs
    · exact rejection?_of_mem_sitesBelow children
        (fun c hc => h c (List.mem_cons_of_mem _ hc)) s hs

end

end SchemaNode

/-! ### The references of a walk -/

/-- The reference of a place below titles, without addresses in front. -/
theorem ref_goTo {path : RefPath} (haddresses : path.addresses = []) {l : LeafLayout}
    (hlen : l.addressKinds.length = l.depth) {place : List Nat} (hplace : place.length = l.depth) :
    (path.goTo l.addressKinds place).ref =
      LeafSite.refAt ⟨joinWith ", ".toList path.titles, l⟩ place := by
  have hlabels : (englishLabels l.addressKinds place).length = l.depth :=
    (length_englishLabels (hplace.trans hlen.symm)).trans hlen
  rw [RefPath.ref, RefPath.phrase, RefPath.goTo, haddresses, List.nil_append, LeafSite.refAt]
  by_cases hd : l.depth = 0
  · rw [if_pos hd, List.eq_nil_of_length_eq_zero (hlabels.trans hd)]
    exact List.append_nil _
  · have hne : (englishLabels l.addressKinds place).isEmpty ≠ true := by
      rw [Ne, List.isEmpty_iff]
      intro h
      rw [h] at hlabels
      exact hd hlabels.symm
    rw [if_neg hd, if_neg hne]
    rfl

/-- The titles on a way with one title more. -/
theorem joinWith_titles_withTitle {path : RefPath} (htitles : path.titles ≠ []) {n : NodeName}
    (h : n.isDefault = false) (heTitle : Text) :
    joinWith ", ".toList (path.withTitle n.title heTitle).titles =
      n.titleUnder (joinWith ", ".toList path.titles) := by
  rw [NodeName.titleUnder, if_neg (by simp [h])]
  exact (joinWith_append _ htitles (List.cons_ne_nil _ _)).trans (by rw [joinWith_singleton])

mutual

/-- **The references of a walk are those of its parts**, in their order. -/
theorem map_ref_emitNode {depth : Nat} {path : RefPath} (htitles : path.titles ≠ [])
    (haddresses : path.addresses = []) {content : Json} :
    (schema : SchemaNode) → schema.Accepted → ∀ {es : List Emission},
      emitNode depth path content schema = .ok es →
        (es.filterMap Emission.path?).map RefPath.ref =
          (schema.parts (joinWith ", ".toList path.titles) content).flatMap LeafPart.refs
  | .container name children, haccepted, es, h => by
    cases haccepted with
    | container distinct below =>
      unfold emitNode at h
      unfold SchemaNode.parts
      cases content with
      | object members => exact map_ref_emitChildren htitles haddresses children below h
      | null | bool | int | real | text | array =>
        obtain rfl := Except.ok.inj h
        rfl
  | .leaf name layout, haccepted, es, h => by
    cases haccepted with
    | leaf fits =>
      obtain ⟨levels, hl, hkinds⟩ := LeafLayout.levels?_eq_some fits
      have hlen : layout.addressKinds.length = layout.depth :=
        (LeafLayout.lengths_of_rejection? fits).2.1
      have hlevels : levels.length = layout.depth := by rw [← hlen, ← hkinds, List.length_map]
      unfold emitNode at h
      rw [hl] at h
      obtain rfl := Except.ok.inj h
      rw [filterMap_path?_emitLeaf, hkinds, hlevels, List.map_map, SchemaNode.parts,
        List.flatMap_singleton]
      refine List.map_congr_left fun place hplace => ?_
      exact ref_goTo haddresses hlen (length_of_mem_leafPlaces hplace)

/-- The references below a container are those of its parts. -/
theorem map_ref_emitChildren {depth : Nat} {path : RefPath} (htitles : path.titles ≠ [])
    (haddresses : path.addresses = []) {members : Fields} :
    (children : List SchemaNode) → (∀ child ∈ children, child.Accepted) → ∀ {es : List Emission},
      emitChildren depth path members children = .ok es →
        (es.filterMap Emission.path?).map RefPath.ref =
          (SchemaNode.partsBelow (joinWith ", ".toList path.titles) members children).flatMap
            LeafPart.refs
  | [], _, es, h => by
    obtain rfl := Except.ok.inj h
    rfl
  | child :: children, haccepted, es, h => by
    obtain ⟨own, rest, hown, hrest, rfl⟩ := exists_of_emitChildren_cons h
    have hchild := haccepted child List.mem_cons_self
    have hothers := map_ref_emitChildren htitles haddresses children
      (fun c hc => haccepted c (List.mem_cons_of_mem _ hc)) hrest
    unfold SchemaNode.partsBelow
    dsimp only
    rw [List.filterMap_append, List.map_append, hothers, List.flatMap_append]
    refine congrArg (· ++ _) ?_
    rcases emitChild_cases hown with
      ⟨hblank, rfl⟩ | ⟨hblank, ⟨hdefault, hown⟩ | ⟨htitled, below, hbelow, rfl⟩⟩
    · rw [if_pos hblank]
      rfl
    · rw [if_neg (by simp [hblank]), NodeName.titleUnder, if_pos hdefault]
      exact map_ref_emitNode htitles haddresses child hchild hown
    · -- the heading of the child is no line
      have hnext : (path.withTitle child.name.title child.name.heTitle).titles ≠ [] := by
        simp [RefPath.withTitle]
      have hwalk := map_ref_emitNode hnext haddresses child hchild hbelow
      rw [joinWith_titles_withTitle htitles htitled] at hwalk
      rw [if_neg (by simp [hblank])]
      exact hwalk

end

/-- The lines of a sequence carry the references of its ways. -/
theorem FlatBook.map_ref_linesFrom (book : Int) (n : Nat) (es : List Emission) :
    (linesFrom book n es).map (·.ref) = ((es.filterMap Emission.path?).map RefPath.ref).map some := by
  induction es generalizing n with
  | nil => rfl
  | cons e es ih =>
    cases e with
    | heading title level => exact ih n
    | mismatch => exact ih n
    | line content path =>
      rw [linesFrom, List.map_cons, ih]
      rfl

/-! ### References that are told apart -/

namespace LeafSite

/-- Leaves with levels below different titles never clash. -/
theorem not_mayClash_of_title_ne {s t : LeafSite} (hs : s.layout.depth ≠ 0)
    (ht : t.layout.depth ≠ 0) (h : s.title ≠ t.title) : ¬s.MayClash t := by
  rintro ⟨path, path', -, -, ⟨htitle, -⟩ | ⟨hs₀, -⟩ | ⟨-, ht₀, -⟩⟩
  · exact h htitle
  · exact hs hs₀
  · exact ht ht₀

end LeafSite

namespace LeafPart

/-- Parts clash only where their leaves may. -/
theorem Clashes.mayClash {p q : LeafPart} (h : p.Clashes q) : p.1.MayClash q.1 := by
  obtain ⟨path, path', hp, hq, halike⟩ := h
  exact ⟨path, path', hp.1, hq.1, halike⟩

/-- The references of a part tell its lines apart. -/
theorem nodup_refs {p : LeafPart} (h : p.1.layout.rejection? = none) : p.refs.Nodup := by
  show List.Pairwise _ _
  rw [refs, List.pairwise_map]
  refine (nodup_leafPlaces p.1.layout.depth p.2).imp_of_mem ?_
  intro path path' hpath hpath' hne href
  have hlen := length_of_mem_leafPlaces hpath
  have hlen' := length_of_mem_leafPlaces hpath'
  rcases (LeafSite.refAt_eq_iff h h hlen hlen').1 href with
    ⟨-, -, heq⟩ | ⟨hd, hd', -⟩ | ⟨hd, hd', -⟩
  · exact hne heq
  · exact hd' hd
  · exact hd hd'

/-- **Two parts have references in common exactly when they clash.** -/
theorem forall_refs_ne_iff {p q : LeafPart} (hp : p.1.layout.rejection? = none)
    (hq : q.1.layout.rejection? = none) :
    (∀ r ∈ p.refs, ∀ r' ∈ q.refs, r ≠ r') ↔ ¬p.Clashes q := by
  constructor
  · rintro h ⟨path, path', hpath, hpath', halike⟩
    have hmem := List.mem_map_of_mem (f := p.1.refAt) (mem_leafPlaces_iff.2 hpath)
    have hmem' := List.mem_map_of_mem (f := q.1.refAt) (mem_leafPlaces_iff.2 hpath')
    exact h _ hmem _ hmem' ((LeafSite.refAt_eq_iff hp hq hpath.1 hpath'.1).2 halike)
  · intro h r hr r' hr' heq
    obtain ⟨path, hpath, rfl⟩ := List.mem_map.1 hr
    obtain ⟨path', hpath', rfl⟩ := List.mem_map.1 hr'
    have hlen := length_of_mem_leafPlaces hpath
    have hlen' := length_of_mem_leafPlaces hpath'
    exact h ⟨path, path', mem_leafPlaces_iff.1 hpath, mem_leafPlaces_iff.1 hpath',
      (LeafSite.refAt_eq_iff hp hq hlen hlen').1 heq⟩

/-- **The references of some parts tell their lines apart exactly when no two of them clash.** -/
theorem nodup_flatMap_refs_iff {ps : List LeafPart} (h : ∀ p ∈ ps, p.1.layout.rejection? = none) :
    (ps.flatMap refs).Nodup ↔ ps.Pairwise fun p q => ¬p.Clashes q := by
  show List.Pairwise _ _ ↔ _
  rw [List.pairwise_flatMap]
  have hpairs : ps.Pairwise (fun p q => ∀ r ∈ p.refs, ∀ r' ∈ q.refs, r ≠ r') ↔
      ps.Pairwise fun p q => ¬p.Clashes q :=
    List.Pairwise.iff_of_mem fun hp hq => forall_refs_ne_iff (h _ hp) (h _ hq)
  rw [hpairs]
  exact and_iff_right fun p hp => nodup_refs (h p hp)

end LeafPart

/-! ### Members that children take -/

namespace NodeName

/-- **The member that a child takes** for its content: the first of its keys that is there. -/
def takes? (n : NodeName) (members : Fields) : Option Text :=
  n.contentKeys.find? fun key => (members.lookup key).isSome

/-- **A child consumes a member** when it takes it and does not find it blank. -/
def Consumes (n : NodeName) (members : Fields) (key : Text) : Prop :=
  n.takes? members = some key ∧ (selectChild n members).isBlank = false

/-- The content of a child is the value of the member that it takes. -/
theorem selectChild_eq (n : NodeName) (members : Fields) :
    selectChild n members = ((n.takes? members).bind fun key => members.lookup key).getD .null := by
  have hfirst (keys : List Text) : keys.findSome? (fun key => members.lookup key) =
      (keys.find? fun key => (members.lookup key).isSome).bind fun key => members.lookup key := by
    induction keys with
    | nil => rfl
    | cons key keys ih =>
      cases hkey : members.lookup key with
      | none => simp [hkey, ih]
      | some value => simp [hkey]
  rw [selectChild, hfirst, takes?]

/-- Where there is one member only, a child takes it if it is one of its keys. -/
theorem consumes_singleton {n : NodeName} {key : Text} (h : key ∈ n.contentKeys) {value : Json}
    (hvalue : value.isBlank = false) : n.Consumes [(key, value)] key := by
  have hlookup (k : Text) : (List.lookup k [(key, value)]).isSome = true ↔ k = key := by
    by_cases hk : k = key
    · simp [hk]
    · have hbeq : (k == key) = false := by simpa using hk
      simp [List.lookup_cons, hbeq, hk]
  have htakes : n.takes? [(key, value)] = some key := by
    have hsome : (n.takes? [(key, value)]).isSome := by
      rw [takes?, List.find?_isSome]
      exact ⟨key, h, (hlookup key).2 rfl⟩
    obtain ⟨k, hk⟩ := Option.isSome_iff_exists.1 hsome
    have hfound := List.find?_some (show n.contentKeys.find? _ = some k from hk)
    rw [hk, (hlookup k).1 hfound]
  refine ⟨htakes, ?_⟩
  rw [selectChild_eq, htakes]
  simpa [List.lookup_cons] using hvalue

/-- **Two children can consume one member exactly when they have a key in common.** -/
theorem exists_consumes_iff {n m : NodeName} :
    (∃ members key, n.Consumes members key ∧ m.Consumes members key) ↔
      ∃ key ∈ n.contentKeys, key ∈ m.contentKeys := by
  constructor
  · rintro ⟨members, key, ⟨hn, -⟩, hm, -⟩
    exact ⟨key, List.mem_of_find?_eq_some hn, List.mem_of_find?_eq_some hm⟩
  · rintro ⟨key, hn, hm⟩
    have hvalue : (Json.text ['x']).isBlank = false := by decide
    exact ⟨[(key, .text ['x'])], key, consumes_singleton hn hvalue, consumes_singleton hm hvalue⟩

end NodeName

/-- **When references tell lines apart.** Every accepted schema can be flattened with every content.
The references of the lines are all different exactly when no two parts of the walk clash, and they
are so for every content when no two leaves of the schema may clash. Two children of a container can
consume the same member of its content exactly when they have a key in common. -/
theorem nodup_refs_flatten_iff {schema : SchemaNode} (h : schema.Accepted) (content : Json)
    (titleEn titleHe : Text) (book : Int) :
    ∃ flat, flatten schema content titleEn titleHe book = .ok flat ∧
      ((flat.lines.map (·.ref)).Nodup ↔
        (schema.parts titleEn content).Pairwise fun p q => ¬p.Clashes q) ∧
      ((schema.sites titleEn).Pairwise (fun s t => ¬s.MayClash t) → (flat.lines.map (·.ref)).Nodup) ∧
      ∀ n m : NodeName, (∃ members key, n.Consumes members key ∧ m.Consumes members key) ↔
        ∃ key ∈ n.contentKeys, key ∈ m.contentKeys := by
  let heTitle := if titleHe.isEmpty then titleEn else titleHe
  obtain ⟨es, hes⟩ := emitNode_eq_ok 1 (.root titleEn heTitle) content schema h
  have hrefs := map_ref_emitNode (List.cons_ne_nil _ _) rfl schema h hes
  rw [show joinWith ", ".toList (RefPath.root titleEn heTitle).titles = titleEn from
    joinWith_singleton _ _] at hrefs
  have hsites := SchemaNode.map_fst_parts_sublist titleEn content schema
  have hfits : ∀ p ∈ schema.parts titleEn content, p.1.layout.rejection? = none := fun p hp =>
    SchemaNode.rejection?_of_mem_sites schema h p.1 (hsites.subset (List.mem_map_of_mem hp))
  have hiff : (((FlatBook.linesFrom book 0 es).map (·.ref)).Nodup ↔
      (schema.parts titleEn content).Pairwise fun p q => ¬p.Clashes q) := by
    rw [FlatBook.map_ref_linesFrom, List.nodup_map_iff (Option.some_injective _), hrefs]
    exact LeafPart.nodup_flatMap_refs_iff hfits
  refine ⟨_, flatten_of_emitNode hes book, hiff, ?_, fun n m => NodeName.exists_consumes_iff⟩
  intro hapart
  refine hiff.2 ?_
  have hparts := hapart.sublist hsites
  rw [List.pairwise_map] at hparts
  exact hparts.imp fun hnot hclash => hnot hclash.mayClash

/-- The leaves of the introduced book have levels and different titles, so its lines are told apart
whatever their contents. -/
theorem nodup_refs_flatten_introduced :
    (SchemaNode.container ⟨[], "Tur".toList, []⟩ introducedParts).Accepted ∧
      ∃ flat, flatten (.container ⟨[], "Tur".toList, []⟩ introducedParts)
          (.object introducedContent) "Tur".toList "טור".toList 5 = .ok flat ∧
        (flat.lines.map (·.ref)).Nodup ∧ flat.lines.length = 3 := by
  refine ⟨accepted_introduced, ?_⟩
  obtain ⟨flat, hflat, -, hapart, -⟩ :=
    nodup_refs_flatten_iff accepted_introduced (.object introducedContent) "Tur".toList "טור".toList 5
  refine ⟨flat, hflat, hapart ?_, ?_⟩
  · refine List.pairwise_cons.2 ⟨?_, List.pairwise_singleton _ _⟩
    intro t ht
    obtain rfl := List.mem_singleton.1 ht
    exact LeafSite.not_mayClash_of_title_ne (by decide) (by decide) (by decide)
  · have hlength : (flatten (.container ⟨[], "Tur".toList, []⟩ introducedParts)
        (.object introducedContent) "Tur".toList "טור".toList 5).map (·.lines.length) = .ok 3 := by
      decide +kernel
    rw [hflat] at hlength
    exact Except.ok.inj hlength

/-- Two parts of a book with different keys and the same title. -/
def namesakeParts : List SchemaNode :=
  [.leaf ⟨"a".toList, "X".toList, []⟩ ⟨1, ["Siman".toList], [], [.section], []⟩,
    .leaf ⟨"b".toList, "X".toList, []⟩ ⟨1, ["Siman".toList], [], [.section], []⟩]

/-- **References do not tell lines apart in general**: parts with different keys are accepted, but
when they have one title they consume the same member, and each line of it is there twice, with the
same reference. -/
theorem refs_flatten_namesakes :
    (SchemaNode.container ⟨[], "Tur".toList, []⟩ namesakeParts).Accepted ∧
      (∃ flat, flatten (.container ⟨[], "Tur".toList, []⟩ namesakeParts)
          (.object [("X".toList, .array [.text "x".toList])]) "Tur".toList [] 0 = .ok flat ∧
        flat.lines.map (·.ref) = [some "Tur, X 1".toList, some "Tur, X 1".toList] ∧
        ¬(flat.lines.map (·.ref)).Nodup) ∧
      ∀ child ∈ namesakeParts,
        child.name.Consumes [("X".toList, .array [.text "x".toList])] "X".toList := by
  have accepted : (SchemaNode.container ⟨[], "Tur".toList, []⟩ namesakeParts).Accepted :=
    .of_leaves (by decide) (by decide)
  refine ⟨accepted, ?_, ?_⟩
  · obtain ⟨flat, hflat⟩ := flatten_eq_ok accepted
      (.object [("X".toList, .array [.text "x".toList])]) "Tur".toList [] 0
    have hviews : (flatten (.container ⟨[], "Tur".toList, []⟩ namesakeParts)
        (.object [("X".toList, .array [.text "x".toList])]) "Tur".toList [] 0).map
          (fun flat => flat.lines.map (·.ref)) =
        .ok [some "Tur, X 1".toList, some "Tur, X 1".toList] := by
      decide +kernel
    rw [hflat] at hviews
    have hrefs : flat.lines.map (·.ref) = [some "Tur, X 1".toList, some "Tur, X 1".toList] :=
      Except.ok.inj hviews
    refine ⟨flat, hflat, hrefs, ?_⟩
    rw [hrefs]
    simp
  · intro child hchild
    rcases List.mem_cons.1 hchild with rfl | hchild
    · exact NodeName.consumes_singleton (by decide) (by decide)
    · obtain rfl := List.mem_singleton.1 hchild
      exact NodeName.consumes_singleton (by decide) (by decide)

end HebrewCorpus
