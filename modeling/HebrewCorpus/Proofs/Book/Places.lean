import HebrewCorpus.Proofs.Book.Flat
import HebrewCorpus.Proofs.Schema.Labels

/-! # Places in a leaf

The content of a leaf is an array nested to the leaf's depth, and a text in it is found by its
indices, the outermost first. When a whole book is one leaf its lines are the places with a text.

* **`leafPlaces`**: the places of a content, each once (`nodup_leafPlaces`).
* **`RefPath.goTo`**: the way from the start of a leaf to a place.
* **`flatten_leaf`**: the references of a book that is one leaf. -/

namespace HebrewCorpus

open AddressKind Text

/-! ### Places -/

/-- **The places of a content with texts at a depth**: the indices of each text that is not blank,
in the order of the content. -/
def leafPlaces : (depth : Nat) → Json → List (List Nat)
  | 0, .text s => if isBlank s then [] else [[]]
  | 0, _ => []
  | depth + 1, .array items =>
    items.zipIdx.flatMap fun (item, i) => (leafPlaces depth item).map (i :: ·)
  | _ + 1, _ => []

/-- A blank content has no places. -/
theorem leafPlaces_eq_nil {depth : Nat} {content : Json} (h : content.isBlank = true) :
    leafPlaces depth content = [] := by
  induction depth generalizing content with
  | zero =>
    cases content with
    | text s => exact if_pos h
    | null | bool | int | real | array | object => rfl
  | succ depth ih =>
    cases content with
    | array items =>
      rw [Json.isBlank, Json.areBlank_eq_all, List.all_eq_true] at h
      rw [leafPlaces, List.flatMap_eq_nil_iff]
      rintro ⟨item, i⟩ hi
      have hitem : item.isBlank = true := h item (List.fst_mem_of_mem_zipIdx hi)
      show (leafPlaces depth item).map (i :: ·) = []
      rw [ih hitem, List.map_nil]
    | null | bool | int | real | text | object => rfl

/-- A place has one index for each level. -/
theorem length_of_mem_leafPlaces {depth : Nat} {content : Json} {place : List Nat}
    (h : place ∈ leafPlaces depth content) : place.length = depth := by
  induction depth generalizing content place with
  | zero =>
    cases content with
    | text s =>
      rw [leafPlaces] at h
      split at h
      · cases h
      · rw [List.mem_singleton.1 h]
        rfl
    | null | bool | int | real | array | object => cases h
  | succ depth ih =>
    cases content with
    | array items =>
      obtain ⟨⟨item, i⟩, -, h⟩ := List.mem_flatMap.1 h
      obtain ⟨below, hb, rfl⟩ := List.mem_map.1 h
      exact congrArg Nat.succ (ih hb)
    | null | bool | int | real | text | object => cases h

/-- **No place is listed twice.** -/
theorem nodup_leafPlaces (depth : Nat) (content : Json) : (leafPlaces depth content).Nodup := by
  induction depth generalizing content with
  | zero =>
    cases content with
    | text s =>
      rw [leafPlaces]
      split <;> simp
    | null | bool | int | real | array | object => exact .nil
  | succ depth ih =>
    cases content with
    | array items =>
      show List.Pairwise _ _
      rw [leafPlaces, List.pairwise_flatMap]
      refine ⟨?_, ?_⟩
      · rintro ⟨item, i⟩ -
        rw [List.pairwise_map]
        exact (ih item).imp fun hne h => hne (List.cons.inj h).2
      · -- places under different items differ in their first index
        have hidx : (items.zipIdx.map (·.2)).Nodup := by
          rw [List.zipIdx_map_snd]
          exact List.nodup_range'
        refine (List.pairwise_map.1 hidx).imp ?_
        rintro ⟨item, i⟩ ⟨item', j⟩ hij p hp q hq rfl
        obtain ⟨p, -, rfl⟩ := List.mem_map.1 hp
        obtain ⟨q, -, h⟩ := List.mem_map.1 hq
        exact hij (List.cons.inj h).1.symm
    | null | bool | int | real | text | object => exact .nil

/-! ### Ways to places -/

/-- The Hebrew labels of the items on the way to a place. -/
def hebrewLabels (kinds : List AddressKind) (place : List Nat) : List Text :=
  List.zipWith (fun kind i => (kind.labelsAt i).hebrew) kinds place

/-- **The way on to a place**, through levels of the given kinds. -/
def RefPath.goTo (path : RefPath) (kinds : List AddressKind) (place : List Nat) : RefPath :=
  { path with
    addresses := path.addresses ++ englishLabels kinds place
    heAddresses := path.heAddresses ++ hebrewLabels kinds place }

/-- The way to a place leads through the item of its first index. -/
theorem RefPath.goTo_cons (path : RefPath) (kind : AddressKind) (kinds : List AddressKind) (i : Nat)
    (place : List Nat) :
    path.goTo (kind :: kinds) (i :: place) =
      (path.withAddress (kind.labelsAt i)).goTo kinds place := by
  simp [goTo, withAddress, englishLabels, hebrewLabels]

/-- **The lines of a leaf lead to its places**, whatever stands in front of them. -/
theorem filterMap_path?_emitLeaf (levels : List Level) (depth : Nat) (path : RefPath) (lead : Text)
    (content : Json) :
    (emitLeaf levels depth path lead content).filterMap Emission.path? =
      (leafPlaces levels.length content).map (path.goTo (levels.map (·.kind))) := by
  induction levels generalizing depth path lead content with
  | nil =>
    cases content with
    | text s =>
      have hroot : path.goTo [] [] = path := by simp [RefPath.goTo, englishLabels, hebrewLabels]
      rw [emitLeaf, List.length_nil, leafPlaces]
      split
      · rfl
      · rw [List.map_singleton, List.map_nil, hroot]
        rfl
    | null | bool | int | real | array | object => rfl
  | cons level levels ih =>
    cases content with
    | array items =>
      rw [emitLeaf, List.filterMap_flatMap, List.length_cons, leafPlaces, List.map_flatMap]
      refine congrArg List.flatten (List.map_congr_left ?_)
      rintro ⟨item, i⟩ -
      -- one step down, the places lie behind the item's index and the ways behind its labels
      have hways : ((leafPlaces levels.length item).map (i :: ·)).map
          (path.goTo ((level :: levels).map (·.kind))) =
            (leafPlaces levels.length item).map
              ((path.withAddress (level.kind.labelsAt i)).goTo (levels.map (·.kind))) := by
        rw [List.map_map]
        exact List.map_congr_left fun place _ => path.goTo_cons _ _ _ _
      rw [hways]
      dsimp only
      by_cases hb : item.isBlank = true
      · rw [if_pos hb, leafPlaces_eq_nil hb]
        rfl
      · rw [if_neg hb]
        split
        · exact ih ..
        · split
          · -- a heading is no line
            exact ih ..
          · exact ih ..
    | null | bool | int | real | text | object => rfl

/-! ### Books of one leaf -/

/-- The English reference of a place. -/
def placeRef (title : Text) (kinds : List AddressKind) (place : List Nat) : Text :=
  title ++ ' ' :: addressWord kinds place

/-- The Hebrew reference of a place. -/
def placeHeRef (title : Text) (kinds : List AddressKind) (place : List Nat) : Text :=
  title ++ ' ' :: joinWith ", ".toList (hebrewLabels kinds place)

/-- **The reference entry of a place** with `before` lines before it. -/
def placeEntry (book : Int) (titleEn titleHe : Text) (kinds : List AddressKind) (place : List Nat)
    (before : Nat) : RefEntry :=
  ⟨placeRef titleEn kinds place, placeHeRef titleHe kinds place, before + 1, book⟩

/-- The references of the way from a book's start to a place. -/
theorem ref_goTo_root (title heTitle : Text) {kinds : List AddressKind} {place : List Nat}
    (hk : kinds ≠ []) (h : place.length = kinds.length) :
    ((RefPath.root title heTitle).goTo kinds place).ref = placeRef title kinds place ∧
      ((RefPath.root title heTitle).goTo kinds place).heRef = placeHeRef heTitle kinds place := by
  cases kinds with
  | nil => exact absurd rfl hk
  | cons kind kinds =>
    cases place with
    | nil => cases h
    | cons i place =>
      simp [RefPath.ref, RefPath.heRef, RefPath.phrase, RefPath.goTo, RefPath.root, placeRef,
        placeHeRef, englishLabels, hebrewLabels, addressWord]

/-- **The references of a book that is one leaf**: one for each place, in their order. Without a
Hebrew title the English one stands in the Hebrew references. -/
theorem flatten_leaf {layout : LeafLayout} (fits : layout.rejection? = none) (hd : 1 ≤ layout.depth)
    (name : NodeName) (content : Json) (titleEn titleHe : Text) (book : Int) :
    ∃ flat, flatten (.leaf name layout) content titleEn titleHe book = .ok flat ∧
      flat.refs = (leafPlaces layout.depth content).zipIdx.map fun (place, i) =>
        placeEntry book titleEn (if titleHe.isEmpty then titleEn else titleHe) layout.addressKinds
          place i := by
  obtain ⟨levels, hl, hkinds⟩ := LeafLayout.levels?_eq_some fits
  have hlen : layout.addressKinds.length = layout.depth := (LeafLayout.lengths_of_rejection? fits).2.1
  have hne : layout.addressKinds ≠ [] := by
    intro hn
    rw [hn] at hlen
    simp only [List.length_nil] at hlen
    omega
  have hlevels : levels.length = layout.depth := by rw [← hlen, ← hkinds, List.length_map]
  let heTitle := if titleHe.isEmpty then titleEn else titleHe
  let es := emitLeaf levels 1 (.root titleEn heTitle) [] content
  refine ⟨.ofEmissions book titleEn heTitle (.heading heTitle 0 :: es), ?_, ?_⟩
  · rw [flatten, emitNode, hl]
    rfl
  · show FlatBook.refsFrom book 0 es = _
    rw [FlatBook.refsFrom_eq, filterMap_path?_emitLeaf, hkinds, hlevels, List.zipIdx_map,
      List.map_map]
    refine List.map_congr_left ?_
    rintro ⟨place, i⟩ hp
    -- a place as deep as the leaf has a label on each level
    have hplace : place.length = layout.addressKinds.length := by
      rw [hlen]
      exact length_of_mem_leafPlaces (List.fst_mem_of_mem_zipIdx hp)
    obtain ⟨href, hheRef⟩ := ref_goTo_root titleEn heTitle hne hplace
    show RefEntry.mk _ _ _ _ = RefEntry.mk _ _ _ _
    rw [← href, ← hheRef]
    rfl

end HebrewCorpus
