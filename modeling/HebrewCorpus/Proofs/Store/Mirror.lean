import HebrewCorpus.Proofs.Store.Changes
import HebrewCorpus.Proofs.Store.Views

/-! # Databases and collections

A database and a collection that take the same deliveries hold the same rows. The collection keeps
them in the order in which they came; the tables keep them under their numbers, and where a row may
be replaced they keep the last one.

* **`Tables.Mirrors`**: tables that hold what a collection holds.
* **`Collection.Distinct`**: a collection of rows with different numbers.
* **`Tables.Mirrors.changeAll?`**, **`Tables.Mirrors.takeAll?`**: one delivery and several keep the
  two alike, and none is refused as long as the numbers are different. -/

namespace HebrewCorpus

/-! ### Books -/

/-- The row under a key is that of the first thing with this key. -/
theorem lookup_keyedBy {α β : Type} (key : α → Int) (row : α → β) (as : List α) (n : Int) :
    (keyedBy key row as).lookup n = (as.find? (key · = n)).map row := by
  induction as with
  | nil => rfl
  | cons a as ih =>
    rw [keyedBy, List.map_cons, ← keyedBy, List.lookup_cons, List.find?_cons, ih]
    by_cases h : n = key a
    · simp [h]
    · simp [beq_false_of_ne h, Ne.symm h]

/-- **A book takes the place of the one with its number**, in a table as in a list. -/
theorem Table.Lists.putBook {t : Table BookRow} {books : List BookRecord}
    (h : t.Lists (keyedBy (·.id) (·.row) books)) (record : BookRecord) :
    (t.put record.id record.row).Lists (keyedBy (·.id) (·.row) (putBook record books)) := by
  have hdistinct := h.distinct
  rw [map_fst_keyedBy] at hdistinct
  refine of_find? (h.ascends.put _ record.row) ?_ fun n => ?_
  · rw [map_fst_keyedBy]
    exact nodup_map_id_putBook record hdistinct
  · rw [lookup_keyedBy, find?_putBook]
    split
    · next he => rw [← he, find?_put_self, Option.map_some]
    · next hne => rw [find?_put_of_ne (Ne.symm hne), h.find?_eq, lookup_keyedBy]

/-! ### The relation -/

/-- Each line of a tree and the number of the tree, with their entry. -/
def OverlayTree.pairRows (tree : OverlayTree) : List ((Int × Int) × Int) :=
  tree.lineMap.map fun m => ((m.1, tree.head.id), m.2)

/-- **A collection of rows with different numbers.** -/
structure Collection.Distinct (c : Collection) : Prop where
  lines : (c.lines.map (·.id.getD 0)).Nodup
  outlineEntries : ((c.outlines.flatMap (·.entries)).map (·.id)).Nodup
  overlays : (c.overlays.map (·.head.id)).Nodup
  overlayEntries : ((c.overlays.flatMap (·.entries)).map (·.id)).Nodup

/-- **Tables that hold what a collection holds.** The rows of books, lines, entries and overlays stand
under their numbers, and links are numbered in the order in which they came. A line has the outline
entry that was given last for it, and in each overlay the overlay entry that was given last. -/
structure Tables.Mirrors (t : Tables) (c : Collection) : Prop where
  books : t.books.Lists (keyedBy (·.id) (·.row) c.books)
  lines : t.lines.Lists (keyedBy (·.id.getD 0) (·.row) c.lines)
  outlineEntries :
    t.outlineEntries.Lists (keyedBy (·.id) (·.row) (c.outlines.flatMap (·.entries)))
  lineOutlines : t.lineOutlines.Keeps (c.outlines.flatMap (·.lineMap))
  overlays : t.overlays.Lists (keyedBy (·.id) (·.row) (c.overlays.map (·.head)))
  overlayEntries :
    t.overlayEntries.Lists (keyedBy (·.id) (·.row) (c.overlays.flatMap (·.entries)))
  lineOverlays : t.lineOverlays.KeepsPairs (c.overlays.flatMap (·.pairRows))
  links : t.links.Enumerates c.links

namespace Tables

/-- **Changes of one table are made in that table.** -/
theorem changeAll?_map {α β : Type} {row : α → RowChange} {step : β → α → Option β}
    (get : Tables → β) (put : Tables → β → Tables) {as : List α}
    (hstep : ∀ a ∈ as, ∀ t : Tables, t.change? (row a) = (step (get t) a).map (put t))
    (hget : ∀ t b, get (put t b) = b) (hself : ∀ t, put t (get t) = t)
    (hput : ∀ t b b', put (put t b) b' = put t b') (t : Tables) :
    t.changeAll? (as.map row) = (as.foldlM step (get t)).map (put t) := by
  induction as generalizing t with
  | nil => exact congrArg some (hself t).symm
  | cons a as ih =>
    obtain ⟨hfirst, hrest⟩ := List.forall_mem_cons.1 hstep
    rw [List.map_cons, changeAll?_cons, hfirst, List.foldlM_cons]
    cases step (get t) a with
    | none => rfl
    | some b =>
      show changeAll? (put t b) (as.map row) = (as.foldlM step b).map (put t)
      rw [ih hrest, hget, funext (hput t b)]

variable (t : Tables)

/-- Lines with numbers are inserted under them. -/
theorem changeAll?_lines {ls : List Line} (given : ∀ l ∈ ls, l.id.isSome = true) :
    t.changeAll? (ls.map fun l => .line l.id l.row) =
      (t.lines.insertAll? (keyedBy (·.id.getD 0) (·.row) ls)).map fun lines => { t with lines } := by
  rw [Table.insertAll?, keyedBy, List.foldlM_map]
  refine changeAll?_map lines (fun t lines => { t with lines }) (fun l hl t => ?_)
    (fun _ _ => rfl) (fun _ => rfl) (fun _ _ _ => rfl) t
  -- a line with a number does not take the next one of the table
  obtain ⟨n, hn⟩ := Option.isSome_iff_exists.1 (given l hl)
  rw [change?, hn]
  rfl

/-- Outline entries are inserted under their numbers. -/
theorem changeAll?_outlineEntries (es : List OutlineEntry) :
    t.changeAll? (es.map fun e => .outlineEntry e.id e.row) =
      (t.outlineEntries.insertAll? (keyedBy (·.id) (·.row) es)).map
        fun outlineEntries => { t with outlineEntries } := by
  rw [Table.insertAll?, keyedBy, List.foldlM_map]
  exact changeAll?_map outlineEntries (fun t outlineEntries => { t with outlineEntries })
    (fun _ _ _ => rfl) (fun _ _ => rfl) (fun _ => rfl) (fun _ _ _ => rfl) t

/-- Overlay entries are inserted under their numbers. -/
theorem changeAll?_overlayEntries (es : List OverlayEntry) :
    t.changeAll? (es.map fun e => .overlayEntry e.id e.row) =
      (t.overlayEntries.insertAll? (keyedBy (·.id) (·.row) es)).map
        fun overlayEntries => { t with overlayEntries } := by
  rw [Table.insertAll?, keyedBy, List.foldlM_map]
  exact changeAll?_map overlayEntries (fun t overlayEntries => { t with overlayEntries })
    (fun _ _ _ => rfl) (fun _ _ => rfl) (fun _ => rfl) (fun _ _ _ => rfl) t

/-- Links are numbered one after the other. -/
theorem changeAll?_links (ls : List Link) :
    t.changeAll? (ls.map .link) = (t.links.numberAll? ls).map fun links => { t with links } :=
  changeAll?_map links (fun t links => { t with links })
    (fun _ _ _ => rfl) (fun _ _ => rfl) (fun _ => rfl) (fun _ _ _ => rfl) t

/-- The outline entries of lines are put under the lines. -/
theorem changeAll?_lineOutlines (ms : List (Int × Int)) :
    t.changeAll? (ms.map fun (l, e) => .lineOutline l e) =
      some { t with lineOutlines := t.lineOutlines.putAll ms } := by
  induction ms generalizing t with
  | nil => rfl
  | cons m ms ih => exact ih { t with lineOutlines := t.lineOutlines.put m.1 m.2 }

/-- The overlay entries of lines are put under the lines and the overlay. -/
theorem changeAll?_lineOverlays (overlay : Int) (ms : List (Int × Int)) :
    t.changeAll? (ms.map fun (l, e) => .lineOverlay l overlay e) =
      some { t with
        lineOverlays := t.lineOverlays.putPairs (ms.map fun m => ((m.1, overlay), m.2)) } := by
  induction ms generalizing t with
  | nil => rfl
  | cons m ms ih => exact ih { t with lineOverlays := t.lineOverlays.putPair m.1 overlay m.2 }

/-! ### Deliveries -/

/-- An outline is refused when one of its entries is. -/
theorem changeAll?_outline (o : Outline) :
    t.changeAll? (Delivery.outline o).changes =
      (t.outlineEntries.insertAll? (keyedBy (·.id) (·.row) o.entries)).map fun outlineEntries =>
        { t with outlineEntries, lineOutlines := t.lineOutlines.putAll o.lineMap } := by
  rw [Delivery.changes, changeAll?_append, changeAll?_outlineEntries, Option.bind_map,
    Option.map_eq_bind]
  exact congrArg _ (funext fun _ => changeAll?_lineOutlines _ o.lineMap)

/-- An overlay is refused when it or one of its entries is. -/
theorem changeAll?_overlay (tree : OverlayTree) :
    t.changeAll? (Delivery.overlay tree).changes =
      (t.overlays.insertAll? (keyedBy (·.id) (·.row) [tree.head])).bind fun overlays =>
        (t.overlayEntries.insertAll? (keyedBy (·.id) (·.row) tree.entries)).map fun overlayEntries =>
          { t with
            overlays
            overlayEntries
            lineOverlays := t.lineOverlays.putPairs tree.pairRows } := by
  have hhead : t.overlays.insertAll? (keyedBy (·.id) (·.row) [tree.head]) =
      t.overlays.insert? tree.head.id tree.head.row := bind_pure _
  rw [Delivery.changes, List.cons_append, changeAll?_cons, change?, Option.bind_map, hhead]
  refine congrArg _ (funext fun overlays => ?_)
  show changeAll? { t with overlays } _ = _
  rw [changeAll?_append, changeAll?_overlayEntries, Option.bind_map, Option.map_eq_bind]
  exact congrArg _ (funext fun _ => changeAll?_lineOverlays _ tree.head.id tree.lineMap)

variable {t : Tables} {c c' : Collection} {d : Delivery} {ds : List Delivery}

/-- **An outline keeps tables and collection alike.** -/
theorem Mirrors.outline (h : t.Mirrors c) (o : Outline) :
    (({ c with outlines := c.outlines ++ [o] } : Collection).Distinct →
      (t.changeAll? (Delivery.outline o).changes).isSome) ∧
    ∀ u, t.changeAll? (Delivery.outline o).changes = some u →
      u.Mirrors { c with outlines := c.outlines ++ [o] } := by
  have hentries : (c.outlines ++ [o]).flatMap (·.entries) =
      c.outlines.flatMap (·.entries) ++ o.entries := by simp
  have hlines : (c.outlines ++ [o]).flatMap (·.lineMap) =
      c.outlines.flatMap (·.lineMap) ++ o.lineMap := by simp
  obtain ⟨hfree, hlists⟩ := h.outlineEntries.insertAll?_keyedBy o.entries
  rw [← hentries] at hfree hlists
  rw [changeAll?_outline, Option.isSome_map]
  refine ⟨fun hdistinct => hfree hdistinct.outlineEntries, fun u hu => ?_⟩
  obtain ⟨outlineEntries, hinserted, rfl⟩ := Option.map_eq_some_iff.1 hu
  refine { h with outlineEntries := hlists outlineEntries hinserted, lineOutlines := ?_ }
  show Table.Keeps _ ((c.outlines ++ [o]).flatMap (·.lineMap))
  rw [hlines]
  exact h.lineOutlines.putAll o.lineMap

/-- **An overlay keeps tables and collection alike.** -/
theorem Mirrors.overlay (h : t.Mirrors c) (tree : OverlayTree) :
    (({ c with overlays := c.overlays ++ [tree] } : Collection).Distinct →
      (t.changeAll? (Delivery.overlay tree).changes).isSome) ∧
    ∀ u, t.changeAll? (Delivery.overlay tree).changes = some u →
      u.Mirrors { c with overlays := c.overlays ++ [tree] } := by
  have hheads : (c.overlays ++ [tree]).map (·.head) = c.overlays.map (·.head) ++ [tree.head] := by
    simp
  have hentries : (c.overlays ++ [tree]).flatMap (·.entries) =
      c.overlays.flatMap (·.entries) ++ tree.entries := by simp
  have hpairs : (c.overlays ++ [tree]).flatMap (·.pairRows) =
      c.overlays.flatMap (·.pairRows) ++ tree.pairRows := by simp
  obtain ⟨hfreeHead, hlistsHead⟩ := h.overlays.insertAll?_keyedBy [tree.head]
  obtain ⟨hfree, hlists⟩ := h.overlayEntries.insertAll?_keyedBy tree.entries
  rw [← hheads] at hfreeHead hlistsHead
  rw [← hentries] at hfree hlists
  rw [changeAll?_overlay]
  refine ⟨fun hdistinct => ?_, fun u hu => ?_⟩
  · have hids : ((c.overlays ++ [tree]).map (·.head)).map (·.id) =
        (c.overlays ++ [tree]).map (·.head.id) := List.map_map
    rw [hids] at hfreeHead
    obtain ⟨overlays, hoverlays⟩ := Option.isSome_iff_exists.1 (hfreeHead hdistinct.overlays)
    rw [hoverlays, Option.bind_some, Option.isSome_map]
    exact hfree hdistinct.overlayEntries
  · obtain ⟨overlays, hoverlays, hu⟩ := Option.bind_eq_some_iff.1 hu
    obtain ⟨overlayEntries, hinserted, rfl⟩ := Option.map_eq_some_iff.1 hu
    refine { h with
      overlays := hlistsHead overlays hoverlays
      overlayEntries := hlists overlayEntries hinserted
      lineOverlays := ?_ }
    show Table.KeepsPairs _ ((c.overlays ++ [tree]).flatMap (·.pairRows))
    rw [hpairs]
    exact h.lineOverlays.putPairs tree.pairRows

/-- **One delivery keeps tables and collection alike.** The tables do not refuse it as long as the
numbers are different. -/
theorem Mirrors.changeAll? (h : t.Mirrors c) (hd : c.deliver d = .ok c')
    (given : ∀ l ∈ d.lineRows, l.id.isSome = true) :
    (c'.Distinct → (t.changeAll? d.changes).isSome) ∧
      ∀ u, t.changeAll? d.changes = some u → u.Mirrors c' := by
  cases d with
  | book record =>
    cases hd
    refine ⟨fun _ => rfl, fun u hu => ?_⟩
    cases hu
    exact { h with books := h.books.putBook record }
  | lines ls =>
    cases hd
    have hchanges := changeAll?_lines t given
    obtain ⟨hfree, hlists⟩ := h.lines.insertAll?_keyedBy ls
    rw [Delivery.lineRows] at hchanges
    rw [Delivery.changes, hchanges, Option.isSome_map]
    refine ⟨fun hdistinct => hfree hdistinct.lines, fun u hu => ?_⟩
    obtain ⟨lines, hlines, rfl⟩ := Option.map_eq_some_iff.1 hu
    exact { h with lines := hlists lines hlines }
  | outline o =>
    cases hd
    exact h.outline o
  | overlay tree =>
    cases hd
    exact h.overlay tree
  | links ls =>
    cases hd
    obtain ⟨links, hnumbered, hlinks⟩ := h.links.numberAll? ls
    rw [Delivery.changes, changeAll?_links, hnumbered]
    refine ⟨fun _ => rfl, fun u hu => ?_⟩
    cases hu
    exact { h with links := hlinks }
  | overlayMark book value =>
    rw [Collection.deliver] at hd
    cases hfound : c.books.find? (·.id = book) with
    | none =>
      rw [hfound] at hd
      cases hd
    | some record =>
      rw [hfound] at hd
      cases hd
      have hid : record.id = book := by simpa using List.find?_some hfound
      -- the table has the row of the same record under the number
      have hrow : t.books.find? book = some record.row := by
        rw [h.books.find?_eq, lookup_keyedBy, hfound, Option.map_some]
      have hmarked : t.changeAll? (Delivery.overlayMark book value).changes =
          some { t with books := t.books.put book { record.row with hasOverlays := value } } := by
        rw [Delivery.changes, changeAll?_cons, change?, hrow]
        rfl
      rw [hmarked]
      refine ⟨fun _ => rfl, fun u hu => ?_⟩
      cases hu
      subst hid
      exact { h with books := h.books.putBook { record with hasOverlays := value } }

end Tables

/-! ### Sequences of deliveries -/

namespace Collection

variable {c c' : Collection} {d : Delivery} {ds : List Delivery}

/-- **Rows with different numbers had different numbers before.** -/
theorem Distinct.of_deliverAll (h : c.deliverAll ds = .ok c') (distinct : c'.Distinct) :
    c.Distinct := by
  obtain ⟨hlines, houtlines, hoverlays, -, -⟩ := foldl_rows ds c
  rw [← eq_foldl_of_deliverAll h] at hlines houtlines hoverlays
  obtain ⟨hline, hentry, hoverlay, hoverlayEntry⟩ := distinct
  rw [hlines, List.map_append] at hline
  rw [houtlines, List.flatMap_append, List.map_append] at hentry
  rw [hoverlays, List.map_append] at hoverlay
  rw [hoverlays, List.flatMap_append, List.map_append] at hoverlayEntry
  exact ⟨(List.nodup_append.1 hline).1, (List.nodup_append.1 hentry).1,
    (List.nodup_append.1 hoverlay).1, (List.nodup_append.1 hoverlayEntry).1⟩

end Collection

/-- **Several deliveries keep a database and a collection alike.** The database does not refuse any
as long as the numbers are different. -/
theorem Tables.Mirrors.takeAll? {db : Database} {c c' : Collection} {ds : List Delivery}
    (h : db.current.Mirrors c) (hds : c.deliverAll ds = .ok c')
    (given : ∀ d ∈ ds, ∀ l ∈ d.lineRows, l.id.isSome = true) :
    (c'.Distinct → (db.takeAll? ds).isSome) ∧
      ∀ after, db.takeAll? ds = some after → after.current.Mirrors c' := by
  induction ds generalizing db c with
  | nil =>
    cases hds
    refine ⟨fun _ => rfl, fun after hafter => ?_⟩
    cases hafter
    exact h
  | cons d ds ih =>
    obtain ⟨m, hm, hds⟩ := Collection.deliverAll_cons_eq_ok.1 hds
    obtain ⟨hfirst, hrest⟩ := List.forall_mem_cons.1 given
    obtain ⟨hfree, hmirrors⟩ := h.changeAll? hm hfirst
    rw [Database.takeAll?_cons, Database.take?_eq]
    refine ⟨fun distinct => ?_, fun after hafter => ?_⟩
    · -- numbers that are different in the end were different after the first delivery
      obtain ⟨u, hu⟩ := Option.isSome_iff_exists.1 (hfree (distinct.of_deliverAll hds))
      have hsettled : Tables.Mirrors (Database.mk u u).current m := hmirrors u hu
      rw [hu, Option.map_some, Option.bind_some]
      exact (ih hsettled hds hrest).1 distinct
    · obtain ⟨next, hnext, hafter⟩ := Option.bind_eq_some_iff.1 hafter
      obtain ⟨u, hu, rfl⟩ := Option.map_eq_some_iff.1 hnext
      have hsettled : Tables.Mirrors (Database.mk u u).current m := hmirrors u hu
      exact (ih hsettled hds hrest).2 after hafter

end HebrewCorpus
