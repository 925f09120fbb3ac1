import CodeSearch.Proofs.CodeMap.Insertion
import CodeSearch.Proofs.CodeMap.RoundTrip
import Mathlib.Data.List.Pairwise

/-!
# Maps do not show the order of their documents

A map can be made of documents one after another, or of bare files that are described afterwards. If
every document has a place of its own (`CodeMap.HavePlaces`), neither the order of the documents nor
the way matters: all of this gives one map (`CodeMap.ofDocuments_of_perm`).

No two steps are exchanged to see this. A tidy tree is told by what names lead to in it
(`MapNode.Tidy.ext`), so it is enough to say what names lead to in the end:

* `charts_ofDocuments` — in the map of documents, to the last document of a place; an order only
  shows in this if a place has two documents (`CodeMap.last?_of_perm`);
* `CodeMap.addDocument_bare` — adding a file is adding a document of which nothing is known, so this
  is said of added files as well;
* `CodeMap.what?_enrich` — after descriptions, to what was there, described by the last document of
  the place.

With two documents for one place the ways differ, even if they come in one order: a description keeps
the language that was told by an earlier one, while a file that is added again loses it.
-/

namespace CodeSearch

/-- A document of which nothing is known but its path and its size. -/
def Metadata.bare (path : Path) (size : Nat) : Metadata := { (default : Metadata) with path, size }

/-- A document of which nothing is known tells nothing about its file. -/
theorem MapFile.ofDocument_bare (root : Path) (names : List String) (path : Path) (size : Nat) :
    ofDocument root names (.bare path size) = newAt root names size := rfl

/-- What was known about a file is overwritten by a document. -/
theorem MapFile.describe_newAt (root : Path) (names : List String) (size : Nat) (d : Metadata) :
    (newAt root names size).describe d = ofDocument root names d := rfl

/-! ### Trees told by look-ups -/

namespace MapNode

variable {entries entries' : Table MapNode} {base : Path}

/-- **A tidy tree is told by what names lead to.** Names and paths of its nodes are those of their
places, so nothing is left that could differ. -/
theorem Tidy.ext (h : Tidy base entries) (h' : Tidy base entries')
    (hwhat : ∀ names, what? names entries = what? names entries') : entries = entries' := by
  induction h generalizing entries' with
  | @intro base entries sorted named inner ih =>
    -- the tables are in order, so it is enough that their entries agree
    apply Table.ext_of_get? sorted h'.sorted
    intro k
    have hk : (entries.get? k).map file? = (entries'.get? k).map file? := hwhat [k]
    cases hget : entries.get? k with
    | none =>
      -- one name leads to nothing in the first tree, and so to nothing in the second
      rw [hget] at hk
      exact (Option.map_eq_none_iff.1 hk.symm).symm
    | some node =>
      rw [hget] at hk
      obtain ⟨node', hget', hfile⟩ := Option.map_eq_some_iff.1 hk.symm
      have hmem := (Table.get?_eq_some_iff sorted).1 hget
      rw [hget', Option.some.injEq]
      cases node with
      | file f =>
        cases node' with
        -- two files at one place are one file
        | file g => exact congrArg file (Option.some.inj hfile).symm
        | directory n' path' es' => cases hfile
      | directory n path es =>
        cases node' with
        -- a file and a directory are not the same
        | file g => cases hfile
        | directory n' path' es' =>
          -- both directories have the name and the path of this place, so only what lies in them counts
          obtain ⟨-, hn, hpath⟩ := named hmem
          -- only what lies in them is left, which the induction compares
          obtain ⟨-, hn', hpath'⟩ := h'.named hget'
          have hin' : Tidy path es' := by
            have hwithin := h'.within k
            rw [hget'] at hwithin
            rwa [show path = base.join ⟨k⟩ from hpath]
          have hes : es = es' := by
            refine ih hmem hin' fun names => ?_
            by_cases hne : names = []
            · subst hne
              rfl
            · have hbelow := hwhat (k :: names)
              rwa [what?_cons hne, what?_cons hne, hget, hget'] at hbelow
          rw [hes]
          exact congrArg₂ (directory · · es') (hn.trans hn'.symm) (hpath.trans hpath'.symm)

end MapNode

namespace CodeMap

open MapNode (what?)

variable {root path : Path} {ds ds' : List Metadata} {d : Metadata} {m m' : CodeMap} {names ns : List String}

/-- **Maps of one root are told by what names lead to.** -/
theorem Tidy.ext (h : m.Tidy) (h' : m'.Tidy) (hroot : m.root = m'.root)
    (hwhat : ∀ names, what? names m.entries = what? names m'.entries) : m = m' := by
  obtain ⟨root, entries⟩ := m
  obtain ⟨root', entries'⟩ := m'
  obtain rfl : root = root' := hroot
  exact congrArg (CodeMap.mk root) (MapNode.Tidy.ext h h' hwhat)

/-! ### Places of documents -/

/-- The names that lead to the documents of a list that lie properly below a root. -/
def placesBelow (root : Path) (ds : List Metadata) : List (List String) :=
  ds.filterMap fun d => namesBelow? root d.path

/-- Whether the documents that lie properly below a root have places of their own. -/
structure HavePlaces (root : Path) (ds : List Metadata) : Prop where
  /-- No two of them have one place. -/
  nodup : (placesBelow root ds).Nodup
  /-- None of them lies below another one. -/
  apart : LiesApart root ds

/-- The places are those of the documents that lie properly below the root. -/
theorem mem_placesBelow_iff : names ∈ placesBelow root ds ↔ ∃ d ∈ ds, namesBelow? root d.path = some names :=
  List.mem_filterMap

theorem placesBelow_concat (root : Path) (ds : List Metadata) (d : Metadata) :
    placesBelow root (ds ++ [d]) = placesBelow root ds ++ (namesBelow? root d.path).toList := by
  rw [placesBelow, List.filterMap_append, List.filterMap_cons]
  cases namesBelow? root d.path with
  | none => rfl
  | some names => rfl

/-- A place has a last document exactly if it is the place of one. -/
theorem last?_eq_none_iff : last? root ds names = none ↔ names ∉ placesBelow root ds := by
  rw [mem_placesBelow_iff]
  constructor
  · rintro hnone ⟨d, hd, hnames⟩
    obtain ⟨d', hlast⟩ := exists_last? hd hnames
    rw [hnone] at hlast
    cases hlast
  · intro hnot
    cases hlast : last? root ds names with
    | none => rfl
    | some d => exact absurd ⟨d, last?_eq_some hlast⟩ hnot

/-- Where documents lie is said of their paths. -/
theorem placesBelow_eq (root : Path) (ds : List Metadata) :
    placesBelow root ds = (ds.map Metadata.path).filterMap (namesBelow? root) := by
  rw [List.filterMap_map]
  rfl

/-- The places of rearranged documents are the places rearranged. -/
theorem placesBelow_perm (hperm : (ds'.map Metadata.path).Perm (ds.map Metadata.path)) :
    (placesBelow root ds').Perm (placesBelow root ds) := by
  rw [placesBelow_eq, placesBelow_eq]
  exact hperm.filterMap _

theorem LiesApart.of_perm (h : LiesApart root ds)
    (hperm : (ds'.map Metadata.path).Perm (ds.map Metadata.path)) : LiesApart root ds' := by
  have hplaces : (placesBelow root ds').Perm (placesBelow root ds) := placesBelow_perm hperm
  rw [liesApart_iff] at h ⊢
  exact fun ns hns ns' hns' => h ns (hplaces.mem_iff.1 hns) ns' (hplaces.mem_iff.1 hns')

/-- A place has at most one document. -/
theorem HavePlaces.eq_of_place (h : HavePlaces root ds) (hd : d ∈ ds) {d' : Metadata} (hd' : d' ∈ ds)
    (hnames : namesBelow? root d.path = some names) (hnames' : namesBelow? root d'.path = some names) :
    d = d' := by
  have hpairs : ds.Pairwise fun a b => ∀ x, namesBelow? root a.path = some x →
      ∀ y, namesBelow? root b.path = some y → x ≠ y := List.pairwise_filterMap.1 h.nodup
  have hsymm : Std.Symm fun a b : Metadata => ∀ x, namesBelow? root a.path = some x →
      ∀ y, namesBelow? root b.path = some y → x ≠ y := ⟨fun a b hab x hx y hy => (hab y hy x hx).symm⟩
  by_contra hne
  exact hpairs.forall hd hd' hne names hnames names hnames' rfl

/-- **The last document of a place** is the same in every order, since it is the only one. -/
theorem last?_of_perm (h : HavePlaces root ds) (hperm : ds'.Perm ds) (names : List String) :
    last? root ds' names = last? root ds names := by
  cases hlast : last? root ds' names with
  | some d =>
    -- both documents have the same place, and every place has one document only
    obtain ⟨hd, hnames⟩ := last?_eq_some hlast
    obtain ⟨d', hlast'⟩ := exists_last? (hperm.mem_iff.1 hd) hnames
    obtain ⟨hd', hnames'⟩ := last?_eq_some hlast'
    rw [hlast', h.eq_of_place (hperm.mem_iff.1 hd) hd' hnames hnames']
  | none =>
    rw [last?_eq_none_iff, (placesBelow_perm (hperm.map _)).mem_iff, ← last?_eq_none_iff] at hlast
    exact hlast.symm

/-- Whether names are on the way to a document is said of the paths of documents. -/
theorem onWay_of_perm (hperm : (ds'.map Metadata.path).Perm (ds.map Metadata.path)) (names : List String) :
    onWay root ds' names = onWay root ds names := by
  have hany : ∀ ds : List Metadata, onWay root ds names =
      (ds.map Metadata.path).any fun p => (namesBelow? root p).any names.isPrefixOf := by
    intro ds
    rw [List.any_map]
    rfl
  rw [hany, hany]
  exact hperm.any_eq

/-- The map of documents in another order is the same map. -/
theorem ofDocuments_eq_of_perm (h : HavePlaces root ds) (hperm : ds'.Perm ds) :
    ofDocuments root ds' = ofDocuments root ds := by
  have hpaths := hperm.map Metadata.path
  apply Tidy.ext (built_ofDocuments root ds').tidy (built_ofDocuments root ds).tidy
  · exact (built_ofDocuments root ds').root_eq.trans (built_ofDocuments root ds).root_eq.symm
  · intro names
    rw [(charts_ofDocuments (h.apart.of_perm hpaths)).what, (charts_ofDocuments h.apart).what, chart?, chart?,
      last?_of_perm h hperm, onWay_of_perm hpaths]

/-! ### Bare files -/

/-- **Adding a file is adding a document of which nothing is known.** -/
theorem addDocument_bare (h : Built root m) (path : Path) (size : Nat) :
    m.addDocument (.bare path size) = (m.insert path size).1 := by
  by_cases hplaced : (m.insert path size).2 = true
  · -- there is room, so both ways put a file there of which only the size is known
    obtain ⟨names, hnames, hroom⟩ := exists_names_of_insert hplaced
    have hw := MapNode.Tidy.wellPlaced h.tidy
    have hne : names ≠ [] := ((MapNode.placed_iff hw size).1 hroom).1
    obtain ⟨hroot, -, hwhat⟩ := addDocument_of_placed (d := .bare path size) hw
      (namesBelow?_eq_some_iff.2 ⟨hnames, hne⟩) hroom
    apply Tidy.ext (h.addDocument _).tidy (h.tidy.insert path size)
    · exact hroot.trans (root_insert m path size).symm
    · intro ns
      rw [hwhat, insert_of_names? hnames, MapNode.what?_place hw hroom, MapFile.ofDocument_bare]
  · rw [addDocument]
    -- there is no room, and neither way changes the map
    exact if_neg hplaced

/-- A map with files added one after another. -/
def insertAll (m : CodeMap) (files : List (Path × Nat)) : CodeMap :=
  files.foldl (fun m p => (m.insert p.1 p.2).1) m

/-- Added files make the map of documents of which nothing is known. -/
theorem insertAll_eq_ofDocuments (root : Path) (files : List (Path × Nat)) :
    insertAll { root } files = ofDocuments root (files.map fun p => .bare p.1 p.2) := by
  -- a map that was built already takes part in the induction
  suffices hfold : ∀ m, Built root m →
      insertAll m files = (files.map fun p => Metadata.bare p.1 p.2).foldl addDocument m from
    hfold _ .empty
  induction files with
  | nil => exact fun _ _ => rfl
  | cons p files ih =>
    intro m hm
    have hstep := ih _ (hm.insert p.1 p.2)
    rw [← addDocument_bare hm p.1 p.2] at hstep
    rw [List.map_cons, List.foldl_cons, ← hstep, addDocument_bare hm]
    rfl

/-! ### Descriptions -/

/-- The last document is described last. -/
theorem enrich_concat (m : CodeMap) (ds : List Metadata) (d : Metadata) : m.enrich (ds ++ [d]) =
    ((m.enrich ds).1.describe? d).elim (m.enrich ds) fun m' => (m', (m.enrich ds).2 + 1) := by
  rw [enrich, List.foldl_append]
  rfl

/-- A document that is outside the root, or is the root, describes no file. -/
theorem describe?_of_outside (h : namesBelow? m.root d.path = none) : m.describe? d = none := by
  rw [describe?]
  cases hnames : m.names? d.path with
  | none => rfl
  | some names =>
    cases names with
    | nil => rfl
    | cons n names =>
      rw [namesBelow?_eq_some_iff.2 ⟨hnames, List.cons_ne_nil n names⟩] at h
      cases h

/-- Whether a map has a file of which nothing is known at the place of each document. -/
def HasBare (root : Path) (ds : List Metadata) (m : CodeMap) : Prop :=
  ∀ d ∈ ds, ∀ names, namesBelow? root d.path = some names →
    ∃ size, what? names m.entries = some (some (.newAt root names size))

/-- **What names lead to after descriptions**: the file of the last document of the place, and what was
there before if there is no document. Every document that has a place is counted. -/
theorem what?_enrich (hroot : m.root = root) (hplaces : (placesBelow root ds).Nodup)
    (hbare : HasBare root ds m) :
    (m.enrich ds).1.root = root ∧ (m.enrich ds).2 = (placesBelow root ds).length ∧
      ∀ ns, what? ns (m.enrich ds).1.entries =
        ((last? root ds ns).map fun d => some (.ofDocument root ns d)).or (what? ns m.entries) := by
  induction ds using List.reverseRecOn with
  | nil => exact ⟨hroot, rfl, fun ns => rfl⟩
  | append_singleton ds d ih =>
    -- the last document comes on top of what the others have changed
    rw [placesBelow_concat, List.nodup_append] at hplaces
    obtain ⟨hbefore, -, hfresh⟩ := hplaces
    obtain ⟨hroot', hcount, hwhat⟩ := ih hbefore fun d' hd' => hbare d' (List.mem_append_left _ hd')
    rw [enrich_concat, placesBelow_concat]
    cases hnames : namesBelow? root d.path with
    | none =>
      -- a document outside the root changes nothing
      rw [describe?_of_outside (by rw [hroot', hnames])]
      refine ⟨hroot', by rw [Option.elim_none, hcount]; simp, fun ns => ?_⟩
      rw [Option.elim_none, hwhat, last?_concat, hnames, if_neg nofun]
    | some names =>
      -- the place is not that of a document before, so nothing is known about its file
      have hnone : last? root ds names = none := by
        apply last?_eq_none_iff.2
        intro hmem
        exact hfresh names hmem names (by rw [hnames]; exact List.mem_singleton_self names) rfl
      -- its file is still the bare one
      obtain ⟨size, hnew⟩ := hbare d (List.mem_append_right _ List.mem_cons_self) names hnames
      have hfile : what? names (m.enrich ds).1.entries = some (some (.newAt root names size)) := by
        rw [hwhat, hnone]
        exact hnew
      have hlead : (m.enrich ds).1.names? d.path = some names := by
        rw [names?, hroot']
        exact (namesBelow?_eq_some_iff.1 hnames).1
      -- so it can be described, and the change shows nowhere else
      obtain ⟨entries, hchange⟩ := MapNode.exists_change? (·.describe d) hfile
      obtain ⟨old, hold, hchanged⟩ := MapNode.what?_change? hchange
      -- the file that changes is that bare file
      obtain rfl : MapFile.newAt root names size = old :=
        Option.some.inj (Option.some.inj (hfile.symm.trans hold))
      rw [describe?_eq hlead hchange, Option.elim_some]
      refine ⟨hroot', by rw [hcount]; simp, fun ns => ?_⟩
      rw [hchanged, last?_concat, hnames]
      by_cases hns : ns = names
      · -- a bare file that is described is the file of the document
        rw [if_pos hns, if_pos (congrArg some hns.symm), hns, MapFile.describe_newAt]
        rfl
      · rw [if_neg hns, if_neg fun he => hns (Option.some.inj he).symm, hwhat]

/-! ### One map -/

/-- **Files that are described later make the map of their documents.** -/
theorem enrich_insertAll (h : HavePlaces root ds) {files : List (Path × Nat)}
    (hfiles : (files.map Prod.fst).Perm (ds.map Metadata.path)) (hperm : ds'.Perm ds) :
    (insertAll { root } files).enrich ds' = (ofDocuments root ds, (placesBelow root ds).length) := by
  have hpaths := hperm.map Metadata.path
  -- the added files are a map of documents of which nothing is known, at the same places
  have hbares : ((files.map fun p => Metadata.bare p.1 p.2).map Metadata.path).Perm (ds.map Metadata.path) := by
    rw [List.map_map]
    exact hfiles
  rw [insertAll_eq_ofDocuments]
  obtain ⟨hroot, -, hwhat⟩ := charts_ofDocuments (h.apart.of_perm hbares)
  have hbare : HasBare root ds' (ofDocuments root (files.map fun p => .bare p.1 p.2)) := by
    intro d hd names hnames
    have hmem : names ∈ placesBelow root ds := mem_placesBelow_iff.2 ⟨d, hperm.mem_iff.1 hd, hnames⟩
    -- the place of a document is one of the places at which a file was added
    rw [← (placesBelow_perm hbares).mem_iff, mem_placesBelow_iff] at hmem
    obtain ⟨c, hc, hnames'⟩ := hmem
    obtain ⟨c', hlast⟩ := exists_last? hc hnames'
    obtain ⟨p, -, rfl⟩ := List.mem_map.1 (last?_eq_some hlast).1
    exact ⟨p.2, by rw [hwhat, chart?, hlast]; rfl⟩
  have hnodup : (placesBelow root ds').Nodup := (placesBelow_perm hpaths).nodup_iff.2 h.nodup
  obtain ⟨hroot', hcount, hwhat'⟩ := what?_enrich hroot hnodup hbare
  -- two tidy maps with the same nodes are equal
  apply Prod.ext
  · apply Tidy.ext ((built_ofDocuments _ _).enrich ds').tidy (built_ofDocuments root ds).tidy
    · exact hroot'.trans (built_ofDocuments root ds).root_eq.symm
    · intro ns
      rw [hwhat', last?_of_perm h hperm, hwhat, (charts_ofDocuments h.apart).what, chart?, chart?]
      -- the place has a document, so its file is that of the document on both sides
      cases hlast : last? root ds ns with
      | some d => rfl
      | none =>
        -- the place has none, so only a directory on the way can be there
        have hnone : last? root (files.map fun p => .bare p.1 p.2) ns = none := by
          rw [last?_eq_none_iff, (placesBelow_perm hbares).mem_iff]
          exact last?_eq_none_iff.1 hlast
        rw [hnone, onWay_of_perm hbares]
        rfl
  · rw [hcount]
    exact (placesBelow_perm hpaths).length_eq

/-- **A map depends only on the set of its documents,** if those below the root have places of their own:
on no order, and not on whether the files are added with their documents or described afterwards, in
whatever order and with whatever sizes they were added. Each document below the root is then counted
once. -/
theorem ofDocuments_of_perm (h : HavePlaces root ds) :
    (∀ ds', ds'.Perm ds → ofDocuments root ds' = ofDocuments root ds) ∧
      ∀ (files : List (Path × Nat)) (ds' : List Metadata),
        (files.map Prod.fst).Perm (ds.map Metadata.path) → ds'.Perm ds →
          (insertAll { root } files).enrich ds' = (ofDocuments root ds, (placesBelow root ds).length) :=
  ⟨fun _ hperm => ofDocuments_eq_of_perm h hperm, fun _ _ hfiles hperm => enrich_insertAll h hfiles hperm⟩

/-- Two documents in directories that they share in part, and one outside the root. -/
theorem ofDocuments_of_perm_shared :
    let a : Metadata := { (default : Metadata) with path := ⟨"/p/x/a.rs"⟩, size := 1, functions := ["f"] }
    let b : Metadata := { (default : Metadata) with path := ⟨"x/y/b"⟩, size := 2, language := some .go }
    let c : Metadata := { (default : Metadata) with path := ⟨"/q/c.rs"⟩, size := 3 }
    HavePlaces ⟨"/p"⟩ [a, b, c] ∧
      ofDocuments ⟨"/p"⟩ [c, b, a] = ofDocuments ⟨"/p"⟩ [a, b, c] ∧
      (insertAll { root := ⟨"/p"⟩ } [(b.path, 7), (c.path, 8), (a.path, 9)]).enrich [b, a, c] =
        (ofDocuments ⟨"/p"⟩ [a, b, c], 2) := by
  intro a b c
  have h : HavePlaces ⟨"/p"⟩ [a, b, c] := ⟨by decide, by decide⟩
  obtain ⟨hperm, hfiles⟩ := ofDocuments_of_perm h
  have hplaces : (placesBelow ⟨"/p"⟩ [a, b, c]).length = 2 := by decide
  refine ⟨h, hperm [c, b, a] (by decide), ?_⟩
  rw [← hplaces]
  exact hfiles _ _ (by decide) (by decide)

/-- Whether it shows in a map which of two documents came last, although they have different relative paths, and none
is below the other. -/
def TakesTurns (root p q : Path) : Prop :=
  componentsBelow? root p ≠ componentsBelow? root q ∧ LiesApart root [.bare p 1, .bare q 2] ∧
    ofDocuments root [.bare q 2, .bare p 1] ≠ ofDocuments root [.bare p 1, .bare q 2]

/-- The order shows in the sizes of the files. -/
theorem takesTurns_of_sizes {root p q : Path} (hpaths : componentsBelow? root p ≠ componentsBelow? root q)
    (hapart : LiesApart root [.bare p 1, .bare q 2])
    (hsizes : (ofDocuments root [.bare q 2, .bare p 1]).files.map MapFile.size ≠
      (ofDocuments root [.bare p 1, .bare q 2]).files.map MapFile.size) : TakesTurns root p q :=
  ⟨hpaths, hapart, fun h => hsizes (congrArg (fun m => m.files.map MapFile.size) h)⟩

/-- **Different paths can have one place**, and then the order of the documents shows: a `.` step does not count, and
names that are no UTF-8 can look the same. -/
theorem ofDocuments_ne_of_perm :
    TakesTurns ⟨"/r"⟩ ⟨"./a"⟩ ⟨"a"⟩ ∧ TakesTurns ⟨"/r"⟩ (.ofRaw ⟨[97, 254]⟩) (.ofRaw ⟨[97, 255]⟩) := by
  constructor
  · exact takesTurns_of_sizes (by decide) (by decide) (by decide +kernel)
  · exact takesTurns_of_sizes (by decide) (by decide) (by decide +kernel)

end CodeMap

end CodeSearch
