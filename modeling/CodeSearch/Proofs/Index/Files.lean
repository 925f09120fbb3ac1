import CodeSearch.Index.Run
import CodeSearch.Proofs.Selection.DepthFirst

/-!
# The files of a run

The files that a run goes through are those that a walk finds from its root, named by what leads to them
(`mem_filesOf_of_directory`), or the root itself if it is a file (`mem_filesOf_of_isFile`). An id is what is
shown of the names, so two files can have one id. Ids tell files apart (`eq_of_id_eq`) as long as everything
below the root is called by names and no two entries of a directory look the same.

A root *shows* a document id if a walk that passes nothing over would come to a file with that id
(`Workspace.Shows`). A run goes through a file with the id exactly if the root shows it and the selector
accepts the path that the id stands for (`exists_mem_filesOf_iff`).
-/

namespace CodeSearch

namespace Workspace

/-- Whether everything below a root is called by names. -/
def WellNamed (w : Workspace) (root : Path) : Prop := ∀ e, w.entry? root = some e → e.WellNamed

/-- A root with entries that are called by names and lead no further is called by names. -/
theorem wellNamed_of_flat {w : Workspace} {root : Path} {es : List (RawText × Entry)}
    (hroot : w.entry? root = some (.directory (some es)))
    (hflat : ∀ x ∈ es, Path.IsName x.1.text ∧ ∀ es', x.2 ≠ .directory (some es')) : w.WellNamed root := by
  intro e he
  obtain rfl := Option.some.inj (hroot.symm.trans he)
  exact Entry.wellNamed_directory fun x hx => ⟨(hflat x hx).1, Entry.wellNamed_leaf (hflat x hx).2⟩

/-- Whether below a root no two entries of a directory look the same. -/
def Distinct (w : Workspace) (root : Path) : Prop := ∀ e, w.entry? root = some e → e.Distinct

/-- Whether a walk from a root that passes nothing over would come to a file with an id: names lead to it
through directories that can be read, or the root is that file. -/
def Shows (w : Workspace) (root : Path) (id : String) : Prop :=
  (∃ l names e, w.entry? root = some (.directory l) ∧
      (Entry.directory l).Leads names e ∧ e.isFile = true ∧ RawText.place names = id) ∨
    w.isFile root = true ∧ root.fileName?.map RawText.text = some id

/-- What is a file is there. -/
theorem exists_entry_of_isFile {w : Workspace} {path : Path} (h : w.isFile path = true) :
    ∃ e, w.entry? path = some e ∧ e.isFile = true := by
  unfold isFile at h
  cases he : w.entry? path with
  | none =>
    rw [he] at h
    cases h
  | some e =>
    rw [he] at h
    exact ⟨e, rfl, h⟩

end Workspace

namespace Indexer

variable {i : Indexer} {w : Workspace} {root : Path} {f g : IndexedFile} {id : String}

/-- The files of a run are those that its walk finds, with their ids. -/
theorem mem_filesOf_iff :
    f ∈ i.filesOf w root ↔ f.path ∈ (i.selector.collect root (w.entry? root)).files ∧
      documentId? (idRoot w root) f.path = some f.id := by
  rw [filesOf, List.mem_filterMap]
  constructor
  · rintro ⟨path, hpath, hf⟩
    obtain ⟨id, hid, rfl⟩ := Option.map_eq_some_iff.1 hf
    exact ⟨hpath, hid⟩
  · rintro ⟨hpath, hid⟩
    refine ⟨f.path, hpath, ?_⟩
    rw [hid]
    rfl

section Directory

variable {l : Option (List (RawText × Entry))} (hroot : w.entry? root = some (.directory l))

include hroot

/-- A directory is the root of the ids of its files. -/
theorem idRoot_of_directory : idRoot w root = root := by
  rw [idRoot, Workspace.isFile, hroot]
  rfl

/-- **The files below a directory** are those to which names lead and that the selector accepts. -/
theorem mem_filesOf_of_directory (hw : w.WellNamed root) :
    f ∈ i.filesOf w root ↔ ∃ names e, names ≠ [] ∧ (Entry.directory l).Leads names e ∧
      e.isFile = true ∧ i.selector.accepts root f.path = true ∧ f.path = root.belowRaw names ∧
        f.id = RawText.place names := by
  have hnamed : (Entry.directory l).WellNamed := hw _ hroot
  rw [mem_filesOf_iff, hroot, Selector.mem_files_collect_iff _ _ hnamed, idRoot_of_directory hroot]
  constructor
  · -- the id is read off the names that lead to the file
    rintro ⟨⟨names, e, hne, hleads, hfile, hacc, hpath⟩, hid⟩
    refine ⟨names, e, hne, hleads, hfile, hacc, hpath, ?_⟩
    rw [hpath, documentId?_belowRaw root hne (hnamed names e hleads)] at hid
    exact (Option.some.inj hid).symm
  · rintro ⟨names, e, hne, hleads, hfile, hacc, hpath, hid⟩
    refine ⟨⟨names, e, hne, hleads, hfile, hacc, hpath⟩, ?_⟩
    rw [hpath, hid]
    exact documentId?_belowRaw root hne (hnamed names e hleads)

/-- The files of a directory that has nothing else in it, if it is listed by name and all of them are taken. -/
theorem filesOf_of_flat {es : List (RawText × Entry)} (hes : l = some es) (hw : w.WellNamed root)
    (hfiles : ∀ x ∈ es, x.2.isFile = true ∧ i.selector.fileIncluded x.1.text = true)
    (hsorted : es.Pairwise fun x y => x.1.text ≤ y.1.text) :
    i.filesOf w root = es.map fun x => ⟨root.belowRaw [x.1], x.1.text⟩ := by
  subst hes
  have hnamed : (Entry.directory (some es)).WellNamed := hw _ hroot
  -- none of the entries has entries of its own
  have hflat : ∀ x ∈ es, x.2.listing? = none := by
    intro x hx
    cases he : x.2 with
    | directory l => exact absurd (hfiles x hx).1 (by rw [he]; exact Bool.false_ne_true)
    | file | fileLink | other => rfl
  -- nothing is put into another order
  have horder : inNameOrder es = es := List.mergeSort_of_pairwise (hsorted.imp decide_eq_true)
  -- nothing is left out
  have htaken : es.filter (fun x => x.2.isFile && i.selector.fileIncluded (RawText.place ([] ++ [x.1]))) = es :=
    List.filter_eq_self.2 fun x hx => Bool.and_eq_true_iff.2 (hfiles x hx)
  rw [filesOf, hroot, i.selector.files_collect_of_flat root hnamed hflat, Selector.filesIn, Option.getD_some,
    horder, htaken, List.filterMap_map, idRoot_of_directory hroot, ← List.filterMap_eq_map]
  refine List.filterMap_congr fun x hx => ?_
  have hname : ∀ n ∈ [x.1], Path.IsName n.text := List.forall_mem_singleton.2 (hnamed.isName hx)
  exact congrArg (Option.map _) (documentId?_belowRaw root (List.cons_ne_nil _ _) hname)

end Directory

/-- **A root that is a file** is judged by its name, which is its id. -/
theorem mem_filesOf_of_isFile (hroot : w.isFile root = true) :
    f ∈ i.filesOf w root ↔ f.path = root ∧ root.fileName?.map RawText.text = some f.id ∧
      i.selector.fileIncluded f.id = true := by
  obtain ⟨e, he, hfile⟩ := w.exists_entry_of_isFile hroot
  have hidRoot : idRoot w root = (root.parent?.map Path.ofComponents).getD root := by
    rw [idRoot, hroot, if_pos rfl]
  rw [mem_filesOf_iff, he, Selector.mem_files_collect_of_isFile _ _ hfile, hidRoot]
  cases hname : root.fileName? with
  | none =>
    -- a root without a name has no id
    constructor
    · rintro ⟨⟨-, hpath⟩, hid⟩
      rw [hpath, documentId?_parent_eq_none hname] at hid
      cases hid
    · rintro ⟨-, hid, -⟩
      cases hid
  | some n =>
    -- the id of a file with a name is this name
    obtain ⟨cs, hparent, -, hdoc⟩ := documentId?_parent hname
    rw [hparent]
    change (_ ∧ _) ∧ documentId? (.ofComponents cs) f.path = some f.id ↔ _
    -- the walk judges the root by its name
    constructor
    · rintro ⟨⟨hinc, hpath⟩, hid⟩
      rw [hpath, hdoc] at hid
      exact ⟨hpath, hid, Option.some.inj hid ▸ hinc⟩
    · rintro ⟨hpath, hid, hinc⟩
      have hshown : n.text = f.id := Option.some.inj hid
      rw [← hshown] at hinc ⊢
      exact ⟨⟨hinc, hpath⟩, hpath ▸ hdoc⟩

/-- The root of a run that has files is a file or a directory. -/
theorem root_of_mem_filesOf (hf : f ∈ i.filesOf w root) :
    w.isFile root = true ∨ ∃ l, w.entry? root = some (.directory l) := by
  have hpath := (mem_filesOf_iff.1 hf).1
  unfold Workspace.isFile
  cases he : w.entry? root with
  | none =>
    -- a root that is not there has no files
    rw [he] at hpath
    cases hpath
  | some e =>
    rw [he] at hpath
    cases e with
    | file => exact Or.inl rfl
    | fileLink => exact Or.inl rfl
    | directory l => exact Or.inr ⟨l, rfl⟩
    -- nor has one that is neither a file nor a directory
    | other => cases hpath

/-- What is shown of the name of a file is a single name. -/
theorem pieces_of_fileName? {path : Path} (h : path.fileName?.map RawText.text = some id) :
    Text.pieces '/' id = [id] ∧ ∀ n ∈ Text.pieces '/' id, Path.IsName n := by
  obtain ⟨n, hn, rfl⟩ := Option.map_eq_some_iff.1 h
  obtain ⟨cs, -, hcomponents, -⟩ := documentId?_parent hn
  have hname : Path.IsName n.text := by
    refine Path.isName_of_mem_components (p := path) ?_
    rw [hcomponents]
    exact List.mem_append_right _ List.mem_cons_self
  have hpieces : Text.pieces '/' n.text = [n.text] := Text.pieces_of_not_mem hname.not_mem
  exact ⟨hpieces, hpieces.symm ▸ List.forall_mem_singleton.2 hname⟩

/-- What is shown of names is found again in an id. -/
theorem pieces_place {names : List RawText} (hne : names ≠ []) (h : ∀ n ∈ names, Path.IsName n.text) :
    Text.pieces '/' (RawText.place names) = names.map RawText.text :=
  Text.pieces_join (mt List.map_eq_nil_iff.1 hne) (List.forall_mem_map.2 fun n hn => (h n hn).not_mem)

/-- **No two files of a run have one id**, if no two entries of a directory look the same. -/
theorem eq_of_id_eq (hw : w.WellNamed root) (hdistinct : w.Distinct root) (hf : f ∈ i.filesOf w root)
    (hg : g ∈ i.filesOf w root) (h : f.id = g.id) : f = g := by
  -- it is enough that the paths are equal
  suffices hpath : f.path = g.path by
    cases f
    cases g
    rw [IndexedFile.mk.injEq]
    exact ⟨hpath, h⟩
  rcases root_of_mem_filesOf hf with hroot | ⟨l, hroot⟩
  · -- the root is the only file
    rw [mem_filesOf_of_isFile hroot] at hf hg
    exact hf.1.trans hg.1.symm
  · rw [mem_filesOf_of_directory hroot hw] at hf hg
    obtain ⟨names, e, hne, hleads, -, -, hfp, hfid⟩ := hf
    obtain ⟨names', e', hne', hleads', -, -, hgp, hgid⟩ := hg
    -- what is shown of the names is found again in the id
    have hnames : names.map RawText.text = names'.map RawText.text := by
      rw [← pieces_place hne (hw _ hroot names e hleads), ← pieces_place hne' (hw _ hroot names' e' hleads'),
        ← hfid, ← hgid, h]
    rw [hfp, hgp, ((hdistinct _ hroot).eq_of_leads hleads hleads' hnames).1]

/-- The selector judges the path that an id stands for by the names in the id. -/
theorem accepts_join (s : Selector) (base : Path) (h : ∀ n ∈ Text.pieces '/' id, Path.IsName n) :
    s.accepts base (base.join ⟨id⟩) = s.passes "" (Text.pieces '/' id) := by
  have hcomponents : (base.join ⟨id⟩).components =
      base.components ++ ((Text.pieces '/' id).map RawText.ofText).map .normal := by
    rw [base.components_join_text h, Path.map_normal_map_ofText]
  rw [s.accepts_of_components (mt List.map_eq_nil_iff.1 (Text.pieces_ne_nil '/' id)) (Path.forall_isName_ofText h)
    hcomponents, RawText.map_text_map_ofText]

/-- **A run goes through a file with an id** exactly if the root shows the id and the selector accepts
the path that it stands for. -/
theorem exists_mem_filesOf_iff (hw : w.WellNamed root) :
    (∃ f ∈ i.filesOf w root, f.id = id) ↔ w.Shows root id ∧
      i.selector.accepts (idRoot w root) ((idRoot w root).join ⟨id⟩) = true := by
  -- the path that an id stands for looks like the one to which the names lead
  have hjudged : ∀ {l names e}, w.entry? root = some (.directory l) → (Entry.directory l).Leads names e →
      names ≠ [] → i.selector.accepts root (root.belowRaw names) =
        i.selector.accepts root (root.join ⟨RawText.place names⟩) := by
    intro l names e hroot hleads hne
    have hnames := hw _ hroot names e hleads
    have hpieces := pieces_place hne hnames
    rw [accepts_join _ _ (hpieces.symm ▸ List.forall_mem_map.2 hnames), hpieces]
    exact i.selector.accepts_of_components hne hnames (root.components_belowRaw hnames)
  constructor
  · rintro ⟨f, hf, rfl⟩
    rcases root_of_mem_filesOf hf with hroot | ⟨l, hroot⟩
    · -- the root is the file, and is judged by its name as the path that stands for it is
      obtain ⟨-, hname, hinc⟩ := (mem_filesOf_of_isFile hroot).1 hf
      refine ⟨Or.inr ⟨hroot, hname⟩, ?_⟩
      have hpieces := pieces_of_fileName? hname
      rw [accepts_join, hpieces.1, Selector.passes_singleton]
      · exact hinc
      · exact hpieces.2
    · -- the names that lead to the file are those of its id
      obtain ⟨names, e, hne, hleads, hfile, hacc, hpath, hid⟩ :=
        (mem_filesOf_of_directory hroot hw).1 hf
      refine ⟨Or.inl ⟨l, names, e, hroot, hleads, hfile, hid.symm⟩, ?_⟩
      rw [idRoot_of_directory hroot, hid, ← hjudged hroot hleads hne, ← hpath]
      exact hacc
  · rintro ⟨⟨l, names, e, hroot, hleads, hfile, rfl⟩ | ⟨hroot, hname⟩, hacc⟩
    · -- the root itself is no file here
      have hne : names ≠ [] := by
        rintro rfl
        cases hleads
        cases hfile
      rw [idRoot_of_directory hroot, ← hjudged hroot hleads hne] at hacc
      exact ⟨⟨root.belowRaw names, RawText.place names⟩, (mem_filesOf_of_directory hroot hw).2
        ⟨names, e, hne, hleads, hfile, hacc, rfl, rfl⟩, rfl⟩
    · -- the root is a file, and its name is the id
      have hpieces := pieces_of_fileName? hname
      rw [accepts_join _ _ hpieces.2, hpieces.1, Selector.passes_singleton] at hacc
      exact ⟨⟨root, id⟩, (mem_filesOf_of_isFile hroot).2 ⟨rfl, hname, hacc⟩, rfl⟩

/-! ### Names that look the same -/

section Lookalikes

/-- A directory with two files whose names are no UTF-8 and look the same. -/
def lookalikeWorkspace (read : Path → Except FileError (List UInt8)) : Workspace :=
  { entry? := fun path =>
      if path = ⟨"/p"⟩ then some (.directory (some [(⟨[97, 254]⟩, .file), (⟨[97, 255]⟩, .file)])) else some .file
    facts := fun _ => .ok { size := 1, modified := none }
    read := read }

variable {read : Path → Except FileError (List UInt8)}

theorem wellNamed_lookalikes : (lookalikeWorkspace read).WellNamed ⟨"/p"⟩ :=
  Workspace.wellNamed_of_flat rfl <|
    List.forall_mem_cons.2 ⟨⟨by decide, nofun⟩, List.forall_mem_singleton.2 ⟨by decide, nofun⟩⟩

/-- The first of the two files. -/
def lookalikeFile : IndexedFile := { path := .ofRaw ⟨[47, 112, 47, 97, 254]⟩, id := "a\uFFFD" }

/-- The second one. -/
def lookalikeTwin : IndexedFile := { path := .ofRaw ⟨[47, 112, 47, 97, 255]⟩, id := "a\uFFFD" }

/-- Both files have one id. -/
theorem filesOf_lookalikes (h : i.selector.fileIncluded "a\uFFFD" = true) :
    i.filesOf (lookalikeWorkspace read) ⟨"/p"⟩ = [lookalikeFile, lookalikeTwin] := by
  rw [filesOf_of_flat (i := i) (w := lookalikeWorkspace read) (l := some _) rfl rfl wellNamed_lookalikes
    (fun x hx => ?_) (by decide)]
  · decide
  · simp only [List.mem_cons, List.not_mem_nil, or_false] at hx
    rcases hx with rfl | rfl
    · exact ⟨rfl, h⟩
    · exact ⟨rfl, h⟩

end Lookalikes

end Indexer

end CodeSearch
