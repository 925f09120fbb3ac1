import CodeSearch.CodeMap.Resolver
import CodeSearch.Proofs.CodeMap.Documents
import CodeSearch.Proofs.Index.Convergence
import CodeSearch.Proofs.Selection.DepthFirst

/-!
# Ids as paths

The id of a document is made of the names that lead to its file from the root, and it is used as a path below the
root: a map is made of documents whose paths are their ids, and the documents of results are looked up in it.
But a path that starts with the root is read as one that goes on from there. So an id is *ambiguous* if the names
in it start with those of a relative root (`AmbiguousId`), as that of `src/src/x.rs` below `src`; below an
absolute root there is no such id (`not_ambiguousId`). Ids are names of their files exactly as far as they are
not ambiguous (`documentId?_stable`):

* an id is the id of itself, and leads to its file in every map of the root, exactly if it is not ambiguous;
* if no id of a run is ambiguous, every document of the run leads to its file in the map of the run.

The first part is a matter of paths, as names are found again in what is made of them. For the second one the
documents of a run lie apart, since its files do (`liesApart_of_run`), so the map is told by them.
-/

namespace CodeSearch

/-! ### Ids and their names -/

/-- An id is made of the names that lead to the path. -/
theorem exists_names_of_documentId? {root p : Path} {id : String} (h : documentId? root p = some id) :
    ∃ names, namesBelow? root p = some names ∧ names ≠ [] ∧ (∀ n ∈ names, Path.IsName n) ∧
      id = Text.join "/" names := by
  obtain ⟨names, hnames, hid⟩ := Option.map_eq_some_iff.1 h
  exact ⟨names, hnames, (namesBelow?_eq_some_iff.1 hnames).2, fun n hn => isName_of_namesBelow? hnames hn,
    hid.symm⟩

/-- Whether an id can be taken for a path that starts with the root. -/
def AmbiguousId (root : Path) (id : String) : Prop := root.components ≠ [] ∧ root.startsWith ⟨id⟩ = true

instance (root : Path) (id : String) : Decidable (AmbiguousId root id) :=
  inferInstanceAs (Decidable (_ ∧ _))

section Names

variable {root p : Path} {names : List String} (hne : names ≠ []) (hnames : ∀ n ∈ names, Path.IsName n)

include hne hnames

/-- The names of an ambiguous id start with those of the root. -/
theorem ambiguousId_iff : AmbiguousId root (Text.join "/" names) ↔
    ∃ way rest, way ≠ [] ∧ names = way ++ rest ∧ root.components = way.map .ofName := by
  rw [AmbiguousId, Path.startsWith, (components_id hne hnames).2, List.isPrefixOf_iff_prefix]
  constructor
  · -- the names of the root are those with which the id starts
    rintro ⟨hroot, r, hr⟩
    obtain ⟨way, rest, rfl, hway, -⟩ := List.append_eq_map_iff.1 hr
    refine ⟨way, rest, ?_, rfl, hway.symm⟩
    rintro rfl
    exact hroot hway.symm
  · rintro ⟨way, rest, hway, rfl, hroot⟩
    rw [hroot, List.map_append]
    exact ⟨mt List.map_eq_nil_iff.1 hway, List.prefix_append _ _⟩

/-- An id that is not ambiguous is read as the names of which it is made. -/
theorem names?_of_not_ambiguousId (h : ¬AmbiguousId root (Text.join "/" names)) :
    (componentsBelow? root ⟨Text.join "/" names⟩).bind Path.names? = some names := by
  obtain ⟨habs, hcomponents⟩ := components_id hne hnames
  have hbelow : componentsBelow? root ⟨Text.join "/" names⟩ = some (names.map .ofName) := by
    by_cases hstarts : root.startsWith ⟨Text.join "/" names⟩ = true
    · -- a path without components is the start of every path
      have hroot : root.components = [] := not_not.1 fun hroot => h ⟨hroot, hstarts⟩
      refine componentsBelow?_of_components ?_
      rw [hroot, hcomponents]
      rfl
    · -- the path is relative and does not start with the root, so nothing is taken off
      rw [componentsBelow?_of_relative habs (Bool.eq_false_iff.2 hstarts), hcomponents]
  rw [hbelow, Option.bind_some, Path.names?_names]

/-- An ambiguous id is read as the names that come after those of the root. -/
theorem names?_of_ambiguousId {way rest : List String} (hsplit : names = way ++ rest)
    (hroot : root.components = way.map .ofName) :
    (componentsBelow? root ⟨Text.join "/" names⟩).bind Path.names? = some rest := by
  have hcomponents : (Path.mk (Text.join "/" names)).components = root.components ++ rest.map .ofName := by
    rw [(components_id hne hnames).2, hsplit, hroot, List.map_append]
  rw [componentsBelow?_of_components hcomponents, Option.bind_some, Path.names?_names]

end Names

section Ids

variable {root p : Path} {id : String} (h : documentId? root p = some id)

include h

/-- Below a root with a component that is no name, as an absolute one, no id is ambiguous. -/
theorem not_ambiguousId {c : Path.Component} (hc : c ∈ root.components) (hname : c.name? = none) :
    ¬AmbiguousId root id := by
  obtain ⟨names, -, hne, hnames, rfl⟩ := exists_names_of_documentId? h
  intro hambiguous
  obtain ⟨way, rest, -, -, hroot⟩ := (ambiguousId_iff hne hnames).1 hambiguous
  rw [hroot] at hc
  obtain ⟨n, -, rfl⟩ := List.mem_map.1 hc
  cases hname

/-- **An id is the id of itself** exactly if it is not ambiguous. -/
theorem documentId?_self_iff : documentId? root ⟨id⟩ = some id ↔ ¬AmbiguousId root id := by
  obtain ⟨names, -, hne, hnames, rfl⟩ := exists_names_of_documentId? h
  constructor
  · -- if the id is ambiguous, the names of the root are taken off it
    intro hself hambiguous
    obtain ⟨way, rest, hway, hsplit, hroot⟩ := (ambiguousId_iff hne hnames).1 hambiguous
    obtain ⟨names', hbelow, hne', hnames', hid⟩ := exists_names_of_documentId? hself
    have hrest : rest = names' := by
      have hread := (namesBelow?_eq_some_iff.1 hbelow).1
      rw [names?_of_ambiguousId hne hnames hsplit hroot] at hread
      exact Option.some.inj hread
    -- the names are found again in the id, so none of them is lost
    have hall : names = rest := by
      rw [← pieces_id hne hnames, hid, pieces_id hne' hnames', hrest]
    rw [hall] at hsplit
    exact hway (List.self_eq_append_left.1 hsplit)
  · -- otherwise it is read as its names
    intro hnot
    rw [documentId?, namesBelow?_eq_some_iff.2 ⟨names?_of_not_ambiguousId hne hnames hnot, hne⟩]
    rfl

/-- **An id leads to its file** in every map of the root exactly if it is not ambiguous. -/
theorem file?_id_iff : (∀ m : CodeMap, m.root = root → m.file? ⟨id⟩ = m.file? p) ↔ ¬AmbiguousId root id := by
  obtain ⟨names, hbelow, hne, hnames, rfl⟩ := exists_names_of_documentId? h
  have hpath := (namesBelow?_eq_some_iff.1 hbelow).1
  constructor
  · intro hall hambiguous
    -- the names of the root are taken off the id, which then leads elsewhere
    obtain ⟨way, rest, hway, hsplit, hroot⟩ := (ambiguousId_iff hne hnames).1 hambiguous
    have hplaced : (MapNode.place 0 root names []).2 = true :=
      MapNode.place_placed (MapNode.wellPlaced_empty root) hne (fun ns f _ _ => by
        rw [MapNode.what?_empty]
        nofun) (by
        rw [MapNode.what?_empty]
        nofun)
    have hwhat := MapNode.what?_place (MapNode.wellPlaced_empty root) hplaced
    have hrest : rest ≠ names := fun he => hway (List.self_eq_append_left.1 (he ▸ hsplit))
    -- in the map of the file alone there is no other file
    have hfound := hall { root, entries := (MapNode.place 0 root names []).1 } rfl
    rw [CodeMap.file?_eq, CodeMap.file?_eq, CodeMap.names?, CodeMap.names?, hpath,
      names?_of_ambiguousId hne hnames hsplit hroot, Option.bind_some, Option.bind_some, hwhat, hwhat,
      if_neg hrest, if_pos rfl, MapNode.what?_empty] at hfound
    split at hfound
    · cases hfound
    · cases hfound
  · -- both paths are read as the same names
    rintro hnot m rfl
    rw [CodeMap.file?, CodeMap.file?, CodeMap.names?, CodeMap.names?, hpath,
      names?_of_not_ambiguousId hne hnames hnot]

end Ids

/-- Whether a path ends in texts after a root. Where its names are no UTF-8, an id only looks like them. -/
def EndsInTexts (root p : Path) : Prop :=
  ∃ names : List String, p.components = root.components ++ names.map .ofName

/-! ### The documents of a run -/

/-- Nothing lies below a file. -/
theorem Entry.Leads.eq_of_starts {a b e : Entry} {names names' : List RawText} (ha : e.Leads names a)
    (hfile : a.isFile = true) (hb : e.Leads names' b) (he : e.Distinct)
    (hstart : names.map RawText.text <+: names'.map RawText.text) : names = names' := by
  induction ha generalizing names' with
  | refl e =>
    -- the file is the entry itself, below which nothing lies
    cases hb with
    | refl => rfl
    | step _ _ => cases hfile
  | step hc _ ih =>
    cases hb with
    -- one of the names leads into a directory, so there is a first one
    | refl => exact absurd hstart (mt List.prefix_nil.1 (List.cons_ne_nil _ _))
    | step hc' hb =>
      -- the two entries look the same, so they are one
      obtain ⟨hshown, hrest⟩ := List.cons_prefix_cons.1 hstart
      obtain ⟨rfl, rfl⟩ := Prod.mk.inj (List.inj_on_of_nodup_map he.nodup hc hc' hshown)
      rw [ih hfile hb (he.of_mem hc) hrest]

namespace Indexer

open IndexStore (Reachable Sound)

variable {σ : Type} [VectorStore σ] [LawfulVectorStore σ] {s s' : σ} {i : Indexer} {e : Embedder} {w : Workspace}
  {root : Path} {allowed : Option Nat} {o : IndexOutcome}

/-- Every document of a run has been read from a file of the run, whose id is its path. -/
theorem exists_file_of_mem_documents (hs : Sound s)
    (hrun : (i.indexProject e w root allowed).run s = .ok o s') {m : Metadata} (hm : m ∈ o.documents) :
    ∃ f ∈ i.filesOf w root, m.path = ⟨f.id⟩ ∧
      ∃ d, i.prepare w f.path f.id = .ok (.ready d) ∧ d.metadata = m := by
  rw [documents_of_run hs hrun] at hm
  -- the document was noted with a verdict about its file
  obtain ⟨⟨f, v⟩, hmem, hv⟩ := List.mem_filterMap.1 hm
  obtain ⟨as, bs, -, hverdict, -⟩ := i.exists_split_of_mem_judgeAll e w (listedAt s) hmem
  obtain ⟨d, hready, rfl⟩ := i.exists_document_judge e w (listedAt s) (hverdict ▸ hv)
  refine ⟨f, mem_filesOf_of_mem_taken (mem_taken_of_mem_chronicle hmem), ?_, d, hready, rfl⟩
  -- and its path is the id that the file was read with
  obtain ⟨bytes, facts, -, rfl⟩ := i.prepare_ready hready
  exact i.path_textDocument f.id (Text.decodeLossy bytes)

/-- The names that lead to a file of a run, and those of its document unless its id is ambiguous. -/
theorem exists_names_of_mem_documents (hs : Sound s)
    (hrun : (i.indexProject e w root allowed).run s = .ok o s') {m : Metadata} (hm : m ∈ o.documents)
    (hid : ¬AmbiguousId (idRoot w root) m.path.text) :
    ∃ f ∈ i.filesOf w root, m.path = ⟨f.id⟩ ∧ (∃ d, i.prepare w f.path f.id = .ok (.ready d) ∧ d.metadata = m) ∧
      ∃ names, f.id = Text.join "/" names ∧ namesBelow? (idRoot w root) f.path = some names ∧
        namesBelow? (idRoot w root) m.path = some names := by
  obtain ⟨f, hf, hpath, hdocument⟩ := exists_file_of_mem_documents hs hrun hm
  obtain ⟨names, hbelow, hne, hnames, hjoin⟩ := exists_names_of_documentId? (mem_filesOf_iff.1 hf).2
  -- the names of the file are what its id is made of
  refine ⟨f, hf, hpath, hdocument, names, hjoin, hbelow, ?_⟩
  rw [hpath, hjoin] at hid
  rw [hpath, hjoin, namesBelow?_eq_some_iff]
  exact ⟨names?_of_not_ambiguousId hne hnames hid, hne⟩

/-- Over a directory with an absolute path no id of a run is ambiguous. -/
theorem not_ambiguousId_of_mem_documents (hs : Sound s)
    (hrun : (i.indexProject e w root allowed).run s = .ok o s') (habs : (idRoot w root).isAbsolute = true)
    {m : Metadata} (hm : m ∈ o.documents) : ¬AmbiguousId (idRoot w root) m.path.text := by
  obtain ⟨f, hf, hpath, -⟩ := exists_file_of_mem_documents hs hrun hm
  rw [hpath]
  refine not_ambiguousId (mem_filesOf_iff.1 hf).2 (c := .root) ?_ rfl
  rw [Path.components, habs, if_pos rfl]
  exact List.mem_cons_self

section Files

variable (hw : w.WellNamed root) {f g : IndexedFile} (hf : f ∈ i.filesOf w root) {names : List String}
  (hnames : namesBelow? (idRoot w root) f.path = some names)

include hw hf hnames

/-- Below a directory, the names that lead to a file of a run are what is shown of those that lead to it in the
directory. -/
theorem exists_leads_of_mem_filesOf {l : Option (List (RawText × Entry))}
    (hroot : w.entry? root = some (.directory l)) : ∃ way leaf, f.path = root.belowRaw way ∧
      way.map RawText.text = names ∧ (Entry.directory l).Leads way leaf ∧ leaf.isFile = true := by
  obtain ⟨way, leaf, hne, hleads, hfile, -, hbelow, -⟩ := (mem_filesOf_of_directory hroot hw).1 hf
  refine ⟨way, leaf, hbelow, ?_, hleads, hfile⟩
  rw [idRoot_of_directory hroot, hbelow, namesBelow?_of_components hne
    (root.components_belowRaw (hw _ hroot way leaf hleads))] at hnames
  exact Option.some.inj hnames

/-- The names that lead to a file of a run are what is shown of those that end its path. -/
theorem exists_components_of_mem_filesOf : ∃ way : List RawText, way.map RawText.text = names ∧
    f.path.components = (idRoot w root).components ++ way.map .normal := by
  rcases root_of_mem_filesOf hf with hroot | ⟨l, hroot⟩
  · -- the root is the file, and its name is the only one
    obtain ⟨hpath, hname, -⟩ := (mem_filesOf_of_isFile hroot).1 hf
    obtain ⟨n, hn, -⟩ := Option.map_eq_some_iff.1 hname
    obtain ⟨cs, hparent, hcomponents, -⟩ := documentId?_parent hn
    have hidRoot : idRoot w root = .ofComponents cs := by
      rw [idRoot, if_pos hroot, hparent]
      rfl
    have hroot' : root.components = (Path.ofComponents cs).components ++ [n].map .normal := by
      rw [(Path.components_ofComponents_parent hparent).1, hcomponents]
      rfl
    rw [hpath, hidRoot, namesBelow?_of_components (List.cons_ne_nil _ _) hroot'] at hnames
    exact ⟨[n], Option.some.inj hnames, by rw [hpath, hidRoot, hroot']⟩
  · -- the root is a directory, from which a walk has come to the file
    obtain ⟨way, leaf, hbelow, hshown, hleads, -⟩ := exists_leads_of_mem_filesOf hw hf hnames hroot
    refine ⟨way, hshown, ?_⟩
    rw [hbelow, idRoot_of_directory hroot, root.components_belowRaw (hw _ hroot way leaf hleads)]

/-- No file of a run lies below another one. -/
theorem names_eq_of_starts (hdistinct : ∀ entry, w.entry? root = some entry → entry.Distinct)
    (hg : g ∈ i.filesOf w root) {names' : List String}
    (hnames' : namesBelow? (idRoot w root) g.path = some names') (hstart : names <+: names') :
    names = names' := by
  rcases root_of_mem_filesOf hf with hroot | ⟨l, hroot⟩
  · -- a root that is a file has no other one
    have hpath : f.path = g.path :=
      ((mem_filesOf_of_isFile hroot).1 hf).1.trans ((mem_filesOf_of_isFile hroot).1 hg).1.symm
    rw [hpath, hnames'] at hnames
    exact (Option.some.inj hnames).symm
  · -- in a directory the names lead to both, and to the end of one of them
    obtain ⟨way, leaf, -, rfl, hleads, hfile⟩ := exists_leads_of_mem_filesOf hw hf hnames hroot
    obtain ⟨way', leaf', -, rfl, hleads', -⟩ := exists_leads_of_mem_filesOf hw hg hnames' hroot
    rw [hleads.eq_of_starts hfile hleads' (hdistinct _ hroot) hstart]

end Files

section Map

variable (hw : w.WellNamed root) (hdistinct : ∀ entry, w.entry? root = some entry → entry.Distinct)
  (hs : Sound s) (hrun : (i.indexProject e w root allowed).run s = .ok o s')
  (hids : ∀ m ∈ o.documents, ¬AmbiguousId (idRoot w root) m.path.text)

include hw hdistinct hs hrun hids

/-- No document of a run lies below another one, since no file does. -/
theorem liesApart_of_run : CodeMap.LiesApart (idRoot w root) o.documents := by
  intro m hm m' hm' names names' hnames hnames' hstart
  obtain ⟨f, hf, -, -, ns, -, hfile, hns⟩ := exists_names_of_mem_documents hs hrun hm (hids m hm)
  obtain ⟨g, hg, -, -, ns', -, hfile', hns'⟩ := exists_names_of_mem_documents hs hrun hm' (hids m' hm')
  obtain rfl : names = ns := Option.some.inj (hnames.symm.trans hns)
  obtain rfl : names' = ns' := Option.some.inj (hnames'.symm.trans hns')
  exact names_eq_of_starts hw hf hfile hdistinct hg hfile' hstart

/-- **Every document of a run leads to its file** in the map of the run, by its id and by the path of the
file. -/
theorem file?_of_run {m : Metadata} (hm : m ∈ o.documents) :
    ∃ f ∈ i.filesOf w root, m.path = ⟨f.id⟩ ∧
      ∃ file, (CodeMap.ofDocuments (idRoot w root) o.documents).file? ⟨f.id⟩ = some file ∧
        (CodeMap.ofDocuments (idRoot w root) o.documents).file? f.path = some file ∧
        file.path.same ((idRoot w root).join ⟨f.id⟩) = true ∧
        (EndsInTexts (idRoot w root) f.path → file.path.same f.path = true) ∧ file.describe m = file := by
  obtain ⟨f, hf, hpath, ⟨d, hready, rfl⟩, names, hjoin, hfile, hnames⟩ :=
    exists_names_of_mem_documents hs hrun hm (hids m hm)
  have hapart := liesApart_of_run hw hdistinct hs hrun hids
  have hne := (namesBelow?_eq_some_iff.1 hnames).2
  -- the document is the only one of the file
  have hlast : CodeMap.last? (idRoot w root) o.documents names = some d.metadata := by
    obtain ⟨m', hlast⟩ := CodeMap.exists_last? hm hnames
    obtain ⟨hm', hnames'⟩ := CodeMap.last?_eq_some hlast
    obtain ⟨f', hf', -, ⟨d', hready', rfl⟩, names', hjoin', -, hns'⟩ :=
      exists_names_of_mem_documents hs hrun hm' (hids m' hm')
    obtain rfl : names = names' := Option.some.inj (hnames'.symm.trans hns')
    obtain rfl : f = f' := eq_of_id_eq hw hdistinct hf hf' (hjoin.trans hjoin'.symm)
    rw [hready] at hready'
    cases hready'
    exact hlast
  have hisName : ∀ n ∈ names, Path.IsName n := fun n hn => isName_of_namesBelow? hfile hn
  have hpieces : Text.pieces '/' (Text.join "/" names) = names := pieces_id hne hisName
  -- a path with these names leads to the document
  have hfound : ∀ path, namesBelow? (idRoot w root) path = some names →
      (CodeMap.ofDocuments (idRoot w root) o.documents).file? path =
        some (.ofDocument (idRoot w root) names d.metadata) :=
    fun path h => (CodeMap.file?_ofDocuments hapart h).trans (congrArg _ hlast)
  refine ⟨f, hf, hpath, .ofDocument (idRoot w root) names d.metadata, hfound _ (hpath ▸ hnames), hfound _ hfile,
    ?_, fun htexts => ?_, MapFile.describe_ofDocument⟩
  · -- the file lies where the id is joined to the root
    rw [Path.same, decide_eq_true_eq, MapFile.path_ofDocument hne, Path.components_below _ hisName, hjoin,
      Path.components_join_text _ (hpieces.symm ▸ hisName), hpieces]
  · -- the names are texts, so nothing was lost when they were shown
    obtain ⟨way, hshown, hcomponents⟩ := exists_components_of_mem_filesOf hw hf hfile
    obtain ⟨texts, hend⟩ := htexts
    rw [hcomponents, ← Path.map_normal_map_ofText] at hend
    obtain rfl : way = texts.map RawText.ofText :=
      (List.map_inj_right fun _ _ h => Path.Component.normal.inj h).1 (List.append_cancel_left hend)
    rw [RawText.map_text_map_ofText] at hshown
    rw [Path.same, decide_eq_true_eq, MapFile.path_ofDocument hne, Path.components_below _ hisName, hcomponents,
      Path.map_normal_map_ofText, hshown]

end Map

end Indexer

/-! ### Ids -/

section Stable

open IndexStore (Reachable)

/-- The documents of a run, and none if it is refused. -/
def Indexer.documentsAfter (run : IndexAction Memory IndexOutcome) (s : Memory) : List Metadata :=
  match run.run s with
  | .ok o _ => o.documents
  | .error _ _ => []

/-- **Document ids are names below their root** exactly as far as they are not ambiguous. The id of a path is the
id of itself, and leads to the same file as the path does in every map of the root, exactly if it is not
ambiguous; the files related to a result, which are looked up by its document, are then those related to the
file. So if no id of a run is ambiguous, every document of the run leads to the file that was indexed, by its id
and by the path of the file, in the map that is made of the documents of the run. The map has the file at its id,
which is where the file lies if its names are texts. -/
theorem documentId?_stable (root : Path) :
    (∀ p id, documentId? root p = some id →
      (documentId? root ⟨id⟩ = some id ↔ ¬AmbiguousId root id) ∧
        ((∀ m : CodeMap, m.root = root → m.file? ⟨id⟩ = m.file? p) ↔ ¬AmbiguousId root id) ∧
        (¬AmbiguousId root id → ∀ m : CodeMap, m.root = root → ∀ r, m.related r ⟨id⟩ = m.related r p)) ∧
    ∀ {σ : Type} [VectorStore σ] [LawfulVectorStore σ] (i : Indexer) (e : Embedder) (w : Workspace)
      (allowed : Option Nat) (s s' : σ) (o : IndexOutcome), w.WellNamed root →
      (∀ entry, w.entry? root = some entry → entry.Distinct) → Reachable s →
      (i.indexProject e w root allowed).run s = .ok o s' →
      (∀ m ∈ o.documents, ¬AmbiguousId (Indexer.idRoot w root) m.path.text) →
      ∀ m ∈ o.documents, ∃ f ∈ i.filesOf w root, m.path = ⟨f.id⟩ ∧
        ∃ file, (CodeMap.ofDocuments (Indexer.idRoot w root) o.documents).file? ⟨f.id⟩ = some file ∧
          (CodeMap.ofDocuments (Indexer.idRoot w root) o.documents).file? f.path = some file ∧
          file.path.same ((Indexer.idRoot w root).join ⟨f.id⟩) = true ∧
          (EndsInTexts (Indexer.idRoot w root) f.path → file.path.same f.path = true) ∧ file.describe m = file := by
  refine ⟨fun p id h => ⟨documentId?_self_iff h, file?_id_iff h, fun hnot m hm r => ?_⟩, ?_⟩
  · rw [CodeMap.related, CodeMap.related, (file?_id_iff h).2 hnot m hm]
  · intro σ _ _ i e w allowed s s' o hw hdistinct hs hrun hids m hm
    exact Indexer.file?_of_run hw hdistinct hs.sound hrun hids hm

/-- A run over a directory with one file. -/
theorem documentId?_stable_project :
    (documentId? ⟨"/p"⟩ ⟨"b"⟩ = some "b" ∧ ∀ m : CodeMap, m.root = ⟨"/p"⟩ → m.file? ⟨"b"⟩ = m.file? ⟨"/p/b"⟩) ∧
      ∃ o s, (Indexer.pairIndexer.indexProject (.ofFunction Indexer.sameVector)
        (Indexer.projectWorkspace [120]) ⟨"/p"⟩ none).run (VectorStore.empty : Memory) = .ok o s ∧
        o.documents ≠ [] ∧ ∀ m ∈ o.documents, m.path = ⟨"b"⟩ ∧
          ∃ file, (CodeMap.ofDocuments ⟨"/p"⟩ o.documents).file? ⟨"b"⟩ = some file ∧
            file.path.same ⟨"/p/b"⟩ = true := by
  have hid : documentId? ⟨"/p"⟩ ⟨"/p/b"⟩ = some "b" := by decide
  have hnot : ¬AmbiguousId ⟨"/p"⟩ "b" := by decide
  obtain ⟨hself, hfile, -⟩ := (documentId?_stable ⟨"/p"⟩).1 _ _ hid
  refine ⟨⟨hself.2 hnot, hfile.2 hnot⟩, ?_⟩
  -- the run has a document, which is computed
  have hdocuments : (Indexer.documentsAfter (Indexer.pairIndexer.indexProject (.ofFunction Indexer.sameVector)
      (Indexer.projectWorkspace [120]) ⟨"/p"⟩ none) VectorStore.empty).isEmpty = false := by decide +kernel
  have hfiles : Indexer.pairIndexer.filesOf (Indexer.projectWorkspace [120]) ⟨"/p"⟩ =
      [{ path := ⟨"/p/b"⟩, id := "b" }] := by decide +kernel
  obtain ⟨o, s, hrun, -⟩ := Indexer.indexProject_spec (σ := Memory) IndexStore.sound_empty Indexer.pairIndexer
    (.ofFunction Indexer.sameVector) (Indexer.projectWorkspace [120]) ⟨"/p"⟩ none
  rw [Indexer.documentsAfter, hrun] at hdocuments
  refine ⟨o, s, hrun, ?_, fun m hm => ?_⟩
  · intro hempty
    change o.documents.isEmpty = false at hdocuments
    rw [hempty] at hdocuments
    cases hdocuments
  · -- an absolute root makes no id ambiguous
    have hids : ∀ m ∈ o.documents, ¬AmbiguousId ⟨"/p"⟩ m.path.text :=
      fun m hm => Indexer.not_ambiguousId_of_mem_documents IndexStore.sound_empty hrun rfl hm
    obtain ⟨f, hf, hpath, file, hfound, -, -, hplace, -⟩ := (documentId?_stable ⟨"/p"⟩).2 _ _ _ _ _ _ _
      (Indexer.wellNamed_project [120]) (Indexer.distinct_project [120]) .empty hrun hids m hm
    rw [hfiles] at hf
    obtain rfl := List.mem_singleton.1 hf
    exact ⟨hpath, file, hfound, hplace ⟨["b"], by decide⟩⟩

/-- The id of a file in a directory that has the name of its relative root is the path of another file. -/
theorem documentId?_unstable :
    documentId? ⟨"src"⟩ ⟨"src/src/x.rs"⟩ = some "src/x.rs" ∧
      documentId? ⟨"src"⟩ ⟨"src/x.rs"⟩ ≠ some "src/x.rs" ∧
      ∃ m : CodeMap, m.root = ⟨"src"⟩ ∧ m.file? ⟨"src/x.rs"⟩ ≠ m.file? ⟨"src/src/x.rs"⟩ := by
  refine ⟨by decide, by decide,
    ((CodeMap.mk ⟨"src"⟩ []).insert ⟨"src/src/x.rs"⟩ 1).1, rfl, ?_⟩
  decide

end Stable

end CodeSearch
