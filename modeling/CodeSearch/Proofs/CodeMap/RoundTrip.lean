import CodeSearch.Proofs.CodeMap.Documents
import CodeSearch.Proofs.CodeMap.Tidy

/-!
# Maps read back

A map that is made of documents is read back: by the places of its nodes, by looking up paths, and by
listing its files (`CodeMap.RoundTrips`). What a path means to a map is told by its components alone: it
*denotes* the names that come after the root in it, or all of its names if it is relative and does not
start with the root, where `.` steps do not count (`Denotes`). Only what is shown of the names counts. So two
paths that look the same denote the same, and what is found at them has the path that is shown, which need
not be one of the two (`ofDocuments_file_below_parent`).

No path denotes anything that steps upwards after the root. A root may step upwards itself, and then so
do the paths that start with it: `../a` denotes `a` below the root `..`
(`ofDocuments_file_below_parent`). So what has to be free of upward steps is the rest of the path, not
the path.

The look-ups are those of the map of documents (`file?_ofDocuments`), and places and listing are those of
any map (`CodeMap.Built.tidy`).
-/

namespace CodeSearch

/-! ### What paths denote -/

/-- Whether names are what is shown of those that lead from a root to what a path is for. -/
def Denotes (root path : Path) (names : List String) : Prop :=
  names ≠ [] ∧ ∃ cs : List Path.Component,
    (path.components = root.components ++ cs ∨
      path.isAbsolute = false ∧ root.startsWith path = false ∧ path.components = cs) ∧
    ∃ raws : List RawText, cs.filter (· ≠ .current) = raws.map .normal ∧ raws.map RawText.text = names

/-- What is shown of a path that has only names and steps that lead nowhere is what is shown of the names. -/
theorem Path.names?_eq_some_iff {cs : List Path.Component} {names : List String} : Path.names? cs = some names ↔
    ∃ raws : List RawText, cs.filter (· ≠ .current) = raws.map .normal ∧ raws.map RawText.text = names := by
  -- a step that is no name is no name of the list either
  have hstep : ∀ {c : Path.Component} {cs} {raws : List RawText}, (∀ n, c ≠ .normal n) →
      c :: cs ≠ raws.map .normal := by
    intro c cs raws hc h
    cases raws with
    | nil => cases h
    | cons n raws => exact hc n (List.cons.inj h).1
  induction cs generalizing names with
  | nil =>
    constructor
    · intro h
      obtain rfl := Option.some.inj h
      exact ⟨[], rfl, rfl⟩
    · rintro ⟨raws, h, rfl⟩
      rw [List.map_eq_nil_iff.1 h.symm]
      rfl
  | cons c cs ih =>
    cases c with
    -- such a step is passed over on both sides
    | current => exact ih
    -- the other steps are in the way on both sides
    | root => exact ⟨nofun, fun ⟨_, h, _⟩ => absurd h (hstep nofun)⟩
    | parent => exact ⟨nofun, fun ⟨_, h, _⟩ => absurd h (hstep nofun)⟩
    | normal m =>
      rw [Path.names?, Option.map_eq_some_iff, List.filter_cons_of_pos (by simp)]
      constructor
      · -- a name is shown as one of the names
        rintro ⟨rest, hrest, rfl⟩
        obtain ⟨raws, hraws, rfl⟩ := ih.1 hrest
        exact ⟨m :: raws, congrArg _ hraws, rfl⟩
      · rintro ⟨raws, h, rfl⟩
        obtain ⟨n, raws, rfl, hn, hrest⟩ := List.map_eq_cons_iff.1 h.symm
        obtain rfl := Path.Component.normal.inj hn
        exact ⟨_, ih.2 ⟨raws, hrest.symm, rfl⟩, rfl⟩

/-- The components of a path below a root are those after the root's, or all of them. -/
theorem componentsBelow?_eq_some_iff {root path : Path} {cs : List Path.Component} :
    componentsBelow? root path = some cs ↔
      path.components = root.components ++ cs ∨
        path.isAbsolute = false ∧ root.startsWith path = false ∧ path.components = cs := by
  constructor
  · intro h
    unfold componentsBelow? at h
    split at h
    · exact Or.inl (Path.relativeTo?_eq_some_iff.1 h)
    · next hnot =>
      obtain ⟨habs, hstarts⟩ := not_or.1 hnot
      exact Or.inr ⟨Bool.eq_false_iff.2 habs, Bool.eq_false_iff.2 hstarts, Option.some.inj h⟩
  · rintro (h | ⟨habs, hstarts, rfl⟩)
    · -- a path that does not begin with the root, but could not be taken for one
      exact componentsBelow?_of_components h
    · exact componentsBelow?_of_relative habs hstarts

/-- **A path denotes the names that a map looks up.** -/
theorem denotes_iff {root path : Path} {names : List String} :
    Denotes root path names ↔ namesBelow? root path = some names := by
  rw [namesBelow?_eq_some_iff, Denotes, and_comm, Option.bind_eq_some_iff]
  refine and_congr_left fun _ => exists_congr fun cs => ?_
  rw [componentsBelow?_eq_some_iff, Path.names?_eq_some_iff]

namespace Path

theorem IsName.isAbsolute_eq_false {n : RawText} (hn : IsName n.text) {p : Path}
    (hp : p.raw.pieces.head? = some n) : p.isAbsolute = false := by
  refine Path.isAbsolute_eq_false hp ?_
  rintro rfl
  exact hn.ne_empty rfl

/-- Names that are joined make a relative path. -/
theorem isAbsolute_join {names : List RawText} (hne : names ≠ []) (h : ∀ n ∈ names, IsName n.text) :
    (ofRaw (RawText.join names)).isAbsolute = false := by
  obtain ⟨n, rest, rfl⟩ := List.exists_cons_of_ne_nil hne
  refine (h n List.mem_cons_self).isAbsolute_eq_false ?_
  rw [raw_ofRaw, RawText.pieces_join hne fun m hm => (h m hm).slash_not_mem]
  rfl

section Join

variable {n t : RawText} (hn : IsName n.text) (ht : (ofRaw t).isAbsolute = false)

include hn ht

/-- What ends in a name does not end in a slash. -/
theorem IsName.join_append (s : RawText) : (ofRaw (s ++ n)).join (ofRaw t) = ofRaw (s ++ n ++ "/" ++ t) := by
  -- something stands at the end, and it is no slash
  have hne : n.bytes ≠ [] := fun he => hn.ne_empty (congrArg Text.decodeLossy he)
  have hends : ¬((s ++ n).bytes = [] ∨ (s ++ n).bytes.getLast? = some RawText.slash) := by
    rintro (hempty | hlast)
    · exact hne (List.append_eq_nil_iff.1 hempty).2
    · have hlast' : n.bytes.getLast? = some RawText.slash := by
        rw [← hlast]
        exact (List.getLast?_append_of_ne_nil _ hne).symm
      exact hn.slash_not_mem (List.mem_of_getLast? hlast')
  rw [join, ht, if_neg Bool.false_ne_true]
  exact if_neg hends

/-- A path that goes on from a name goes on from the directory of that name. -/
theorem IsName.join_join (p : Path) : (p.join (ofRaw n)).join (ofRaw t) = p.join (ofRaw (n ++ "/" ++ t)) := by
  have hpieces : n.pieces = [n] := RawText.pieces_of_not_mem hn.slash_not_mem
  have hname : (ofRaw n).isAbsolute = false := hn.isAbsolute_eq_false (congrArg List.head? hpieces)
  -- the joined names do not start with a slash either
  have hlong : (ofRaw (n ++ "/" ++ t)).isAbsolute = false := by
    refine hn.isAbsolute_eq_false ?_
    rw [raw_ofRaw, RawText.pieces_append_slash, hpieces]
    rfl
  -- going on from a directory puts a slash between, unless there is one
  have hfirst : ∀ q : RawText, (ofRaw q).isAbsolute = false → p.join (ofRaw q) =
      if p.raw.bytes = [] ∨ p.raw.bytes.getLast? = some RawText.slash then ofRaw (p.raw ++ q)
      else ofRaw (p.raw ++ "/" ++ q) := by
    intro q hq
    rw [join, hq, if_neg Bool.false_ne_true]
    rfl
  rw [hfirst n hname, hfirst _ hlong]
  split
  · rw [hn.join_append ht, RawText.append_assoc, RawText.append_assoc, RawText.append_assoc]
  · rw [hn.join_append ht]
    simp only [RawText.append_assoc]

end Join

/-- **The path to which names lead is the joined names below the root.** -/
theorem belowRaw_eq_join (p : Path) {names : List RawText} (hne : names ≠ []) (h : ∀ n ∈ names, IsName n.text) :
    p.belowRaw names = p.join (ofRaw (RawText.join names)) := by
  -- the induction is on the names, for all directories from which they lead
  induction names generalizing p with
  | nil => exact absurd rfl hne
  | cons n names ih =>
    by_cases hnames : names = []
    · subst hnames
      -- one name is the whole path
      rfl
    · have hrest : ∀ m ∈ names, IsName m.text := fun m hm => h m (List.mem_cons_of_mem _ hm)
      rw [belowRaw_cons, ih _ hnames hrest, RawText.join_cons hnames,
        (h n List.mem_cons_self).join_join (isAbsolute_join hnames hrest)]

theorem below_eq_join (p : Path) {names : List String} (hne : names ≠ []) (h : ∀ n ∈ names, IsName n) :
    p.below names = p.join ⟨Text.join "/" names⟩ := by
  rw [← belowRaw_map_ofText, p.belowRaw_eq_join (mt List.map_eq_nil_iff.1 hne) (forall_isName_ofText h),
    RawText.join_ofText, ofRaw_ofText]

end Path

namespace CodeMap

/-! ### What is read back -/

variable {root : Path} {ds : List Metadata} {m : CodeMap} {d : MapDirectory} {names : List String}

/-- The directories of a map: the root, and the entries of directories. -/
inductive HasDirectory (m : CodeMap) : MapDirectory → Prop where
  /-- The root. -/
  | root : HasDirectory m m.directory
  /-- A directory among the entries of one. -/
  | entry {d : MapDirectory} (hd : HasDirectory m d) {k n : String} {path : Path}
      {entries : Table MapNode} (hmem : (k, .directory n path entries) ∈ d.entries) :
      HasDirectory m { name := n, path, entries }

/-- Documents lie apart if of the names that lead to them none start with those of another one. -/
theorem liesApart_iff : LiesApart root ds ↔
    ∀ ns ∈ ds.filterMap (namesBelow? root ·.path), ∀ ns' ∈ ds.filterMap (namesBelow? root ·.path),
      ns <+: ns' → ns = ns' := by
  constructor
  · intro h ns hns ns' hns'
    obtain ⟨d, hd, hnames⟩ := List.mem_filterMap.1 hns
    obtain ⟨d', hd', hnames'⟩ := List.mem_filterMap.1 hns'
    exact h d hd d' hd' ns ns' hnames hnames'
  · intro h d hd d' hd' ns ns' hnames hnames'
    exact h ns (List.mem_filterMap.2 ⟨d, hd, hnames⟩) ns' (List.mem_filterMap.2 ⟨d', hd', hnames'⟩)

instance (root : Path) (ds : List Metadata) : Decidable (LiesApart root ds) :=
  decidable_of_iff _ liesApart_iff.symm

/-- Whether a document is the last one of a list to which names lead. -/
def IsLast (root : Path) (ds : List Metadata) (names : List String) (d : Metadata) : Prop :=
  ∃ before after, ds = before ++ d :: after ∧ Denotes root d.path names ∧
    ∀ d' ∈ after, ¬Denotes root d'.path names

/-- Whether a map gives back the documents that it was made of. -/
structure RoundTrips (root : Path) (ds : List Metadata) (m : CodeMap) : Prop where
  /-- The map has the root that it was made for. -/
  root_eq : m.root = root
  /-- A node has the name under which it is kept, and the path of its directory with that name
  added. -/
  placed : ∀ d, m.HasDirectory d → ∀ k node, (k, node) ∈ d.entries →
    node.name = k ∧ node.path = d.path.join ⟨k⟩
  /-- At the path of a document below the root there is a file with the facts about the last document
  for this place. If that has no language, the name of the file tells one. -/
  found : ∀ d ∈ ds, ∀ names, Denotes root d.path names → ∃ last name,
    IsLast root ds names last ∧ names.getLast? = some name ∧
      m.file? d.path = some {
        name
        path := root.join ⟨Text.join "/" names⟩
        language := last.language <|> Language.ofPath? ⟨name⟩
        size := last.size
        classes := last.classes
        functions := last.functions
        imports := last.imports
        symbols := last.symbols }
  /-- Where there is a file there is a document: what the path denotes is what its path does. -/
  only : ∀ path f, m.file? path = some f →
    ∃ d ∈ ds, ∃ names, Denotes root d.path names ∧ Denotes root path names
  /-- At an absolute path outside the root there is no file. -/
  outside : ∀ path, path.isAbsolute = true → root.startsWith path = false → m.file? path = none
  /-- At a path that steps upwards there is no file, if it does so after the root. -/
  upwards : ∀ path, .parent ∈ path.components →
    (root.startsWith path = true → .parent ∈ path.components.drop root.components.length) →
    m.file? path = none
  /-- Listed are the files that can be found. -/
  files_iff : ∀ f, f ∈ m.files ↔ ∃ path, m.file? path = some f
  /-- They come in ascending order, and so none of them twice. -/
  ascending : m.files.Pairwise fun f g => f.path.compare g.path = .lt

/-- A directory of a tidy map is tidy. -/
theorem HasDirectory.tidy (h : m.HasDirectory d) (hm : m.Tidy) : MapNode.Tidy d.path d.entries := by
  induction h with
  | root => exact hm
  | entry hd hmem ih =>
    cases ih with
    | intro _ _ inner => exact inner hmem

theorem HasDirectory.placed (h : m.HasDirectory d) (hm : m.Tidy) {k : String} {node : MapNode}
    (hmem : (k, node) ∈ d.entries) : node.name = k ∧ node.path = d.path.join ⟨k⟩ := by
  have htidy := h.tidy hm
  exact (htidy.named ((Table.get?_eq_some_iff htidy.sorted).2 hmem)).2

/-- The document that is found from the back is the last one in the list. -/
theorem isLast_of_last? {d : Metadata} (h : last? root ds names = some d) : IsLast root ds names d := by
  obtain ⟨hd, before, after, hsplit, hbefore⟩ := List.find?_eq_some_iff_append.1 h
  refine ⟨after.reverse, before.reverse, ?_, denotes_iff.2 (of_decide_eq_true hd), fun d' hd' => ?_⟩
  · rw [← List.reverse_reverse ds, hsplit, List.reverse_append, List.reverse_cons, List.append_assoc]
    rfl
  · have := hbefore d' (List.mem_reverse.1 hd')
    rw [denotes_iff]
    simpa using this

/-- The file of a document, field by field. -/
theorem ofDocument_eq (hne : names ≠ []) (hnames : ∀ n ∈ names, Path.IsName n) (d : Metadata) :
    ∃ name, names.getLast? = some name ∧ MapFile.ofDocument root names d = {
      name
      path := root.join ⟨Text.join "/" names⟩
      language := d.language <|> Language.ofPath? ⟨name⟩
      size := d.size
      classes := d.classes
      functions := d.functions
      imports := d.imports
      symbols := d.symbols } := by
  -- the last of the names is that of the file
  obtain ⟨name, hname⟩ := Option.isSome_iff_exists.1 (List.getLast?_isSome.2 hne)
  refine ⟨name, hname, ?_⟩
  rw [← Path.below_eq_join root hne hnames, ← MapFile.path_ofDocument (d := d) hne]
  unfold MapFile.ofDocument MapFile.newAt MapFile.new MapFile.describe
  rw [hname]
  rfl

section ReadBack

variable (h : LiesApart root ds)

include h

/-- Where documents lie there is the file of the last of them. -/
theorem found_ofDocuments {d : Metadata} (hd : d ∈ ds) (hnames : Denotes root d.path names) :
    ∃ last name, IsLast root ds names last ∧ names.getLast? = some name ∧
      (ofDocuments root ds).file? d.path = some {
        name
        path := root.join ⟨Text.join "/" names⟩
        language := last.language <|> Language.ofPath? ⟨name⟩
        size := last.size
        classes := last.classes
        functions := last.functions
        imports := last.imports
        symbols := last.symbols } := by
  -- what is denoted are the names below the root, which lead to the last document
  have hbelow := denotes_iff.1 hnames
  obtain ⟨last, hlast⟩ := exists_last? hd hbelow
  obtain ⟨name, hname, hfile⟩ := ofDocument_eq hnames.1
    (fun n hn => isName_of_namesBelow? hbelow hn) last
  refine ⟨last, name, isLast_of_last? hlast, hname, ?_⟩
  rw [file?_ofDocuments h hbelow, hlast, Option.map_some, hfile]

/-- Where there is a file there is a document. -/
theorem exists_document {path : Path} {f : MapFile} (hfile : (ofDocuments root ds).file? path = some f) :
    ∃ d ∈ ds, ∃ names, Denotes root d.path names ∧ Denotes root path names := by
  obtain ⟨names, hnames, hfind⟩ := file?_eq_some_iff.1 hfile
  -- the root itself is no file
  have hne : names ≠ [] := by
    rintro rfl
    cases hfind
  have hbelow : namesBelow? root path = some names := by
    rw [namesBelow?_eq_some_iff, ← (built_ofDocuments root ds).root_eq]
    exact ⟨hnames, hne⟩
  rw [file?_ofDocuments h hbelow] at hfile
  obtain ⟨d, hlast, -⟩ := Option.map_eq_some_iff.1 hfile
  obtain ⟨hd, hnames'⟩ := last?_eq_some hlast
  exact ⟨d, hd, names, denotes_iff.2 hnames', denotes_iff.2 hbelow⟩

/-- A path that denotes nothing leads to no file. -/
theorem file?_of_not_denotes {path : Path} (hnot : ∀ names, ¬Denotes root path names) :
    (ofDocuments root ds).file? path = none := by
  rw [Option.eq_none_iff_forall_ne_some]
  intro f hfile
  obtain ⟨d, -, names, -, hnames⟩ := exists_document h hfile
  exact hnot names hnames

end ReadBack

/-- An absolute path outside the root denotes nothing. -/
theorem not_denotes_of_outside {path : Path} (habs : path.isAbsolute = true)
    (hstarts : root.startsWith path = false) : ¬Denotes root path names := by
  rintro ⟨-, cs, hcs | ⟨hrel, -⟩, -⟩
  · -- what follows on the root starts with the root
    have hbelow : root.startsWith path = true := by
      rw [Path.startsWith, hcs]
      exact List.isPrefixOf_iff_prefix.2 (List.prefix_append _ _)
    rw [hbelow] at hstarts
    cases hstarts
  · -- and a relative path is not absolute
    rw [hrel] at habs
    cases habs

/-- A path that steps upwards after the root denotes nothing. -/
theorem not_denotes_of_upwards {path : Path} (hparent : .parent ∈ path.components)
    (hafter : root.startsWith path = true → .parent ∈ path.components.drop root.components.length) :
    ¬Denotes root path names := by
  rintro ⟨-, cs, hcs, raws, hnames, -⟩
  -- the step upwards is one of the components after the root
  have hmem : .parent ∈ cs := by
    rcases hcs with hcs | ⟨-, -, rfl⟩
    · have hbelow : root.startsWith path = true := by
        rw [Path.startsWith, hcs]
        exact List.isPrefixOf_iff_prefix.2 (List.prefix_append _ _)
      have hdrop := hafter hbelow
      rwa [hcs, List.drop_left] at hdrop
    · exact hparent
  -- what is left of the components are names
  have hname : .parent ∈ raws.map Path.Component.normal := by
    rw [← hnames]
    exact List.mem_filter.2 ⟨hmem, by decide⟩
  obtain ⟨n, -, hn⟩ := List.mem_map.1 hname
  cases hn

/-- **A map that is made of documents gives them back,** at their places and nowhere else. -/
theorem roundTrips_ofDocuments (h : LiesApart root ds) : RoundTrips root ds (ofDocuments root ds) where
  root_eq := (built_ofDocuments root ds).root_eq
  placed _ hd _ _ hmem := hd.placed (built_ofDocuments root ds).tidy hmem
  found _ hd _ hnames := found_ofDocuments h hd hnames
  only _ _ hfile := exists_document h hfile
  outside _ habs hstarts := file?_of_not_denotes h fun _ => not_denotes_of_outside habs hstarts
  upwards _ hparent hafter := file?_of_not_denotes h fun _ => not_denotes_of_upwards hparent hafter
  files_iff f := by
    have htidy := (built_ofDocuments root ds).tidy
    constructor
    · exact fun hf => ⟨f.path, htidy.mem_files_iff.1 hf⟩
    · exact fun ⟨_, hfile⟩ => htidy.mem_files_of_file? hfile
  ascending := (built_ofDocuments root ds).tidy.pairwise_files

/-- Of two documents for one place the later one counts, and one outside the root is passed over. -/
theorem roundTrips_twice :
    let first : Metadata := { (default : Metadata) with path := ⟨"a/b.rs"⟩, size := 1 }
    let second : Metadata := { (default : Metadata) with path := ⟨"/p/./a/b.rs"⟩, size := 2 }
    let other : Metadata := { (default : Metadata) with path := ⟨"/q"⟩, size := 3 }
    LiesApart ⟨"/p"⟩ [first, second, other] ∧
      RoundTrips ⟨"/p"⟩ [first, second, other] (ofDocuments ⟨"/p"⟩ [first, second, other]) ∧
      (ofDocuments ⟨"/p"⟩ [first, second, other]).files.map (fun f => (f.path, f.language, f.size)) =
        [(⟨"/p/a/b.rs"⟩, some .rust, 2)] := by
  intro first second other
  have hapart : LiesApart ⟨"/p"⟩ [first, second, other] := by decide
  exact ⟨hapart, roundTrips_ofDocuments hapart, by decide +kernel⟩

/-- Below a root that steps upwards the paths of files do so as well. And what is found at a path whose name is
no text has the path that is shown of it, and is found at other paths that look the same. -/
theorem ofDocuments_file_below_parent :
    let d : Metadata := { (default : Metadata) with path := ⟨"../a"⟩, size := 1 }
    let raw : RawText := .ofText "/r/a"
    let lossy : Metadata := { (default : Metadata) with path := .ofRaw (raw ++ ⟨[0xff]⟩), size := 1 }
    (LiesApart ⟨".."⟩ [d] ∧ .parent ∈ (Path.mk "../a").components ∧
      (ofDocuments ⟨".."⟩ [d]).file? ⟨"../a"⟩ ≠ none) ∧
    LiesApart ⟨"/r"⟩ [lossy] ∧
      ((ofDocuments ⟨"/r"⟩ [lossy]).file? lossy.path).map (·.path) = some ⟨"/r/a\uFFFD"⟩ ∧
      lossy.path ≠ ⟨"/r/a\uFFFD"⟩ ∧ (ofDocuments ⟨"/r"⟩ [lossy]).file? (.ofRaw (raw ++ ⟨[0xfe]⟩)) ≠ none := by
  decide

end CodeMap

end CodeSearch
