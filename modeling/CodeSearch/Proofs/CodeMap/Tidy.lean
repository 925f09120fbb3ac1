import CodeSearch.CodeMap.Tree
import CodeSearch.Proofs.CodeMap.Nodes
import CodeSearch.Proofs.PathOrder
import CodeSearch.Proofs.Tables
import Mathlib.Data.List.Induction

/-!
# Maps that are tidy

In a *tidy* tree of nodes (`MapNode.Tidy`) the entries of every directory are in order, and every entry
has a name that stands for a step, the name under which it is kept, and the path of its directory with
that name added. A tree stays tidy if a tidy node is put into it (`MapNode.Tidy.insert`), and this is all
that the writes do on the way that their names lead. So every map is tidy that comes about by the
operations on maps, in any order (`CodeMap.Built.tidy`); the maps of documents and of directory trees are
such maps.

The files of a map are listed directory by directory, with a stack of those that are yet to be visited, and
then put in order. What is listed are the files of the tree (`perm_listFiles`), and in a tidy map they are
told by look-ups:

* `mem_filesOf_iff` — the files of the tree are those to which names lead;
* `nodup_filesOf` — no two of them have the same place;
* `mem_files_iff`, `pairwise_files` — so the files of a map are those that it finds, in ascending order.
-/

namespace CodeSearch

namespace MapNode

/-- Whether tables are in order all the way down, and all nodes have the names and paths of their
places. -/
inductive Tidy : Path → Table MapNode → Prop where
  | intro {base : Path} {entries : Table MapNode} (sorted : Table.Sorted entries)
      (named : ∀ {k node}, (k, node) ∈ entries →
        Path.IsName k ∧ node.name = k ∧ node.path = base.join ⟨k⟩)
      (inner : ∀ {k n path es}, (k, directory n path es) ∈ entries → Tidy path es) : Tidy base entries

variable {entries : Table MapNode} {node : MapNode} {base : Path} {name : String} {names : List String}

theorem tidy_empty (base : Path) : Tidy base [] :=
  .intro Table.sorted_nil nofun nofun

theorem Tidy.sorted (h : Tidy base entries) : Table.Sorted entries := by
  cases h with
  | intro sorted _ _ => exact sorted

/-- A node that is found has the name and the path of its place. -/
theorem Tidy.named (h : Tidy base entries) (hget : entries.get? name = some node) :
    Path.IsName name ∧ node.name = name ∧ node.path = base.join ⟨name⟩ := by
  cases h with
  | intro _ named _ => exact named (Table.mem_of_get? hget)

/-- What lies in a node is tidy. -/
theorem Tidy.within (h : Tidy base entries) (name : String) :
    Tidy (base.join ⟨name⟩) (within (entries.get? name)) := by
  cases hget : entries.get? name with
  | none => exact tidy_empty _
  | some node =>
    cases node with
    -- a file has no entries
    | file f => exact tidy_empty _
    | directory n path es =>
      have hpath : path = base.join ⟨name⟩ := (h.named hget).2.2
      cases h with
      -- the entries of a directory are tidy below its own path
      | intro _ _ inner => exact hpath ▸ inner (Table.mem_of_get? hget)

/-- **A tree stays tidy if a tidy node is put into it.** -/
theorem Tidy.insert (h : Tidy base entries) (hname : Path.IsName name) (hn : node.name = name)
    (hpath : node.path = base.join ⟨name⟩)
    (hin : Tidy (base.join ⟨name⟩) (MapNode.within (some node))) :
    Tidy base (entries.insert name node) := by
  cases h with
  | intro sorted named inner =>
    -- each entry is the new one or was there before
    refine .intro (Table.sorted_insert sorted name node) (fun {k other} hmem => ?_)
      fun {k n path es} hmem => ?_
    · rcases Table.mem_insert hmem with he | hmem
      · obtain ⟨rfl, rfl⟩ := Prod.mk.inj he
        exact ⟨hname, hn, hpath⟩
      · exact named hmem
    · rcases Table.mem_insert hmem with he | hmem
      · obtain ⟨rfl, rfl⟩ := Prod.mk.inj he
        have hpath' : path = base.join ⟨k⟩ := hpath
        rw [hpath']
        exact hin
      · exact inner hmem

theorem Tidy.insert_file (h : Tidy base entries) (hname : Path.IsName name) {f : MapFile}
    (hn : f.name = name) (hpath : f.path = base.join ⟨name⟩) :
    Tidy base (entries.insert name (file f)) :=
  h.insert hname hn hpath (tidy_empty _)

theorem Tidy.insert_directory (h : Tidy base entries) (hname : Path.IsName name)
    {inner : Table MapNode} (hin : Tidy (base.join ⟨name⟩) inner) :
    Tidy base (entries.insert name (directory name (base.join ⟨name⟩) inner)) :=
  h.insert hname rfl rfl hin

/-- Names that lead to a node are steps, and lead to a node with the path that they make. -/
theorem Tidy.find? (h : Tidy base entries) (hfind : find? names entries = some node) :
    (∀ n ∈ names, Path.IsName n) ∧ node.path = base.below names ∧ names.getLast? = some node.name := by
  induction names generalizing base entries with
  | nil => cases hfind
  | cons name names ih =>
    by_cases hne : names = []
    · subst hne
      -- one name leads to an entry
      obtain ⟨hname, hn, hpath⟩ := h.named hfind
      refine ⟨fun n hmem => ?_, hpath, by rw [hn]; rfl⟩
      rwa [List.mem_singleton.1 hmem]
    · rw [find?_cons hne] at hfind
      -- the other names lead on in the entry
      obtain ⟨hnames, hpath, hlast⟩ := ih (h.within name) hfind
      refine ⟨fun n hmem => ?_, hpath, (List.getLast?_cons_of_ne_nil hne).trans hlast⟩
      rcases List.mem_cons.1 hmem with rfl | hmem
      · -- nothing lies within a node that is not there
        cases hget : entries.get? n with
        | none =>
          rw [hget, within_none, find?_empty] at hfind
          cases hfind
        | some node => exact (h.named hget).1
      · exact hnames n hmem

/-- In a tidy table every node is at its place. -/
theorem Tidy.wellPlaced (h : Tidy base entries) : WellPlaced base entries :=
  fun _ _ hfind => (h.find? hfind).2

/-! ### What writes do to a tidy tree -/

/-- A table stays tidy if a file is added to it. -/
theorem Tidy.place (h : Tidy base entries) (hnames : ∀ n ∈ names, Path.IsName n) (size : Nat) :
    Tidy base (place size base names entries).1 := by
  induction names generalizing base entries with
  | nil => exact h
  | cons name names ih =>
    have hname : Path.IsName name := hnames name List.mem_cons_self
    by_cases hne : names = []
    · subst hne
      -- the last name is that of the file
      rcases place_singleton size with ⟨-, hplace⟩ | ⟨-, hplace⟩
      · rw [hplace]
        exact h
      · rw [hplace]
        exact h.insert_file hname rfl rfl
    · -- the names before it are those of directories
      rcases place_cons size h.wellPlaced hne with ⟨-, hplace⟩ | ⟨-, hplace⟩
      · rw [hplace]
        exact h
      · rw [hplace]
        exact h.insert_directory hname (ih (h.within name) fun n hn => hnames n (List.mem_cons_of_mem _ hn))

/-- A table stays tidy if one of its files is changed, but for its name and its path. -/
theorem Tidy.change? {f : MapFile → MapFile} (hf : ∀ old, (f old).path = old.path ∧ (f old).name = old.name)
    (h : Tidy base entries) {entries' : Table MapNode} (hchange : change? f names entries = some entries') :
    Tidy base entries' := by
  induction names generalizing base entries entries' with
  | nil => cases hchange
  | cons name names ih =>
    by_cases hne : names = []
    · subst hne
      -- the file is an entry
      obtain ⟨old, hold, rfl⟩ := Option.map_eq_some_iff.1 hchange
      obtain ⟨node, hget, hnode⟩ := Option.bind_eq_some_iff.1 hold
      cases node with
      | directory n path inner => cases hnode
      | file g =>
        obtain rfl := Option.some.inj hnode
        obtain ⟨hname, hn, hpath⟩ := h.named hget
        exact h.insert_file hname ((hf g).2.trans hn) ((hf g).1.trans hpath)
    · obtain ⟨n, path, inner, hinner, hget, rfl⟩ := change?_cons hne hchange
      -- the file lies deeper, and only what lies in the directory changes
      have hname := (h.named hget).1
      obtain ⟨rfl, rfl⟩ := h.wellPlaced.directory hget
      exact h.insert_directory hname (ih (h.within _) hinner)

/-- A table stays tidy if directories are made in it. -/
theorem Tidy.makeDirectory {here : MapDirectory} (h : Tidy here.path here.entries)
    (hnames : ∀ n ∈ names, Path.IsName n) : Tidy here.path (makeDirectory here names).1 := by
  induction names generalizing here with
  | nil => exact h
  | cons name names ih =>
    have hname : Path.IsName name := hnames name List.mem_cons_self
    have hrest : ∀ n ∈ names, Path.IsName n := fun n hn => hnames n (List.mem_cons_of_mem _ hn)
    have hwithin := h.within name
    rw [MapNode.makeDirectory]
    cases hget : Table.get? here.entries name with
    | none =>
      -- a directory that is missing is made, and the others in it
      have hnew := @ih { name, path := here.path.join ⟨name⟩, entries := [] } (tidy_empty _) hrest
      exact h.insert_directory hname hnew
    | some node =>
      rw [hget] at hwithin
      cases node with
      -- a file is in the way
      | file f => exact h
      | directory n path inner =>
        obtain ⟨rfl, rfl⟩ := h.wellPlaced.directory hget
        -- the directory is there, and the others are made in it
        have hold := @ih { name := n, path := here.path.join ⟨n⟩, entries := inner } hwithin hrest
        exact h.insert_directory hname hold

/-! ### The files of a tree -/

mutual

/-- The files of a node. -/
def files : MapNode → List MapFile
  | file f => [f]
  | directory _ _ entries => filesOf entries

/-- The files of the nodes among entries. -/
def filesOf : List (String × MapNode) → List MapFile
  | [] => []
  | (_, n) :: r => n.files ++ filesOf r

end

/-- The files of entries are those among them and those of the directories among them. -/
theorem perm_filesOf (entries : Table MapNode) :
    (filesOf entries).Perm
      (filesAmong entries ++ (directoriesAmong entries).flatMap fun d => filesOf d.entries) := by
  induction entries with
  | nil => exact List.Perm.refl _
  | cons e entries ih =>
    obtain ⟨k, node⟩ := e
    cases node with
    | file f => exact ih.cons f
    | directory n path es =>
      -- the files of the directory move behind those among the other entries
      refine (ih.append_left (filesOf es)).trans ?_
      exact List.perm_append_comm_assoc _ _ _

/-- **A listing finds the files of all directories on its stack,** in whatever order it visits them. -/
theorem perm_listFiles (stack : List MapDirectory) (found : List MapFile) :
    (listFiles stack found).Perm (found ++ stack.flatMap fun d => filesOf d.entries) := by
  induction stack, found using listFiles.induct with
  | case1 found =>
    rw [listFiles, List.flatMap_nil, List.append_nil]
  | case2 found d stack ih =>
    -- a visit finds the files in a directory and leaves those of the directories in it to later visits
    have hvisit : (filesAmong d.entries ++ (directoriesAmong d.entries).reverse.flatMap
        fun d => filesOf d.entries).Perm (filesOf d.entries) := by
      -- directories are visited from the last one to the first one, which is only another order
      have hreverse := (List.reverse_perm (directoriesAmong d.entries)).flatMap_right
        fun d => filesOf d.entries
      exact (hreverse.append_left _).trans (perm_filesOf d.entries).symm
    rw [listFiles]
    refine ih.trans ?_
    rw [List.flatMap_append, List.flatMap_cons, List.append_assoc, ← List.append_assoc (filesAmong _)]
    exact (hvisit.append_right _).append_left found

/-! ### The files of a tidy tree -/

theorem filesOf_eq_flatMap (entries : Table MapNode) :
    filesOf entries = entries.flatMap fun e => e.2.files := by
  induction entries with
  | nil => rfl
  | cons e entries ih => rw [filesOf, ih, List.flatMap_cons]

/-- **Listed are the files to which names lead.** -/
theorem mem_filesOf_iff (h : Tidy base entries) {f : MapFile} :
    f ∈ filesOf entries ↔ ∃ names, find? names entries = some (file f) := by
  rw [filesOf_eq_flatMap, List.mem_flatMap]
  induction h with
  | @intro base entries sorted named inner ih =>
    constructor
    · rintro ⟨⟨k, node⟩, hmem, hf⟩
      have hget := (Table.get?_eq_some_iff sorted).2 hmem
      cases node with
      | file g =>
        -- the entry is a file, to which its name leads
        obtain rfl := List.mem_singleton.1 hf
        exact ⟨[k], hget⟩
      | directory n path es =>
        -- the entry is a directory, and names lead from it to the file
        rw [files, filesOf_eq_flatMap, List.mem_flatMap] at hf
        obtain ⟨names, hfind⟩ := (ih hmem).1 hf
        have hne : names ≠ [] := by
          rintro rfl
          cases hfind
        exact ⟨k :: names, by rw [find?_cons hne, hget]; exact hfind⟩
    · rintro ⟨names, hfind⟩
      cases names with
      | nil => cases hfind
      | cons k names =>
        by_cases hne : names = []
        · subst hne
          -- a single name leads to an entry
          exact ⟨(k, file f), (Table.get?_eq_some_iff sorted).1 hfind, List.mem_singleton_self f⟩
        · rw [find?_cons hne] at hfind
          cases hget : entries.get? k with
          | none =>
            -- names that lead on lead into a directory
            rw [hget, within_none, find?_empty] at hfind
            cases hfind
          | some node =>
            rw [hget] at hfind
            cases node with
            | file g =>
              rw [within_file, find?_empty] at hfind
              cases hfind
            | directory n path es =>
              have hmem := (Table.get?_eq_some_iff sorted).1 hget
              refine ⟨_, hmem, ?_⟩
              rw [files, filesOf_eq_flatMap, List.mem_flatMap]
              exact (ih hmem).2 ⟨names, hfind⟩

/-- The place of a file that lies in an entry starts with the name of the entry. -/
theorem components_of_mem_files (h : Tidy base entries) {k : String} (hmem : (k, node) ∈ entries)
    {f : MapFile} (hf : f ∈ node.files) :
    ∃ rest, f.path.components = base.components ++ .ofName k :: rest := by
  have hget := (Table.get?_eq_some_iff h.sorted).2 hmem
  -- names lead to the file, and the name of the entry comes first
  obtain ⟨names, hfind⟩ : ∃ names, find? (k :: names) entries = some (file f) := by
    cases node with
    | file g =>
      obtain rfl := List.mem_singleton.1 hf
      exact ⟨[], hget⟩
    | directory n path es =>
      have hes : Tidy (base.join ⟨k⟩) es := by
        have := h.within k
        rwa [hget] at this
      rw [files] at hf
      obtain ⟨names, hfind⟩ := (mem_filesOf_iff hes).1 hf
      have hne : names ≠ [] := by
        rintro rfl
        cases hfind
      exact ⟨names, by rw [find?_cons hne, hget]; exact hfind⟩
  obtain ⟨hnames, hpath, -⟩ := h.find? hfind
  have hcomponents : f.path.components = base.components ++ (k :: names).map .ofName := by
    change (file f).path.components = _
    rw [hpath, base.components_below hnames]
  exact ⟨names.map .ofName, hcomponents⟩

/-- **No two files have the same place.** -/
theorem nodup_filesOf (h : Tidy base entries) :
    ((filesOf entries).map fun f => f.path.components).Nodup := by
  induction h with
  | @intro base entries sorted named inner ih =>
    have h : Tidy base entries := .intro sorted named inner
    rw [filesOf_eq_flatMap, List.map_flatMap, List.nodup_flatMap]
    constructor
    · rintro ⟨k, node⟩ hmem
      cases node with
      -- a file is only once in its own list
      | file f => exact List.nodup_singleton _
      | directory n path es =>
        dsimp only
        rw [files]
        -- within a directory the places differ by induction
        exact ih hmem
    · -- two entries have different names, with which the places of their files go on
      refine List.Pairwise.imp_of_mem (fun {a b} ha hb hlt => ?_) sorted
      show List.Disjoint _ _
      intro cs hcs hcs'
      obtain ⟨f, hf, rfl⟩ := List.mem_map.1 hcs
      obtain ⟨g, hg, he⟩ := List.mem_map.1 hcs'
      obtain ⟨rest, hrest⟩ := components_of_mem_files h ha hf
      obtain ⟨rest', hrest'⟩ := components_of_mem_files h hb hg
      rw [hrest, hrest', List.append_cancel_left_eq] at he
      rw [Path.Component.ofName_inj.1 (List.cons.inj he).1] at hlt
      exact String.lt_irrefl _ hlt

end MapNode

/-! ### Maps -/

namespace CodeMap

open MapNode (find?)

/-- Whether the tree of a map is tidy. -/
def Tidy (m : CodeMap) : Prop := MapNode.Tidy m.root m.entries

/-- The maps of a root that come about by the operations on maps. -/
inductive Built (root : Path) : CodeMap → Prop where
  /-- The map without entries. -/
  | empty : Built root { root }
  /-- A map with a file added. -/
  | insert {m : CodeMap} (h : Built root m) (path : Path) (size : Nat) : Built root (m.insert path size).1
  /-- A map with directories added. -/
  | makeDirectory {m : CodeMap} (h : Built root m) (path : Path) : Built root (m.makeDirectory path).1
  /-- A map with the facts about documents put to their files. -/
  | enrich {m : CodeMap} (h : Built root m) (ds : List Metadata) : Built root (m.enrich ds).1

variable {m m' : CodeMap} {root path : Path} {names : List String} {d : Metadata} {f g : MapFile}

theorem isName_of_names? (h : m.names? path = some names) {n : String} (hn : n ∈ names) : Path.IsName n := by
  obtain ⟨cs, hcs, hnames⟩ := Option.bind_eq_some_iff.1 h
  obtain ⟨r, hr, rfl⟩ := Path.mem_of_names? hnames hn
  exact Path.isName_of_mem_components (mem_of_componentsBelow? hcs hr)

theorem root_insert (m : CodeMap) (path : Path) (size : Nat) : (m.insert path size).1.root = m.root := by
  unfold CodeMap.insert
  split
  · rfl
  · rfl

/-- A tidy map stays tidy if a file is added. -/
theorem Tidy.insert (h : m.Tidy) (path : Path) (size : Nat) : (m.insert path size).1.Tidy := by
  unfold CodeMap.insert
  split
  · exact h
  · next names hnames => exact MapNode.Tidy.place h (fun n hn => isName_of_names? hnames hn) size

theorem Tidy.makeDirectory (h : m.Tidy) (path : Path) : (m.makeDirectory path).1.Tidy := by
  have hdirectory : MapNode.Tidy m.directory.path m.directory.entries := h
  refine hdirectory.makeDirectory fun n hn => ?_
  obtain ⟨c, hc, hname⟩ := List.mem_filterMap.1 hn
  cases c with
  | normal n' =>
    obtain rfl := Option.some.inj hname
    exact Path.isName_of_mem_components hc
  | _ => cases hname

theorem root_describe? (h : m.describe? d = some m') : m'.root = m.root := by
  obtain ⟨names, -, h⟩ := Option.bind_eq_some_iff.1 h
  obtain ⟨entries, -, rfl⟩ := Option.map_eq_some_iff.1 h
  rfl

/-- A tidy map stays tidy if a file is described. -/
theorem Tidy.describe? (h : m.Tidy) (hd : m.describe? d = some m') : m'.Tidy := by
  obtain ⟨names, -, hd⟩ := Option.bind_eq_some_iff.1 hd
  obtain ⟨entries, hchange, rfl⟩ := Option.map_eq_some_iff.1 hd
  exact MapNode.Tidy.change? (f := (·.describe d)) (fun _ => ⟨rfl, rfl⟩) h hchange

/-- Putting facts to files keeps what putting the facts of each document to its file does. -/
theorem enrich_induction {P : CodeMap → Prop} (hP : ∀ m m' d, P m → m.describe? d = some m' → P m')
    (h : P m) (ds : List Metadata) : P (m.enrich ds).1 := by
  suffices hfold : ∀ acc : CodeMap × Nat, P acc.1 →
      P (ds.foldl (fun acc d => (acc.1.describe? d).elim acc fun m => (m, acc.2 + 1)) acc).1 from
    hfold (m, 0) h
  -- the number of files that were described plays no part
  induction ds with
  | nil => exact fun acc hacc => hacc
  | cons d ds ih =>
    rintro ⟨m, n⟩ hm
    refine ih _ ?_
    dsimp only
    cases hd : m.describe? d with
    | none => exact hm
    | some m' => exact hP m m' d hm hd

/-- The operations keep the root. -/
theorem Built.root_eq (h : Built root m) : m.root = root := by
  induction h with
  | empty => rfl
  | @insert m _ path size ih => exact (root_insert m path size).trans ih
  | makeDirectory _ path ih => exact ih
  | enrich _ ds ih => exact enrich_induction (fun _ _ _ hroot hd => (root_describe? hd).trans hroot) ih ds

/-- **Every map is tidy,** whatever operations it comes from. -/
theorem Built.tidy (h : Built root m) : m.Tidy := by
  induction h with
  | empty => exact MapNode.tidy_empty root
  | insert _ path size ih => exact ih.insert path size
  | makeDirectory _ path ih => exact ih.makeDirectory path
  | enrich _ ds ih => exact enrich_induction (fun _ _ _ hm hd => Tidy.describe? hm hd) ih ds

/-- A document that is added is a file that is added and then described. -/
theorem Built.addDocument (h : Built root m) (d : Metadata) : Built root (m.addDocument d) := by
  unfold CodeMap.addDocument
  split
  next m' placed heq =>
  have hm' : Built root m' := by
    have := h.insert d.path d.size
    rwa [heq] at this
  split
  · cases hd : m'.describe? d with
    | none => exact hm'
    | some m'' =>
      -- describing one file is the same as describing the files of a list of one
      have henrich : (m'.enrich [d]).1 = m'' := by
        change ((m'.describe? d).elim (m', 0) fun m => (m, 0 + 1)).1 = m''
        rw [hd]
        rfl
      rw [Option.getD_some, ← henrich]
      exact hm'.enrich [d]
  · exact hm'

/-- The map of documents comes about by the operations on maps. -/
theorem built_ofDocuments (root : Path) (ds : List Metadata) : Built root (ofDocuments root ds) := by
  induction ds using List.reverseRecOn with
  | nil => exact .empty
  | append_singleton ds d ih =>
    have hstep : ofDocuments root (ds ++ [d]) = (ofDocuments root ds).addDocument d := List.foldl_append
    rw [hstep]
    exact ih.addDocument d

theorem Built.addPlace {w : Workspace} (h : Built root m) (place : List RawText × Bool) :
    Built root (m.addPlace w place) := by
  unfold CodeMap.addPlace
  split
  · exact h.makeDirectory _
  · exact h.insert _ _

/-- The map of a directory comes about by the operations on maps. -/
theorem built_ofWorkspace {w : Workspace} (h : ofWorkspace w root = .ok m) : Built root m := by
  unfold ofWorkspace at h
  split at h
  · cases h
  · next listing _ _ =>
    cases h
    -- the places are added one after another
    suffices hfold : ∀ (places : List (List RawText × Bool)) m, Built root m →
        Built root (places.foldl (addPlace w) m) from hfold _ _ .empty
    intro places
    induction places with
    | nil => exact fun m hm => hm
    | cons place places ih => exact fun m hm => ih _ (hm.addPlace place)
  · cases h

/-! ### The files of a map -/

/-- The file to which a path leads is the one to which its names lead. -/
theorem file?_eq_some_iff : m.file? path = some f ↔
    ∃ names, m.names? path = some names ∧ find? names m.entries = some (.file f) := by
  unfold CodeMap.file?
  rw [Option.bind_eq_some_iff]
  refine exists_congr fun names => and_congr_right fun _ => ?_
  rw [Option.bind_eq_some_iff]
  constructor
  · rintro ⟨node, hfind, hnode⟩
    cases node with
    | file g =>
      -- the node is a file
      obtain rfl := Option.some.inj hnode
      exact hfind
    | directory n path es => cases hnode
  · exact fun hfind => ⟨_, hfind, rfl⟩

/-- The files of a map are those of its tree. -/
theorem perm_files (m : CodeMap) : m.files.Perm (MapNode.filesOf m.entries) := by
  have hlisted := MapNode.perm_listFiles [m.directory] []
  rw [List.nil_append, List.flatMap_singleton] at hlisted
  exact (List.mergeSort_perm _ _).trans hlisted

theorem mem_files : f ∈ m.files ↔ f ∈ MapNode.filesOf m.entries := (perm_files m).mem_iff

variable (h : m.Tidy)

include h

/-- Names that lead to a file make the path at which it is found. -/
theorem Tidy.file?_of_find? (hfind : find? names m.entries = some (.file f)) : m.file? f.path = some f := by
  obtain ⟨hnames, hpath, -⟩ := MapNode.Tidy.find? h hfind
  -- a file is not the root, so there are names
  have hne : names ≠ [] := by
    rintro rfl
    cases hfind
  have hbelow : f.path = m.root.below names := hpath
  refine file?_eq_some_iff.2 ⟨names, ?_, hfind⟩
  rw [hbelow]
  exact (namesBelow?_eq_some_iff.1 (namesBelow?_below m.root hne hnames)).1

/-- **The files of a map are those that it finds at their paths.** -/
theorem Tidy.mem_files_iff : f ∈ m.files ↔ m.file? f.path = some f := by
  rw [mem_files, MapNode.mem_filesOf_iff h]
  constructor
  · rintro ⟨names, hfind⟩
    exact h.file?_of_find? hfind
  · intro hfile
    obtain ⟨names, -, hfind⟩ := file?_eq_some_iff.1 hfile
    exact ⟨names, hfind⟩

/-- A file that is found somewhere is found at its path. -/
theorem Tidy.file?_path (hfile : m.file? path = some f) : m.file? f.path = some f := by
  obtain ⟨names, -, hfind⟩ := file?_eq_some_iff.1 hfile
  exact h.file?_of_find? hfind

theorem Tidy.mem_files_of_file? (hfile : m.file? path = some f) : f ∈ m.files :=
  h.mem_files_iff.2 (h.file?_path hfile)

/-- **The files of a map come in ascending order, none of them twice.** -/
theorem Tidy.pairwise_files : m.files.Pairwise fun f g => f.path.compare g.path = .lt := by
  refine Path.pairwise_lt_mergeSort MapFile.path ?_
  -- the files are in the order of the visits, and as different as those of the tree
  have hperm := (List.mergeSort_perm (MapNode.listFiles [m.directory] []) fun a b =>
    (a.path.compare b.path).isLE).symm.trans (perm_files m)
  exact (hperm.map fun f => f.path.components).nodup_iff.2 (MapNode.nodup_filesOf h)

/-- A place has at most one file. -/
theorem Tidy.eq_of_components (hf : f ∈ m.files) (hg : g ∈ m.files)
    (he : f.path.components = g.path.components) : f = g :=
  List.inj_on_of_nodup_map (MapNode.nodup_filesOf h) (mem_files.1 hf) (mem_files.1 hg) he

end CodeMap

end CodeSearch
