import CodeSearch.Document

/-!
# Code maps

A code map is the tree of the directories and files below a root. A file carries what its syntax tree
tells: what it declares and what it imports. Every node knows its name and its path.

A path is looked up by the names that lead to it from the root. A path outside the root, or one that
steps upwards, leads to nothing.

* `find?_place` — a file that was added is found.
-/

namespace CodeSearch

/-- A file of a map. -/
structure MapFile where
  /-- The name of the file. -/
  name : String
  /-- The path of the file. -/
  path : Path
  /-- The language it is written in. -/
  language : Option Language
  /-- The size in bytes. -/
  size : Nat
  /-- The names of the types it declares. -/
  classes : List String := []
  /-- The names of the functions it declares. -/
  functions : List String := []
  /-- The text of its imports. -/
  imports : List String := []
  /-- The lines on which each name is declared. -/
  symbols : Table (List Nat) := []
  deriving DecidableEq, Repr

namespace MapFile

/-- A file about which nothing is known but its place and size. -/
def new (directory : Path) (name : String) (size : Nat) : MapFile :=
  { name, path := directory.join ⟨name⟩, language := Language.ofPath? ⟨name⟩, size }

/-- The file with the facts about a document. -/
def describe (f : MapFile) (m : Metadata) : MapFile :=
  { f with
    language := m.language <|> f.language
    size := m.size, classes := m.classes, functions := m.functions, imports := m.imports
    symbols := m.symbols }

/-- How many types and functions a file declares. -/
def symbolCount (f : MapFile) : Nat := f.classes.length + f.functions.length

end MapFile

/-- A node of a map. -/
inductive MapNode where
  /-- A file. -/
  | file (f : MapFile)
  /-- A directory with its entries by name. -/
  | directory (name : String) (path : Path) (entries : List (String × MapNode))

/-- The tree below a root. -/
structure CodeMap where
  /-- The path of the root. -/
  root : Path
  /-- The entries of the root by name. -/
  entries : List (String × MapNode) := []

/-- A directory of a map. -/
structure MapDirectory where
  /-- The name of the directory. -/
  name : String
  /-- The path of the directory. -/
  path : Path
  /-- Its entries by name. -/
  entries : List (String × MapNode)

namespace MapNode

/-- The file that a node is. -/
def file? : MapNode → Option MapFile
  | file f => some f
  | directory .. => none

/-- The directory that a node is. -/
def directory? : MapNode → Option MapDirectory
  | file _ => none
  | directory name path entries => some { name, path, entries }

/-- The path of a node. -/
def path : MapNode → Path
  | file f => f.path
  | directory _ path _ => path

/-! ### Listing -/

/-- The files among entries. -/
def filesAmong (entries : Table MapNode) : List MapFile := entries.filterMap fun e => e.2.file?

/-- The directories among entries. -/
def directoriesAmong (entries : Table MapNode) : List MapDirectory :=
  entries.filterMap fun e => e.2.directory?

mutual

/-- How many directories a node is made of. -/
def weight : MapNode → Nat
  | file _ => 0
  | directory _ _ entries => entriesWeight entries + 1

/-- How many directories entries are made of. -/
def entriesWeight : List (String × MapNode) → Nat
  | [] => 0
  | (_, n) :: r => n.weight + entriesWeight r

end

/-- How many directories are yet to be visited, those below the ones on a stack included. -/
def stackWeight : List MapDirectory → Nat
  | [] => 0
  | d :: stack => entriesWeight d.entries + 1 + stackWeight stack

theorem stackWeight_append (ds ds' : List MapDirectory) :
    stackWeight (ds ++ ds') = stackWeight ds + stackWeight ds' := by
  induction ds with
  | nil => exact (Nat.zero_add _).symm
  | cons d ds ih =>
    rw [List.cons_append, stackWeight, stackWeight, ih]
    exact (Nat.add_assoc _ _ _).symm

theorem stackWeight_reverse (ds : List MapDirectory) : stackWeight ds.reverse = stackWeight ds := by
  induction ds with
  | nil => rfl
  | cons d ds ih =>
    rw [List.reverse_cons, stackWeight_append, ih, Nat.add_comm]
    rfl

/-- The directories among entries are made of those that the entries are made of. -/
theorem stackWeight_directoriesAmong (entries : Table MapNode) :
    stackWeight (directoriesAmong entries) = entriesWeight entries := by
  induction entries with
  | nil => rfl
  | cons e entries ih =>
    obtain ⟨k, node⟩ := e
    cases node with
    | file f =>
      rw [entriesWeight, weight, Nat.zero_add]
      exact ih
    | directory n path es =>
      rw [entriesWeight, weight, ← ih]
      rfl

/-- **Every visit brings a listing closer to its end.** -/
theorem stackWeight_visit_lt (d : MapDirectory) (stack : List MapDirectory) :
    stackWeight ((directoriesAmong d.entries).reverse ++ stack) < stackWeight (d :: stack) := by
  rw [stackWeight_append, stackWeight_reverse, stackWeight_directoriesAmong, stackWeight]
  omega

/-- The files of the directories on a stack, and of those below them, after what was found before. -/
def listFiles (stack : List MapDirectory) (found : List MapFile) : List MapFile :=
  match stack with
  | [] => found
  -- the directories in a directory are put on the stack by name, so the last one is visited first
  | d :: stack => listFiles ((directoriesAmong d.entries).reverse ++ stack) (found ++ filesAmong d.entries)
termination_by stackWeight stack
decreasing_by exact stackWeight_visit_lt d stack

/-! ### Looking up, adding and changing -/

/-- The node to which names lead. -/
def find? : List String → Table MapNode → Option MapNode
  | [], _ => none
  | [name], entries => entries.get? name
  | name :: rest, entries =>
    ((entries.get? name).bind directory?).bind fun d => find? rest d.entries

/-- Adds a file under the last of some names, with the directories that are missing on the way, and
says whether there was room for it. -/
def place (size : Nat) (base : Path) : List String → Table MapNode → Table MapNode × Bool
  | [], entries => (entries, false)
  | [name], entries =>
    match entries.get? name with
    | some (directory ..) => (entries, false)
    | _ => (entries.insert name (file (.new base name size)), true)
  | name :: rest, entries =>
    match entries.get? name with
    | some (file _) => (entries, false)
    | some (directory n path inner) =>
      let (inner, placed) := place size path rest inner
      (entries.insert name (directory n path inner), placed)
    | none =>
      let path := base.join ⟨name⟩
      let (inner, placed) := place size path rest []
      (entries.insert name (directory name path inner), placed)

/-- Adds the directories that are missing on a way, up to the first file in it, and gives the last
one. -/
def makeDirectory (here : MapDirectory) : List String → Table MapNode × Option MapDirectory
  | [] => (here.entries, some here)
  | name :: rest =>
    match Table.get? here.entries name with
    | some (file _) => (here.entries, none)
    | some (directory n path inner) =>
      let (inner, made) := makeDirectory { name := n, path, entries := inner } rest
      (Table.insert here.entries name (directory n path inner), made)
    | none =>
      let path := here.path.join ⟨name⟩
      let (inner, made) := makeDirectory { name, path, entries := [] } rest
      (Table.insert here.entries name (directory name path inner), made)

/-- Changes the file to which names lead, if they lead to one. -/
def change? (f : MapFile → MapFile) : List String → Table MapNode → Option (Table MapNode)
  | [], _ => none
  | [name], entries =>
    ((entries.get? name).bind file?).map fun old => entries.insert name (file (f old))
  | name :: rest, entries =>
    ((entries.get? name).bind directory?).bind fun d =>
      (change? f rest d.entries).map fun inner =>
        entries.insert name (directory d.name d.path inner)

/-- **A file that was added is found.** -/
theorem find?_place {size : Nat} {base : Path} {names : List String} {entries : Table MapNode}
    (h : (place size base names entries).2 = true) :
    ∃ f, find? names (place size base names entries).1 = some (file f) := by
  induction names generalizing base entries with
  | nil => exact absurd h (by simp [place])
  | cons name rest ih =>
    cases rest with
    | nil =>
      rw [place] at h ⊢
      split at h
      · exact absurd h (by simp)
      · exact ⟨_, by rw [find?, Table.get?_insert, if_pos rfl]⟩
    | cons next rest =>
      rw [place] at h ⊢
      · split at h
        · exact absurd h (by simp)
        · obtain ⟨f, hf⟩ := ih h
          refine ⟨f, ?_⟩
          rw [find?, Table.get?_insert, if_pos rfl]
          · exact hf
          · exact List.cons_ne_nil _ _
        · obtain ⟨f, hf⟩ := ih h
          refine ⟨f, ?_⟩
          rw [find?, Table.get?_insert, if_pos rfl]
          · exact hf
          · exact List.cons_ne_nil _ _
      · exact List.cons_ne_nil _ _
      · exact List.cons_ne_nil _ _

end MapNode

namespace CodeMap

/-- The name of the root. -/
def name (m : CodeMap) : String := (m.root.fileName?.map RawText.text).getD ""

/-- The root as a directory. -/
def directory (m : CodeMap) : MapDirectory := { name := m.name, path := m.root, entries := m.entries }

/-- The names that lead from the root to a path, none for the root itself. -/
def names? (m : CodeMap) (path : Path) : Option (List String) :=
  (componentsBelow? m.root path).bind Path.names?

/-- The file at a path. -/
def file? (m : CodeMap) (path : Path) : Option MapFile :=
  (m.names? path).bind fun names => (MapNode.find? names m.entries).bind MapNode.file?

/-- The directory at a path. -/
def directory? (m : CodeMap) (path : Path) : Option MapDirectory :=
  (m.names? path).bind fun names =>
    if names.isEmpty then some m.directory
    else (MapNode.find? names m.entries).bind MapNode.directory?

/-- Adds a file, and says whether there was room for it. -/
def insert (m : CodeMap) (path : Path) (size : Nat) : CodeMap × Bool :=
  match m.names? path with
  | none => (m, false)
  | some names =>
    let (entries, placed) := MapNode.place size m.root names m.entries
    ({ m with entries }, placed)

/-- Adds the directories to a place below the root, and gives the last one unless a file is in the
way. Only the names of the path count. -/
def makeDirectory (m : CodeMap) (path : Path) : CodeMap × Option MapDirectory :=
  let (entries, made) :=
    MapNode.makeDirectory m.directory (path.components.filterMap fun c => c.name?.map RawText.text)
  ({ m with entries }, made)

/-- The map with the facts about a document put to its file, if the map has that file. -/
def describe? (m : CodeMap) (d : Metadata) : Option CodeMap :=
  (m.names? d.path).bind fun names =>
    (MapNode.change? (·.describe d) names m.entries).map fun entries => { m with entries }

/-- Puts the facts about documents to their files, and counts the documents that have one. -/
def enrich (m : CodeMap) (ds : List Metadata) : CodeMap × Nat :=
  ds.foldl (fun (m, n) d => (m.describe? d).elim (m, n) fun m => (m, n + 1)) (m, 0)

/-- The map with a document added, if there is room for it. -/
def addDocument (m : CodeMap) (d : Metadata) : CodeMap :=
  let (m', placed) := m.insert d.path d.size
  if placed then (m'.describe? d).getD m' else m'

/-- The map of documents. -/
def ofDocuments (root : Path) (ds : List Metadata) : CodeMap := ds.foldl addDocument { root }

/-- All files, in the order of their paths. -/
def files (m : CodeMap) : List MapFile :=
  (MapNode.listFiles [m.directory] []).mergeSort fun a b => (a.path.compare b.path).isLE

end CodeMap

end CodeSearch
