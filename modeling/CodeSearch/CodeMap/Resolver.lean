import CodeSearch.CodeMap.Basic
import CodeSearch.CodeMap.Import

/-!
# Which files an import refers to

A file is known as a module under each end of its path below the root, without its extension. The entry
file of a package is known under the ends of the path of its directory as well, and so is every file of
a language whose packages are directories. An import refers to the files that are known under the paths
it names.

A module index is made of a map in two passes over its files: the first one makes them known, and the
second one notes of every import which file imports and which file is imported. The files related to a
file are then looked up in these two tables, while the files that a file imports can also be found anew
from its imports.

* `ModuleIndex.modules_link` — noting who imports whom leaves alone what files are known under.
-/

namespace CodeSearch

/-- What finds the files that an import refers to, and the files related to a file. -/
structure ImportResolver where
  /-- The files that an import statement refers to. -/
  search : String → List Path
  /-- The files that import a file or that it imports. -/
  related : Path → List Path

/-! ### Sets of paths -/

/-- Paths in ascending order, none of them for the place of another one. -/
abbrev PathSet := List Path

/-- Adds a path, unless there is one for its place. -/
def PathSet.insert : PathSet → Path → PathSet
  | [], p => [p]
  | q :: r, p =>
    match p.compare q with
    | .lt => p :: q :: r
    | .eq => q :: r
    | .gt => q :: insert r p

/-- Adds paths. -/
def PathSet.extend (s : PathSet) (ps : List Path) : PathSet := ps.foldl PathSet.insert s

/-- Sets of paths by paths. -/
abbrev PathLinks := List (Path × PathSet)

namespace PathLinks

/-- The paths that a path is linked to. -/
def get (l : PathLinks) (p : Path) : PathSet := ((l.find? (·.1.same p)).map Prod.snd).getD []

/-- Links one path to another one. -/
def add : PathLinks → Path → Path → PathLinks
  | [], p, q => [(p, PathSet.insert [] q)]
  | (p', s) :: r, p, q => if p'.same p then (p', s.insert q) :: r else (p', s) :: add r p q

end PathLinks

/-- Adds a path at the end, unless one for its place has come before. -/
def Path.keepFirst (seen : List Path) (p : Path) : List Path :=
  if seen.any (·.same p) then seen else seen ++ [p]

/-- The paths of a list without those for whose place one has come before. -/
def Path.firsts (ps : List Path) : List Path := ps.foldl keepFirst []

/-! ### Module indexes -/

/-- What files are known under, and which of them import which. -/
structure ModuleIndex where
  /-- The files that are known under a path of names. -/
  modules : Table PathSet := []
  /-- The files that a file imports. -/
  importsOf : PathLinks := []
  /-- The files that import a file. -/
  importers : PathLinks := []

namespace ModuleIndex

/-- The names of files that stand for the directory they lie in. -/
def packageEntries : List String := ["__init__", "mod", "index"]

/-- Whether a file stands for its directory. -/
def standsForDirectory (f : MapFile) : Bool :=
  f.path.stem?.any packageEntries.contains || f.language == some .go

/-- The ends of a path of names, with slashes between the names. -/
def keysOf (names : List String) : List String :=
  (Import.ends (names.map String.toList)).map fun e => String.ofList (Import.pathOf e)

/-- Makes a file known under a path of names. -/
def addKey (path : Path) (t : Table PathSet) (key : String) : Table PathSet :=
  t.insert key (PathSet.insert (t.getD key []) path)

/-- Makes a file known under the ends of a path of names. -/
def addModule (x : ModuleIndex) (names : List String) (path : Path) : ModuleIndex :=
  { x with modules := (keysOf names).foldl (addKey path) x.modules }

/-- Makes a file known, if it lies below the root. -/
def addFile (root : Path) (x : ModuleIndex) (f : MapFile) : ModuleIndex :=
  match root.relativeTo? f.path with
  | none => x
  | some cs =>
    let names := cs.filterMap fun c => c.name?.map RawText.text
    let x := x.addModule (Import.withoutExtension names) f.path
    if standsForDirectory f then x.addModule names.dropLast f.path else x

/-- The files that are known under a path, slashes at its ends aside. -/
def known? (x : ModuleIndex) (key : List Char) : Option PathSet :=
  x.modules.get? (String.ofList (Chars.stripBoth (· = '/') key))

/-- The files that are known under the first path in a group that some file is known under. -/
def lookup (x : ModuleIndex) (group : List (List Char)) : PathSet := (group.findSome? x.known?).getD []

/-- The files that a statement refers to. -/
def search (x : ModuleIndex) (statement : String) : PathSet :=
  (Import.groups statement).foldl (fun found g => found.extend (x.lookup g)) []

/-- Notes that one file imports another one; that a file imports itself is not noted. -/
def link (p : Path) (x : ModuleIndex) (q : Path) : ModuleIndex :=
  if q.same p then x
  else { x with importsOf := x.importsOf.add p q, importers := x.importers.add q p }

/-- Notes what a statement of a file refers to. -/
def addImport (p : Path) (x : ModuleIndex) (statement : String) : ModuleIndex :=
  (x.search statement).foldl (link p) x

/-- Notes what a file imports. -/
def addImports (x : ModuleIndex) (f : MapFile) : ModuleIndex := f.imports.foldl (addImport f.path) x

/-- The module index of a map. -/
def ofMap (m : CodeMap) : ModuleIndex :=
  m.files.foldl addImports (m.files.foldl (addFile m.root) {})

/-- The files that import a file or that it imports. -/
def related (x : ModuleIndex) (path : Path) : List Path :=
  (PathSet.extend (PathSet.extend [] (x.importsOf.get path)) (x.importers.get path)).filter
    (!·.same path)

/-- **Who imports whom has no part in what files are known under.** -/
@[simp] theorem modules_link (p : Path) (x : ModuleIndex) (q : Path) :
    (link p x q).modules = x.modules := by
  unfold link
  split
  · rfl
  · rfl

end ModuleIndex

namespace CodeMap

/-- The resolver that knows the files of a map as modules. -/
def resolver (m : CodeMap) : ImportResolver :=
  let x := ModuleIndex.ofMap m
  { search := x.search, related := x.related }

/-- The files that the file at a path imports, in the order of its imports. -/
def dependencies (m : CodeMap) (r : ImportResolver) (path : Path) : List Path :=
  match m.file? path with
  | none => []
  | some f => Path.firsts ((f.imports.flatMap r.search).filter (!·.same f.path))

/-- The files that are related to the file at a path. -/
def related (m : CodeMap) (r : ImportResolver) (path : Path) : List Path :=
  match m.file? path with
  | none => []
  | some f => (r.related f.path).filter (!·.same f.path)

end CodeMap

end CodeSearch
