import CodeSearch.FileSystem.Basic

/-!
# Changing a file system

Directories are made with all that are missing on the way to them; files are written through links, and
links and directories are taken out as they are.
-/

namespace CodeSearch.FileSystem

/-- The file system with a node put to a place, or with the node there taken out. -/
def put (fs : FileSystem) (names : List String) (new : Option FileNode) : FileSystem :=
  { fs with root := fs.root.put new names }

/-- Makes the directory at a path if there is nothing yet and the way to it is there. -/
def makeDirectory (fs : FileSystem) (path : Path) : Except FileError FileSystem := do
  let p ← fs.place false path
  match p.node? with
  | some _ => throw .alreadyExists
  | none => return fs.put p.names (some .empty)

/-- Whether there is a directory at a path. -/
def isDirectory (fs : FileSystem) (path : Path) : Bool :=
  (fs.node path).toOption.any FileNode.isDirectory

/-- Makes the directory of some components, the last one first, with those missing on the way. One that
is there already is as good as a new one. -/
def makeDirectoriesTo (fs : FileSystem) : List Path.Component → Except FileError FileSystem
  | [] => .ok fs
  | c :: above =>
    let path := Path.ofComponents (c :: above).reverse
    match fs.makeDirectory path with
    | .ok fs => .ok fs
    | .error .notFound => do
      -- the way to the directory is missing: it is made first
      let fs ← fs.makeDirectoriesTo above
      match fs.makeDirectory path with
      | .ok fs => return fs
      | .error e => if fs.isDirectory path then return fs else throw e
    | .error e => if fs.isDirectory path then .ok fs else .error e

/-- Makes the directory at a path, with those missing on the way. -/
def makeDirectories (fs : FileSystem) (path : Path) : Except FileError FileSystem :=
  fs.makeDirectoriesTo path.components.reverse

/-- The directory that a path lies in, if it is not the root. -/
def directoryOf? (path : Path) : Option Path := path.parent?.map Path.ofComponents

/-- Makes the directories on the way to a path. -/
def makeParents (fs : FileSystem) (path : Path) : Except FileError FileSystem :=
  (directoryOf? path).elim (.ok fs) fs.makeDirectories

/-- Puts a file at a path, in the place of the file that may be there. -/
def writeNode (fs : FileSystem) (path : Path) (new : FileNode) : Except FileError FileSystem := do
  let p ← fs.place true path
  match p.node? with
  | some (.directory _) => throw .isDirectory
  | _ => return fs.put p.names (some new)

/-- Writes bytes to a file. -/
def write (fs : FileSystem) (path : Path) (bytes : List UInt8) (modified : Option Timestamp) :
    Except FileError FileSystem :=
  fs.writeNode path (.file bytes modified)

/-- Makes a symbolic link. -/
def makeLink (fs : FileSystem) (path : Path) (target : String) : Except FileError FileSystem := do
  let p ← fs.place false path
  match p.node? with
  | some _ => throw .alreadyExists
  | none => if target = "" then throw .notFound else return fs.put p.names (some (.link target))

/-- Takes out what is at a path: a file, a link or a directory with all that is in it. -/
def remove (fs : FileSystem) (path : Path) : Except FileError FileSystem := do
  let (names, _) ← fs.find false path
  return fs.put names none

end CodeSearch.FileSystem
