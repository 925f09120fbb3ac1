import CodeSearch.VectorStore.Database
import CodeSearch.Workspace

/-!
# File systems

A file system is a tree of directories with files and symbolic links in it, and a working directory at
which relative paths start. A path is followed step by step: a `.` stays in the directory reached, a
`..` leaves it upwards, a name enters it, and a link leads on to its target. A slash at the end asks for
a directory. Only so many links are followed on one way. All names in the tree are texts.

* `follow_nil` — a path without steps ends where it starts.
-/

namespace CodeSearch

/-- A node of a file system. -/
inductive FileNode where
  /-- A file with its bytes. -/
  | file (bytes : List UInt8) (modified : Option Timestamp)
  /-- A file that holds an index. -/
  | index (d : Database)
  /-- A directory with its entries by name, if it can be looked into. -/
  | directory (entries : Option (List (String × FileNode)))
  /-- A symbolic link with its target. -/
  | link (target : String)
  /-- A socket or a device. -/
  | other

namespace FileNode

/-- An empty directory. -/
def empty : FileNode := directory (some [])

/-- Whether a node is a file. -/
def isFile : FileNode → Bool
  | file .. | index _ => true
  | directory _ | link _ | other => false

/-- Whether a node is a directory. -/
def isDirectory : FileNode → Bool
  | directory _ => true
  | file .. | index _ | link _ | other => false

/-- The node under a name in a directory. -/
def child? (name : String) : FileNode → Except FileError (Option FileNode)
  | directory (some entries) => .ok (Table.get? entries name)
  | directory none => .error .denied
  | file .. | index _ | link _ | other => .error .notDirectory

/-- The node to which names lead, no links followed. -/
def at? : List String → FileNode → Option FileNode
  | [], n => some n
  | name :: rest, directory (some entries) => (Table.get? entries name).bind (at? rest)
  | _ :: _, _ => none

/-- The tree with a node put to where names lead, or with the node there taken out. -/
def put (new : Option FileNode) : List String → FileNode → FileNode
  | [], n => new.getD n
  | [name], directory (some entries) =>
    directory (some (new.elim (Table.erase entries name) (Table.insert entries name)))
  | name :: rest, directory (some entries) =>
    match Table.get? entries name with
    | some inner => directory (some (Table.insert entries name (put new rest inner)))
    | none => directory (some entries)
  | _ :: _, n => n

end FileNode

/-- A tree of files with a working directory. -/
structure FileSystem where
  /-- The root directory. -/
  root : FileNode
  /-- The names that lead from the root to the working directory. -/
  here : List String

/-- Where a path leads. -/
structure FilePlace where
  /-- The names that lead from the root to the place. -/
  names : List String
  /-- What is there, if there is something. -/
  node? : Option FileNode

namespace FileSystem

/-- The greatest length of a name in bytes. -/
def greatestName : Nat := 255

/-- How many links are followed on one way. -/
def greatestLinks : Nat := 40

/-- The steps of a path: the stretches between its slashes, and one that stays if it ends in a slash. -/
def stepsOf (text : String) : List String :=
  (Text.pieces '/' text).filter (· ≠ "") ++ if text.toList.getLast? = some '/' then ["."] else []

/-- Where a path starts. -/
def startOf (here : List String) (text : String) : List String :=
  if text.toList.head? = some '/' then [] else here

/-- Follows steps from a place in a tree. The last step may lead to where nothing is yet; a link there
is followed if asked for. -/
def follow (root : FileNode) (last : Bool) (links : Nat) (at_ : List String) (steps : List String) :
    Except FileError FilePlace :=
  match steps with
  | [] => .ok { names := at_, node? := root.at? at_ }
  | step :: rest =>
    match root.at? at_ with
    | none => .error .notFound
    | some here =>
      -- even `.` and `..` ask for a directory that can be looked into
      match here.child? step with
      | .error e => .error e
      | .ok found =>
        if step = "." then follow root last links at_ rest
        else if step = ".." then follow root last links at_.dropLast rest
        else if greatestName < step.utf8ByteSize then .error .nameTooLong
        else match found with
          | none => if rest.isEmpty then .ok { names := at_ ++ [step], node? := none } else .error .notFound
          | some (.link target) =>
            -- the target starts where the link lies, and what is left of the way follows it
            if rest.isEmpty && !last then
              .ok { names := at_ ++ [step], node? := some (.link target) }
            else if links = 0 then .error .tooManyLinks
            else follow root last (links - 1) (startOf at_ target) (stepsOf target ++ rest)
          | some _ => follow root last links (at_ ++ [step]) rest
termination_by (links, steps.length)

@[simp] theorem follow_nil (root : FileNode) (last : Bool) (links : Nat) (names : List String) :
    follow root last links names [] = .ok { names, node? := root.at? names } := by
  rw [follow]

/-- Where a path leads. A path that is no text leads nowhere, as all names of the tree are texts. -/
def place (fs : FileSystem) (last : Bool) (path : Path) : Except FileError FilePlace :=
  match path.raw.text? with
  | none => .error .notFound
  | some text =>
    if text = "" then .error .notFound
    else if text.toList.contains '\x00' then .error .invalidPath
    else follow fs.root last greatestLinks (startOf fs.here text) (stepsOf text)

/-- What a path leads to. -/
def find (fs : FileSystem) (last : Bool) (path : Path) : Except FileError (List String × FileNode) := do
  let p ← fs.place last path
  match p.node? with
  | some n => return (p.names, n)
  | none => throw .notFound

/-- What a path leads to, links followed. -/
def node (fs : FileSystem) (path : Path) : Except FileError FileNode :=
  (fs.find true path).map Prod.snd

/-! ### Reading -/

/-- The size that is told for a directory. -/
def directorySize : Nat := 4096

/-- What is read of a file that holds an index: it is no text. -/
def indexMark : List UInt8 := [0]

/-- The bytes of a file. -/
def read (fs : FileSystem) (path : Path) : Except FileError (List UInt8) := do
  match ← fs.node path with
  | .file bytes _ => return bytes
  | .index _ => return indexMark
  | .directory _ => throw .isDirectory
  | .link _ | .other => throw .notFound

/-- What is told about a file. -/
def facts (fs : FileSystem) (path : Path) : Except FileError FileFacts := do
  match ← fs.node path with
  | .file bytes modified => return { size := bytes.length, modified }
  | .index _ => return { size := directorySize, modified := none }
  | .directory _ | .link _ | .other => return { size := directorySize, modified := none }

/-- Whether a link in a directory leads to a file. -/
def linkLeadsToFile (root : FileNode) (directory : List String) (target : String) : Bool :=
  match follow root true (greatestLinks - 1) (startOf directory target) (stepsOf target) with
  | .ok p => p.node?.any FileNode.isFile
  | .error _ => false

mutual

/-- What a walk sees of a node; `root` is the tree that it belongs to and `names` lead to it. -/
def entryOf (root : FileNode) (names : List String) : FileNode → Entry
  | .file .. | .index _ => .file
  | .directory none => .directory none
  | .directory (some es) => .directory (some (entriesOf root names es))
  | .link target => if linkLeadsToFile root names.dropLast target then .fileLink else .other
  | .other => .other

/-- What a walk sees of the entries of a directory. -/
def entriesOf (root : FileNode) (names : List String) : List (String × FileNode) →
    List (RawText × Entry)
  | [] => []
  | (name, n) :: r => (name, entryOf root (names ++ [name]) n) :: entriesOf root names r

end

/-- What lies at a path, links to it followed. -/
def entry? (fs : FileSystem) (path : Path) : Option Entry :=
  match fs.find true path with
  | .ok (names, n) => some (entryOf fs.root names n)
  | .error _ => none

/-- What a run sees of a file system. -/
def workspace (fs : FileSystem) : Workspace :=
  { entry? := fs.entry?, facts := fs.facts, read := fs.read }

end FileSystem

end CodeSearch
