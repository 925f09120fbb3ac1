import CodeSearch.Document
import CodeSearch.Index.Error
import CodeSearch.Parsing
import CodeSearch.Selection.Entry

/-!
# Workspaces

A workspace is what a run sees of the file system: what lies at a path, how large a file is, and what
it holds. Each of these questions can fail on its own, as a file may be gone or unreadable between two
of them.
-/

namespace CodeSearch

/-- What the file system tells about a file without reading it. -/
structure FileFacts where
  /-- The size in bytes. -/
  size : Nat
  /-- When the file was changed last. -/
  modified : Option Timestamp
  deriving DecidableEq, Inhabited, Repr

/-- What a run sees of the file system. -/
structure Workspace where
  /-- What lies at a path, links to it followed. -/
  entry? : Path → Option Entry
  /-- What is told about the file at a path. -/
  facts : Path → Except FileError FileFacts
  /-- The bytes of the file at a path. -/
  read : Path → Except FileError (List UInt8)

namespace Workspace

/-- Whether there is something at a path. -/
def contains (w : Workspace) (path : Path) : Bool := (w.facts path).toBool

/-- Whether there is a file at a path. -/
def isFile (w : Workspace) (path : Path) : Bool := (w.entry? path).any Entry.isFile

/-- Whether there is a directory at a path. -/
def isDirectory (w : Workspace) (path : Path) : Bool :=
  (w.entry? path).any fun e => e.listing?.isSome

/-- The document that the file at a path holds, not parsed. -/
def document (w : Workspace) (path : Path) : Except FileError Document := do
  let bytes ← w.read path
  let facts ← w.facts path
  let d := Document.ofBytes path bytes facts.modified
  return { d with metadata := { d.metadata with size := facts.size } }

end Workspace

end CodeSearch
