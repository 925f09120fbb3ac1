import CodeSearch.Digest
import CodeSearch.Language
import CodeSearch.Table
import CodeSearch.Text.Bytes

/-!
# Documents and chunks

A document is the text of a file together with what is known about it (`Metadata`). A chunk is a
contiguous range of its lines. A document is known in an index by its *id*: its place below the root
of the index, with slashes between the names.

* `componentsBelow?_of_relative` — how a relative path is read below a root;
* `newMetadata_lineCount`, `newMetadata_hash` — the facts that are read off the text.
-/

namespace CodeSearch

/-- A moment, counted from the start of 1970. -/
structure Timestamp where
  /-- Whole seconds. -/
  seconds : Nat
  /-- Billionths of a second beyond them. -/
  nanoseconds : Nat
  deriving DecidableEq, Inhabited, Repr

/-- What kind of code a chunk holds. -/
inductive ChunkKind where
  /-- Code outside all declarations, or a whole file. -/
  | fileScope
  /-- The declaration of a type. -/
  | classLike
  /-- A function. -/
  | function
  /-- A function that belongs to a type. -/
  | method
  deriving DecidableEq, Inhabited, Repr

namespace ChunkKind

/-- The name of a kind. -/
def name : ChunkKind → String
  | fileScope => "module"
  | classLike => "class"
  | function => "function"
  | method => "method"

/-- The kind with a name. -/
def ofName? (s : String) : Option ChunkKind :=
  [fileScope, classLike, function, method].find? fun k => k.name == s

@[simp] theorem ofName?_name (k : ChunkKind) : ofName? k.name = some k := by
  cases k <;> decide

end ChunkKind

/-- The facts about a document: those of the file, and those that its syntax tree adds. -/
structure Metadata where
  /-- Where the file lies. -/
  path : Path
  /-- The language, if the file name tells one. -/
  language : Option Language
  /-- The size of the file in bytes. -/
  size : Nat
  /-- When the file was changed last. -/
  modified : Option Timestamp
  /-- How many lines the text has. -/
  lineCount : Nat
  /-- The text of each import, in their order. -/
  imports : List String
  /-- The names of the types. -/
  classes : List String
  /-- The names of the functions and methods. -/
  functions : List String
  /-- The lines, counted from 1, on which each name is declared. -/
  symbols : Table (List Nat)
  /-- The comment that describes the file. -/
  docComment : Option String
  /-- The digest of the text. -/
  contentHash : String
  deriving DecidableEq, Inhabited, Repr

/-- A range of the lines of a document; lines are counted from 1. -/
structure Chunk where
  /-- The text of the lines. -/
  content : String
  /-- The first line. -/
  startLine : Nat
  /-- The last line. -/
  endLine : Nat
  /-- What the lines hold. -/
  kind : ChunkKind
  /-- The names that the chunk declares. -/
  symbols : List String
  /-- The names of the types around it, the outermost first. -/
  parents : List String
  /-- The digest of the text. -/
  contentHash : String
  deriving DecidableEq, Inhabited, Repr

/-- The first name that a chunk declares. -/
def Chunk.name? (c : Chunk) : Option String := c.symbols.head?

/-- A text with the facts about it and the chunks that it is cut into. -/
structure Document where
  /-- The name of the document in an index, once it has one. -/
  id : Option String := none
  /-- The text. -/
  content : String
  /-- The facts about it. -/
  metadata : Metadata
  /-- The chunks, once there are some. -/
  chunks : List Chunk := []
  deriving DecidableEq, Inhabited, Repr

namespace Document

/-- The facts that a path and a text tell without a syntax tree. -/
def newMetadata (path : Path) (content : String) : Metadata :=
  { path, language := Language.ofPath? path, size := Text.byteSize content, modified := none,
    lineCount := Text.lineCount content, imports := [], classes := [], functions := [],
    symbols := [], docComment := none, contentHash := Digest.ofText content }

/-- A document that has not been parsed. -/
def new (path : Path) (content : String) : Document :=
  { content, metadata := newMetadata path content }

/-- A document read from the bytes of a file. -/
def ofBytes (path : Path) (bytes : List UInt8) (modified : Option Timestamp) : Document :=
  let d := new path (Text.decodeLossy bytes)
  { d with metadata := { d.metadata with size := bytes.length, modified } }

/-- The text of the lines `first` to `last`. -/
def lineRange (d : Document) (first last : Nat) : String := Text.lineRange d.content first last

@[simp] theorem newMetadata_lineCount (path : Path) (content : String) :
    (newMetadata path content).lineCount = (Chars.lines content.toList).length := rfl

@[simp] theorem newMetadata_hash (path : Path) (content : String) :
    (newMetadata path content).contentHash = Digest.ofText content := rfl

end Document

/-- The components of a path below a root: those after the root's if the path is absolute or starts
with the root, and all of them if the path is relative and does not. -/
def componentsBelow? (root path : Path) : Option (List Path.Component) :=
  if path.isAbsolute ∨ root.startsWith path then root.relativeTo? path else some path.components

/-- The names that lead from a root to a path; none if the path is the root, lies outside it or steps
upwards. -/
def namesBelow? (root path : Path) : Option (List String) :=
  (componentsBelow? root path).bind fun cs =>
    (Path.names? cs).bind fun names => if names.isEmpty then none else some names

/-- The id of a path in an index of a root. -/
def documentId? (root path : Path) : Option String := (namesBelow? root path).map (Text.join "/")

/-- A relative path that does not start with the root is read as lying below it. -/
theorem componentsBelow?_of_relative {root path : Path} (ha : path.isAbsolute = false)
    (hs : root.startsWith path = false) : componentsBelow? root path = some path.components := by
  simp [componentsBelow?, ha, hs]

end CodeSearch
