import CodeSearch.Chunks.Chunker
import CodeSearch.Embedding.Text
import CodeSearch.Index.Store
import CodeSearch.Retrieval.Result
import CodeSearch.Selection.Selector
import CodeSearch.Workspace

/-!
# Indexing one file

A file is read, parsed and cut into chunks, unless it is too large or binary. All its texts are embedded
before the store is touched, so a text that cannot be embedded leaves the index as it was.
-/

namespace CodeSearch

/-- How files are indexed. -/
structure Indexer where
  /-- Which files are indexed. -/
  selector : Selector
  /-- How they are cut. -/
  chunks : ChunkSettings
  /-- Which of them are passed over. -/
  index : IndexSettings
  /-- What parses them. -/
  grammars : Grammars

/-- The indexer that settings describe. -/
def Indexer.ofSettings (s : Settings) (g : Grammars) : Indexer :=
  { selector := .ofSettings s.selection, chunks := s.chunks, index := s.index, grammars := g }

/-- Why a file is passed over. -/
inductive SkipReason where
  /-- The file is binary. -/
  | binary
  /-- The file is too large. -/
  | tooLarge
  deriving DecidableEq, Repr

/-- What becomes of a file that could be read. -/
inductive Prepared where
  /-- It is a document to be stored. -/
  | ready (d : Document)
  /-- It is passed over. -/
  | skipped (reason : SkipReason)

/-- How many bytes are looked at to tell a binary file. -/
def sniffedBytes : Nat := 8192

/-- Whether bytes are no text: there is a zero among the first of them. -/
def looksBinary (bytes : List UInt8) : Bool := (bytes.take sniffedBytes).contains 0

/-! ### Attributes -/

/-- The field that holds the digest of the text. -/
def contentHashField : String := "content_hash"

/-- What is said of a document and of each of its chunks. -/
def commonAttributes (id : String) (m : Metadata) : List (String × Attribute) :=
  [(documentIdField, .ofText id), ("path", .ofText m.path.text),
    ("language", .ofText? (m.language.map Language.id))]

/-- The lines of a symbol, as far as they can be stored as numbers. -/
def symbolLines (lines : List Nat) : Attribute :=
  .list ((lines.filter (· ≤ Attribute.greatestInteger)).map fun (n : Nat) => .integer n)

/-- What is said of a document. -/
def documentAttributes (id : String) (m : Metadata) : Attributes :=
  .ofList (commonAttributes id m ++
    [(contentHashField, .ofText m.contentHash),
      ("size", .scalar (.integer (min m.size Attribute.greatestInteger : Nat))),
      ("line_count", .ofCount m.lineCount),
      ("modified", ((m.modified.map Timestamp.seconds).filter (· ≤ Attribute.greatestInteger)).elim
        .absent fun n => .scalar (.integer n)),
      ("imports", .ofTexts m.imports), ("classes", .ofTexts m.classes),
      ("functions", .ofTexts m.functions),
      ("symbols", .named (m.symbols.map fun (name, lines) => (name, symbolLines lines))),
      ("doc_comment", .ofText? m.docComment)])

/-- What is said of a chunk. -/
def chunkAttributes (id : String) (m : Metadata) (c : Chunk) : Attributes :=
  .ofList (commonAttributes id m ++
    [(kindField, .ofText c.kind.name), (nameField, .ofText? c.name?),
      ("parents", .ofTexts c.parents), (startLineField, .ofCount c.startLine),
      (endLineField, .ofCount c.endLine), (contentHashField, .ofText c.contentHash)])

namespace Indexer

/-- The document that bytes make under an id, parsed and cut. -/
def documentOf (i : Indexer) (id : String) (bytes : List UInt8) (facts : FileFacts) : Document :=
  let d := Document.ofBytes ⟨id⟩ bytes facts.modified
  let d := { d with id := some id, metadata := { d.metadata with size := facts.size } }
  let (d, outline) := d.parse i.grammars
  { d with chunks := chunksWith i.chunks d.content (outline.getD {}).definitions }

/-- Reads a file, unless it is passed over. -/
def prepare (i : Indexer) (w : Workspace) (path : Path) (id : String) :
    Except FileError Prepared := do
  let facts ← w.facts path
  if 0 < i.index.maxFileSize ∧ i.index.maxFileSize < facts.size then return .skipped .tooLarge
  let bytes ← w.read path
  if looksBinary bytes then return .skipped .binary
  return .ready (i.documentOf id bytes facts)

end Indexer

/-- The record of a document with its vector. -/
def Document.record (d : Document) (e : Embedder) (id : String) : Except IndexError TextRecord := do
  let vector ← (e.embed (d.metadata.embeddingText d.content)).mapError .embedding
  return { id, content := d.content, attributes := documentAttributes id d.metadata,
           embedding := some vector }

/-- The record of a chunk with its vector. -/
def Chunk.record (c : Chunk) (e : Embedder) (id : String) (m : Metadata) (index : Nat) :
    Except IndexError TextRecord := do
  let vector ← (e.embed (c.embeddingText m)).mapError .embedding
  return { id := chunkId id index, content := c.content, attributes := chunkAttributes id m c,
           embedding := some vector }

/-- The records of a document and of its chunks. -/
def Document.records (d : Document) (e : Embedder) (id : String) :
    Except IndexError (TextRecord × List TextRecord) := do
  let whole ← d.record e id
  let parts ← d.chunks.zipIdx.mapM fun (c, n) => c.record e id d.metadata n
  return (whole, parts)

namespace IndexStore

variable {σ : Type} [VectorStore σ]

/-- Stores a document with its chunks in the place of what is stored under its id, and counts the
chunks. -/
def writeDocument (e : Embedder) (id : String) (d : Document) : IndexAction σ Nat := do
  let (whole, parts) ← MonadExcept.ofExcept (d.records e id)
  replaceDocument e whole parts

end IndexStore

end CodeSearch
