import CodeSearch.Chunks.Split
import CodeSearch.Chunks.Syntax
import CodeSearch.Parsing

/-!
# Cutting documents into chunks

A document is cut by its declarations, and long chunks are split. A document without any chunk of its
own is one chunk as a whole, before splitting.
-/

namespace CodeSearch

/-- The chunk that a text without declarations is. -/
def wholeChunk (content : String) : Chunk :=
  { content, startLine := 1, endLine := max 1 (Text.lineCount content), kind := .fileScope,
    symbols := [], parents := [], contentHash := Digest.ofText content }

/-- The chunks of a text before splitting. -/
def firstChunks (content : String) (definitions : List Definition) : List Chunk :=
  let chunks := syntaxChunks content definitions
  if chunks.isEmpty then [wholeChunk content] else chunks

/-- The chunks of a text with some declarations. -/
def chunksWith (s : ChunkSettings) (content : String) (definitions : List Definition) : List Chunk :=
  (firstChunks content definitions).flatMap (Chunk.split s)

/-- The chunks of a text with some declarations; none if one of them runs backwards. -/
def chunksWith? (s : ChunkSettings) (content : String) (definitions : List Definition) :
    Option (List Chunk) :=
  (syntaxChunks? content definitions).map fun _ => chunksWith s content definitions

/-- The chunks of a document, which is parsed for it. -/
def Document.chunked (d : Document) (s : ChunkSettings) (g : Grammars) : Option (List Chunk) :=
  let outline := (d.metadata.language.bind fun l => Outline.ofSource? g l d.content).getD {}
  chunksWith? s d.content outline.definitions

end CodeSearch
