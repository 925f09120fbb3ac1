import CodeSearch.Document
import CodeSearch.Index.Store

/-!
# Results of a search

A result is a chunk with its score. Results are ranked by score, the highest first; equal scores fall
back on the document, the line and the id of the chunk, so the order of a list of different chunks is
never open.

* `perm_ranked` — ranking neither loses nor repeats a result.
-/

namespace CodeSearch

/-- How a result came about. -/
inductive MatchSource where
  /-- The chunk itself is like the query. -/
  | vector
  /-- The file of the chunk is related to one that has such a chunk. -/
  | structural
  deriving DecidableEq, Repr

/-- The name of a source. -/
def MatchSource.name : MatchSource → String
  | .vector => "vector"
  | .structural => "structural"

/-- A chunk that answers a query. -/
structure RetrievalResult where
  /-- The id of the chunk. -/
  chunkId : String
  /-- The id of its document. -/
  documentId : String
  /-- The text. -/
  content : String
  /-- The first line. -/
  startLine : Nat
  /-- The last line. -/
  endLine : Nat
  /-- What the lines hold. -/
  kind : Option ChunkKind
  /-- The name that the chunk declares. -/
  name : Option String
  /-- How well the chunk answers. -/
  score : Score
  /-- How the result came about. -/
  source : MatchSource

/-! ### Fields of stored chunks -/

/-- The field that holds the first line. -/
def startLineField : String := "start_line"

/-- The field that holds the last line. -/
def endLineField : String := "end_line"

/-- The field that holds the kind. -/
def kindField : String := "kind"

/-- The field that holds the name. -/
def nameField : String := "name"

namespace RetrievalResult

/-- The result that a stored chunk makes. -/
def ofStored (s : StoredText) (score : Score) (source : MatchSource) : RetrievalResult :=
  { chunkId := s.id
    documentId := (s.text? documentIdField).getD s.id
    content := s.content
    startLine := (s.count? startLineField).getD 1
    endLine := (s.count? endLineField).getD 1
    kind := (s.text? kindField).bind ChunkKind.ofName?
    name := (s.text? nameField).filter (· ≠ "")
    score, source }

/-- The order of results. -/
def ranking (a b : RetrievalResult) : Ordering :=
  (compare b.score.rank a.score.rank).then
    ((compare a.documentId b.documentId).then
      ((compare a.startLine b.startLine).then (compare a.chunkId b.chunkId)))

/-- Results in their order. -/
def ranked (rs : List RetrievalResult) : List RetrievalResult :=
  rs.mergeSort fun a b => (ranking a b).isLE

theorem perm_ranked (rs : List RetrievalResult) : (ranked rs).Perm rs := List.mergeSort_perm _ _

end RetrievalResult

end CodeSearch
