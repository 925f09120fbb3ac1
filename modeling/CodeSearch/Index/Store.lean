import CodeSearch.Index.Attribute
import CodeSearch.Index.Error
import CodeSearch.VectorStore.Basic

/-!
# The index store

An index keeps two collections in a vector store: one of whole documents and one of chunks. The chunks
of a document carry its id, so that they go when it goes. The vectors come from the caller or from an
embedder.

An operation is a sequence of actions on the store, and one that fails leaves what the actions before
the failure have done.
-/

namespace CodeSearch

/-- What changes an index. -/
abbrev IndexAction (σ α : Type) := EStateM IndexError σ α

/-- A text to be stored under an id. -/
structure TextRecord where
  /-- The id. -/
  id : String
  /-- The text. -/
  content : String
  /-- What is said about it. -/
  attributes : Attributes
  /-- Its vector; without one the text is embedded. -/
  embedding : Option Embedding := none

/-- A stored text. -/
structure StoredText where
  /-- The id. -/
  id : String
  /-- The text. -/
  content : String
  /-- What is stored about it. -/
  fields : Payload
  /-- How well it answers the query that found it. -/
  score : Score

/-- The id of a chunk: that of its document and its position there. -/
def chunkId (document : String) (index : Nat) : String := document ++ "::" ++ toString index

/-! ### Names in the store -/

/-- The collection of documents. -/
def documentsCollection : String := "repomind_documents"

/-- The collection of chunks. -/
def chunksCollection : String := "repomind_chunks"

/-- The field that holds the id of the document. -/
def documentIdField : String := "document_id"

/-- The field that holds the text. -/
def contentField : String := "content"

/-! ### Records and points -/

/-- The vector of a record. -/
def TextRecord.vector (r : TextRecord) (e : Embedder) : Except IndexError Embedding :=
  match r.embedding with
  | some v => .ok v
  | none => (e.embed r.content).mapError .embedding

/-- What is stored with a record. -/
def TextRecord.payload (r : TextRecord) : Payload :=
  r.attributes.payload.insert contentField (.str r.content)

/-- The point of a record. -/
def TextRecord.point (r : TextRecord) (e : Embedder) : Except IndexError Point := do
  return { id := r.id, vector := ← r.vector e, payload := r.payload }

/-- The text in a payload, and the payload without it. -/
def takeContent (p : Payload) : String × Payload :=
  (((p.get? contentField).bind Json.str?).getD "", p.erase contentField)

/-- The stored text of a hit. -/
def StoredText.ofHit (h : Hit) : StoredText :=
  let (content, fields) := takeContent h.payload
  { id := h.id, content, fields, score := h.score }

/-- The stored text of a point that was asked for by its id. -/
def StoredText.ofPoint (p : Point) : StoredText :=
  let (content, fields) := takeContent p.payload
  { id := p.id, content, fields, score := ⟨1, false⟩ }

/-- The text in a field. -/
def StoredText.text? (s : StoredText) (field : String) : Option String :=
  (s.fields.get? field).bind Json.str?

/-- The count in a field. -/
def StoredText.count? (s : StoredText) (field : String) : Option Nat :=
  (s.fields.get? field).bind Json.count?

/-! ### Operations -/

namespace IndexStore

variable {σ : Type} [VectorStore σ]

/-- An action on the store as one on the index. -/
def onStore {α : Type} (a : StoreAction σ α) : IndexAction σ α := a.adaptExcept .storage

/-- Stores a document and gives its id back. -/
def addDocument (e : Embedder) (r : TextRecord) : IndexAction σ String := do
  let p ← MonadExcept.ofExcept (r.point e)
  onStore (VectorStore.ensure documentsCollection p.vector.length)
  onStore (VectorStore.upsert documentsCollection
    [{ p with payload := p.payload.insert documentIdField (.str r.id) }])
  return r.id

/-- Stores chunks and gives their ids back. All of them are embedded before one is stored. -/
def addChunks (e : Embedder) (rs : List TextRecord) : IndexAction σ (List String) := do
  match ← MonadExcept.ofExcept (rs.mapM (·.point e)) with
  | [] => return []
  | first :: rest =>
    match rest.find? (·.vector.length ≠ first.vector.length) with
    | some p => throw (.unequal p.id first.vector.length p.vector.length)
    | none =>
      onStore (VectorStore.ensure chunksCollection first.vector.length)
      onStore (VectorStore.upsert chunksCollection (first :: rest))
      return (first :: rest).map Point.id

/-- Takes out a document and its chunks, and counts the chunks. -/
def deleteDocument (id : String) : IndexAction σ Nat := do
  let removed ← onStore (VectorStore.deleteWhere chunksCollection (.textIs documentIdField id))
  if VectorStore.contains (← get) documentsCollection then
    onStore (VectorStore.deleteIds documentsCollection [id])
  return removed

/-- Puts a document and its chunks in the place of what is stored under its id, and counts the chunks. -/
def replaceDocument (e : Embedder) (r : TextRecord) (chunks : List TextRecord) :
    IndexAction σ Nat := do
  let _ ← deleteDocument r.id
  let _ ← addDocument e r
  return (← addChunks e chunks).length

/-- Drops a collection if it is there. -/
def dropCollection (collection : String) : IndexAction σ Unit := do
  if VectorStore.contains (← get) collection then onStore (VectorStore.drop collection)

/-- Drops both collections. -/
def clear : IndexAction σ Unit := do
  dropCollection documentsCollection
  dropCollection chunksCollection

/-- The best texts of a collection for a query. -/
def search (s : σ) (collection : String) (query : Embedding) (k : Nat) (f : Filter) :
    Except StoreError (List StoredText) :=
  if k = 0 ∨ !VectorStore.contains s collection then .ok []
  else (VectorStore.search s collection query k f).map (·.map .ofHit)

/-- The best documents for a query. -/
def searchDocuments (s : σ) (query : Embedding) (k : Nat) (f : Filter) :
    Except StoreError (List StoredText) := search s documentsCollection query k f

/-- The best chunks for a query. -/
def searchChunks (s : σ) (query : Embedding) (k : Nat) (f : Filter) :
    Except StoreError (List StoredText) := search s chunksCollection query k f

/-- The document with an id. -/
def document? (s : σ) (id : String) : Except StoreError (Option StoredText) :=
  (VectorStore.get s documentsCollection [id]).map fun ps => ps.getLast?.map .ofPoint

/-- The text in one field of every document, by document; the empty text where there is none. -/
def documentFields (s : σ) (field : String) : Except StoreError (Table String) :=
  if VectorStore.contains s documentsCollection then
    (VectorStore.scroll s documentsCollection documentIdField).map fun rows =>
      rows.map fun (id, fields) => (id, fields.getD field "")
  else .ok []

/-- The ids of all documents. -/
def documentIds (s : σ) : Except StoreError (List String) :=
  (documentFields s documentIdField).map Table.keys

end IndexStore

end CodeSearch
