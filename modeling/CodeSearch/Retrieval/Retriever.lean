import CodeSearch.CodeMap.Resolver
import CodeSearch.Retrieval.Result
import CodeSearch.Settings

/-!
# Retrieval

The chunks most like a query are fetched from the index. If the structure of the code is known, the
files related to the best of them send their own best chunk, at a discount of the score of the chunk
that brought them in. Whatever fails on the way fails the retrieval: no answer is ever a part of one.

* `mem_merge` — what is put together of direct and structural results.
-/

namespace CodeSearch

/-- What is known about the structure of the code. -/
structure StructuralContext where
  /-- The map of the code. -/
  map : CodeMap
  /-- What files are related. -/
  resolver : ImportResolver

namespace Retrieval

/-- The first result of each document. -/
def origins : List RetrievalResult → List RetrievalResult
  | [] => []
  | r :: rs => r :: (origins rs).filter (·.documentId ≠ r.documentId)

/-- The documents that are related to a document: those of the first few related files. -/
def relatedDocuments (c : StructuralContext) (perCandidate : Nat) (document : String) :
    List String :=
  (((c.map.related c.resolver ⟨document⟩).take perCandidate).filterMap
    (documentId? c.map.root)).filter (· ≠ document)

/-- Adds a structural result: a direct result for its chunk stands, and of two structural ones the one
with the higher score. -/
def merge : List RetrievalResult → RetrievalResult → List RetrievalResult
  | [], extra => [extra]
  | r :: rs, extra =>
    if r.chunkId = extra.chunkId then
      -- scores that are not defined compare with none, so the first one stays
      if r.source = .structural ∧ r.score.value < extra.score.value then extra :: rs else r :: rs
    else r :: merge rs extra

theorem mem_merge {rs : List RetrievalResult} {extra r : RetrievalResult} (h : r ∈ merge rs extra) :
    r = extra ∨ r ∈ rs := by
  induction rs with
  | nil => exact Or.inl (List.mem_singleton.1 h)
  | cons s rs ih =>
    rw [merge] at h
    split at h
    · split at h
      · exact (List.mem_cons.1 h).imp_right (List.mem_cons_of_mem _)
      · exact Or.inr h
    · rcases List.mem_cons.1 h with h | h
      · exact Or.inr (h ▸ List.mem_cons_self)
      · exact (ih h).imp_right (List.mem_cons_of_mem _)

variable {σ : Type} [VectorStore σ]

/-- The best chunk of a document for a query. -/
def bestChunk? (s : σ) (query : Embedding) (document : String) :
    Except RetrievalError (Option StoredText) :=
  ((IndexStore.searchChunks s query 1 (.textIs documentIdField document)).mapError .related).map
    List.head?

/-- The results that the files related to a direct result add. -/
def structuralOf (s : σ) (c : StructuralContext) (settings : RetrievalSettings) (query : Embedding)
    (origin : RetrievalResult) : Except RetrievalError (List RetrievalResult) := do
  let best ← (relatedDocuments c settings.relatedPerCandidate origin.documentId).mapM
    (bestChunk? s query)
  return best.reduceOption.map fun t =>
    .ofStored t (origin.score.scale settings.structuralDiscount) .structural

/-- The results that direct results add, the first of each document. -/
def structural (s : σ) (c : StructuralContext) (settings : RetrievalSettings) (query : Embedding)
    (direct : List RetrievalResult) : Except RetrievalError (List RetrievalResult) := do
  return ((← (origins direct).mapM (structuralOf s c settings query)).flatten)

/-- How many chunks are fetched for a number of results. -/
def candidateCount (settings : RetrievalSettings) (k : Nat) : Nat :=
  k * max settings.candidateMultiplier 1

/-- The chunks most like a query. -/
def candidates (s : σ) (settings : RetrievalSettings) (query : Embedding) (k : Nat) :
    Except RetrievalError (List RetrievalResult) := do
  let found ← (IndexStore.searchChunks s query (candidateCount settings k) {}).mapError .search
  return found.map fun t => .ofStored t t.score .vector

/-- The best `k` results for a query, with the structural ones if there is a structure to go by. -/
def answer (s : σ) (structure? : Option StructuralContext) (settings : RetrievalSettings)
    (query : Embedding) (k : Nat) : Except RetrievalError (List RetrievalResult) := do
  let direct ← candidates s settings query k
  let extra ← match structure? with
    | none => .ok []
    | some c => structural s c settings query ((RetrievalResult.ranked direct).take k)
  return (RetrievalResult.ranked (extra.foldl merge direct)).take k

/-- The best `k` results for the text of a query. -/
def retrieve (s : σ) (e : Embedder) (structure? : Option StructuralContext)
    (settings : RetrievalSettings) (query : String) (k : Nat) (useStructure : Bool) :
    Except RetrievalError (List RetrievalResult) :=
  if k = 0 then .ok []
  else do
    let vector ← (e.embed query).mapError .query
    answer s (if useStructure then structure? else none) settings vector k

/-- The results for a query, as many and by the means that the settings say. -/
def search (s : σ) (e : Embedder) (structure? : Option StructuralContext)
    (settings : RetrievalSettings) (query : String) :
    Except RetrievalError (List RetrievalResult) :=
  retrieve s e structure? settings query settings.maxResults settings.useStructuralContext

end Retrieval

end CodeSearch
