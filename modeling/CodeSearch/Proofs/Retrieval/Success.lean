import CodeSearch.Proofs.Retrieval.Structural

/-!
# Retrievals that succeed

What a store gives can be told if its vectors can be read and the query has the right length. A search that
is made finds out: a store that shows all vectors of a collection or none (`ThoroughVectorStore`) answers
only if both is so (`searchChunks_ok`). So of a retrieval that succeeded it is known what it gave, without
further assumptions (`retrieve_ok`).
-/

namespace CodeSearch

/-- Stores that do not answer a search of vectors that they cannot read. -/
class ThoroughVectorStore (σ : Type) [VectorStore σ] [LawfulVectorStore σ] [TransparentVectorStore σ] :
    Prop where
  readable_of_search : ∀ {s : σ} {c : String} {query : Embedding} {k : Nat} {f : Filter} {hits : List Hit},
    VectorStore.search s c query k f = .ok hits → ∀ p ∈ points s c, readable σ p.vector = true

instance : ThoroughVectorStore Memory where
  readable_of_search _ _ _ := rfl

/-- **The rows of a collection are read before they are filtered.** -/
instance : ThoroughVectorStore Database where
  readable_of_search := by
    intro d name query k f hits h p hp
    obtain ⟨r, hr, rfl⟩ := List.mem_map.1 hp
    exact List.all_eq_true.2 (Database.isReadable_of_search h r hr).1

namespace Retrieval

open RetrievalResult (ranked)

variable {σ : Type} [VectorStore σ] [LawfulVectorStore σ] [TransparentVectorStore σ]
  [ThoroughVectorStore σ] {s : σ}

/-- **A search among chunks that succeeds** has read all vectors, and the query has their length. -/
theorem searchChunks_ok (hs : Valid s) {query : Embedding} {k : Nat} {f : Filter} {ts : List StoredText}
    (hk : k ≠ 0) (h : IndexStore.searchChunks s query k f = .ok ts) :
    (∀ p ∈ points s chunksCollection, readable σ p.vector = true) ∧
      ∀ n, (holdings s).size? chunksCollection = some n → query.length = n := by
  cases hc : (holdings s).size? chunksCollection with
  | none =>
    -- nothing is kept in a collection that is not there
    refine ⟨fun p hp => ?_, fun n hn => by cases hn⟩
    have hsize := LawfulVectorStore.size?_of_held? hs.ordered ((TransparentVectorStore.mem_points hs.ordered).1 hp)
    rw [hc] at hsize
    cases hsize
  | some n =>
    have hcontains : VectorStore.contains s chunksCollection = true := by
      rw [LawfulVectorStore.contains_eq, hc]
      rfl
    rw [IndexStore.searchChunks, IndexStore.search, if_neg (by simp [hk, hcontains])] at h
    cases hsearch : VectorStore.search s chunksCollection query k f with
    | error cause =>
      rw [hsearch] at h
      cases h
    | ok hits =>
      -- the search read all rows before it measured any
      have hread := ThoroughVectorStore.readable_of_search hsearch
      refine ⟨hread, fun m hm => ?_⟩
      obtain rfl := Option.some.inj hm
      rw [TransparentVectorStore.search_eq query k f hc fun p hp =>
        ⟨hread p hp, hs.legible_of_mem hp⟩] at hsearch
      -- with another length there would have been an error
      by_contra hlength
      rw [if_neg hlength] at hsearch
      cases hsearch

/-- **A retrieval that succeeds** and is not for nothing has embedded its text and read all vectors, and what
it embedded has their length. -/
theorem retrieve_ok (hs : Valid s) {e : Embedder} {structure? : Option StructuralContext}
    {settings : RetrievalSettings} {text : String} {k : Nat} {useStructure : Bool}
    {rs : List RetrievalResult} (hk : k ≠ 0) (h : retrieve s e structure? settings text k useStructure = .ok rs) :
    ∃ query, e.embed text = .ok query ∧ (∀ p ∈ points s chunksCollection, readable σ p.vector = true) ∧
      (∀ n, (holdings s).size? chunksCollection = some n → query.length = n) ∧
      answer s (if useStructure then structure? else none) settings query k = .ok rs := by
  rw [retrieve, if_neg hk] at h
  cases hquery : e.embed text with
  | error cause =>
    rw [hquery] at h
    cases h
  | ok query =>
    rw [hquery] at h
    -- the query was made, so the answer is that of the stages
    change answer s _ settings query k = .ok rs at h
    have hcount : candidateCount settings k ≠ 0 := candidateCount_ne_zero settings hk
    cases hfound : IndexStore.searchChunks s query (candidateCount settings k) {} with
    | error cause =>
      -- an answer begins with a search
      rw [answer, candidates, hfound] at h
      cases h
    | ok ts =>
      obtain ⟨hread, hsize⟩ := searchChunks_ok hs hcount hfound
      exact ⟨query, rfl, hread, hsize, h⟩

end Retrieval

end CodeSearch
