import CodeSearch.Proofs.Index.Reading
import CodeSearch.Proofs.Retrieval.Ranking
import CodeSearch.Retrieval.Retriever

/-!
# The candidates of a retrieval

A retrieval without structure fetches the first chunks for a query and ranks them. The chunks come from the
store by score and then by id (`pairwise_chunks`), and are ranked by score, document and line. So the results
are the first ones of all chunks up to chunks of equal scores (`retrieve_direct`), but a chunk can be missed
in favour of another one that is just as like the query (`retrieve_misses_first`).
-/

namespace CodeSearch

namespace Retrieval

open RetrievalResult (ofStored ranking ranked)

variable {σ : Type} [VectorStore σ] [LawfulVectorStore σ] [TransparentVectorStore σ]

/-- All stored chunks as results for a query, by score and then by id. -/
def chunks (s : σ) (query : Embedding) : List RetrievalResult :=
  (IndexStore.found s chunksCollection query {}).map fun t => ofStored t t.score .vector

/-- The chunks that are fetched for a number of results. -/
def fetched (s : σ) (settings : RetrievalSettings) (query : Embedding) (k : Nat) :
    List RetrievalResult := (chunks s query).take (candidateCount settings k)

/-- The chunks that are not. -/
def cutOff (s : σ) (settings : RetrievalSettings) (query : Embedding) (k : Nat) :
    List RetrievalResult := (chunks s query).drop (candidateCount settings k)

/-- The first of all chunks in their ranking. -/
def topChunks (s : σ) (query : Embedding) (k : Nat) : List RetrievalResult :=
  (ranked (chunks s query)).take k

/-! ### Chunks as results -/

/-- The results for a query are the stored chunks, each with its own score. -/
theorem mem_chunks {s : σ} {query : Embedding} {r : RetrievalResult} :
    r ∈ chunks s query ↔ ∃ p ∈ points s chunksCollection,
      r = ofStored (.ofHit (p.hit query)) (Embedding.similarity query p.vector) .vector := by
  rw [chunks, List.mem_map]
  constructor
  · rintro ⟨t, ht, rfl⟩
    obtain ⟨p, hp, -, rfl⟩ := IndexStore.mem_found.1 ht
    exact ⟨p, hp, rfl⟩
  · rintro ⟨p, hp, rfl⟩
    exact ⟨_, IndexStore.mem_found.2 ⟨p, hp, rfl, rfl⟩, rfl⟩

/-- **No chunk is there twice.** -/
theorem nodup_chunks {s : σ} (hs : Valid s) (query : Embedding) :
    ((chunks s query).map RetrievalResult.chunkId).Nodup := by
  have hids := IndexStore.nodup_found hs chunksCollection query {}
  rw [chunks, List.map_map]
  exact hids

/-- **Chunks come by score, and equal scores by id.** -/
theorem pairwise_chunks (s : σ) (query : Embedding) :
    (chunks s query).Pairwise fun a b => b.score.rank < a.score.rank ∨
      a.score.rank = b.score.rank ∧ a.chunkId ≤ b.chunkId := by
  rw [chunks, IndexStore.found, List.map_map]
  exact List.pairwise_map.2 ((Hit.pairwise_ranked _).imp Hit.precedes_iff.1)

/-- Chunks are ranked by their scores. -/
theorem pairwise_rank_chunks (s : σ) (query : Embedding) :
    (chunks s query).Pairwise fun a b => b.score.rank ≤ a.score.rank := by
  refine (pairwise_chunks s query).imp fun {a b} h => ?_
  rcases h with h | ⟨h, -⟩
  · exact Int.le_of_lt h
  · exact Int.le_of_eq h.symm

/-! ### What is fetched -/

theorem le_candidateCount (settings : RetrievalSettings) (k : Nat) : k ≤ candidateCount settings k :=
  Nat.le_mul_of_pos_right k (Nat.lt_of_lt_of_le Nat.one_pos (Nat.le_max_right _ _))

theorem candidateCount_ne_zero (settings : RetrievalSettings) {k : Nat} (hk : k ≠ 0) :
    candidateCount settings k ≠ 0 :=
  Nat.ne_of_gt (Nat.lt_of_lt_of_le (Nat.pos_of_ne_zero hk) (le_candidateCount settings k))

theorem candidateCount_mono (settings : RetrievalSettings) {k k' : Nat} (h : k ≤ k') :
    candidateCount settings k ≤ candidateCount settings k' :=
  Nat.mul_le_mul_right _ h

/-- What is fetched for a number of results are chunks that are stored. -/
theorem mem_chunks_of_mem_fetched {s : σ} {settings : RetrievalSettings} {query : Embedding} {k : Nat}
    {r : RetrievalResult} (hr : r ∈ fetched s settings query k) : r ∈ chunks s query :=
  List.mem_of_mem_take hr

theorem source_of_mem_fetched {s : σ} {settings : RetrievalSettings} {query : Embedding} {k : Nat}
    {r : RetrievalResult} (hr : r ∈ fetched s settings query k) : r.source = .vector := by
  obtain ⟨p, -, rfl⟩ := mem_chunks.1 (mem_chunks_of_mem_fetched hr)
  rfl

theorem nodup_fetched {s : σ} (hs : Valid s) (settings : RetrievalSettings) (query : Embedding) (k : Nat) :
    ((fetched s settings query k).map RetrievalResult.chunkId).Nodup :=
  (nodup_chunks hs query).sublist ((List.take_sublist _ _).map _)

section Answers

variable {s : σ} (hs : Valid s) (hread : ∀ p ∈ points s chunksCollection, readable σ p.vector = true)

include hs in
/-- A collection that is not there has no chunks. -/
theorem found_of_size? {c : String} (hc : (holdings s).size? c = none) (query : Embedding) (f : Filter) :
    IndexStore.found s c query f = [] := by
  rw [List.eq_nil_iff_forall_not_mem]
  intro t ht
  obtain ⟨p, hp, -, -⟩ := IndexStore.mem_found.1 ht
  have hsize := LawfulVectorStore.size?_of_held? hs.ordered ((TransparentVectorStore.mem_points hs.ordered).1 hp)
  rw [hc] at hsize
  cases hsize

include hs hread in
/-- A search among chunks gives the first of those that are found. -/
theorem searchChunks_eq {query : Embedding}
    (hsize : ∀ n, (holdings s).size? chunksCollection = some n → query.length = n) (k : Nat) (f : Filter) :
    IndexStore.searchChunks s query k f =
      .ok ((IndexStore.found s chunksCollection query f).take k) := by
  rw [IndexStore.searchChunks, IndexStore.search_eq hs hread]
  cases hc : (holdings s).size? chunksCollection with
  -- a collection that is not there finds nothing
  | none => rw [found_of_size? hs hc, List.take_nil]
  | some n =>
    -- a search for nothing is not made, and finds nothing if it is
    by_cases hk : k = 0
    · simp [hk]
    · simp [hk, hsize n hc]

variable {query : Embedding}
  (hsize : ∀ n, (holdings s).size? chunksCollection = some n → query.length = n)

include hs hread hsize

theorem candidates_eq (settings : RetrievalSettings) (k : Nat) :
    candidates s settings query k = .ok (fetched s settings query k) := by
  rw [candidates, searchChunks_eq hs hread hsize, fetched, chunks, ← List.map_take]
  rfl

variable {e : Embedder} {text : String} (hquery : e.embed text = .ok query)

include hquery

/-- A retrieval without structure gives the first of the chunks that are fetched. -/
theorem retrieve_false (structure? : Option StructuralContext) (settings : RetrievalSettings) (k : Nat) :
    retrieve s e structure? settings text k false =
      .ok ((ranked (fetched s settings query k)).take k) := by
  unfold retrieve
  -- nothing is fetched for no results
  by_cases hk : k = 0
  · rw [if_pos hk, hk, List.take_zero]
  · rw [if_neg hk, hquery]
    change answer s none settings query k = _
    unfold answer
    rw [candidates_eq hs hread hsize]
    rfl

/-- **A retrieval without structure gives the first chunks, up to chunks of equal scores.** Of the chunks that
are fetched, it gives the first ones in their ranking.

* They are the first of all chunks if each of them goes before every chunk that was cut off, and only then.
* A chunk that was cut off goes before one of them only if their scores are equal.
* Place by place they have the scores of the first of all chunks.
* If more results are asked for, these have the same scores where there are as many. They begin with the same
  results if those are the first of all chunks. -/
theorem retrieve_direct (structure? : Option StructuralContext) (settings : RetrievalSettings) (k : Nat) :
    ∃ rs, retrieve s e structure? settings text k false = .ok rs ∧
      rs = (ranked (fetched s settings query k)).take k ∧
      (rs = topChunks s query k ↔ ∀ x ∈ cutOff s settings query k, ∀ r ∈ rs, ranking r x = .lt) ∧
      (∀ x ∈ cutOff s settings query k, ∀ r ∈ rs, ranking x r = .lt → x.score.rank = r.score.rank) ∧
      rs.map (·.score.rank) = (topChunks s query k).map (·.score.rank) ∧
      ∀ k', k ≤ k' → ∃ rs', retrieve s e structure? settings text k' false = .ok rs' ∧
        rs.map (·.score.rank) <+: rs'.map (·.score.rank) ∧ (rs = topChunks s query k → rs <+: rs') := by
  have hscore := pairwise_rank_chunks s query
  have hids := nodup_chunks hs query
  have hmany := le_candidateCount settings
  -- the scores are the right ones for every number of results
  have hranks : ∀ k, ((ranked (fetched s settings query k)).take k).map (·.score.rank) =
      (topChunks s query k).map (·.score.rank) := fun k =>
    RetrievalResult.map_rank_take_ranked hscore (hmany k)
  -- what was cut off has no higher scores, so places can only be taken within one score
  refine ⟨_, retrieve_false hs hread hsize hquery structure? settings k, rfl,
    RetrievalResult.take_ranked_take_eq_iff hids (hmany k), ?_, hranks k, fun k' hk => ?_⟩
  · intro x hx r hr hlt
    -- a chunk that was cut off takes a place only if its score is the same
    refine RetrievalResult.rank_eq_of_cut hscore hx (List.mem_of_mem_take hr) ?_
    rw [hlt]
    rfl
  · refine ⟨_, retrieve_false hs hread hsize hquery structure? settings k', ?_, fun htop => ?_⟩
    · -- more results have more of the same scores
      rw [hranks, hranks]
      exact (List.take_prefix_take_left hk).map _
    · -- the first of all chunks are still the first among more of them
      have hsame := RetrievalResult.take_ranked_take_of_le hids (hmany k) (candidateCount_mono settings hk) htop
      rw [fetched, hsame]
      exact List.take_prefix_take_left hk

end Answers

/-! ### Chunks of equal scores -/

/-- An embedder that finds all texts alike. -/
def unitEmbedder : Embedder := { embed := fun _ => .ok [1] }

/-- A chunk that starts on a line, at the position of that number. -/
def lineChunk (line : Nat) : TextRecord :=
  { id := chunkId "a" line, content := "x"
    attributes := [(documentIdField, .ofText "a"), (startLineField, .ofCount line)] }

/-- Two chunks that are alike. -/
def tiedChunks : Memory :=
  (IndexStore.Operation.addChunks unitEmbedder [lineChunk 2, lineChunk 10]).after VectorStore.empty

theorem reachable_tiedChunks : IndexStore.Reachable tiedChunks := .after .empty _

/-- The point of a chunk that starts on a line. -/
def linePoint (line : Nat) : Point :=
  { id := chunkId "a" line, vector := [1], payload := (lineChunk line).payload }

/-- The result that the chunk makes. -/
def lineResult (line : Nat) : RetrievalResult :=
  ofStored (.ofHit ((linePoint line).hit [1])) (Embedding.similarity [1] [1]) .vector

/-- The id of the chunk further down goes first, as that of a text. -/
theorem chunks_tiedChunks : chunks tiedChunks [1] = [lineResult 10, lineResult 2] := by
  have hpoints : points tiedChunks chunksCollection = [linePoint 10, linePoint 2] := rfl
  have hids : ((linePoint 10).hit [1]).precedes ((linePoint 2).hit [1]) = true :=
    Hit.precedes_iff.2 (Or.inr ⟨rfl, by decide⟩)
  have hranked : Hit.ranked [(linePoint 10).hit [1], (linePoint 2).hit [1]] =
      [(linePoint 10).hit [1], (linePoint 2).hit [1]] := List.mergeSort_of_pairwise (by simpa using hids)
  unfold chunks IndexStore.found
  rw [hpoints]
  exact congrArg (List.map _ ∘ List.map _) hranked

/-- The first of both chunks is the one whose id comes first. -/
theorem topChunks_tiedChunks : topChunks tiedChunks [1] 1 = [lineResult 2] := by
  have hperm : [lineResult 2, lineResult 10].Perm (chunks tiedChunks [1]) := by
    rw [chunks_tiedChunks]
    exact List.Perm.swap _ _ _
  have hids := nodup_chunks reachable_tiedChunks.sound.valid [1]
  rw [topChunks, RetrievalResult.ranked_eq_of_pairwise hperm hids (by decide +kernel)]
  rfl

/-- Only one chunk is fetched, and it is the other one. -/
theorem ranked_fetched_tiedChunks :
    (ranked (fetched tiedChunks { candidateMultiplier := 1 } [1] 1)).take 1 = [lineResult 10] := by
  have hfetched : fetched tiedChunks { candidateMultiplier := 1 } [1] 1 = [lineResult 10] := by
    rw [fetched, chunks_tiedChunks]
    rfl
  rw [hfetched, ranked, List.mergeSort_singleton]
  rfl

theorem size_tiedChunks (n : Nat) (h : (holdings tiedChunks).size? chunksCollection = some n) :
    ([1] : Embedding).length = n := Option.some.inj h

/-- If no more chunks are fetched than asked for, the scores are right and the chunk is not. -/
theorem retrieve_tiedChunks :
    ∃ rs, retrieve tiedChunks unitEmbedder none { candidateMultiplier := 1 } "y" 1 false = .ok rs ∧
      rs.map RetrievalResult.chunkId = ["a::10"] ∧
      rs.map (·.score.rank) = (topChunks tiedChunks [1] 1).map (·.score.rank) := by
  have hquery : unitEmbedder.embed "y" = .ok [1] := rfl
  obtain ⟨rs, hrs, heq, -, -, hranks, -⟩ := retrieve_direct reachable_tiedChunks.sound.valid
    (fun _ _ => rfl) size_tiedChunks hquery none { candidateMultiplier := 1 } 1
  refine ⟨rs, hrs, ?_, hranks⟩
  rw [heq, ranked_fetched_tiedChunks]
  decide

/-- **A retrieval without structure can miss the first of all chunks.** -/
theorem retrieve_misses_first :
    ¬ ∀ (s : Memory) (e : Embedder) (text : String) (query : Embedding) (settings : RetrievalSettings)
      (k : Nat), IndexStore.Reachable s → e.embed text = .ok query →
      (∀ n, (holdings s).size? chunksCollection = some n → query.length = n) →
      1 ≤ settings.candidateMultiplier → 1 ≤ k →
      retrieve s e none settings text k false = .ok (topChunks s query k) := by
  intro h
  have hquery : unitEmbedder.embed "y" = .ok [1] := rfl
  -- fetched is one chunk, the first one by its id
  have hclaimed := h tiedChunks unitEmbedder "y" [1] { candidateMultiplier := 1 } 1 reachable_tiedChunks
    hquery size_tiedChunks (Nat.le_refl 1) (Nat.le_refl 1)
  have hgiven := retrieve_false reachable_tiedChunks.sound.valid (fun _ _ => rfl) size_tiedChunks
    hquery none { candidateMultiplier := 1 } 1
  rw [hclaimed, topChunks_tiedChunks, ranked_fetched_tiedChunks] at hgiven
  -- both have the same score, but the ids are different
  have hids : "a::2" = "a::10" :=
    congrArg RetrievalResult.chunkId (List.cons.inj (Except.ok.inj hgiven)).1
  exact absurd hids (by decide)

end Retrieval

end CodeSearch
