import CodeSearch.Proofs.Retrieval.Success
import CodeSearch.Proofs.Steps

/-!
# Retrievals that fail

Three things can go wrong in a retrieval: the query cannot be embedded, the chunks cannot be searched, or the
chunks of a file that is brought in cannot be searched (`Retrieval.Fails`). None of them is passed over. A
retrieval in which one of them happens is an error and never a part of an answer, and there are no other errors.

So an answer without results says that there is nothing to be found. Whatever is fetched stays when structural
results are added to it (`length_le_of_answer`), and the number of chunks that are fetched is not 0 if results are
asked for, so nothing was fetched. It remains to be seen what a store means by that: either it has no collection of
chunks, or it found none in it. A store that does what it is asked to then holds none; to such a store a query of
another length is a search that fails.

* `exists_error_of_fails`, `fails_of_error` — a retrieval fails if something goes wrong in it, and only then;
* `nothing_of_empty` — what is behind an answer without results;
* `retrieve_tells_failures` — both, for all stores and for those that do what they are asked to.
-/

namespace CodeSearch

namespace Retrieval

open RetrievalResult (ranked)

/-! ### What is kept -/

/-- A result that is merged in takes no other one away. -/
theorem length_le_merge (rs : List RetrievalResult) (x : RetrievalResult) : rs.length ≤ (merge rs x).length := by
  rcases merge_cases rs x with ⟨-, heq⟩ | ⟨before, r, after, rfl, -, heq⟩
  · rw [heq, List.length_append]
    exact Nat.le_add_right _ _
  · rw [heq, List.length_append, List.length_append]
    exact Nat.le_refl _

/-- However many are merged in, none is lost. -/
theorem length_le_foldl_merge (extra rs : List RetrievalResult) : rs.length ≤ (extra.foldl merge rs).length := by
  induction extra generalizing rs with
  | nil => exact Nat.le_refl _
  | cons x extra ih => exact Nat.le_trans (length_le_merge rs x) (ih (merge rs x))

section Stages

variable {σ : Type} [VectorStore σ] {s : σ} {c : StructuralContext} {settings : RetrievalSettings}
  {query : Embedding} {direct : List RetrievalResult} {k : Nat}

/-- The results that the structure of the code adds, if it is known. -/
def fromStructure (s : σ) (structure? : Option StructuralContext) (settings : RetrievalSettings) (query : Embedding)
    (k : Nat) (direct : List RetrievalResult) : Except RetrievalError (List RetrievalResult) :=
  match structure? with
  | none => .ok []
  | some c => structural s c settings query ((ranked direct).take k)

/-- An answer is made in two stages. -/
theorem answer_eq_bind (s : σ) (structure? : Option StructuralContext) (settings : RetrievalSettings)
    (query : Embedding) (k : Nat) : answer s structure? settings query k =
      candidates s settings query k >>= fun direct =>
        fromStructure s structure? settings query k direct >>= fun extra =>
          .ok ((ranked (extra.foldl merge direct)).take k) := by
  cases structure? <;> rfl

/-- The structural stage fails if the chunks of a document that is brought in cannot be searched. -/
theorem exists_error_structural {o : RetrievalResult} {document : String} {cause : StoreError}
    (hbrings : Brings c settings direct k o document)
    (hsearch : IndexStore.searchChunks s query 1 (.textIs documentIdField document) = .error cause) :
    ∃ cause', structural s c settings query ((ranked direct).take k) = .error cause' := by
  obtain ⟨hfirst, hfind, hne, hpath⟩ := hbrings
  have horigin : o ∈ origins ((ranked direct).take k) := mem_origins_take.2 ⟨hfirst, hfind⟩
  have hrelated : document ∈ relatedDocuments c settings.relatedPerCandidate o.documentId :=
    mem_relatedDocuments.2 ⟨hne, hpath⟩
  cases hall : structural s c settings query ((ranked direct).take k) with
  | error cause' => exact ⟨cause', rfl⟩
  | ok extra =>
    -- all documents of all direct results would have been searched
    obtain ⟨rss, horigins, -⟩ := exists_of_bind_eq_ok hall
    obtain ⟨rs, hone⟩ := exists_ok_of_mapM horigins o horigin
    obtain ⟨best, hdocuments, -⟩ := exists_of_bind_eq_ok hone
    obtain ⟨t, ht⟩ := exists_ok_of_mapM hdocuments document hrelated
    rw [bestChunk?, hsearch] at ht
    cases ht

/-- If it fails, the chunks of such a document could not be searched, and the error is the one of that search. -/
theorem exists_brings_of_structural {err : RetrievalError}
    (h : structural s c settings query ((ranked direct).take k) = .error err) :
    ∃ o document cause, Brings c settings direct k o document ∧
      IndexStore.searchChunks s query 1 (.textIs documentIdField document) = .error cause ∧
      err = .related cause := by
  -- the errors of the searches come out of two nested loops
  rcases cases_of_bind_eq_error h with h | ⟨rss, -, h⟩
  case inr => cases h
  obtain ⟨o, ho, h⟩ := exists_error_of_mapM h
  -- what follows the searches of an origin cannot fail
  rcases cases_of_bind_eq_error h with h | ⟨best, -, h⟩
  case inr => cases h
  obtain ⟨document, hdocument, h⟩ := exists_error_of_mapM h
  obtain ⟨hfirst, hfind⟩ := mem_origins_take.1 ho
  obtain ⟨hne, hpath⟩ := mem_relatedDocuments.1 hdocument
  rw [bestChunk?] at h
  cases hsearch : IndexStore.searchChunks s query 1 (.textIs documentIdField document) with
  | error cause =>
    rw [hsearch] at h
    exact ⟨o, document, cause, ⟨hfirst, hfind, hne, hpath⟩, hsearch, (Except.error.inj h).symm⟩
  | ok ts =>
    rw [hsearch] at h
    cases h

/-- **An answer keeps what was fetched**, up to the number of results that were asked for. -/
theorem length_le_of_answer {structure? : Option StructuralContext} {rs : List RetrievalResult}
    (h : answer s structure? settings query k = .ok rs) :
    ∃ direct, candidates s settings query k = .ok direct ∧ min k direct.length ≤ rs.length := by
  rw [answer_eq_bind] at h
  obtain ⟨direct, hdirect, h⟩ := exists_of_bind_eq_ok h
  obtain ⟨extra, -, h⟩ := exists_of_bind_eq_ok h
  obtain rfl := Except.ok.inj h
  refine ⟨direct, hdirect, ?_⟩
  rw [List.length_take, (RetrievalResult.perm_ranked _).length_eq]
  exact min_le_min_left k (length_le_foldl_merge extra direct)

end Stages

/-! ### What goes wrong -/

/-- What goes wrong in a retrieval. -/
inductive Fails {σ : Type} [VectorStore σ] (s : σ) (e : Embedder) (structure? : Option StructuralContext)
    (settings : RetrievalSettings) (text : String) (k : Nat) (useStructure : Bool) : RetrievalError → Prop where
  /-- The query cannot be embedded. -/
  | query {cause : EmbeddingFailure} (hquery : e.embed text = .error cause) :
    Fails s e structure? settings text k useStructure (.query cause)
  /-- The chunks cannot be searched. -/
  | search {query : Embedding} {cause : StoreError} (hquery : e.embed text = .ok query)
      (hsearch : IndexStore.searchChunks s query (candidateCount settings k) {} = .error cause) :
    Fails s e structure? settings text k useStructure (.search cause)
  /-- The chunks of a document that is brought in cannot be searched. -/
  | related {query : Embedding} {direct : List RetrievalResult} {c : StructuralContext} {o : RetrievalResult}
      {document : String} {cause : StoreError} (hquery : e.embed text = .ok query)
      (hdirect : candidates s settings query k = .ok direct) (huse : useStructure = true)
      (hstructure : structure? = some c) (hbrings : Brings c settings direct k o document)
      (hsearch : IndexStore.searchChunks s query 1 (.textIs documentIdField document) = .error cause) :
    Fails s e structure? settings text k useStructure (.related cause)

section Failures

variable {σ : Type} [VectorStore σ] {s : σ} {e : Embedder} {structure? : Option StructuralContext}
  {settings : RetrievalSettings} {text : String} {k : Nat} {useStructure : Bool}

/-- A retrieval that is not for nothing embeds its text and goes on with that. -/
theorem retrieve_eq_bind (hk : k ≠ 0) : retrieve s e structure? settings text k useStructure =
    ((e.embed text).mapError .query).bind fun query =>
      answer s (if useStructure then structure? else none) settings query k := by
  rw [retrieve, if_neg hk]
  rfl

/-- The chunks are searched before anything else, and the error says so. -/
theorem candidates_of_error {query : Embedding} {cause : StoreError}
    (hsearch : IndexStore.searchChunks s query (candidateCount settings k) {} = .error cause) :
    candidates s settings query k = .error (.search cause) := by
  rw [candidates, hsearch]
  rfl

/-- The first stage fails by its search only. -/
theorem exists_of_candidates_error {query : Embedding} {err : RetrievalError}
    (h : candidates s settings query k = .error err) :
    ∃ cause, IndexStore.searchChunks s query (candidateCount settings k) {} = .error cause ∧ err = .search cause := by
  cases hsearch : IndexStore.searchChunks s query (candidateCount settings k) {} with
  | error cause =>
    rw [candidates_of_error hsearch] at h
    exact ⟨cause, rfl, (Except.error.inj h).symm⟩
  | ok ts =>
    rw [candidates, hsearch] at h
    cases h

/-- A query that cannot be embedded is the end of a retrieval. -/
theorem retrieve_of_query_error (hk : k ≠ 0) {cause : EmbeddingFailure} (hquery : e.embed text = .error cause) :
    retrieve s e structure? settings text k useStructure = .error (.query cause) := by
  rw [retrieve_eq_bind hk, hquery]
  rfl

/-- Chunks that cannot be searched are the end of a retrieval. -/
theorem retrieve_of_search_error (hk : k ≠ 0) {query : Embedding} {cause : StoreError}
    (hquery : e.embed text = .ok query)
    (hsearch : IndexStore.searchChunks s query (candidateCount settings k) {} = .error cause) :
    retrieve s e structure? settings text k useStructure = .error (.search cause) := by
  rw [retrieve_eq_bind hk, hquery]
  change answer s _ settings query k = _
  rw [answer, candidates_of_error hsearch]
  rfl

/-- **Whatever goes wrong makes a retrieval fail.** -/
theorem exists_error_of_fails (hk : k ≠ 0) {err : RetrievalError}
    (h : Fails s e structure? settings text k useStructure err) :
    ∃ err', retrieve s e structure? settings text k useStructure = .error err' := by
  cases h with
  | query hquery => exact ⟨_, retrieve_of_query_error hk hquery⟩
  | search hquery hsearch => exact ⟨_, retrieve_of_search_error hk hquery hsearch⟩
  | @related query direct c o document cause hquery hdirect huse hstructure hbrings hsearch =>
    -- some search of the stage fails, though it need not be this one that is met first
    obtain ⟨err', hstage⟩ := exists_error_structural hbrings hsearch
    refine ⟨err', ?_⟩
    rw [retrieve_eq_bind hk, hquery, huse, hstructure]
    change answer s (some c) settings query k = _
    rw [answer_eq_bind, hdirect]
    change structural s c settings query ((ranked direct).take k) >>= _ = _
    rw [hstage]
    rfl

/-- **A retrieval fails for one of these reasons only**, and says which. -/
theorem fails_of_error {err : RetrievalError}
    (h : retrieve s e structure? settings text k useStructure = .error err) :
    Fails s e structure? settings text k useStructure err := by
  have hk : k ≠ 0 := by
    rintro rfl
    cases h
  rw [retrieve_eq_bind hk] at h
  cases hquery : e.embed text with
  | error cause =>
    rw [hquery] at h
    obtain rfl := Except.error.inj h
    exact .query hquery
  | ok query =>
    rw [hquery] at h
    change answer s _ settings query k = .error err at h
    -- the stages are gone through in turn
    rw [answer_eq_bind] at h
    rcases cases_of_bind_eq_error h with h | ⟨direct, hdirect, h⟩
    · obtain ⟨cause, hsearch, rfl⟩ := exists_of_candidates_error h
      exact .search hquery hsearch
    · rcases cases_of_bind_eq_error h with h | ⟨extra, -, h⟩
      · -- only with a graph in hand is there a third search
        unfold fromStructure at h
        split at h
        · cases h
        · next c hc =>
          obtain ⟨huse, hstructure⟩ : useStructure = true ∧ structure? = some c := by
            cases useStructure with
            | true => exact ⟨rfl, hc⟩
            | false => cases hc
          obtain ⟨o, document, cause, hbrings, hsearch, rfl⟩ := exists_brings_of_structural h
          exact .related hquery hdirect huse hstructure hbrings hsearch
      · cases h

/-- **An answer without results** is one to a question for nothing, one of an index without chunks, or one of a
search that found none. -/
theorem nothing_of_empty (h : retrieve s e structure? settings text k useStructure = .ok []) :
    k = 0 ∨ VectorStore.contains s chunksCollection = false ∨
      ∃ query, e.embed text = .ok query ∧
        VectorStore.search s chunksCollection query (candidateCount settings k) {} = .ok [] := by
  by_cases hk : k = 0
  · exact Or.inl hk
  right
  rw [retrieve_eq_bind hk] at h
  cases hquery : e.embed text with
  | error cause =>
    rw [hquery] at h
    cases h
  | ok query =>
    rw [hquery] at h
    change answer s _ settings query k = .ok [] at h
    obtain ⟨direct, hdirect, hlength⟩ := length_le_of_answer h
    -- what was fetched would have stayed
    -- nothing in the answer is nothing fetched
    have hnone : direct = [] := by
      have hpos := Nat.pos_of_ne_zero hk
      refine List.eq_nil_of_length_eq_zero ?_
      rw [List.length_nil] at hlength
      omega
    rw [hnone] at hdirect
    cases hcontains : VectorStore.contains s chunksCollection with
    | false => exact Or.inl rfl
    | true =>
      -- there are chunks to search, so the store was asked and came back with nothing
      refine Or.inr ⟨query, rfl, ?_⟩
      have hcount : candidateCount settings k ≠ 0 := candidateCount_ne_zero settings hk
      rw [candidates, IndexStore.searchChunks, IndexStore.search, if_neg (by simp [hcount, hcontains])] at hdirect
      cases hsearch : VectorStore.search s chunksCollection query (candidateCount settings k) {} with
      | error cause =>
        rw [hsearch] at hdirect
        cases hdirect
      | ok hits =>
        rw [hsearch] at hdirect
        cases hits with
        | nil => rfl
        -- a hit would have been a result
        | cons hit hits => cases hdirect

/-- An index without chunks has no results, which is no failure. -/
theorem retrieve_of_not_contains (hcontains : VectorStore.contains s chunksCollection = false) {query : Embedding}
    (hquery : e.embed text = .ok query) : retrieve s e structure? settings text k useStructure = .ok [] := by
  by_cases hk : k = 0
  · rw [retrieve, if_pos hk]
  have hdirect : candidates s settings query k = .ok [] := by
    rw [candidates, IndexStore.searchChunks, IndexStore.search, if_pos (Or.inr (by rw [hcontains]; rfl))]
    rfl
  have hranked : ranked [] = [] := List.mergeSort_nil
  rw [retrieve_eq_bind hk, hquery]
  change answer s _ settings query k = .ok []
  rw [answer_eq_bind, hdirect]
  change fromStructure s _ settings query k [] >>= _ = .ok []
  -- there is no result that could bring in a file
  have hstage : fromStructure s (if useStructure then structure? else none) settings query k [] = .ok [] := by
    unfold fromStructure
    split
    · rfl
    · rw [hranked, List.take_nil]
      rfl
  rw [hstage]
  change Except.ok ((ranked []).take k) = _
  rw [hranked, List.take_nil]

end Failures

section Lawful

variable {σ : Type} [VectorStore σ] [LawfulVectorStore σ] [TransparentVectorStore σ] [ThoroughVectorStore σ]
  {s : σ} {e : Embedder} {structure? : Option StructuralContext} {settings : RetrievalSettings} {text : String}
  {k : Nat} {useStructure : Bool}

/-- **No stored chunk is kept back**: an answer has as many results as are asked for, or one for each chunk. -/
theorem length_le_of_retrieve (hs : Valid s) {rs : List RetrievalResult}
    (h : retrieve s e structure? settings text k useStructure = .ok rs) :
    min k (points s chunksCollection).length ≤ rs.length := by
  by_cases hk : k = 0
  · rw [hk, Nat.zero_min]
    exact Nat.zero_le _
  obtain ⟨query, -, hread, hsize, hanswer⟩ := retrieve_ok hs hk h
  obtain ⟨direct, hdirect, hlength⟩ := length_le_of_answer hanswer
  rw [candidates_eq hs hread hsize] at hdirect
  obtain rfl := Except.ok.inj hdirect
  -- no fewer chunks are fetched than results are asked for
  have hfetched : (fetched s settings query k).length =
      min (candidateCount settings k) (points s chunksCollection).length := by
    rw [fetched, List.length_take, chunks, IndexStore.found]
    simp [Hit.ranked]
  have hcount := le_candidateCount settings k
  omega

/-- Without results there is no chunk at all. -/
theorem held?_eq_none_of_empty (hs : Valid s) (hk : k ≠ 0)
    (h : retrieve s e structure? settings text k useStructure = .ok []) (id : String) :
    (holdings s).held? chunksCollection id = none := by
  have hlength := length_le_of_retrieve hs h
  have hpoints : points s chunksCollection = [] := by
    refine List.eq_nil_of_length_eq_zero ?_
    rw [List.length_nil] at hlength
    omega
  cases hheld : (holdings s).held? chunksCollection id with
  | none => rfl
  | some b =>
    -- a chunk held under an id would be one of the points
    have hmem : (⟨id, b.1, b.2⟩ : Point) ∈ points s chunksCollection :=
      (TransparentVectorStore.mem_points hs.ordered).2 hheld
    rw [hpoints] at hmem
    cases hmem

/-- A query of another length than the stored vectors is a search that fails. -/
theorem exists_search_error_of_length_ne (hs : Valid s) (hk : k ≠ 0) {query : Embedding}
    (hquery : e.embed text = .ok query) {n : Nat} (hn : (holdings s).size? chunksCollection = some n)
    (hlength : query.length ≠ n) :
    ∃ cause, retrieve s e structure? settings text k useStructure = .error (.search cause) := by
  have hcount : candidateCount settings k ≠ 0 := candidateCount_ne_zero settings hk
  cases hsearch : IndexStore.searchChunks s query (candidateCount settings k) {} with
  | error cause => exact ⟨cause, retrieve_of_search_error hk hquery hsearch⟩
  | ok ts => exact absurd ((searchChunks_ok hs hcount hsearch).2 n hn) hlength

end Lawful

/-- **No failure is an answer without results.** Take any store at all. Errors of a retrieval are those of what
goes wrong in it, and if anything goes wrong while results are asked for then the retrieval is an error. An answer
without results is one to a question for nothing, or else the store says that it has no chunks or finds none.

Take a store that does what it is asked to. If an answer has no results though some are asked for, no chunk is
stored. If chunks are kept with vectors of another length than the one of the query, their search fails. -/
theorem retrieve_tells_failures (e : Embedder) (structure? : Option StructuralContext)
    (settings : RetrievalSettings) (text : String) (k : Nat) (useStructure : Bool) :
    (∀ {σ : Type} [VectorStore σ] (s : σ),
      (∀ err, retrieve s e structure? settings text k useStructure = .error err →
        Fails s e structure? settings text k useStructure err) ∧
      (k ≠ 0 → ∀ err, Fails s e structure? settings text k useStructure err →
        ∃ err', retrieve s e structure? settings text k useStructure = .error err') ∧
      (retrieve s e structure? settings text k useStructure = .ok [] →
        k = 0 ∨ VectorStore.contains s chunksCollection = false ∨
          ∃ query, e.embed text = .ok query ∧
            VectorStore.search s chunksCollection query (candidateCount settings k) {} = .ok [])) ∧
    ∀ {σ : Type} [VectorStore σ] [LawfulVectorStore σ] [TransparentVectorStore σ] [ThoroughVectorStore σ] (s : σ),
      Valid s →
      (retrieve s e structure? settings text k useStructure = .ok [] →
        k = 0 ∨ ∀ id, (holdings s).held? chunksCollection id = none) ∧
      (k ≠ 0 → ∀ query n, e.embed text = .ok query → (holdings s).size? chunksCollection = some n →
        query.length ≠ n →
        ∃ cause, retrieve s e structure? settings text k useStructure = .error (.search cause)) := by
  constructor
  · intro σ _ s
    exact ⟨fun err h => fails_of_error h, fun hk err h => exists_error_of_fails hk h, nothing_of_empty⟩
  · -- for stores that keep their laws the cause is in what they hold
    intro σ _ _ _ _ s hs
    refine ⟨fun h => ?_, fun hk query n hquery hn hlength => ?_⟩
    · by_cases hk : k = 0
      · exact Or.inl hk
      · exact Or.inr (held?_eq_none_of_empty hs hk h)
    · exact exists_search_error_of_length_ne hs hk hquery hn hlength

/-! ### A store that cannot be asked for one document -/

/-- A store in memory that is searched as a whole; for anything else it cannot be reached. -/
structure Coarse where
  /-- The store in memory. -/
  store : Memory

/-- An action on the store in memory. -/
def Coarse.lift {α : Type} (a : StoreAction Memory α) : StoreAction Coarse α := fun s =>
  match a s.store with
  | .ok x m => .ok x ⟨m⟩
  | .error e m => .error e ⟨m⟩

instance : VectorStore Coarse where
  empty := ⟨VectorStore.empty⟩
  contains s := s.store.contains
  search s c query k f := if f = {} then s.store.search c query k f else .error (.unreachable "too fine")
  get s c ids := .ok (s.store.get c ids)
  scroll s := s.store.scroll
  ensure c n := Coarse.lift (Memory.ensure c n)
  drop c := Coarse.lift (Memory.drop c)
  upsert c ps := Coarse.lift (Memory.upsert c ps)
  deleteIds c ids := Coarse.lift (Memory.deleteIds c ids)
  deleteWhere c f := Coarse.lift (Memory.deleteWhere c f)

theorem candidates_coarse (m : Memory) (settings : RetrievalSettings) (query : Embedding) (k : Nat) :
    candidates (Coarse.mk m) settings query k = candidates m settings query k := rfl

/-- The best chunk of a file that is brought in cannot be asked for, and the retrieval fails for that, although
two chunks were fetched. A query of another length fails as well, and an index without chunks has no results. -/
theorem retrieve_tells_failures_side :
    (∃ cause, retrieve (Coarse.mk sideChunks) sideEmbedder (some sideContext) { candidateMultiplier := 1 } "y" 2
      true = .error (.related cause)) ∧
    (∃ cause, retrieve tiedChunks sideEmbedder none {} "y" 1 false = .error (.search cause)) ∧
    ∀ id, (holdings (VectorStore.empty : Memory)).held? chunksCollection id = none := by
  have hquery : sideEmbedder.embed "y" = .ok [1, 0] := rfl
  refine ⟨?_, ?_, ?_⟩
  · -- two files are fetched in any case
    have hdirect : candidates (Coarse.mk sideChunks) { candidateMultiplier := 1 } [1, 0] 2 = .ok sideResults := by
      rw [candidates_coarse, candidates_eq valid_sideChunks (fun _ _ => rfl) fun n h => Option.some.inj h,
        fetched_sideChunks]
    have hfails : Fails (Coarse.mk sideChunks) sideEmbedder (some sideContext) { candidateMultiplier := 1 } "y" 2
        true (.related (.unreachable "too fine")) :=
      .related hquery hdirect rfl rfl brings_sideResults rfl
    obtain ⟨htold, hfailed, -⟩ := (retrieve_tells_failures sideEmbedder (some sideContext)
      { candidateMultiplier := 1 } "y" 2 true).1 (Coarse.mk sideChunks)
    obtain ⟨err, herr⟩ := hfailed (by decide) _ hfails
    -- the other stages are fine
    cases htold err herr with
    | query hquery' => cases hquery'
    | search hquery' hsearch =>
      obtain rfl := Except.ok.inj hquery'
      rw [candidates_of_error hsearch] at hdirect
      cases hdirect
    | related => exact ⟨_, herr⟩
  · exact ((retrieve_tells_failures sideEmbedder none {} "y" 1 false).2 tiedChunks
      reachable_tiedChunks.sound.valid).2 (by decide) [1, 0] 1 hquery rfl (by decide)
  · exact (((retrieve_tells_failures sideEmbedder none {} "y" 1 false).2 (VectorStore.empty : Memory)
      valid_empty).1 (retrieve_of_not_contains rfl hquery)).resolve_left (by decide)

end Retrieval

end CodeSearch
