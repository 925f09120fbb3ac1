import CodeSearch.Proofs.Index.Catalog

/-!
# The answers of an index

After a run of changes that succeed, an index answers as its catalog says. `IndexStore.Shows` lists what
this means: the document under an id, the ids of all documents, the chunks that a search finds if it is not
limited, and the number that a deletion gives. A search asks for a query of the length that the vectors of
chunks have, and what is read has to be readable; in memory it always is.

`IndexStore.refines` says this of every run, together with what changes do to the catalog: they leave
alone what they do not name, a replaced document has exactly the chunks that were given for it, and a
replacement that is repeated succeeds again and changes nothing.

A replacement may be given chunks of other documents, and it sets those as well. Database tables keep
floating point values as their text is read again, and cannot give back a vector with a component that is
no finite number. So an index is no catalog of exactly what it was given
(`IndexStore.not_kept_as_given`).
-/

namespace CodeSearch

/-! ### Catalogs after replacements -/

namespace Catalog

variable {kept : Json → Json} {c : Catalog} {e : Embedder} {ks : List PlacedChunk}

/-- The last chunk of a list that is for a place. -/
def lastAt? (ks : List PlacedChunk) (document : String) (index : Nat) : Option PlacedChunk :=
  ks.reverse.find? fun k => k.document = document ∧ k.index = index

theorem setChunks_append_singleton (k : PlacedChunk) :
    c.setChunks kept e (ks ++ [k]) =
      (c.setChunks kept e ks).setChunk k.document k.index (.ofRecord kept e k.record) := by
  rw [setChunks, List.foldl_append]
  rfl

/-- At every place there is the last chunk that was set for it, and what was there before if none was. -/
theorem chunks_setChunks (d : String) (i : Nat) :
    (c.setChunks kept e ks).chunks d i =
      ((lastAt? ks d i).map fun k => .ofRecord kept e k.record).or (c.chunks d i) := by
  induction ks using List.reverseRecOn with
  | nil => rfl
  | append_singleton ks k ih =>
    rw [setChunks_append_singleton, chunks_setChunk, lastAt?, List.reverse_append,
      List.reverse_singleton, List.singleton_append, List.find?_cons]
    -- the last chunk is for this place, or it leaves the place as it was
    by_cases hk : d = k.document ∧ i = k.index
    · obtain ⟨rfl, rfl⟩ := hk
      simp
    · have hk' : ¬(k.document = d ∧ k.index = i) := fun h => hk ⟨h.1.symm, h.2.symm⟩
      rw [if_neg hk, ih, lastAt?]
      simp [hk']

theorem chunkLength?_setChunks :
    (c.setChunks kept e ks).chunkLength? =
      (ks.getLast?.map fun k => (k.record.vectorBy e).length).or c.chunkLength? := by
  induction ks using List.reverseRecOn with
  | nil => rfl
  | append_singleton ks k ih =>
    rw [setChunks_append_singleton, List.getLast?_concat]
    rfl

variable {r : TextRecord}

/-- After a replacement a document has the new chunks only, and all others have theirs. -/
theorem chunks_after_replaceDocument (d : String) (i : Nat) :
    (c.after kept (.replaceDocument e r ks)).chunks d i =
      ((lastAt? ks d i).map fun k => .ofRecord kept e k.record).or
        (if d = r.id then none else c.chunks d i) := by
  have hremove : ((c.remove r.id).setDocument r.id (.ofDocument kept e r)).chunks d i =
      if d = r.id then none else c.chunks d i := by
    change (c.remove r.id).chunks d i = _
    rw [chunks_remove]
    -- chunks belong to one document
    by_cases hd : d = r.id
    · rw [if_pos hd, if_pos hd]
    · rw [if_neg hd, if_neg hd]
  rw [after, chunks_setChunks, hremove]

/-- **A replacement that is repeated changes nothing.** -/
theorem after_replaceDocument_idem :
    (c.after kept (.replaceDocument e r ks)).after kept (.replaceDocument e r ks) =
      c.after kept (.replaceDocument e r ks) := by
  ext1
  · -- a document is the new one, or it was there before
    funext i
    simp only [after, documents_setChunks, documents_setDocument, documents_remove]
    by_cases hi : i = r.id
    · rw [if_pos hi, if_pos hi]
    · rw [if_neg hi, if_neg hi, if_neg hi, if_neg hi]
  · funext d i
    rw [chunks_after_replaceDocument, chunks_after_replaceDocument]
    -- a place has a new chunk, and the second time the same one
    cases lastAt? ks d i with
    | some k => rfl
    | none =>
      -- it has none, and its chunk was removed together with the document
      by_cases hd : d = r.id
      · rw [if_pos hd, if_pos hd]
      · rw [if_neg hd]
        rfl
  · simp only [after, chunkLength?_setChunks, setDocument, remove]
    cases ks.getLast? <;> rfl

end Catalog

namespace IndexStore

open Catalog (ofHoldings)
open LawfulVectorStore (fits kept)

/-! ### What is shown -/

/-- Whether a stored text is that of an entry. -/
structure Displays (t : StoredText) (id : String) (x : KeptText) : Prop where
  id : t.id = id
  content : t.content = x.content
  fields : ∀ k, Table.get? t.fields k = x.fields k

theorem displays_textOf (id : String) (b : PointBody) (score : Score) :
    Displays (textOf id b score) id (.ofBody b) where
  id := rfl
  content := rfl
  fields k := by
    change Table.get? (Table.erase b.2 contentField) k = if k = contentField then none else _
    rw [Table.get?_erase]

variable {σ : Type} [VectorStore σ] [LawfulVectorStore σ] [TransparentVectorStore σ] {s : σ}

/-- What it means that an index shows a catalog.

* `document` — asking for a document gives its entry, or nothing if there is none;
* `ids` — the listed ids are those of the documents, in order;
* `chunks` — a search for chunks whose limit leaves none out finds each chunk once, with the score that its
  vector has for the query;
* `deletes` — a deletion gives the number of chunks of the document. -/
structure Shows (s : σ) (c : Catalog) : Prop where
  document : ∀ id, (∀ x, c.documents id = some x → readable σ x.vector = true) →
    ∃ t?, document? s id = .ok t? ∧ Option.Rel (fun t x => Displays t id x) t? (c.documents id)
  ids : ∃ ids, documentIds s = .ok ids ∧ ids.Pairwise (· < ·) ∧
    ∀ id, id ∈ ids ↔ (c.documents id).isSome
  chunks : (∀ d i x, c.chunks d i = some x → readable σ x.vector = true) →
    ∀ query : Embedding, (∀ n, c.chunkLength? = some n → query.length = n) →
    ∃ ts, (∀ k, ts.length ≤ k → searchChunks s query k {} = .ok ts) ∧
      (ts.map StoredText.id).Nodup ∧
      (∀ t ∈ ts, ∃ d i x, c.chunks d i = some x ∧ Displays t (chunkId d i) x ∧
        t.score = Embedding.similarity query x.vector) ∧
      ∀ d i x, c.chunks d i = some x → ∃ t ∈ ts, Displays t (chunkId d i) x
  deletes : ∀ id, ∃ n s', (deleteDocument id).run s = .ok n s' ∧
    {i | (c.chunks id i).isSome}.encard = n

/-- Points of chunks are the chunks of the catalog. -/
theorem exists_chunk_of_mem_points (hs : Valid s) (hp : Placed (holdings s)) {p : Point}
    (h : p ∈ points s chunksCollection) :
    ∃ d i, p.id = chunkId d i ∧ Holdings.isPartOf d (p.vector, p.payload) = true ∧
      (ofHoldings (holdings s)).chunks d i = some (.ofBody (p.vector, p.payload)) := by
  have hheld := (TransparentVectorStore.mem_points hs.ordered).1 h
  obtain ⟨d, i, hid, hpart⟩ := hp _ _ hheld
  refine ⟨d, i, hid, hpart, ?_⟩
  rw [chunks_ofHoldings, ← hid, hheld, Option.map_some]

/-- An entry for a chunk comes from a point that is stored. -/
theorem exists_point_of_chunk (hs : Valid s) {d : String} {i : Nat} {x : KeptText}
    (h : (ofHoldings (holdings s)).chunks d i = some x) :
    ∃ p ∈ points s chunksCollection, p.id = chunkId d i ∧ x = .ofBody (p.vector, p.payload) := by
  rw [chunks_ofHoldings] at h
  obtain ⟨b, hb, rfl⟩ := Option.map_eq_some_iff.1 h
  exact ⟨⟨chunkId d i, b.1, b.2⟩, (TransparentVectorStore.mem_points hs.ordered).2 hb, rfl, rfl⟩

/-- The places where a document has a chunk are as many as its chunks. -/
theorem encard_chunks (hs : Valid s) (hp : Placed (holdings s)) (id : String) :
    {i | ((ofHoldings (holdings s)).chunks id i).isSome}.encard = (chunksOf s id).length := by
  have hnodup : ((chunksOf s id).map Point.id).Nodup :=
    (TransparentVectorStore.nodup_points chunksCollection hs.ordered).sublist (List.filter_sublist.map Point.id)
  have hinjective : Function.Injective (chunkId id) := fun i j h => (chunkId_inj h).2
  -- the ids of the chunks are those that the places give
  have himage : chunkId id '' {i | ((ofHoldings (holdings s)).chunks id i).isSome} =
      ↑((chunksOf s id).map Point.id).toFinset := by
    ext j
    rw [List.coe_toFinset, Set.mem_image, Set.mem_ofPred_eq, List.mem_map]
    constructor
    · -- a place with a chunk gives the id of a point
      rintro ⟨i, hi, rfl⟩
      obtain ⟨x, hx⟩ := Option.isSome_iff_exists.1 hi
      obtain ⟨p, hpoint, hid, -⟩ := exists_point_of_chunk hs hx
      obtain ⟨d, i', hid', hpart, -⟩ := exists_chunk_of_mem_points hs hp hpoint
      obtain ⟨rfl, -⟩ := chunkId_inj (hid.symm.trans hid')
      exact ⟨p, List.mem_filter.2 ⟨hpoint, hpart⟩, hid⟩
    · -- a point of the document stands at the place that its id tells
      rintro ⟨p, hpoint, rfl⟩
      obtain ⟨hpoint, hpart⟩ := List.mem_filter.1 hpoint
      obtain ⟨d, i, hid, hpart', hchunk⟩ := exists_chunk_of_mem_points hs hp hpoint
      rw [Holdings.isPartOf_iff] at hpart hpart'
      obtain rfl := Option.some.inj (hpart.symm.trans hpart')
      exact ⟨i, by rw [Set.mem_ofPred_eq, hchunk]; rfl, hid.symm⟩
  rw [← hinjective.encard_image, himage, Set.encard_coe_eq_coe_finsetCard,
    List.toFinset_card_of_nodup hnodup, List.length_map]

/-- A collection that is not there has no points. -/
theorem points_eq_nil (hs : Valid s) {c : String} (h : (holdings s).size? c = none) :
    points s c = [] := by
  rw [List.eq_nil_iff_forall_not_mem]
  intro p hp
  have hheld := (TransparentVectorStore.mem_points hs.ordered).1 hp
  rw [held?_eq_none hs h] at hheld
  cases hheld

/-- A search whose limit leaves nothing out. -/
theorem search_unlimited (hs : Valid s) {c : String} (hread : ∀ p ∈ points s c, readable σ p.vector = true)
    {query : Embedding} (hquery : ∀ n, (holdings s).size? c = some n → query.length = n) {k : Nat}
    {f : Filter} (hk : (found s c query f).length ≤ k) :
    search s c query k f = .ok (found s c query f) := by
  rw [search_eq hs hread]
  cases hc : (holdings s).size? c with
  | none =>
    -- a collection that is not there finds nothing
    have hnil : found s c query f = [] := by
      rw [found, points_eq_nil hs hc]
      simp [Hit.ranked]
    rw [hnil]
  | some n =>
    dsimp only
    rw [if_pos (hquery n hc), List.take_of_length_le hk]
    split
    next hzero =>
      -- a limit of none leaves nothing out only if there is nothing
      subst hzero
      rw [List.eq_nil_of_length_eq_zero (Nat.le_zero.1 hk)]
    next => rfl

/-- **A store shows the catalog of what it holds.** -/
theorem shows_ofHoldings (hs : Sound s) (hp : Placed (holdings s)) :
    Shows s (ofHoldings (holdings s)) where
  document := by
    intro id hread
    -- if the vector of the entry can be read, so can that of the point
    have hread' : ∀ b, (holdings s).held? documentsCollection id = some b → readable σ b.1 = true := by
      intro b hb
      refine hread (.ofBody b) ?_
      rw [documents_ofHoldings, hb, Option.map_some]
    refine ⟨_, document?_eq hs.valid hread', ?_⟩
    rw [documents_ofHoldings]
    cases (holdings s).held? documentsCollection id with
    | none => exact .none
    | some b => exact .some (displays_textOf id b _)
  ids := by
    obtain ⟨ids, hids, hmem⟩ := documentIds_spec hs
    refine ⟨ids, hids, sorted_documentIds hids, fun id => ?_⟩
    rw [hmem, documents_ofHoldings, Option.isSome_map]
  chunks := by
    intro hread query hquery
    have hread' : ∀ p ∈ points s chunksCollection, readable σ p.vector = true := by
      intro p hpoint
      obtain ⟨d, i, -, -, hchunk⟩ := exists_chunk_of_mem_points hs.valid hp hpoint
      exact hread d i _ hchunk
    -- the places to search are all points of the collection
    refine ⟨found s chunksCollection query {}, fun k => search_unlimited hs.valid hread' hquery,
      nodup_found hs.valid _ _ _, fun t ht => ?_, fun d i x hx => ?_⟩
    · -- what is found is the text of an entry
      obtain ⟨p, hpoint, -, rfl⟩ := mem_found.1 ht
      obtain ⟨d, i, hid, -, hchunk⟩ := exists_chunk_of_mem_points hs.valid hp hpoint
      rw [hid]
      exact ⟨d, i, _, hchunk, displays_textOf _ _ _, rfl⟩
    · -- and the text of every entry is found
      obtain ⟨p, hpoint, hid, rfl⟩ := exists_point_of_chunk hs.valid hx
      refine ⟨_, mem_found.2 ⟨p, hpoint, rfl, rfl⟩, ?_⟩
      rw [← hid]
      exact displays_textOf _ _ _
  deletes := by
    intro id
    obtain ⟨n, s', hv, hh, hrun⟩ := deleteDocument_spec hs.valid id
    refine ⟨n, s', hrun, ?_⟩
    rw [encard_chunks hs.valid hp, count_deleteDocument hs.valid hrun]

/-! ### Runs of changes -/

section Runs

omit [LawfulVectorStore σ] [TransparentVectorStore σ] in
theorem allSucceed_append {changes changes' : List Change} :
    AllSucceed s (changes ++ changes') ↔
      AllSucceed s changes ∧ AllSucceed (afterChanges s changes) changes' := by
  induction changes generalizing s with
  | nil => exact (iff_of_eq (true_and _)).symm
  | cons c cs ih =>
    change _ ∧ AllSucceed _ (cs ++ changes') ↔ (_ ∧ AllSucceed _ cs) ∧ _
    rw [ih, and_assoc]
    rfl

omit [TransparentVectorStore σ] in
/-- **A replacement that has succeeded succeeds again.** -/
theorem succeeds_again (hs : Valid s) {e : Embedder} {r : TextRecord} {rs : List TextRecord}
    (hok : (Operation.replaceDocument e r rs).Succeeds s) :
    (Operation.replaceDocument e r rs).Succeeds ((Operation.replaceDocument e r rs).after s) := by
  obtain ⟨n, s', hrun⟩ := hok
  rcases replaceDocument_cases hs e r rs with
    ⟨_, -, hends⟩ | ⟨v, _, -, -, -, hends⟩ | ⟨v, ps, hv, hfree, hc, hends⟩
  · cases (hends.of_ok hrun).1
  · -- the replacement has succeeded, so what it was to write is stored now
    cases (hends.of_ok hrun).1
  · obtain ⟨hvalid, hh⟩ := stateAfter_of_ends hends
    -- the collections have the lengths that the same points ask for
    have hdocument :
        documentPoint (fits σ) ((holdings s).replaced (kept σ) r.id (documentWith r v) ps) e r =
          .ok (documentWith r v) := by
      refine documentPoint_eq_ok_iff.2 ⟨v, hv, ?_, rfl⟩
      rw [Holdings.refusal?_eq_none_iff, Holdings.size?_replaced_documents]
      exact ⟨((Holdings.refusal?_eq_none_iff _ _ _ _).1 hfree).1, fun m hm => (Option.some.inj hm).symm⟩
    have hchunks :
        chunkPoints (fits σ) ((holdings s).replaced (kept σ) r.id (documentWith r v) ps) e rs =
          .ok ps := by
      obtain ⟨hpoints, hlen⟩ := chunkPoints_eq_ok_iff.1 hc
      refine chunkPoints_eq_ok_iff.2 ⟨hpoints, fun p hp => ⟨?_, (hlen p hp).2⟩⟩
      rw [Holdings.refusal?_eq_none_iff, Holdings.size?_replaced_chunks]
      refine ⟨((Holdings.refusal?_eq_none_iff _ _ _ _).1 (hlen p hp).1).1, fun m hm => ?_⟩
      cases ps with
      -- only the first chunk can have made the collection, and all have its length
      | nil => cases hp
      | cons q ps =>
        obtain rfl := Option.some.inj hm
        exact (hlen p hp).2 q List.mem_cons_self
    rw [← hh] at hdocument hchunks
    obtain ⟨s'', -, -, hrun'⟩ := replaceDocument_stored hvalid hdocument hchunks
    exact ⟨_, s'', hrun'⟩

/-- What it means that an index does what its catalog does, for the changes of a run.

* `values` — all values are kept as they are that are no floating point numbers;
* `shows` — after the run the index shows the catalog;
* `frame` — one change more leaves alone what belongs to an id that it does not name;
* `given` — a document that is replaced has exactly the chunks that are given for it, the last one for each
  place;
* `again` — a replacement that succeeds succeeds again, and changes nothing then. -/
structure Refines (σ : Type) [VectorStore σ] [LawfulVectorStore σ] [TransparentVectorStore σ]
    (changes : List Change) : Prop where
  values : ∀ (as : Attributes) (k : String) (j : Json), Table.get? as.payload k = some j →
    (∀ x : Float, j ≠ .float x) → kept σ j = j
  shows : Shows (afterChanges (VectorStore.empty : σ) changes) (Catalog.ofChanges (kept σ) changes)
  frame : ∀ (c : Change) (id : String), ¬c.Names id →
    (Catalog.ofChanges (kept σ) (changes ++ [c])).documents id =
        (Catalog.ofChanges (kept σ) changes).documents id ∧
      (Catalog.ofChanges (kept σ) (changes ++ [c])).chunks id =
        (Catalog.ofChanges (kept σ) changes).chunks id
  given : ∀ (e : Embedder) (r : TextRecord) (ks : List PlacedChunk) (i : Nat),
    (Catalog.ofChanges (kept σ) (changes ++ [.replaceDocument e r ks])).chunks r.id i =
      (Catalog.lastAt? ks r.id i).map fun k => .ofRecord (kept σ) e k.record
  again : ∀ (e : Embedder) (r : TextRecord) (ks : List PlacedChunk),
    AllSucceed (VectorStore.empty : σ) (changes ++ [.replaceDocument e r ks]) →
      AllSucceed (VectorStore.empty : σ)
          (changes ++ [.replaceDocument e r ks, .replaceDocument e r ks]) ∧
        Catalog.ofChanges (kept σ) (changes ++ [.replaceDocument e r ks, .replaceDocument e r ks]) =
          Catalog.ofChanges (kept σ) (changes ++ [.replaceDocument e r ks])

omit [TransparentVectorStore σ] in
theorem placed_empty : Placed (holdings (VectorStore.empty : σ)) := by
  rw [LawfulVectorStore.holdings_empty]
  intro j b hb
  cases hb

/-- **An index does what its catalog does**, in every run of changes that succeed. -/
theorem refines {changes : List Change} (hok : AllSucceed (VectorStore.empty : σ) changes) :
    Refines σ changes where
  values := by
    intro as k j hj hfloat
    have hplain := Attributes.isPlain_of_mem_payload (Table.mem_of_get? hj) hfloat
    -- only floating point numbers are stored otherwise
    exact TransparentVectorStore.kept_of_isPlain hplain
  shows := by
    obtain ⟨hs, hp, hcatalog⟩ := ofHoldings_of_run sound_empty placed_empty hok
    rw [LawfulVectorStore.holdings_empty] at hcatalog
    have hshows := shows_ofHoldings hs hp
    rw [hcatalog] at hshows
    exact hshows
  frame := by
    intro c id hid
    rw [Catalog.ofChanges, List.foldl_append]
    exact Catalog.after_of_not_names hid
  given := by
    -- the last change is the only one that could name the id
    intro e r ks i
    rw [Catalog.ofChanges, List.foldl_append, List.foldl_cons, List.foldl_nil,
      Catalog.chunks_after_replaceDocument, if_pos rfl, Option.or_none]
  again := by
    intro e r ks hrun
    -- the same replacement twice is one replacement
    obtain ⟨hchanges, hone, -⟩ := allSucceed_append.1 hrun
    have hs := (ofHoldings_of_run sound_empty placed_empty hchanges).1
    refine ⟨allSucceed_append.2 ⟨hchanges, hone, succeeds_again hs.valid hone, trivial⟩, ?_⟩
    simp only [Catalog.ofChanges, List.foldl_append, List.foldl_cons, List.foldl_nil]
    exact Catalog.after_replaceDocument_idem

end Runs

/-! ### Runs of single letters -/

section Letters

/-- A document with a vector of its own. -/
def letterDocument : TextRecord :=
  { id := "a::0", content := "x", attributes := [], embedding := some [1] }

/-- The first chunk of a document. -/
def letterChunk (document content : String) : PlacedChunk :=
  { document, index := 0, content
    attributes := [(documentIdField, .ofText document)]
    embedding := some [1]
    carries := rfl }

/-- Two documents whose ids look like those of chunks, one of them replaced and one taken out. -/
def letterChanges : List Change :=
  [.addDocument emptyEmbedder letterDocument,
    .addChunks emptyEmbedder [letterChunk "a::0" "x", letterChunk "a" "y"],
    .replaceDocument emptyEmbedder letterDocument [letterChunk "a::0" "z"],
    .deleteDocument "a"]

theorem refines_letters :
    (AllSucceed (VectorStore.empty : Memory) letterChanges ∧ Refines Memory letterChanges) ∧
      AllSucceed (VectorStore.empty : Database) letterChanges ∧ Refines Database letterChanges := by
  have hmemory : AllSucceed (VectorStore.empty : Memory) letterChanges :=
    ⟨⟨_, _, rfl⟩, ⟨_, _, rfl⟩, ⟨_, _, rfl⟩, ⟨_, _, rfl⟩, trivial⟩
  have hdatabase : AllSucceed (VectorStore.empty : Database) letterChanges :=
    ⟨⟨_, _, rfl⟩, ⟨_, _, rfl⟩, ⟨_, _, rfl⟩, ⟨_, _, rfl⟩, trivial⟩
  exact ⟨⟨hmemory, refines hmemory⟩, hdatabase, refines hdatabase⟩

/-- A document with a vector that has no direction. -/
def undefinedDocument : TextRecord :=
  { id := "a", content := "x", attributes := [], embedding := some [⟨0x7fc00000⟩] }

/-- A document that says a small number of itself. -/
def measuredDocument : TextRecord :=
  { id := "a", content := "x", attributes := [("k", .scalar (.float 1e-25))], embedding := some [1] }

/-- A document whose id stands before that of `letterChunk`. -/
def otherDocument : TextRecord := { id := "a", content := "y", attributes := [], embedding := some [1] }

/-- A search in memory among a single chunk. -/
theorem searchChunks_of_single {m : Memory} (hm : Valid m) {p : Point} (hpoints : points m chunksCollection = [p])
    (hsize : (holdings m).size? chunksCollection = some 1) :
    (searchChunks m [1] 10 {}).map (·.map fun t => (t.id, t.content)) =
      .ok [(p.id, (Payload.text? p.payload contentField).getD "")] := by
  have hfound : found m chunksCollection [1] {} =
      [textOf p.id (p.vector, p.payload) (Embedding.similarity [1] p.vector)] := by
    rw [found, hpoints]
    simp [Hit.ranked]
    rfl
  rw [searchChunks, search_eq hm (fun _ _ => rfl), hsize, hfound]
  rfl

/-- **An index is no catalog of exactly what it was given.** In database tables a document can be stored
that cannot be read, and a number can be stored that reads as another one. In any store a replacement can
change a chunk of another document. -/
theorem not_kept_as_given :
    (∃ s : Database, (addDocument emptyEmbedder undefinedDocument).run VectorStore.empty = .ok "a" s ∧
      document? s "a" = .error (.unreadable (.component 5))) ∧
    (∃ (s : Database) (t : StoredText) (x : Float),
      (addDocument emptyEmbedder measuredDocument).run VectorStore.empty = .ok "a" s ∧
      document? s "a" = .ok (some t) ∧ Table.get? t.fields "k" = some (.float x) ∧
      x.toBits ≠ (1e-25 : Float).toBits) ∧
    ∃ s s' : Memory,
      (addChunks emptyEmbedder [(letterChunk "b" "x").record]).run VectorStore.empty = .ok ["b::0"] s ∧
      (replaceDocument emptyEmbedder otherDocument [(letterChunk "b" "z").record]).run s = .ok 1 s' ∧
      (searchChunks s [1] 10 {}).map (·.map fun t => (t.id, t.content)) = .ok [("b::0", "x")] ∧
      (searchChunks s' [1] 10 {}).map (·.map fun t => (t.id, t.content)) = .ok [("b::0", "z")] := by
  refine ⟨⟨_, rfl, ?_⟩, ⟨_, _, _, rfl, rfl, rfl, ?_⟩, ⟨_, _, rfl, rfl, ?_, ?_⟩⟩
  · -- the stored vector has no direction, which shows when it is read
    rfl
  · -- the number is too small for what it is read as
    decide
  · -- the first chunk is there alone, and then it is replaced by the other one
    have hstored := addChunks_spec (σ := Memory) valid_empty emptyEmbedder [(letterChunk "b" "x").record]
    exact searchChunks_of_single (hstored.of_ok rfl).2.1
      (p := (letterChunk "b" "x").record.pointBy emptyEmbedder) rfl rfl
  · have hstored := addChunks_spec (σ := Memory) valid_empty emptyEmbedder [(letterChunk "b" "x").record]
    have hreplaced : Ends (replaceDocument emptyEmbedder otherDocument [(letterChunk "b" "z").record]) _ _ _ :=
      replaceDocument_stored (hstored.of_ok rfl).2.1 rfl rfl
    exact searchChunks_of_single (hreplaced.of_ok rfl).2.1
      (p := (letterChunk "b" "z").record.pointBy emptyEmbedder) rfl rfl

end Letters

end IndexStore

end CodeSearch
