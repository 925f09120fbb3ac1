import CodeSearch.Proofs.Chunks.Names
import CodeSearch.Proofs.Index.Catalog
import CodeSearch.Proofs.Index.Retries

/-!
# Chunks that stand

What the indexer has written under the id of a chunk is all that is found there until another chunk is stored under
that id (`Operation.StoresChunk`). Nothing else puts anything in its place: other operations leave it or take it
out, and so do operations that fail (`held?_of_held?_after`).

A chunk of a document *stands* in the states that such operations lead to from the one in which the document was
written (`Stands`), and there it is held as it was written, if it is held at all (`Stands.eq_bodyBy`). The actions
of the indexer are made of operations:

* dropping a file leaves a chunk standing, and indexing another file anew does (`Stands.removeFile`,
  `Stands.reindexFile`), and so does a run that stores no document under the chunk's id (`Stands.indexProject`);
* the chunks of a document stand when it has been indexed anew (`stands_reindexFile`), and when a run has written
  it (`stands_indexProject`).

Of the chunks of the document it is known besides what they are named after (`StandsUntil.named`).
-/

namespace CodeSearch

/-! ### Stored chunks -/

/-- What is stored of a chunk. -/
def Chunk.bodyBy (c : Chunk) (g : String → Embedding) (kept : Json → Json) (id : String) (m : Metadata)
    (index : Nat) : PointBody :=
  let p := (c.pointBy g id m index).keptBy kept
  (p.vector, p.payload)

section Fields

variable (g : String → Embedding) (kept : Json → Json) (id : String) (m : Metadata) (c : Chunk) (index : Nat)

theorem Chunk.payload_bodyBy :
    (c.bodyBy g kept id m index).2 = (c.recordBy g id m index).payload.map fun e => (e.1, kept e.2) := by
  rw [Chunk.bodyBy, Point.keptBy, Chunk.pointBy]

/-- A field of a stored chunk is its text or one of its attributes, as it is kept. -/
theorem Chunk.get?_bodyBy (field : String) :
    Table.get? (c.bodyBy g kept id m index).2 field =
      (if field = contentField then some (.str c.content)
        else (Table.get? (chunkAttributes id m c) field).bind Attribute.stored?).map kept := by
  have hs : Table.Sorted (c.recordBy g id m index).attributes := by
    rw [Chunk.attributes_recordBy]
    exact sorted_chunkAttributes id m c
  have hget := Table.get?_map (fun _ => kept) (c.recordBy g id m index).payload field
  rw [Chunk.payload_bodyBy, hget, TextRecord.get?_payload hs, Chunk.attributes_recordBy,
    show (c.recordBy g id m index).content = c.content by rw [Chunk.recordBy]]

end Fields

/-! ### What takes the place of a chunk -/

namespace IndexStore

/-- Whether an operation replaces or deletes a document. -/
def Operation.Replaces (document : String) : Operation → Prop
  | addDocument .. | addChunks .. => False
  | replaceDocument _ r _ => r.id = document
  | deleteDocument id => id = document
  | clear => True

/-- Whether an operation is given a chunk with an id. -/
def Operation.GivesChunk (chunk : String) : Operation → Prop
  | addChunks _ rs | replaceDocument _ _ rs => ∃ r ∈ rs, r.id = chunk
  | addDocument .. | deleteDocument _ | clear => False

variable {σ : Type} [VectorStore σ]

/-- Whether an operation stores a chunk under an id. -/
def Operation.StoresChunk (chunk : String) (o : Operation) (s : σ) : Prop := o.GivesChunk chunk ∧ o.Succeeds s

variable [LawfulVectorStore σ] {s : σ}

open LawfulVectorStore (fits kept)

/-- The ids of chunks that are written are those that were given. -/
theorem ids_of_chunkPoints {fits : Nat → Bool} {h : Holdings} {e : Embedder} {rs : List TextRecord}
    {ps : List Point} (hps : chunkPoints fits h e rs = .ok ps) {chunk : String} (hrs : ∀ r ∈ rs, r.id ≠ chunk) :
    ∀ p ∈ ps, p.id ≠ chunk := by
  rw [points_eq_map (chunkPoints_eq_ok_iff.1 hps).1]
  intro p hp
  obtain ⟨r, hr, rfl⟩ := List.mem_map.1 hp
  exact hrs r hr

/-- An action that ends well has a result. -/
theorem exists_run_of_ends {α : Type} {a : IndexAction σ α} {x : α} {h : Holdings} (ha : Ends a s (.ok x) h) :
    ∃ y s', a.run s = .ok y s' := by
  obtain ⟨s', -, -, hrun⟩ := ha
  exact ⟨x, s', hrun⟩

/-- **What is found under the id of a chunk was there before**, unless a chunk has been stored under it. -/
theorem held?_of_held?_after (hs : Valid s) {chunk : String} {o : Operation} (ho : ¬o.StoresChunk chunk s)
    {b : PointBody} (hb : (holdings (o.after s)).held? chunksCollection chunk = some b) :
    (holdings s).held? chunksCollection chunk = some b := by
  -- an operation that succeeds is not given a chunk with that id
  have hother : o.Succeeds s → ¬o.GivesChunk chunk := fun hok hgives => ho ⟨hgives, hok⟩
  -- it is enough to look at what the operation leaves
  suffices h : ∃ h, holdings (o.after s) = h ∧
      (h.held? chunksCollection chunk = some b → (holdings s).held? chunksCollection chunk = some b) by
    obtain ⟨h, rfl, hback⟩ := h
    exact hback hb
  clear hb
  -- clearing brings no chunks
  have hcleared : ∀ id, ((holdings s).cleared id).held? chunksCollection chunk = some b →
      (holdings s).held? chunksCollection chunk = some b := fun id hb =>
    ((Holdings.held?_cleared_chunks_eq_some_iff _).1 hb).1
  cases o with
  | addDocument e r =>
    refine ⟨_, (stateAfter_of_ends (addDocument_spec hs e r)).2, fun hb => ?_⟩
    -- a document is no chunk
    cases hd : documentPoint (fits σ) (holdings s) e r with
    | error cause =>
      rw [hd] at hb
      exact hb
    | ok p =>
      rw [hd] at hb
      exact (Holdings.held?_write_of_ne _ _ Holdings.documentsCollection_ne.symm _ _).symm.trans hb
  | addChunks e rs =>
    have hends := addChunks_spec hs e rs
    refine ⟨_, (stateAfter_of_ends hends).2, fun hb => ?_⟩
    cases hps : chunkPoints (fits σ) (holdings s) e rs with
    | error cause =>
      -- nothing was written
      rw [hps] at hb
      exact hb
    | ok ps =>
      rw [hps] at hb hends
      -- the chunks that were written have other ids
      have hids := ids_of_chunkPoints hps fun r hr hid => hother (exists_run_of_ends hends) ⟨r, hr, hid⟩
      exact (Holdings.held?_write_of_forall_ne _ _ hids).symm.trans hb
  | replaceDocument e r rs =>
    -- what a replacement leaves under the id was there before it
    have hkeep : ∀ p ps, (∀ q ∈ ps, q.id ≠ chunk) →
        ((holdings s).replaced (kept σ) r.id p ps).held? chunksCollection chunk = some b →
          (holdings s).held? chunksCollection chunk = some b := by
      intro p ps hids hb
      rw [Holdings.held?_replaced_chunks_of_forall_ne _ _ hids, ← Holdings.held?_cleared_chunks] at hb
      exact hcleared r.id hb
    rcases replaceDocument_cases hs e r rs with
      ⟨_, -, hends⟩ | ⟨v, _, -, -, -, hends⟩ | ⟨v, ps, -, -, hps, hends⟩
    · exact ⟨_, (stateAfter_of_ends hends).2, hcleared r.id⟩
    · exact ⟨_, (stateAfter_of_ends hends).2, hkeep _ [] fun _ hq => absurd hq List.not_mem_nil⟩
    · have hids := ids_of_chunkPoints hps fun q hq hid => hother (exists_run_of_ends hends) ⟨q, hq, hid⟩
      exact ⟨_, (stateAfter_of_ends hends).2, hkeep _ ps hids⟩
  | deleteDocument id =>
    obtain ⟨_, hends⟩ := deleteDocument_spec hs id
    exact ⟨_, (stateAfter_of_ends hends).2, hcleared id⟩
  | clear =>
    -- nothing is left after clearing
    refine ⟨_, (stateAfter_of_ends (clear_spec hs)).2, fun hb => ?_⟩
    rw [Holdings.held?_drop, if_pos rfl] at hb
    cases hb

end IndexStore

/-! ### Chunks that stand -/

namespace Indexer

open IndexStore (Reachable Operation)

variable {σ : Type} [VectorStore σ]

/-- The states after the indexer has written a document under an id, until an operation is done to the index in a
state in which it ends this. -/
inductive StandsUntil (ends : Operation → σ → Prop) (d : Document) (id : String) : σ → Prop where
  /-- The document of a file has been written. -/
  | written {s s' : σ} {i : Indexer} {w : Workspace} {path : Path} {e : Embedder} {chunks : Nat}
      (hs : Reachable s) (hready : i.prepare w path id = .ok (.ready d))
      (hrun : (IndexStore.writeDocument e id d).run s = .ok chunks s') : StandsUntil ends d id s'
  /-- Something else has been done to the index. -/
  | after {s : σ} (hs : StandsUntil ends d id s) (o : Operation) (ho : ¬ends o s) :
      StandsUntil ends d id (o.after s)

/-- The states in which a chunk of a document stands: no other chunk has been stored under its id. It may have been
taken out. -/
abbrev Stands (d : Document) (id : String) (index : Nat) : σ → Prop :=
  StandsUntil (Operation.StoresChunk (chunkId id index)) d id

section Named

/-- The definitions that parsing finds have proper names. -/
theorem proper_of_parse {g : Grammars} {d : Document} {o : Outline} (h : (d.parse g).2 = some o) :
    ∀ declared ∈ o.definitions, declared.Proper := by
  unfold Document.parse at h
  split at h
  · cases h
  · split at h
    · cases h
    · next ho =>
      obtain rfl := Option.some.inj h
      exact fun declared => Outline.proper_of_ofSource? ho

theorem chunks_cut (i : Indexer) (parsed : Document × Option Outline) :
    (i.cut parsed).chunks = chunksWith i.chunks parsed.1.content (parsed.2.getD {}).definitions := rfl

/-- The chunks of a parsed document are named after its definitions. -/
theorem named_of_mem_cut {i : Indexer} {parsed : Document × Option Outline}
    (hparsed : ∀ o, parsed.2 = some o → ∀ declared ∈ o.definitions, declared.Proper) {c : Chunk}
    (hc : c ∈ (i.cut parsed).chunks) : c.Named := by
  rw [chunks_cut] at hc
  refine named_chunksWith (fun declared hdeclared => ?_) hc
  cases ho : parsed.2 with
  | none =>
    -- without an outline there are no definitions
    rw [ho] at hdeclared
    cases hdeclared
  | some o =>
    rw [ho] at hdeclared
    exact hparsed o ho declared hdeclared

/-- The chunks of a file are named after what its outline declares. -/
theorem named_of_prepare {i : Indexer} {w : Workspace} {path : Path} {id : String} {d : Document}
    (hready : i.prepare w path id = .ok (.ready d)) {c : Chunk} (hc : c ∈ d.chunks) : c.Named := by
  obtain ⟨bytes, facts, -, rfl⟩ := i.prepare_ready hready
  rw [Document.chunks_withFacts, textDocument] at hc
  exact named_of_mem_cut (fun _ => proper_of_parse) hc

/-- The chunks of a document that stands are named. -/
theorem StandsUntil.named {ends : Operation → σ → Prop} {d : Document} {id : String} {s : σ}
    (h : StandsUntil ends d id s) {c : Chunk} (hc : c ∈ d.chunks) : c.Named := by
  induction h with
  | written _ hready _ => exact named_of_prepare hready hc
  | after _ _ _ ih => exact ih

end Named

theorem StandsUntil.reachable {ends : Operation → σ → Prop} {d : Document} {id : String} {s : σ}
    (hs : StandsUntil ends d id s) : Reachable s := by
  induction hs with
  | @written s s' _ _ _ e _ hs _ hrun =>
    have hafter := reachable_writeDocument hs e id d
    unfold stateAfter at hafter
    rw [hrun] at hafter
    exact hafter
  | after _ o _ ih => exact ih.after o

section Held

variable [LawfulVectorStore σ] {d : Document} {id : String} {index : Nat} {s : σ}

open LawfulVectorStore (kept)

/-- The chunks of a document that has been written are held. -/
theorem held?_writeDocument (hs : Valid s) {e : Embedder} {chunks : Nat} {s' : σ}
    (hrun : (IndexStore.writeDocument e id d).run s = .ok chunks s') {c : Chunk} (hc : d.chunks[index]? = some c) :
    (holdings s').held? chunksCollection (chunkId id index) =
      some (c.bodyBy e.vectorOf (kept σ) id d.metadata index) := by
  obtain ⟨hresult, -, hh⟩ := (IndexStore.writeDocument_spec hs e id d).of_ok hrun
  -- of the ways in which a writing can go one succeeds
  rcases IndexStore.progress_cases e.follows_vectorOf with
    ⟨cause, -, hp⟩ | ⟨-, ⟨cause, -, hp⟩ | ⟨-, ⟨cause, -, hp⟩ | ⟨-, hp⟩⟩⟩
  · -- a writing that succeeds has stored everything
    rw [hp] at hresult
    cases hresult
  · rw [hp] at hresult
    cases hresult
  · rw [hp] at hresult
    cases hresult
  · -- every chunk is among the points that were stored
    have hmem : c.pointBy e.vectorOf id d.metadata index ∈ d.chunkPointsBy e.vectorOf id :=
      List.mem_map.2 ⟨(c, index), List.mem_zipIdx_iff_getElem?.2 hc, rfl⟩
    rw [hh, hp, IndexStore.Progress.after_stored]
    exact Holdings.held?_replaced_chunks_of_mem _ _ nodup_chunkPointsBy hmem

/-- **A chunk that stands is held as it was written**, if it is held at all. -/
theorem Stands.eq_bodyBy (h : Stands d id index s) {c : Chunk} (hc : d.chunks[index]? = some c) {b : PointBody}
    (hb : (holdings s).held? chunksCollection (chunkId id index) = some b) :
    ∃ g, b = c.bodyBy g (kept σ) id d.metadata index := by
  induction h with
  | @written s s' _ _ _ e _ hs _ hrun =>
    rw [held?_writeDocument hs.sound.valid hrun hc] at hb
    exact ⟨e.vectorOf, (Option.some.inj hb).symm⟩
  | after hs o ho ih => exact ih (IndexStore.held?_of_held?_after hs.reachable.sound.valid ho hb)

end Held

/-! ### What the indexer does to a chunk that stands -/

section Actions

variable {d : Document} {id : String} {index : Nat} {s : σ}

/-- Deleting a document puts nothing in the place of a chunk. -/
theorem Stands.deleteDocument (hs : Stands d id index s) (other : String) :
    Stands d id index (stateAfter (IndexStore.deleteDocument other) s) :=
  hs.after (.deleteDocument other) fun hstores => hstores.1

/-- Writing a document leaves a chunk standing if it is another document than the chunk's, or fails. -/
theorem Stands.writeDocument (hs : Stands d id index s) {other : String} {e : Embedder} {d' : Document}
    (hwrite : other = id → ∀ n s', (IndexStore.writeDocument e other d').run s ≠ .ok n s') :
    Stands d id index (stateAfter (IndexStore.writeDocument e other d') s) := by
  have hrun := writeDocument_run e other d' s
  unfold stateAfter
  cases hr : d'.records e other with
  | error cause =>
    -- without records nothing is written
    rw [hr] at hrun
    rw [hrun]
    exact hs
  | ok r =>
    rw [hr] at hrun
    rw [hrun]
    obtain rfl := Document.records_eq e.follows_vectorOf hr
    -- otherwise the document is replaced
    refine hs.after (.replaceDocument e _ _) ?_
    -- the chunks of another document have ids of their own
    rintro ⟨⟨q, hq, hid⟩, n, s', hok⟩
    obtain ⟨⟨c, m⟩, -, rfl⟩ := List.mem_map.1 hq
    exact hwrite (chunkId_inj hid).1 n s' (hrun.trans hok)

/-! #### Single files -/

omit [VectorStore σ] in
/-- An action that gives a number in the place of the result of another one leaves behind what that one does. -/
theorem stateAfter_then_return (a : IndexAction σ Nat) (s : σ) :
    stateAfter (do let _ ← a; return 0 : IndexAction σ Nat) s = stateAfter a s := by
  simp only [stateAfter, EStateM.run, bind, EStateM.bind]
  cases a s <;> rfl

/-- **Dropping a file leaves a chunk standing.** -/
theorem Stands.removeFile (hs : Stands d id index s) (root path : Path) :
    Stands d id index (stateAfter (Indexer.removeFile root path) s) := by
  unfold Indexer.removeFile
  cases fileId root path with
  | error cause => exact hs
  | ok other => exact hs.deleteDocument other

/-- **Indexing another file anew leaves a chunk standing.** -/
theorem Stands.reindexFile (hs : Stands d id index s) (i : Indexer) (e : Embedder) (w : Workspace)
    {root path : Path} (hne : fileId root path ≠ .ok id) :
    Stands d id index (stateAfter (i.reindexFile e w root path) s) := by
  unfold Indexer.reindexFile
  cases hid : fileId root path with
  | error cause => exact hs
  | ok other =>
    have hother : other ≠ id := fun h => hne (h ▸ hid)
    rw [ofExcept_ok_bind]
    cases w.contains path with
    | false =>
      -- the file is gone, so its document is deleted
      change Stands d id index (stateAfter (do let _ ← IndexStore.deleteDocument other; return 0) s)
      rw [stateAfter_then_return]
      exact hs.deleteDocument other
    | true =>
      cases i.prepare w path other with
      -- the file cannot be read
      | error cause => exact hs
      | ok p =>
        cases p with
        -- the file is written
        | ready d' => exact hs.writeDocument fun h => absurd h hother
        | skipped reason =>
          -- the file is passed over, so its document is deleted
          change Stands d id index (stateAfter (do let _ ← IndexStore.deleteDocument other; return 0) s)
          rw [stateAfter_then_return]
          exact hs.deleteDocument other

/-- The chunks of a file that is there and was indexed anew stand. -/
theorem stands_reindexFile (hs : Reachable s) {i : Indexer} {e : Embedder} {w : Workspace} {root path : Path}
    (hid : fileId root path = .ok id) (hpath : w.contains path = true)
    (hready : i.prepare w path id = .ok (.ready d)) {chunks : Nat} {s' : σ}
    (hrun : (i.reindexFile e w root path).run s = .ok chunks s') (index : Nat) : Stands d id index s' := by
  unfold Indexer.reindexFile at hrun
  rw [hid, ofExcept_ok_bind, hpath, hready] at hrun
  exact .written hs hready hrun

/-! #### Runs -/

variable {i : Indexer} {e : Embedder} {w : Workspace} {existing : Table String} {f : IndexedFile}

/-- A file is judged without touching the index, or its document is written. -/
theorem judge_writes_cases (i : Indexer) (e : Embedder) (w : Workspace) (existing : Table String) (s : σ)
    (f : IndexedFile) :
    (i.judge e w existing s f).1.isIndexed = false ∧ (i.judge e w existing s f).2 = s ∨
      ∃ d, i.prepare w f.path f.id = .ok (.ready d) ∧
        ((∃ cause s', (IndexStore.writeDocument e f.id d).run s = .error cause s' ∧
            i.judge e w existing s f = (.failed cause, s')) ∨
          ∃ chunks s', (IndexStore.writeDocument e f.id d).run s = .ok chunks s' ∧
            i.judge e w existing s f = (.indexed d.metadata chunks, s')) := by
  unfold judge
  cases i.prepare w f.path f.id with
  | error cause => exact Or.inl ⟨rfl, rfl⟩
  | ok p =>
    cases p with
    | skipped reason => exact Or.inl ⟨rfl, rfl⟩
    | ready d =>
      dsimp only
      split
      · exact Or.inl ⟨rfl, rfl⟩
      · refine Or.inr ⟨d, rfl, ?_⟩
        cases (IndexStore.writeDocument e f.id d).run s with
        | error cause s' => exact Or.inl ⟨cause, s', rfl, rfl⟩
        | ok chunks s' => exact Or.inr ⟨chunks, s', rfl, rfl⟩

/-- Judging a file leaves a chunk standing if it stores no document under the id of the chunk's. -/
theorem Stands.judge (hs : Stands d id index s)
    (hf : f.id = id → (i.judge e w existing s f).1.isIndexed = false) :
    Stands d id index (i.judge e w existing s f).2 := by
  rcases i.judge_writes_cases e w existing s f with
    ⟨-, h⟩ | ⟨d', -, ⟨cause, s', hrun, h⟩ | ⟨chunks, s', hrun, h⟩⟩
  · rw [h]
    exact hs
  · -- the writing has failed
    have hwrite : Stands d id index (stateAfter (IndexStore.writeDocument e f.id d') s) :=
      hs.writeDocument fun _ n t hok => by
        rw [hrun] at hok
        cases hok
    rw [stateAfter, hrun] at hwrite
    rw [h]
    exact hwrite
  · -- the writing has succeeded, so the file has another id
    have hwrite : Stands d id index (stateAfter (IndexStore.writeDocument e f.id d') s) :=
      hs.writeDocument fun hid => by
        rw [h] at hf
        cases hf hid
    rw [stateAfter, hrun] at hwrite
    rw [h]
    exact hwrite

theorem Stands.judgeAll {fs : List IndexedFile} (hs : Stands d id index s)
    (hfs : ∀ f v, (f, v) ∈ (i.judgeAll e w existing fs s).1 → f.id = id → v.isIndexed = false) :
    Stands d id index (i.judgeAll e w existing fs s).2 := by
  induction fs generalizing s with
  | nil => exact hs
  | cons f fs ih =>
    exact ih (hs.judge (hfs f _ List.mem_cons_self)) fun g v hg => hfs g v (List.mem_cons_of_mem _ hg)

/-- Dropping documents leaves a chunk standing. -/
theorem Stands.foldl_dropStale {ids : List String} (hs : Stands d id index s) (o : IndexOutcome) :
    Stands d id index (ids.foldl dropStale (o, s)).2 := by
  induction ids generalizing o s with
  | nil => exact hs
  | cons other ids ih =>
    -- whether the deletion succeeds or fails, it is the deletion of a document
    have hnext := hs.deleteDocument other
    unfold stateAfter at hnext
    rw [List.foldl_cons, dropStale]
    dsimp only
    cases hrun : (IndexStore.deleteDocument other).run s with
    | ok n s' =>
      rw [hrun] at hnext
      exact ih hnext _
    | error cause s' =>
      rw [hrun] at hnext
      exact ih hnext _

variable [LawfulVectorStore σ] {root : Path} {allowed : Option Nat}

/-- A run goes through its files and then drops documents. -/
theorem stateAfter_indexProject (hs : IndexStore.Sound s) (i : Indexer) (e : Embedder) (w : Workspace)
    (root : Path) (allowed : Option Nat) :
    ∃ o, stateAfter (i.indexProject e w root allowed) s =
      ((i.dropped e w root allowed s).foldl dropStale (o, i.midway e w root allowed s)).2 := by
  refine ⟨(i.chronicle e w root allowed s).foldl IndexOutcome.note {}, ?_⟩
  rw [stateAfter, indexProject_run hs i e w root allowed, ending, finish, dropped]
  cases i.stops w root allowed <;> rfl

/-- **A run leaves a chunk standing** if it stores no document under the id of the chunk's. -/
theorem Stands.indexProject (hs : Stands d id index s)
    (hleft : ∀ f v, (f, v) ∈ i.chronicle e w root allowed s → f.id = id → v.isIndexed = false) :
    Stands d id index (stateAfter (i.indexProject e w root allowed) s) := by
  obtain ⟨o, hrun⟩ := stateAfter_indexProject hs.reachable.sound i e w root allowed
  -- first the files are gone through, and then documents are dropped
  have hmid : Stands d id index (i.midway e w root allowed s) := hs.judgeAll hleft
  rw [hrun]
  exact hmid.foldl_dropStale o

/-- **The chunks of a document that a run has written stand** after the run, if no two of its files have one id. -/
theorem stands_indexProject (hs : Reachable s) {m : Metadata} {chunks : Nat}
    (hf : (f, .indexed m chunks) ∈ i.chronicle e w root allowed s)
    (hids : ((i.taken w root allowed).map IndexedFile.id).Nodup) (index : Nat) :
    ∃ d, i.prepare w f.path f.id = .ok (.ready d) ∧
      Stands d f.id index (stateAfter (i.indexProject e w root allowed) s) := by
  obtain ⟨as, bs, htaken, hverdict, hend⟩ := i.exists_split_of_mem_judgeAll e w (listedAt s) hf
  have hbefore := reachable_judgeAll hs i e w (listedAt s) as
  obtain ⟨d, hready, hwritten⟩ : ∃ d, i.prepare w f.path f.id = .ok (.ready d) ∧
      Stands d f.id index (i.judge e w (listedAt s) (i.judgeAll e w (listedAt s) as s).2 f).2 := by
    rcases i.judge_writes_cases e w (listedAt s) (i.judgeAll e w (listedAt s) as s).2 f with
      ⟨hother, -⟩ | ⟨d, hready, ⟨cause, s', -, h⟩ | ⟨chunks, s', hrun, h⟩⟩
    · -- nothing was written, but the verdict says otherwise
      rw [← hverdict] at hother
      cases hother
    · -- the writing has failed, but the verdict says otherwise
      rw [h] at hverdict
      cases hverdict
    · -- from the state in which the file was judged, the writing leads to one in which its chunks stand
      rw [h]
      exact ⟨d, hready, .written hbefore hready hrun⟩
  -- the files after this one have other ids
  have hother : ∀ g v, (g, v) ∈ (i.judgeAll e w (listedAt s) bs
      (i.judge e w (listedAt s) (i.judgeAll e w (listedAt s) as s).2 f).2).1 → g.id = f.id →
        v.isIndexed = false := by
    intro g v hg hid
    have hmem := List.mem_map_of_mem (f := Prod.fst) hg
    rw [i.map_fst_judgeAll] at hmem
    rw [htaken, List.map_append, List.map_cons] at hids
    exact absurd (hid ▸ List.mem_map_of_mem hmem) (List.nodup_cons.1 (List.nodup_append.1 hids).2.1).1
  obtain ⟨o, hafter⟩ := stateAfter_indexProject hs.sound i e w root allowed
  refine ⟨d, hready, ?_⟩
  -- so the chunks stand after the files that come later, and after the dropping
  rw [hafter, midway, hend]
  exact (hwritten.judgeAll hother).foldl_dropStale o

end Actions

end Indexer

end CodeSearch
