import CodeSearch.Proofs.Index.Operations
import CodeSearch.Proofs.VectorStore.Memory

/-!
# The states of an index

A state of an index is *reachable* if operations lead to it from the store without collections. The
operations may have any arguments, and each of them may have succeeded or failed.

What holds in all reachable states is `Sound`: the store is in good order, and every document carries its
own id among its texts. So the ids that an index lists are those of its documents (`documentFields_spec`,
`documentIds_spec`).

The last section tells what a replacement leaves that fails (`replaceDocument_of_error`).
-/

namespace CodeSearch

/-- The state that an action leaves behind, whether it succeeds or fails. -/
def stateAfter {ε σ α : Type} (a : EStateM ε σ α) (s : σ) : σ :=
  match a.run s with
  | .ok _ s' => s'
  | .error _ s' => s'

namespace IndexStore

/-- An operation that may change an index. -/
inductive Operation where
  /-- Storing a document. -/
  | addDocument (e : Embedder) (r : TextRecord)
  /-- Storing chunks. -/
  | addChunks (e : Embedder) (rs : List TextRecord)
  /-- Storing a document with chunks in the place of what is stored under its id. -/
  | replaceDocument (e : Embedder) (r : TextRecord) (rs : List TextRecord)
  /-- Taking out a document with its chunks. -/
  | deleteDocument (id : String)
  /-- Dropping everything. -/
  | clear

variable {σ : Type} [VectorStore σ]

/-- The state after an operation. -/
def Operation.after (s : σ) : Operation → σ
  | .addDocument e r => stateAfter (IndexStore.addDocument e r) s
  | .addChunks e rs => stateAfter (IndexStore.addChunks e rs) s
  | .replaceDocument e r rs => stateAfter (IndexStore.replaceDocument e r rs) s
  | .deleteDocument id => stateAfter (IndexStore.deleteDocument id) s
  | .clear => stateAfter IndexStore.clear s

/-- The states to which operations lead. -/
inductive Reachable : σ → Prop where
  /-- The store without collections. -/
  | empty : Reachable VectorStore.empty
  /-- Every state after an operation. -/
  | after {s : σ} (hs : Reachable s) (o : Operation) : Reachable (o.after s)

variable [LawfulVectorStore σ] {s s' : σ}

open LawfulVectorStore (fits kept)

/-- How an action ends tells the state that it leaves. -/
theorem stateAfter_of_ends {ε α : Type} {a : EStateM ε σ α} {r : Except ε α} {h : Holdings}
    (ha : Ends a s r h) :
    Valid (stateAfter a s) ∧ holdings (stateAfter a s) = h := by
  obtain ⟨s', hv, hh, hrun⟩ := ha
  unfold stateAfter
  cases r <;> simp only [hrun] <;> exact ⟨hv, hh⟩

/-! ### What keeps a store sound -/

/-- Holdings whose documents carry their ids. -/
def Tagged (h : Holdings) : Prop :=
  ∀ id b, h.held? documentsCollection id = some b → Payload.text? b.2 documentIdField = some id

/-- A store in good order whose documents carry their ids. -/
structure Sound (s : σ) : Prop where
  valid : Valid s
  tagged : Tagged (holdings s)

section Tagged

variable {h : Holdings}

/-- Clearing leaves documents that carry their ids. -/
theorem Tagged.cleared (hh : Tagged h) (id : String) : Tagged (h.cleared id) := by
  intro i b hb
  rw [Holdings.held?_cleared_documents] at hb
  split at hb
  · cases hb
  · exact hh i b hb

theorem Tagged.drop (hh : Tagged h) (c : String) : Tagged (h.drop c) := by
  intro i b hb
  rw [Holdings.held?_drop] at hb
  split at hb
  · cases hb
  · exact hh i b hb

theorem Tagged.write_chunks (hh : Tagged h) (kept : Json → Json) (ps : List Point) :
    Tagged (h.write kept chunksCollection ps) := by
  intro i b hb
  rw [Holdings.held?_write_of_ne _ _ Holdings.documentsCollection_ne] at hb
  exact hh i b hb

/-- The id that is put into the payload of a document is found there. -/
theorem text?_documentWith (r : TextRecord) (v : Embedding) :
    Payload.text? (documentWith r v).payload documentIdField = some r.id := by
  rw [Payload.text?, documentWith, Table.get?_insert, if_pos rfl]
  rfl

/-- A document that is written carries its id. -/
theorem Tagged.write_document (hh : Tagged h) (r : TextRecord) (v : Embedding) :
    Tagged (h.write (kept σ) documentsCollection [documentWith r v]) := by
  intro i b hb
  rw [Holdings.held?_write_documents] at hb
  split at hb
  · next hi =>
    obtain rfl := Option.some.inj hb
    rw [Payload.text?_keptBy LawfulVectorStore.str?_kept, text?_documentWith, hi]
    rfl
  · exact hh i b hb

end Tagged

/-- Dropping a collection that is not there changes nothing. -/
theorem dropCollection_spec (hs : Valid s) (c : String) :
    Ends (dropCollection c) s (.ok ()) ((holdings s).drop c) := by
  refine ends_get_bind ?_
  rw [LawfulVectorStore.contains_eq]
  cases hc : (holdings s).size? c with
  | none =>
    -- a collection without a length holds nothing
    have hdrop : (holdings s).drop c = holdings s := by
      ext1
      · funext c'
        rw [Holdings.size?_drop]
        by_cases hcc : c' = c
        · rw [if_pos hcc, hcc, hc]
        · rw [if_neg hcc]
      · funext c' i
        rw [Holdings.held?_drop]
        by_cases hcc : c' = c
        · rw [if_pos hcc, hcc, held?_eq_none hs hc]
        · rw [if_neg hcc]
    exact Ends.pure hs hdrop.symm ()
  | some n =>
    -- a collection that is there is dropped
    obtain ⟨s₁, hrun, hv, hh⟩ := hs.drop_run c
    exact ends_onStore (r := .ok ()) ⟨s₁, hv, hh, hrun⟩

/-- Clearing an index drops both of its collections. -/
theorem clear_spec (hs : Valid s) :
    Ends clear s (.ok ())
      (((holdings s).drop documentsCollection).drop chunksCollection) := by
  refine Ends.bind (dropCollection_spec hs _) fun s₁ hv hh => ?_
  rw [← hh]
  exact dropCollection_spec hv _

/-- **A replacement ends in one of three ways.** The document is refused, or a chunk is, or all is
written. -/
theorem replaceDocument_cases (hs : Valid s) (e : Embedder) (r : TextRecord)
    (rs : List TextRecord) :
    (∃ cause, documentPoint (fits σ) (holdings s) e r = .error cause ∧
      Ends (replaceDocument e r rs) s (.error cause) ((holdings s).cleared r.id)) ∨
    (∃ v cause, r.vector e = .ok v ∧
      (holdings s).refusal? (fits σ) documentsCollection v.length = none ∧
      chunkPoints (fits σ) (holdings s) e rs = .error cause ∧
      Ends (replaceDocument e r rs) s (.error cause)
        ((holdings s).replaced (kept σ) r.id (documentWith r v) [])) ∨
    (∃ v ps, r.vector e = .ok v ∧
      (holdings s).refusal? (fits σ) documentsCollection v.length = none ∧
      chunkPoints (fits σ) (holdings s) e rs = .ok ps ∧
      Ends (replaceDocument e r rs) s (.ok ps.length)
        ((holdings s).replaced (kept σ) r.id (documentWith r v) ps)) := by
  cases hd : documentPoint (fits σ) (holdings s) e r with
  | error cause => exact Or.inl ⟨cause, rfl, replaceDocument_document_refused hs hd⟩
  | ok p =>
    -- the document is taken
    obtain ⟨v, hv, hr, rfl⟩ := documentPoint_eq_ok_iff.1 hd
    cases hc : chunkPoints (fits σ) (holdings s) e rs with
    | error cause =>
      exact Or.inr (Or.inl ⟨v, cause, hv, hr, rfl, replaceDocument_chunks_refused hs hd hc⟩)
    | ok ps => exact Or.inr (Or.inr ⟨v, ps, hv, hr, rfl, replaceDocument_stored hs hd hc⟩)

/-- What an action leaves behind is sound if its documents carry their ids. -/
theorem sound_of_ends {ε α : Type} {a : EStateM ε σ α} {r : Except ε α} {h : Holdings}
    (ha : Ends a s r h) (hh : Tagged h) : Sound (stateAfter a s) := by
  obtain ⟨hv, hh'⟩ := stateAfter_of_ends ha
  exact ⟨hv, by rw [hh']; exact hh⟩

/-- **Every operation keeps a store sound.** -/
theorem Sound.after (hs : Sound s) (o : Operation) : Sound (o.after s) := by
  have htag := hs.tagged
  cases o with
  | addDocument e r =>
    refine sound_of_ends (addDocument_spec hs.valid e r) ?_
    cases hd : documentPoint (fits σ) (holdings s) e r with
    -- nothing has changed
    | error cause => exact htag
    | ok p =>
      -- the new document carries its id
      obtain ⟨v, -, -, rfl⟩ := documentPoint_eq_ok_iff.1 hd
      exact htag.write_document r v
  | addChunks e rs =>
    refine sound_of_ends (addChunks_spec hs.valid e rs) ?_
    cases chunkPoints (fits σ) (holdings s) e rs with
    | error cause => exact htag
    | ok ps => exact htag.write_chunks _ ps
  | replaceDocument e r rs =>
    -- nothing but documents and chunks is written, and the document carries its id
    rcases replaceDocument_cases hs.valid e r rs with
      ⟨_, -, he⟩ | ⟨v, _, -, -, -, he⟩ | ⟨v, ps, -, -, -, he⟩
    · exact sound_of_ends he (htag.cleared r.id)
    · exact sound_of_ends he (((htag.cleared r.id).write_document r v).write_chunks _ [])
    · exact sound_of_ends he (((htag.cleared r.id).write_document r v).write_chunks _ ps)
  | deleteDocument id =>
    obtain ⟨n, he⟩ := deleteDocument_spec hs.valid id
    exact sound_of_ends he (htag.cleared id)
  | clear => exact sound_of_ends (clear_spec hs.valid) ((htag.drop _).drop _)

/-- An empty store is sound. -/
theorem sound_empty : Sound (VectorStore.empty : σ) where
  valid := valid_empty
  tagged id b hb := by
    rw [LawfulVectorStore.holdings_empty] at hb
    cases hb

/-- **Reachable states are sound.** -/
theorem Reachable.sound (hs : Reachable s) : Sound s := by
  induction hs with
  | empty => exact sound_empty
  | after _ o ih => exact ih.after o

/-! ### Listing documents -/

/-- The text of a document under a field, as a listing gives it. -/
def listedText (field : String) (b : PointBody) : String := (Payload.texts b.2).getD field ""

/-- What a scroll over the documents finds under an id are the texts of the document with that id. -/
theorem get?_scrolled (hs : Sound s) {t : Table (Table String)}
    (hsound : ∀ key texts, Table.get? t key = some texts → ∃ id b,
      (holdings s).held? documentsCollection id = some b ∧
        Payload.textsUnder? b.2 documentIdField = some (key, texts))
    (hcomplete : ∀ id b key texts, (holdings s).held? documentsCollection id = some b →
      Payload.textsUnder? b.2 documentIdField = some (key, texts) → (Table.get? t key).isSome)
    (id : String) :
    Table.get? t id =
      ((holdings s).held? documentsCollection id).map fun b => Payload.texts b.2 := by
  -- a row comes from the document that carries its key, and that is the one with that id
  have hrow : ∀ texts, Table.get? t id = some texts → ∃ b,
      (holdings s).held? documentsCollection id = some b ∧ texts = Payload.texts b.2 := by
    -- the row comes from a document that carries this key
    intro texts htexts
    obtain ⟨id', b, hb, ht⟩ := hsound _ _ htexts
    rw [Payload.textsUnder?_eq, hs.tagged _ _ hb] at ht
    obtain ⟨rfl, rfl⟩ := Prod.mk.inj (Option.some.inj ht)
    exact ⟨b, hb, rfl⟩
  cases hb : (holdings s).held? documentsCollection id with
  | some b =>
    -- there is a document, and its row is the one with its id
    have ht : Payload.textsUnder? b.2 documentIdField = some (id, Payload.texts b.2) := by
      rw [Payload.textsUnder?_eq, hs.tagged _ _ hb]
      rfl
    obtain ⟨texts, htexts⟩ := Option.isSome_iff_exists.1 (hcomplete id b _ _ hb ht)
    obtain ⟨b', hb', rfl⟩ := hrow texts htexts
    rw [hb] at hb'
    obtain rfl := Option.some.inj hb'
    exact htexts
  | none =>
    -- without a document there is no row
    rw [Option.map_none, Option.eq_none_iff_forall_ne_some]
    intro texts htexts
    obtain ⟨b, hb', -⟩ := hrow texts htexts
    rw [hb] at hb'
    cases hb'

/-- **A listing has a row for each document.** -/
theorem documentFields_spec (hs : Sound s) (field : String) :
    ∃ t, documentFields s field = .ok t ∧
      ∀ id, Table.get? t id =
        ((holdings s).held? documentsCollection id).map (listedText field) := by
  unfold documentFields
  rw [LawfulVectorStore.contains_eq]
  cases hd : (holdings s).size? documentsCollection with
  | none =>
    -- there are no documents yet
    refine ⟨[], rfl, fun id => ?_⟩
    rw [held?_eq_none hs.valid hd]
    rfl
  | some n =>
    -- every document can be listed
    obtain ⟨t, hrun, hsound, hcomplete⟩ := LawfulVectorStore.scroll_eq documentIdField hs.valid.ordered hd
      (hs.valid.legible _)
    rw [hrun]
    refine ⟨_, rfl, fun id => ?_⟩
    have hrows := Table.get?_map (fun _ texts => Table.getD texts field "") t id
    rw [get?_scrolled hs hsound hcomplete, Option.map_map] at hrows
    exact hrows

/-- **The listed ids are those of the documents.** -/
theorem documentIds_spec (hs : Sound s) :
    ∃ ids, documentIds s = .ok ids ∧
      ∀ id, id ∈ ids ↔ ((holdings s).held? documentsCollection id).isSome := by
  obtain ⟨t, ht, hget⟩ := documentFields_spec hs documentIdField
  refine ⟨t.keys, by rw [documentIds, ht]; rfl, fun id => ?_⟩
  rw [Table.mem_keys_iff, hget, Option.isSome_map]

/-! ### Replacements that fail -/

/-- **What a replacement leaves that fails.** The chunks of the document are gone, and all that is stored
under other ids is as it was. The document is gone too if it was refused itself; if a chunk was refused,
the new document is there without chunks. -/
theorem replaceDocument_of_error (hs : Reachable s) {e : Embedder} {r : TextRecord}
    {rs : List TextRecord} {cause : IndexError}
    (hrun : (replaceDocument e r rs).run s = .error cause s') :
    (∀ id, (holdings s').held? chunksCollection id =
      ((holdings s).held? chunksCollection id).filter fun b => !Holdings.isPartOf r.id b) ∧
    (∀ id, id ≠ r.id →
      (holdings s').held? documentsCollection id = (holdings s).held? documentsCollection id) ∧
    ((documentPoint (fits σ) (holdings s) e r = .error cause ∧
        (holdings s').held? documentsCollection r.id = none) ∨
      ∃ p, documentPoint (fits σ) (holdings s) e r = .ok p ∧
        chunkPoints (fits σ) (holdings s) e rs = .error cause ∧
        (holdings s').held? documentsCollection r.id =
          some (p.vector, (p.keptBy (kept σ)).payload)) := by
  have hv := hs.sound.valid
  cases hd : documentPoint (fits σ) (holdings s) e r with
  | error cause' =>
    -- the document is refused, when its predecessor was deleted already
    have hends : Ends (replaceDocument e r rs) s (.error cause') ((holdings s).cleared r.id) :=
      replaceDocument_document_refused hv hd
    obtain ⟨hcause, -, hh⟩ := hends.of_error hrun
    obtain rfl := Except.error.inj hcause
    rw [hh]
    refine ⟨Holdings.held?_cleared_chunks _ _, fun id hid => ?_, Or.inl ⟨rfl, ?_⟩⟩
    · rw [Holdings.held?_cleared_documents, if_neg hid]
    · rw [Holdings.held?_cleared_documents, if_pos rfl]
  | ok p =>
    have hid : p.id = r.id := by
      obtain ⟨v, -, -, rfl⟩ := documentPoint_eq_ok_iff.1 hd
      rfl
    cases hc : chunkPoints (fits σ) (holdings s) e rs with
    | ok ps =>
      -- then nothing is refused and the replacement succeeds
      have hok := (replaceDocument_stored hv hd hc).of_error hrun
      cases hok.1
    | error cause' =>
      -- a chunk is refused, when the document was written already
      obtain ⟨hcause, -, hh⟩ := (replaceDocument_chunks_refused hv hd hc).of_error hrun
      obtain rfl := Except.error.inj hcause
      rw [hh]
      refine ⟨fun id => ?_, fun id hne => ?_, Or.inr ⟨p, rfl, rfl, ?_⟩⟩
      · exact Holdings.held?_replaced_chunks_of_forall_ne _ _ (by simp)
      · rw [Holdings.held?_replaced_documents _ _ hid, if_neg hne]
      · rw [Holdings.held?_replaced_documents _ _ hid, if_pos rfl]

/-- An embedder that gives every text the empty vector. -/
def emptyEmbedder : Embedder := { embed := fun _ => .ok [] }

/-- An embedder that fails for every text. -/
def failingEmbedder (reason : String) : Embedder := { embed := fun _ => .error { reason } }

/-- A document of one letter. -/
def letterRecord : TextRecord := { id := "a.py", content := "x", attributes := [] }

/-- The index of one document in memory. -/
def letterIndex : Memory :=
  (Operation.addDocument emptyEmbedder letterRecord).after VectorStore.empty

theorem reachable_letterIndex : Reachable letterIndex := .after .empty _

/-- What is left of the index when the document is to be replaced by a text that is not embedded. -/
def lostIndex : Memory :=
  stateAfter (replaceDocument (failingEmbedder "timeout") letterRecord []) letterIndex

theorem replaceDocument_letterIndex :
    (replaceDocument (failingEmbedder "timeout") letterRecord []).run letterIndex =
      .error (.embedding ⟨"timeout"⟩) lostIndex := rfl

/-- A document that cannot be embedded leaves its place empty. -/
theorem held?_lostIndex_eq_none :
    Reachable letterIndex ∧
      (replaceDocument (failingEmbedder "timeout") letterRecord []).run letterIndex =
        .error (.embedding ⟨"timeout"⟩) lostIndex ∧
      (holdings lostIndex).held? documentsCollection "a.py" = none := by
  refine ⟨reachable_letterIndex, replaceDocument_letterIndex, ?_⟩
  rcases (replaceDocument_of_error reachable_letterIndex replaceDocument_letterIndex).2.2 with
    ⟨-, h⟩ | ⟨p, h, -⟩
  · exact h
  · cases h

/-- **A replacement that fails does change what is stored**: the document that was to be replaced is
gone. -/
theorem replaceDocument_not_atomic :
    ¬∀ (s s' : Memory) (e : Embedder) (r : TextRecord) (rs : List TextRecord) (cause : IndexError),
      Reachable s → (replaceDocument e r rs).run s = .error cause s' →
        (holdings s').held? = (holdings s).held? := by
  intro h
  have hsame := h letterIndex lostIndex (failingEmbedder "timeout") letterRecord [] _
    reachable_letterIndex replaceDocument_letterIndex
  have hgone := congrArg Option.isSome (congrFun (congrFun hsame documentsCollection) "a.py")
  have hwas : ((holdings letterIndex).held? documentsCollection "a.py").isSome = true := rfl
  have his : ((holdings lostIndex).held? documentsCollection "a.py").isSome = false := rfl
  rw [hwas, his] at hgone
  cases hgone

end IndexStore

end CodeSearch
