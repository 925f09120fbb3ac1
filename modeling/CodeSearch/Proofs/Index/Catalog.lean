import CodeSearch.Proofs.Index.Documents
import CodeSearch.Proofs.Index.Reading
import Mathlib.Data.Set.Card

/-!
# An index as a catalog

Seen from outside, an index is two maps: documents by their ids, and chunks by document and place. Such a
pair of maps is a `Catalog`, and every change of an index is a change of its catalog (`Catalog.after`):

* storing a document or chunks sets their entries and no others;
* deleting a document removes it and all chunks of it;
* replacing a document is deleting it, storing it, and storing chunks.

The catalog of an index is read off what the store holds (`Catalog.ofHoldings`). This is possible as
long as every chunk stands under the id that its document and place give it and carries the id of the
document (`Placed`), which each change preserves that succeeds. So a run of changes does to the store what
it does to the catalog (`ofHoldings_of_run`), and the answers of the index show the catalog (`Shows`).

What a store makes of values that are written (`kept`), and which vectors it can read back (`readable`),
is its own matter. In memory all values are kept as they are and all vectors can be read.
-/

namespace CodeSearch

/-! ### Catalogs -/

/-- A text with what is said about it and its vector. -/
structure KeptText where
  content : String
  fields : String → Option Json
  vector : Embedding

/-- Documents by id, and chunks by document and place. -/
@[ext] structure Catalog where
  documents : String → Option KeptText
  chunks : String → Nat → Option KeptText
  /-- The length of the vectors of chunks, if there have been any. -/
  chunkLength? : Option Nat

namespace Catalog

def empty : Catalog := { documents := fun _ => none, chunks := fun _ _ => none, chunkLength? := none }

def setDocument (c : Catalog) (id : String) (x : KeptText) : Catalog :=
  { c with documents := Function.update c.documents id (some x) }

def setChunk (c : Catalog) (document : String) (index : Nat) (x : KeptText) : Catalog :=
  { c with
    chunks := Function.update c.chunks document (Function.update (c.chunks document) index (some x))
    chunkLength? := some x.vector.length }

/-- Takes out a document and all its chunks. -/
def remove (c : Catalog) (id : String) : Catalog :=
  { c with
    documents := Function.update c.documents id none
    chunks := Function.update c.chunks id fun _ => none }

end Catalog

/-! ### Changes -/

/-- A chunk that is to be stored at a place of a document, whose id it carries. -/
structure PlacedChunk where
  document : String
  index : Nat
  content : String
  attributes : Attributes
  embedding : Option Embedding := none
  carries : Payload.text? attributes.payload documentIdField = some document

/-- The record that a chunk is stored as. -/
def PlacedChunk.record (k : PlacedChunk) : TextRecord :=
  { id := chunkId k.document k.index, content := k.content, attributes := k.attributes
    embedding := k.embedding }

/-- What may be done to an index by those who keep to the ids of chunks. -/
inductive Change where
  | addDocument (e : Embedder) (r : TextRecord)
  | addChunks (e : Embedder) (ks : List PlacedChunk)
  | replaceDocument (e : Embedder) (r : TextRecord) (ks : List PlacedChunk)
  | deleteDocument (id : String)
  | clear

/-- The operation that makes a change. -/
def Change.operation : Change → IndexStore.Operation
  | addDocument e r => .addDocument e r
  | addChunks e ks => .addChunks e (ks.map PlacedChunk.record)
  | replaceDocument e r ks => .replaceDocument e r (ks.map PlacedChunk.record)
  | deleteDocument id => .deleteDocument id
  | clear => .clear

/-- Whether a change is about what belongs to an id. -/
def Change.Names (id : String) : Change → Prop
  | addDocument _ r => r.id = id
  | addChunks _ ks => ∃ k ∈ ks, k.document = id
  | replaceDocument _ r ks => r.id = id ∨ ∃ k ∈ ks, k.document = id
  | deleteDocument id' => id' = id
  | clear => True

/-- The vector of a record that has one. -/
def TextRecord.vectorBy (r : TextRecord) (e : Embedder) : Embedding := (r.vector e).toOption.getD []

/-- The point of such a record. -/
def TextRecord.pointBy (r : TextRecord) (e : Embedder) : Point :=
  { id := r.id, vector := r.vectorBy e, payload := r.payload }

namespace KeptText

/-- The entry of a record: its text, and its attributes as they are kept, but for one that is called like
the text. -/
def ofRecord (kept : Json → Json) (e : Embedder) (r : TextRecord) : KeptText :=
  { content := r.content
    fields := fun k => if k = contentField then none else (Table.get? r.attributes.payload k).map kept
    vector := r.vectorBy e }

/-- The entry of a document, which says its id as well. -/
def ofDocument (kept : Json → Json) (e : Embedder) (r : TextRecord) : KeptText :=
  let x := ofRecord kept e r
  { x with fields := Function.update x.fields documentIdField (some (.str r.id)) }

end KeptText

namespace Catalog

variable (kept : Json → Json)

/-- The catalog with chunks set one after another. -/
def setChunks (c : Catalog) (e : Embedder) (ks : List PlacedChunk) : Catalog :=
  ks.foldl (fun c k => c.setChunk k.document k.index (.ofRecord kept e k.record)) c

/-- The catalog after a change. -/
def after (c : Catalog) : Change → Catalog
  | .addDocument e r => c.setDocument r.id (.ofDocument kept e r)
  | .addChunks e ks => c.setChunks kept e ks
  | .replaceDocument e r ks =>
    ((c.remove r.id).setDocument r.id (.ofDocument kept e r)).setChunks kept e ks
  | .deleteDocument id => c.remove id
  | .clear => empty

/-- The catalog after changes to an empty one. -/
def ofChanges (changes : List Change) : Catalog := changes.foldl (after kept) empty

variable {kept} {c : Catalog} {e : Embedder} {r : TextRecord} {ks : List PlacedChunk} {id : String}

theorem documents_setDocument (x : KeptText) (i : String) :
    (c.setDocument id x).documents i = if i = id then some x else c.documents i := by
  simp only [setDocument, Function.update_apply]

theorem chunks_setChunk (d d' : String) (n n' : Nat) (x : KeptText) :
    (c.setChunk d n x).chunks d' n' = if d' = d ∧ n' = n then some x else c.chunks d' n' := by
  rw [setChunk]
  by_cases hd : d' = d
  · subst hd
    by_cases hn : n' = n <;> simp [hn]
  · simp [hd]

theorem documents_remove (i : String) :
    (c.remove id).documents i = if i = id then none else c.documents i := by
  simp only [remove, Function.update_apply]

theorem chunks_remove (d : String) :
    (c.remove id).chunks d = if d = id then fun _ => none else c.chunks d := by
  simp only [remove, Function.update_apply]

/-- Chunks of a document that is not named stay as they are. -/
theorem chunks_setChunks_of_ne (h : ∀ k ∈ ks, k.document ≠ id) :
    (c.setChunks kept e ks).chunks id = c.chunks id := by
  induction ks generalizing c with
  | nil => rfl
  | cons k ks ih =>
    have hk : id ≠ k.document := (h k List.mem_cons_self).symm
    rw [setChunks, List.foldl_cons, ← setChunks, ih fun q hq => h q (List.mem_cons_of_mem k hq)]
    funext n
    rw [chunks_setChunk, if_neg fun hid => hk hid.1]

@[simp] theorem documents_setChunks (c : Catalog) (e : Embedder) (ks : List PlacedChunk) :
    (c.setChunks kept e ks).documents = c.documents := by
  induction ks generalizing c with
  | nil => rfl
  | cons k ks ih => exact ih _

/-- **What belongs to an id that a change does not name stays as it is.** -/
theorem after_of_not_names {change : Change} (h : ¬change.Names id) :
    (c.after kept change).documents id = c.documents id ∧
      (c.after kept change).chunks id = c.chunks id := by
  cases change with
  -- another document is added
  | addDocument e r => exact ⟨by rw [after, documents_setDocument, if_neg (Ne.symm h)], rfl⟩
  | addChunks e ks =>
    -- the chunks are those of other documents
    rw [after, documents_setChunks]
    exact ⟨rfl, chunks_setChunks_of_ne fun k hk hid => h ⟨k, hk, hid⟩⟩
  | replaceDocument e r ks =>
    -- neither the document nor its chunks are named
    obtain ⟨hr, hks⟩ := not_or.1 h
    have hr : id ≠ r.id := Ne.symm hr
    rw [after, documents_setChunks, chunks_setChunks_of_ne fun k hk hid => hks ⟨k, hk, hid⟩,
      documents_setDocument, if_neg hr, documents_remove, if_neg hr]
    exact ⟨rfl, by rw [setDocument, chunks_remove, if_neg hr]⟩
  | deleteDocument id' =>
    -- another document is deleted
    have hid : id ≠ id' := Ne.symm h
    exact ⟨by rw [after, documents_remove, if_neg hid], by rw [after, chunks_remove, if_neg hid]⟩
  -- clearing names everything
  | clear => exact absurd trivial h

end Catalog

/-! ### Reading a catalog off a store -/

/-- Whether every chunk stands where its document and place put it and carries the id of the document. -/
def Placed (h : Holdings) : Prop :=
  ∀ j b, h.held? chunksCollection j = some b →
    ∃ document index, j = chunkId document index ∧ Holdings.isPartOf document b = true

/-- What is kept with a vector and a payload. -/
def KeptText.ofBody (b : PointBody) : KeptText :=
  { content := (Payload.text? b.2 contentField).getD ""
    fields := fun k => if k = contentField then none else Table.get? b.2 k
    vector := b.1 }

/-- The catalog of what a store holds. -/
def Catalog.ofHoldings (h : Holdings) : Catalog :=
  { documents := fun id => (h.held? documentsCollection id).map .ofBody
    chunks := fun document index => (h.held? chunksCollection (chunkId document index)).map .ofBody
    chunkLength? := h.size? chunksCollection }

section Step

open Catalog (ofHoldings)

variable {kept : Json → Json} {h : Holdings} {e : Embedder} {r : TextRecord} {id : String}

theorem documents_ofHoldings (h : Holdings) (id : String) :
    (ofHoldings h).documents id = (h.held? documentsCollection id).map .ofBody := rfl

theorem chunks_ofHoldings (h : Holdings) (d : String) (i : Nat) :
    (ofHoldings h).chunks d i = (h.held? chunksCollection (chunkId d i)).map .ofBody := rfl

/-! #### Deleting -/

theorem Placed.cleared (hp : Placed h) (id : String) : Placed (h.cleared id) := by
  intro j b hb
  rw [Holdings.held?_cleared_chunks_eq_some_iff] at hb
  exact hp j b hb.1

/-- Clearing a document is taking it out of the catalog. -/
theorem ofHoldings_cleared (hp : Placed h) (id : String) :
    ofHoldings (h.cleared id) = (ofHoldings h).remove id := by
  ext1
  · -- the documents
    funext i
    rw [Catalog.documents_remove, documents_ofHoldings, documents_ofHoldings,
      Holdings.held?_cleared_documents]
    by_cases hi : i = id
    · rw [if_pos hi, if_pos hi, Option.map_none]
    · rw [if_neg hi, if_neg hi]
  · -- the chunks, place by place
    funext d i
    rw [Catalog.chunks_remove, chunks_ofHoldings, Holdings.held?_cleared_chunks]
    have hrest := chunks_ofHoldings h d i
    cases hb : h.held? chunksCollection (chunkId d i) with
    | none =>
      -- a place without a chunk stays without one
      rw [hb] at hrest
      by_cases hd : d = id
      · rw [if_pos hd]
        rfl
      · rw [if_neg hd, hrest]
        rfl
    | some b =>
      -- the chunk under this id is one of the document `d`
      obtain ⟨d', i', hid, hpart⟩ := hp _ b hb
      obtain ⟨rfl, rfl⟩ := chunkId_inj hid
      rw [hb] at hrest
      by_cases hd : d = id
      · -- the chunk goes together with its document
        subst hd
        rw [if_pos rfl, Option.filter_some, hpart]
        rfl
      · -- the chunk of another document stays
        rw [if_neg hd, hrest, Option.filter_some, Holdings.isPartOf_of_ne hd hpart]
        rfl
  · rfl

/-! #### Writing -/

section Kept

variable (hkept : ∀ j, (kept j).str? = j.str?)

include hkept

/-- A text is kept as it is. -/
theorem kept_str (s : String) : kept (.str s) = .str s := by
  have h : (kept (.str s)).str? = some s := hkept (.str s)
  cases hj : kept (.str s) <;> rw [hj] at h <;> cases h
  rfl

theorem ofBody_keptBy {p : Point} {content : String}
    (hcontent : Payload.text? p.payload contentField = some content) :
    KeptText.ofBody (p.vector, (p.keptBy kept).payload) =
      { content
        fields := fun k => if k = contentField then none else (Table.get? p.payload k).map kept
        vector := p.vector } := by
  have hget : ∀ k, Table.get? (p.keptBy kept).payload k = (Table.get? p.payload k).map kept :=
    Table.get?_map (fun _ => kept) p.payload
  rw [KeptText.ofBody, Payload.text?_keptBy hkept, hcontent]
  simp only [hget, Option.getD_some]

/-- The point of a chunk shows the record that it was made of. -/
theorem ofBody_record (r : TextRecord) (e : Embedder) :
    KeptText.ofBody (r.vectorBy e, ((r.pointBy e).keptBy kept).payload) = .ofRecord kept e r := by
  have hcontent : Payload.text? r.payload contentField = some r.content := by
    rw [Payload.text?, TextRecord.payload, Table.get?_insert, if_pos rfl]
    rfl
  refine (ofBody_keptBy hkept (p := r.pointBy e) hcontent).trans ?_
  rw [KeptText.ofRecord, TextRecord.pointBy]
  congr 1
  funext k
  -- the text is kept apart from the attributes
  by_cases hk : k = contentField
  · rw [if_pos hk, if_pos hk]
  · rw [if_neg hk, if_neg hk, TextRecord.payload, Table.get?_insert, if_neg hk]

/-- The point of a document shows its record, with its id. -/
theorem ofBody_documentWith (r : TextRecord) (e : Embedder) :
    KeptText.ofBody
        (r.vectorBy e, ((IndexStore.documentWith r (r.vectorBy e)).keptBy kept).payload) =
      .ofDocument kept e r := by
  have hne : contentField ≠ documentIdField := by decide
  have hcontent :
      Payload.text? (IndexStore.documentWith r (r.vectorBy e)).payload contentField =
        some r.content := by
    rw [Payload.text?, IndexStore.documentWith, Table.get?_insert, if_neg hne, TextRecord.payload,
      Table.get?_insert, if_pos rfl]
    rfl
  refine (ofBody_keptBy hkept hcontent).trans ?_
  rw [KeptText.ofDocument, KeptText.ofRecord]
  congr 1
  funext k
  rw [Function.update_apply, IndexStore.documentWith]
  -- the id is written last
  by_cases hd : k = documentIdField
  · rw [if_pos hd, if_neg (by rw [hd]; exact hne.symm), Table.get?_insert, if_pos hd,
      Option.map_some, kept_str hkept]
  · rw [if_neg hd, Table.get?_insert, if_neg hd, TextRecord.payload, Table.get?_insert]
    change _ = if k = contentField then none else (Table.get? r.attributes.payload k).map kept
    -- and the text before it
    by_cases hk : k = contentField
    · rw [if_pos hk, if_pos hk]
    · rw [if_neg hk, if_neg hk, if_neg hk]

/-! The catalog that is read off a store after points were written to it. -/

/-- Writing a document is setting it in the catalog. -/
theorem ofHoldings_write_document (h : Holdings) (r : TextRecord) (e : Embedder) :
    ofHoldings (h.write kept documentsCollection [IndexStore.documentWith r (r.vectorBy e)]) =
      (ofHoldings h).setDocument r.id (.ofDocument kept e r) := by
  ext1
  · funext i
    rw [Catalog.documents_setDocument, documents_ofHoldings, Holdings.held?_write_documents]
    change Option.map _ (if i = r.id then _ else _) = _
    -- the document itself is the new one
    by_cases hi : i = r.id
    · rw [if_pos hi, if_pos hi, Option.map_some]
      exact congrArg some (ofBody_documentWith hkept r e)
    · rw [if_neg hi, if_neg hi, documents_ofHoldings]
  · -- the chunks are in another collection
    funext d i
    rw [chunks_ofHoldings, Holdings.held?_write_of_ne _ _ Holdings.documentsCollection_ne.symm]
    rfl
  · -- and so is the length of their vectors
    have hsize := Holdings.size?_write h kept documentsCollection chunksCollection
      (IndexStore.documentWith r (r.vectorBy e)) []
    rw [if_neg Holdings.documentsCollection_ne.symm] at hsize
    exact hsize

/-- One chunk that is written to a collection for vectors of its length. -/
theorem ofHoldings_put_chunk (k : PlacedChunk) (e : Embedder)
    (hsize : h.size? chunksCollection = some (k.record.vectorBy e).length) :
    ofHoldings (h.put chunksCollection ((k.record.pointBy e).keptBy kept)) =
      (ofHoldings h).setChunk k.document k.index (.ofRecord kept e k.record) := by
  ext1
  · funext i
    rw [documents_ofHoldings, Holdings.held?_put,
      if_neg fun hc => Holdings.documentsCollection_ne hc.1]
    rfl
  · funext d i
    have hid : (k.record.pointBy e).id = chunkId k.document k.index := rfl
    rw [Catalog.chunks_setChunk, chunks_ofHoldings, Holdings.held?_put, Point.id_keptBy, hid]
    -- the chunk stands at its place, and chunks of other places have other ids
    by_cases hk : d = k.document ∧ i = k.index
    · obtain ⟨rfl, rfl⟩ := hk
      rw [if_pos ⟨rfl, rfl⟩, if_pos ⟨rfl, rfl⟩, Option.map_some]
      exact congrArg some (ofBody_record hkept k.record e)
    · rw [if_neg hk, if_neg fun hc => hk (chunkId_inj hc.2), chunks_ofHoldings]
  · exact hsize

/-- Chunks that are written to a collection for vectors of their length. -/
theorem ofHoldings_putAll_chunks (ks : List PlacedChunk) (e : Embedder) {n : Nat}
    (hsize : h.size? chunksCollection = some n) (hlen : ∀ k ∈ ks, (k.record.vectorBy e).length = n) :
    ofHoldings (h.putAll chunksCollection ((ks.map (·.record.pointBy e)).map (Point.keptBy kept))) =
      (ofHoldings h).setChunks kept e ks := by
  induction ks generalizing h with
  | nil => rfl
  | cons k ks ih =>
    -- a chunk has the length that the collection is for
    have hk : h.size? chunksCollection = some (k.record.vectorBy e).length := by
      rw [hsize, hlen k List.mem_cons_self]
    rw [Catalog.setChunks, List.foldl_cons, ← ofHoldings_put_chunk hkept k e hk]
    exact ih hsize fun q hq => hlen q (List.mem_cons_of_mem k hq)

/-- Writing chunks is setting them in the catalog. -/
theorem ofHoldings_write_chunks (h : Holdings) (ks : List PlacedChunk) (e : Embedder)
    (hlen : ∀ k ∈ ks, ∀ q ∈ ks, (q.record.vectorBy e).length = (k.record.vectorBy e).length) :
    ofHoldings (h.write kept chunksCollection (ks.map (·.record.pointBy e))) =
      (ofHoldings h).setChunks kept e ks := by
  cases ks with
  | nil => rfl
  | cons k ks =>
    have hsize : (h.make chunksCollection (k.record.vectorBy e).length).size? chunksCollection =
        some (k.record.vectorBy e).length := by
      rw [Holdings.size?_make, if_pos rfl]
    -- the collection that was made for the first chunk takes all of them
    exact ofHoldings_putAll_chunks hkept (k :: ks) e hsize (hlen k List.mem_cons_self)

/-- Chunks that are written stand where their documents and places put them. -/
theorem Placed.write_chunks (hp : Placed h) (ks : List PlacedChunk) (e : Embedder) :
    Placed (h.write kept chunksCollection (ks.map (·.record.pointBy e))) := by
  have hne : documentIdField ≠ contentField := by decide
  intro j b hb
  rcases Holdings.held?_write_cases h kept hb with ⟨q, hq, hid, rfl⟩ | hb
  · -- a new chunk carries the id of its document
    obtain ⟨k, -, rfl⟩ := List.mem_map.1 hq
    refine ⟨k.document, k.index, hid.symm, ?_⟩
    rw [Holdings.isPartOf_iff, Payload.text?_keptBy hkept, TextRecord.pointBy, Payload.text?,
      TextRecord.payload, Table.get?_insert, if_neg hne]
    exact k.carries
  · -- the other chunks are as they were
    exact hp j b hb

end Kept

theorem Placed.write_document (hp : Placed h) (kept : Json → Json) (ps : List Point) :
    Placed (h.write kept documentsCollection ps) := by
  intro j b hb
  rw [Holdings.held?_write_of_ne _ _ Holdings.documentsCollection_ne.symm] at hb
  exact hp j b hb

/-! #### Dropping everything -/

theorem held?_dropped (h : Holdings) (id : String) :
    ((h.drop documentsCollection).drop chunksCollection).held? documentsCollection id = none ∧
      ((h.drop documentsCollection).drop chunksCollection).held? chunksCollection id = none := by
  rw [Holdings.held?_drop, if_neg Holdings.documentsCollection_ne, Holdings.held?_drop, if_pos rfl,
    Holdings.held?_drop, if_pos rfl]
  exact ⟨rfl, rfl⟩

theorem placed_dropped (h : Holdings) :
    Placed ((h.drop documentsCollection).drop chunksCollection) := by
  intro j b hb
  rw [(held?_dropped h j).2] at hb
  cases hb

/-- Without its collections a store has the empty catalog. -/
theorem ofHoldings_dropped (h : Holdings) :
    ofHoldings ((h.drop documentsCollection).drop chunksCollection) = Catalog.empty := by
  ext1
  · funext id
    rw [documents_ofHoldings, (held?_dropped h id).1]
    rfl
  · funext d i
    rw [chunks_ofHoldings, (held?_dropped h (chunkId d i)).2]
    rfl
  · change ((h.drop documentsCollection).drop chunksCollection).size? chunksCollection = none
    rw [Holdings.size?_drop, if_pos rfl]

end Step

/-! ### Runs -/

namespace IndexStore

open Catalog (ofHoldings)
open LawfulVectorStore (fits kept)

section Points

variable {fits : Nat → Bool} {h : Holdings} {e : Embedder}

theorem vectorBy_eq {r : TextRecord} {v : Embedding} (hv : r.vector e = .ok v) : r.vectorBy e = v := by
  rw [TextRecord.vectorBy, hv]
  rfl

/-- Records that all have vectors are stored as the points with these. -/
theorem points_eq_map {rs : List TextRecord} {ps : List Point}
    (h : rs.mapM (·.point e) = .ok ps) : ps = rs.map (·.pointBy e) := by
  refine mapM_eq_map (fun r p hp => ?_) h
  rw [point_eq] at hp
  -- a record has a vector, or its point could not be made
  cases hv : r.vector e with
  | error cause =>
    rw [hv] at hp
    cases hp
  | ok v =>
    rw [hv] at hp
    cases hp
    rw [TextRecord.pointBy, vectorBy_eq hv]

/-- Chunks that are stored are stored as the points of their records, with vectors of one length. -/
theorem points_of_chunkPoints {ks : List PlacedChunk} {ps : List Point}
    (h : chunkPoints fits h e (ks.map PlacedChunk.record) = .ok ps) :
    ps = ks.map (·.record.pointBy e) ∧
      ∀ k ∈ ks, ∀ q ∈ ks, (q.record.vectorBy e).length = (k.record.vectorBy e).length := by
  obtain ⟨hpoints, hlen⟩ := chunkPoints_eq_ok_iff.1 h
  have hps : ps = ks.map (·.record.pointBy e) := by
    rw [points_eq_map hpoints, List.map_map]
    rfl
  refine ⟨hps, fun k hk q hq => ?_⟩
  subst hps
  exact (hlen _ (List.mem_map_of_mem hk)).2 _ (List.mem_map_of_mem hq)

end Points

variable {σ : Type} [VectorStore σ]

/-- Whether an operation succeeds. -/
def Operation.Succeeds (s : σ) : Operation → Prop
  | .addDocument e r => ∃ id s', (IndexStore.addDocument e r).run s = .ok id s'
  | .addChunks e rs => ∃ ids s', (IndexStore.addChunks e rs).run s = .ok ids s'
  | .replaceDocument e r rs => ∃ n s', (IndexStore.replaceDocument e r rs).run s = .ok n s'
  | .deleteDocument id => ∃ n s', (IndexStore.deleteDocument id).run s = .ok n s'
  | .clear => ∃ u s', IndexStore.clear.run s = .ok u s'

/-- The store after some changes. -/
def afterChanges (s : σ) (changes : List Change) : σ :=
  changes.foldl (fun s c => c.operation.after s) s

/-- Whether changes succeed, each in the state that those before it have led to. -/
def AllSucceed (s : σ) : List Change → Prop
  | [] => True
  | c :: cs => c.operation.Succeeds s ∧ AllSucceed (c.operation.after s) cs

variable [LawfulVectorStore σ] {s : σ}

/-- **A change that succeeds does to the store what it does to the catalog.** -/
theorem ofHoldings_after (hs : Valid s) (hp : Placed (holdings s)) {c : Change}
    (hok : c.operation.Succeeds s) :
    Placed (holdings (c.operation.after s)) ∧
      ofHoldings (holdings (c.operation.after s)) = (ofHoldings (holdings s)).after (kept σ) c := by
  have hkept := LawfulVectorStore.str?_kept (σ := σ)
  cases c with
  | addDocument e r =>
    obtain ⟨id, s', hrun⟩ := hok
    -- a document that were refused would not let the change succeed
    have hends := addDocument_spec hs e r
    have hh := (stateAfter_of_ends hends).2
    cases hd : documentPoint (fits σ) (holdings s) e r with
    | error cause =>
      rw [hd] at hends
      cases (hends.of_ok hrun).1
    | ok p =>
      obtain ⟨v, hv, -, rfl⟩ := documentPoint_eq_ok_iff.1 hd
      obtain rfl := vectorBy_eq hv
      rw [hd] at hh
      change Placed (holdings (stateAfter (addDocument e r) s)) ∧
        ofHoldings (holdings (stateAfter (addDocument e r) s)) = _
      rw [hh]
      exact ⟨hp.write_document _ _, ofHoldings_write_document hkept _ r e⟩
  | addChunks e ks =>
    obtain ⟨ids, s', hrun⟩ := hok
    have hends := addChunks_spec hs e (ks.map PlacedChunk.record)
    have hh := (stateAfter_of_ends hends).2
    -- chunks that were refused would not let the change succeed
    cases hc : chunkPoints (fits σ) (holdings s) e (ks.map PlacedChunk.record) with
    | error cause =>
      rw [hc] at hends
      cases (hends.of_ok hrun).1
    | ok ps =>
      obtain ⟨rfl, hlen⟩ := points_of_chunkPoints hc
      rw [hc] at hh
      change Placed (holdings (stateAfter (addChunks e _) s)) ∧
        ofHoldings (holdings (stateAfter (addChunks e _) s)) = _
      rw [hh]
      exact ⟨hp.write_chunks hkept ks e, ofHoldings_write_chunks hkept _ ks e hlen⟩
  | replaceDocument e r ks =>
    obtain ⟨n, s', hrun⟩ := hok
    -- a replacement succeeds only if nothing is refused
    rcases replaceDocument_cases hs e r (ks.map PlacedChunk.record) with
      ⟨_, -, hends⟩ | ⟨v, _, -, -, -, hends⟩ | ⟨v, ps, hv, -, hc, hends⟩
    · cases (hends.of_ok hrun).1
    · cases (hends.of_ok hrun).1
    · have hh := (stateAfter_of_ends hends).2
      obtain ⟨rfl, hlen⟩ := points_of_chunkPoints hc
      obtain rfl := vectorBy_eq hv
      change Placed (holdings (stateAfter (replaceDocument e r _) s)) ∧
        ofHoldings (holdings (stateAfter (replaceDocument e r _) s)) = _
      rw [hh, Holdings.replaced]
      -- from the last write back to the deletion that it began with
      refine ⟨((hp.cleared r.id).write_document _ _).write_chunks hkept ks e, ?_⟩
      rw [ofHoldings_write_chunks hkept _ ks e hlen, ofHoldings_write_document hkept,
        ofHoldings_cleared hp, Catalog.after]
  | deleteDocument id =>
    -- a deletion clears what belongs to the id
    obtain ⟨n, hends⟩ := deleteDocument_spec hs id
    have hh := (stateAfter_of_ends hends).2
    change Placed (holdings (stateAfter (deleteDocument id) s)) ∧
      ofHoldings (holdings (stateAfter (deleteDocument id) s)) = _
    rw [hh]
    exact ⟨hp.cleared id, ofHoldings_cleared hp id⟩
  | clear =>
    -- clearing drops both collections
    have hh := (stateAfter_of_ends (clear_spec hs)).2
    change Placed (holdings (stateAfter clear s)) ∧ ofHoldings (holdings (stateAfter clear s)) = _
    rw [hh]
    exact ⟨placed_dropped _, ofHoldings_dropped _⟩

/-- **A run of changes that succeed does to the store what it does to the catalog.** -/
theorem ofHoldings_of_run (hs : Sound s) (hp : Placed (holdings s)) {changes : List Change}
    (hok : AllSucceed s changes) :
    Sound (afterChanges s changes) ∧ Placed (holdings (afterChanges s changes)) ∧
      ofHoldings (holdings (afterChanges s changes)) =
        changes.foldl (Catalog.after (kept σ)) (ofHoldings (holdings s)) := by
  -- every change leads to a store that is in order again
  induction changes generalizing s with
  | nil => exact ⟨hs, hp, rfl⟩
  | cons c cs ih =>
    obtain ⟨hc, hcs⟩ := hok
    obtain ⟨hplaced, hcatalog⟩ := ofHoldings_after hs.valid hp hc
    rw [List.foldl_cons, ← hcatalog]
    exact ih (hs.after c.operation) hplaced hcs

end IndexStore

end CodeSearch
