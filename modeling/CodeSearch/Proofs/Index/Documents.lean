import CodeSearch.Index.Indexer
import CodeSearch.Proofs.Index.Reachable
import CodeSearch.Proofs.Steps
import CodeSearch.Proofs.Texts
import Mathlib.Data.List.Nodup

/-!
# What is stored of a file

The document that a file makes is a function of its id and its text, but for its size and the moment of its
last change (`Indexer.documentOf_eq`). So are the texts that are embedded and all that is stored of it, but
for two fields (`get?_bodyBy_withFacts`).

An embedder that does not fail is a function from texts to vectors. The records of a document are those
of any such function that agrees with the embedder where it does not fail (`Document.records_eq`), and
writing a document ends in one of four ways (`IndexStore.progress_cases`).

The chunks of a document carry its id (`text?_pointBy`), and no two chunks of an index have one id
(`chunkId_inj`).
-/

namespace CodeSearch

/-! ### Ids of chunks -/

/-- **The id of a chunk tells its document and its place there.** -/
theorem chunkId_inj {d d' : String} {k k' : Nat} (h : chunkId d k = chunkId d' k') :
    d = d' ∧ k = k' := by
  -- the number is what stands at the end, as there is no digit before it
  -- the texts are read from their ends
  have hl := congrArg (fun s : String => s.toList.reverse) h
  simp only [chunkId, String.toList_append, List.reverse_append] at hl
  have hdigit : ∀ n : Nat, ∀ c ∈ (toString n).toList.reverse, c.isDigit = true := fun n c hc =>
    isDigit_of_mem_toString (List.mem_reverse.1 hc)
  have htake : ∀ (n : Nat) (r : List Char),
      ((toString n).toList.reverse ++ ("::".toList.reverse ++ r)).takeWhile Char.isDigit =
        (toString n).toList.reverse := by
    intro n r
    rw [List.takeWhile_append_of_pos (hdigit n)]
    simp
  have hk := congrArg (List.takeWhile Char.isDigit) hl
  rw [htake, htake] at hk
  -- without the numbers and the colons before them, the ids of the documents are left
  rw [hk] at hl
  have hd := List.append_cancel_left (List.append_cancel_left hl)
  refine ⟨String.toList_inj.1 (List.reverse_inj.1 hd), ?_⟩
  exact toList_toString_inj (List.reverse_inj.1 hk)

/-! ### Documents -/

/-- A document with what is told about its file. -/
def Document.withFacts (d : Document) (facts : FileFacts) : Document :=
  { d with metadata := { d.metadata with size := facts.size, modified := facts.modified } }

@[simp] theorem Document.content_withFacts (d : Document) (facts : FileFacts) :
    (d.withFacts facts).content = d.content := rfl

@[simp] theorem Document.chunks_withFacts (d : Document) (facts : FileFacts) :
    (d.withFacts facts).chunks = d.chunks := rfl

@[simp] theorem Document.contentHash_withFacts (d : Document) (facts : FileFacts) :
    (d.withFacts facts).metadata.contentHash = d.metadata.contentHash := rfl

/-- Parsing does not look at what is told about the file. -/
theorem Document.parse_withFacts (g : Grammars) (d : Document) (facts : FileFacts) :
    (d.withFacts facts).parse g = ((d.parse g).1.withFacts facts, (d.parse g).2) := by
  have hlang : (d.withFacts facts).metadata.language = d.metadata.language := rfl
  have hcontent : (d.withFacts facts).content = d.content := rfl
  rw [Document.parse, Document.parse, hlang, hcontent]
  cases d.metadata.language with
  | none => rfl
  | some l =>
    dsimp only
    cases Outline.ofSource? g l d.content with
    | none => rfl
    | some o => rfl

theorem Document.parse_content (g : Grammars) (d : Document) :
    (d.parse g).1.content = d.content := by
  unfold Document.parse
  split
  · rfl
  · split <;> rfl

namespace Indexer

/-- A parsed document with its chunks. -/
def cut (i : Indexer) (parsed : Document × Option Outline) : Document :=
  { parsed.1 with
    chunks := chunksWith i.chunks parsed.1.content (parsed.2.getD {}).definitions }

/-- The document that a text makes under an id. -/
def textDocument (i : Indexer) (id content : String) : Document :=
  i.cut ({ Document.new ⟨id⟩ content with id := some id }.parse i.grammars)

variable (i : Indexer)

theorem cut_withFacts (d : Document) (o : Option Outline) (facts : FileFacts) :
    i.cut (d.withFacts facts, o) = (i.cut (d, o)).withFacts facts := rfl

/-- **The document of a file is that of its text**, with what is told about the file. -/
theorem documentOf_eq (id : String) (bytes : List UInt8) (facts : FileFacts) :
    i.documentOf id bytes facts =
      (i.textDocument id (Text.decodeLossy bytes)).withFacts facts := by
  have hparse := Document.parse_withFacts i.grammars
    { Document.new ⟨id⟩ (Text.decodeLossy bytes) with id := some id } facts
  have hof : i.documentOf id bytes facts = i.cut (Document.parse
      ({ Document.new ⟨id⟩ (Text.decodeLossy bytes) with id := some id }.withFacts facts)
      i.grammars) := by rw [documentOf]; rfl
  rw [hof, hparse, cut_withFacts, textDocument]

@[simp] theorem content_textDocument (id content : String) :
    (i.textDocument id content).content = content := by
  rw [textDocument, cut]
  exact Document.parse_content i.grammars { Document.new ⟨id⟩ content with id := some id }

@[simp] theorem contentHash_textDocument (id content : String) :
    (i.textDocument id content).metadata.contentHash = Digest.ofText content := by
  rw [textDocument, cut]
  exact Document.parse_hash i.grammars { Document.new ⟨id⟩ content with id := some id }

@[simp] theorem path_textDocument (id content : String) :
    (i.textDocument id content).metadata.path = ⟨id⟩ := by
  rw [textDocument, cut]
  exact Document.parse_path i.grammars { Document.new ⟨id⟩ content with id := some id }

/-- **What a file that is not passed over makes.** -/
theorem prepare_ready {w : Workspace} {path : Path} {id : String} {d : Document}
    (h : i.prepare w path id = .ok (.ready d)) :
    ∃ bytes facts, w.read path = .ok bytes ∧
      d = (i.textDocument id (Text.decodeLossy bytes)).withFacts facts := by
  unfold prepare at h
  -- every way but the last ends in a failure or passes the file over
  cases hf : w.facts path with
  -- nothing is told about the file
  | error cause => simp only [hf, bind, Except.bind, reduceCtorEq] at h
  | ok facts =>
    simp only [hf, bind, Except.bind] at h
    split at h
    · -- it is too large
      cases h
    · cases hr : w.read path with
      -- it cannot be read
      | error cause => simp only [hr, reduceCtorEq] at h
      | ok bytes =>
        simp only [hr] at h
        split at h
        · -- it is a binary file
          cases h
        · cases h
          -- its text makes the document
          exact ⟨bytes, facts, rfl, documentOf_eq i id bytes facts⟩

/-- A file makes the document of its text. -/
theorem ready_eq {w : Workspace} {path : Path} {id content : String} {d : Document}
    (h : i.prepare w path id = .ok (.ready d)) (hc : d.content = content) :
    ∃ facts, d = (i.textDocument id content).withFacts facts := by
  obtain ⟨bytes, facts, -, rfl⟩ := i.prepare_ready h
  have hbytes : Text.decodeLossy bytes = content := by
    rw [← hc, Document.withFacts, content_textDocument]
  exact ⟨facts, by rw [hbytes]⟩

end Indexer

/-! ### Records -/

/-- The record of a document with the vector that a function gives it. -/
def Document.recordBy (d : Document) (g : String → Embedding) (id : String) : TextRecord :=
  { id, content := d.content, attributes := documentAttributes id d.metadata,
    embedding := some (g (d.metadata.embeddingText d.content)) }

/-- The record of a chunk with the vector that a function gives it. -/
def Chunk.recordBy (c : Chunk) (g : String → Embedding) (id : String) (m : Metadata) (index : Nat) :
    TextRecord :=
  { id := chunkId id index, content := c.content, attributes := chunkAttributes id m c,
    embedding := some (g (c.embeddingText m)) }

/-- The records of the chunks of a document. -/
def Document.chunkRecordsBy (d : Document) (g : String → Embedding) (id : String) :
    List TextRecord :=
  d.chunks.zipIdx.map fun e => e.1.recordBy g id d.metadata e.2

/-- An embedder that gives the vectors of a function where it does not fail. -/
def Embedder.Follows (e : Embedder) (g : String → Embedding) : Prop :=
  ∀ t v, e.embed t = .ok v → v = g t

/-- The vectors that an embedder gives; the empty one where it fails. -/
def Embedder.vectorOf (e : Embedder) (t : String) : Embedding := (e.embed t).toOption.getD []

/-- The embedder that never fails and gives the vectors of a function. -/
def Embedder.ofFunction (g : String → Embedding) : Embedder := { embed := fun t => .ok (g t) }

/-- An embedder follows the vectors that it gives. -/
theorem Embedder.follows_vectorOf (e : Embedder) : e.Follows e.vectorOf := by
  intro t v h
  rw [vectorOf, h]
  rfl

theorem Embedder.follows_ofFunction (g : String → Embedding) : (ofFunction g).Follows g := by
  intro t v h
  exact (Except.ok.inj h).symm

section Records

variable {e : Embedder} {g : String → Embedding}

/-- The record of a document has the vector of every function that the embedder follows. -/
theorem Document.record_eq (hg : e.Follows g) {d : Document} {id : String} {r : TextRecord}
    (h : d.record e id = .ok r) : r = d.recordBy g id := by
  unfold Document.record at h
  cases hv : e.embed (d.metadata.embeddingText d.content) with
  | error cause =>
    rw [hv] at h
    cases h
  | ok v =>
    rw [hv] at h
    obtain rfl := hg _ _ hv
    cases h
    rfl

/-- The record of a chunk has the vector of every function that the embedder follows. -/
theorem Chunk.record_eq (hg : e.Follows g) {c : Chunk} {id : String} {m : Metadata} {n : Nat}
    {r : TextRecord} (h : c.record e id m n = .ok r) : r = c.recordBy g id m n := by
  unfold Chunk.record at h
  cases hv : e.embed (c.embeddingText m) with
  | error cause =>
    rw [hv] at h
    cases h
  | ok v =>
    rw [hv] at h
    obtain rfl := hg _ _ hv
    cases h
    rfl

/-- The records of a document and of its chunks, made one after another. -/
theorem Document.records_eq_bind (d : Document) (e : Embedder) (id : String) :
    d.records e id = (d.record e id).bind fun whole =>
      (d.chunks.zipIdx.mapM fun x : Chunk × Nat => x.1.record e id d.metadata x.2).bind fun parts =>
        .ok (whole, parts) := rfl

/-- **The records of a document are those of every function that the embedder follows.** -/
theorem Document.records_eq (hg : e.Follows g) {d : Document} {id : String}
    {r : TextRecord × List TextRecord} (h : d.records e id = .ok r) :
    r = (d.recordBy g id, d.chunkRecordsBy g id) := by
  rw [Document.records_eq_bind] at h
  cases hw : d.record e id with
  | error cause =>
    -- without the record of the document there are no records
    rw [hw] at h
    cases h
  | ok whole =>
    rw [hw, Except.bind] at h
    cases hp : d.chunks.zipIdx.mapM fun x : Chunk × Nat => x.1.record e id d.metadata x.2 with
    | error cause =>
      -- nor without those of its chunks
      rw [hp] at h
      cases h
    | ok parts =>
      rw [hp] at h
      cases h
      rw [Document.record_eq hg hw, mapM_eq_map (fun _ _ => Chunk.record_eq hg) hp]
      rfl

/-- An embedder that never fails makes all records. -/
theorem Document.records_ofFunction (d : Document) (g : String → Embedding) (id : String) :
    d.records (.ofFunction g) id = .ok (d.recordBy g id, d.chunkRecordsBy g id) := by
  have hparts : (d.chunks.zipIdx.mapM fun x : Chunk × Nat =>
      x.1.record (.ofFunction g) id d.metadata x.2) = .ok (d.chunkRecordsBy g id) :=
    mapM_eq_ok fun _ _ => rfl
  rw [Document.records_eq_bind, hparts]
  rfl

end Records

/-! ### What the facts about a file do not show in -/

section Facts

variable (d : Document) (facts : FileFacts)

theorem Document.embeddingText_withFacts :
    (d.withFacts facts).metadata.embeddingText (d.withFacts facts).content =
      d.metadata.embeddingText d.content := by
  simp only [Document.withFacts, Metadata.embeddingText]

/-- The record of a chunk does not depend on what is told about the file. -/
theorem Chunk.record_withFacts (c : Chunk) (e : Embedder) (id : String) (n : Nat) :
    c.record e id (d.withFacts facts).metadata n = c.record e id d.metadata n := by
  simp only [Chunk.record, Chunk.embeddingText, chunkAttributes, commonAttributes,
    Document.withFacts]

theorem Chunk.recordBy_withFacts (c : Chunk) (g : String → Embedding) (id : String) (n : Nat) :
    c.recordBy g id (d.withFacts facts).metadata n = c.recordBy g id d.metadata n := by
  simp only [Chunk.recordBy, Chunk.embeddingText, chunkAttributes, commonAttributes,
    Document.withFacts]

theorem Document.chunkRecordsBy_withFacts (g : String → Embedding) (id : String) :
    (d.withFacts facts).chunkRecordsBy g id = d.chunkRecordsBy g id := by
  simp only [Document.chunkRecordsBy, Chunk.recordBy_withFacts]
  rw [Document.withFacts]

/-- A document can be embedded or not, whatever is told about its file. -/
theorem Document.records_withFacts {e : Embedder} {id : String} {cause : IndexError} :
    (d.withFacts facts).records e id = .error cause ↔ d.records e id = .error cause := by
  -- the chunks do not know what is told about the file
  have hparts : ((d.withFacts facts).chunks.zipIdx.mapM fun x : Chunk × Nat =>
      x.1.record e id (d.withFacts facts).metadata x.2) =
      d.chunks.zipIdx.mapM fun x : Chunk × Nat => x.1.record e id d.metadata x.2 := by
    simp only [Chunk.record_withFacts]
    rw [Document.withFacts]
  -- what is told shows only in the attributes of the record
  have hwhole : ∀ (d : Document), d.record e id =
      ((e.embed (d.metadata.embeddingText d.content)).mapError IndexError.embedding).map
        fun v => ⟨id, d.content, documentAttributes id d.metadata, some v⟩ := by
    intro d
    unfold Document.record
    cases e.embed (d.metadata.embeddingText d.content) <;> rfl
  rw [Document.records_eq_bind, Document.records_eq_bind, hparts, hwhole, hwhole,
    Document.embeddingText_withFacts]
  -- the records differ, but whether and how they fail does not
  cases e.embed (d.metadata.embeddingText d.content) with
  | error _ => simp only [Except.mapError, Except.map, Except.bind]
  | ok v =>
    cases d.chunks.zipIdx.mapM fun x : Chunk × Nat => x.1.record e id d.metadata x.2 with
    | error _ => simp only [Except.mapError, Except.map, Except.bind]
    | ok parts => simp only [Except.mapError, Except.map, Except.bind, reduceCtorEq]

end Facts

/-! ### Points of chunks -/

/-- The point of a chunk with the vector that a function gives it. -/
def Chunk.pointBy (c : Chunk) (g : String → Embedding) (id : String) (m : Metadata) (index : Nat) :
    Point :=
  { id := chunkId id index, vector := g (c.embeddingText m),
    payload := (c.recordBy g id m index).payload }

/-- The points of the chunks of a document. -/
def Document.chunkPointsBy (d : Document) (g : String → Embedding) (id : String) : List Point :=
  d.chunks.zipIdx.map fun e => e.1.pointBy g id d.metadata e.2

section Points

variable {d : Document} {g : String → Embedding} {id : String}

/-- The point of a chunk has the vector of its record. -/
theorem Chunk.point_recordBy (c : Chunk) (m : Metadata) (n : Nat) (e : Embedder) :
    (c.recordBy g id m n).point e = .ok (c.pointBy g id m n) := by
  rw [IndexStore.point_eq, TextRecord.vector, Chunk.recordBy, Chunk.pointBy, Chunk.recordBy]
  rfl

theorem mapM_point_chunkRecordsBy (e : Embedder) :
    (d.chunkRecordsBy g id).mapM (·.point e) = .ok (d.chunkPointsBy g id) := by
  rw [Document.chunkRecordsBy, List.mapM_map]
  exact mapM_eq_ok fun a _ => Chunk.point_recordBy a.1 d.metadata a.2 e

theorem Document.chunkPointsBy_withFacts (facts : FileFacts) :
    (d.withFacts facts).chunkPointsBy g id = d.chunkPointsBy g id := by
  have h : ∀ (c : Chunk) (n : Nat), c.pointBy g id (d.withFacts facts).metadata n =
      c.pointBy g id d.metadata n := by
    intro c n
    rw [Chunk.pointBy, Chunk.pointBy, Chunk.recordBy_withFacts, Chunk.embeddingText,
      Chunk.embeddingText, Document.withFacts]
  simp only [Document.chunkPointsBy, h]
  rw [Document.withFacts]

/-- The chunks of a document have ids of their own. -/
theorem nodup_chunkPointsBy : ((d.chunkPointsBy g id).map Point.id).Nodup := by
  have hids : (d.chunkPointsBy g id).map Point.id =
      (d.chunks.zipIdx.map Prod.snd).map (chunkId id) := by
    rw [Document.chunkPointsBy, List.map_map, List.map_map]
    rfl
  -- they are made of different numbers
  rw [hids, List.zipIdx_map_snd]
  exact List.Nodup.map (fun _ _ h => (chunkId_inj h).2) List.nodup_range'

end Points

/-! ### Fields of what is stored -/

theorem get?_payload {as : Attributes} (h : Table.Sorted as) (field : String) :
    Table.get? as.payload field = (Table.get? as field).bind Attribute.stored? :=
  Table.get?_filterMap h Attribute.stored? field

theorem sorted_payload {as : Attributes} (h : Table.Sorted as) : Table.Sorted as.payload :=
  Table.sorted_filterMap h Attribute.stored?

/-- A field of a record is one of its attributes, or its text. -/
theorem TextRecord.get?_payload {r : TextRecord} (h : Table.Sorted r.attributes) (field : String) :
    Table.get? r.payload field =
      if field = contentField then some (.str r.content)
      else (Table.get? r.attributes field).bind Attribute.stored? := by
  rw [TextRecord.payload, Table.get?_insert, CodeSearch.get?_payload h]

/-- The attributes of a chunk are in order. -/
theorem sorted_chunkAttributes (id : String) (m : Metadata) (c : Chunk) :
    Table.Sorted (chunkAttributes id m c) := by
  rw [chunkAttributes]
  exact Table.sorted_ofList _

/-- The attributes of a document are in order. -/
theorem sorted_documentAttributes (id : String) (m : Metadata) :
    Table.Sorted (documentAttributes id m) := by
  rw [documentAttributes]
  exact Table.sorted_ofList _

/-- The attributes of a chunk that tell where it comes from and what it is. -/
theorem get?_chunkAttributes (id : String) (m : Metadata) (c : Chunk) :
    Table.get? (chunkAttributes id m c) documentIdField = some (.ofText id) ∧
    Table.get? (chunkAttributes id m c) kindField = some (.ofText c.kind.name) ∧
    Table.get? (chunkAttributes id m c) nameField = some (.ofText? c.name?) ∧
    Table.get? (chunkAttributes id m c) startLineField = some (.ofCount c.startLine) ∧
    Table.get? (chunkAttributes id m c) endLineField = some (.ofCount c.endLine) := by
  -- no attribute is given twice
  have hkeys : [documentIdField, "path", "language", kindField, nameField, "parents", startLineField,
      endLineField, contentHashField].Nodup := by decide
  rw [chunkAttributes]
  refine ⟨?_, ?_, ?_, ?_, ?_⟩
  all_goals
    refine Table.get?_ofList_of_mem ?_ ?_
    · exact hkeys
    · simp [commonAttributes]

theorem contentHash_documentAttributes (id : String) (m : Metadata) :
    Table.get? (documentAttributes id m) contentHashField = some (.ofText m.contentHash) := by
  have hkeys : [documentIdField, "path", "language", contentHashField, "size", "line_count", "modified",
      "imports", "classes", "functions", "symbols", "doc_comment"].Nodup := by decide
  rw [documentAttributes]
  refine Table.get?_ofList_of_mem ?_ ?_
  · exact hkeys
  · simp [commonAttributes]

/-- What is told about a file shows in two attributes only. -/
theorem get?_documentAttributes_congr {id : String} {m : Metadata} {field : String}
    (hs : field ≠ "size") (hm : field ≠ "modified") (size : Nat) (modified : Option Timestamp) :
    Table.get? (documentAttributes id { m with size, modified }) field =
      Table.get? (documentAttributes id m) field := by
  rw [documentAttributes, documentAttributes]
  simp only [commonAttributes, List.cons_append, List.nil_append, Table.ofList, List.foldl_cons,
    List.foldl_nil, Table.get?_insert, if_neg hs, if_neg hm]

theorem Chunk.attributes_recordBy (c : Chunk) (g : String → Embedding) (id : String) (m : Metadata)
    (n : Nat) : (c.recordBy g id m n).attributes = chunkAttributes id m c := by rw [Chunk.recordBy]

theorem Document.attributes_recordBy (d : Document) (g : String → Embedding) (id : String) :
    (d.recordBy g id).attributes = documentAttributes id d.metadata := by rw [Document.recordBy]

/-- The points of chunks carry the id of their document. -/
theorem text?_pointBy (c : Chunk) (g : String → Embedding) (id : String) (m : Metadata) (n : Nat) :
    Payload.text? (c.pointBy g id m n).payload documentIdField = some id := by
  have hs : Table.Sorted (c.recordBy g id m n).attributes := by
    rw [Chunk.attributes_recordBy]
    exact sorted_chunkAttributes id m c
  have hne : documentIdField ≠ contentField := by decide
  rw [Payload.text?, Chunk.pointBy, TextRecord.get?_payload hs, if_neg hne, Chunk.attributes_recordBy,
    (get?_chunkAttributes id m c).1]
  rfl

/-- A point of a chunk of a document is one that says to belong to the document. -/
theorem isPartOf_of_mem_chunkPointsBy {kept : Json → Json} (hkept : ∀ j, (kept j).str? = j.str?)
    {d : Document} {g : String → Embedding} {id : String} {p : Point}
    (h : p ∈ d.chunkPointsBy g id) (id' : String) :
    Holdings.isPartOf id' ((p.keptBy kept).vector, (p.keptBy kept).payload) = true ↔ id = id' := by
  obtain ⟨⟨c, n⟩, -, rfl⟩ := List.mem_map.1 h
  rw [Holdings.isPartOf_iff, Payload.text?_keptBy hkept, text?_pointBy, Option.some_inj]

/-! ### The stored document -/

/-- What is stored of a document itself. -/
def Document.bodyBy (d : Document) (g : String → Embedding) (kept : Json → Json) (id : String) :
    PointBody :=
  let p := IndexStore.documentWith (d.recordBy g id) (g (d.metadata.embeddingText d.content))
  (p.vector, (p.keptBy kept).payload)

section Body

variable {kept : Json → Json} {d : Document} {g : String → Embedding} {id : String}

theorem payload_bodyBy (kept : Json → Json) (d : Document) (g : String → Embedding) (id : String) :
    (d.bodyBy g kept id).2 =
      ((d.recordBy g id).payload.insert documentIdField (.str id)).map fun e => (e.1, kept e.2) := by
  rw [Document.bodyBy, Point.keptBy, IndexStore.documentWith,
    show (d.recordBy g id).id = id by rw [Document.recordBy]]

/-- What is stored under a field of a document. -/
theorem get?_bodyBy (kept : Json → Json) (d : Document) (g : String → Embedding) (id field : String) :
    Table.get? (d.bodyBy g kept id).2 field =
      (if field = documentIdField then some (Json.str id)
        else if field = contentField then some (.str d.content)
        else (Table.get? (documentAttributes id d.metadata) field).bind Attribute.stored?).map
        kept := by
  -- no attribute of a document is given twice
  have hs : Table.Sorted (d.recordBy g id).attributes := by
    rw [Document.attributes_recordBy]
    exact sorted_documentAttributes id d.metadata
  have hget := Table.get?_map (fun _ => kept)
    ((d.recordBy g id).payload.insert documentIdField (.str id)) field
  rw [payload_bodyBy, hget, Table.get?_insert, TextRecord.get?_payload hs,
    Document.attributes_recordBy, show (d.recordBy g id).content = d.content by
      rw [Document.recordBy]]

/-- **What is told about a file shows in two fields of the document only.** -/
theorem get?_bodyBy_withFacts {field : String} (hs : field ≠ "size") (hm : field ≠ "modified")
    (facts : FileFacts) :
    Table.get? ((d.withFacts facts).bodyBy g kept id).2 field =
      Table.get? (d.bodyBy g kept id).2 field := by
  rw [get?_bodyBy, get?_bodyBy, Document.withFacts, get?_documentAttributes_congr hs hm]

theorem vector_bodyBy_withFacts (facts : FileFacts) :
    ((d.withFacts facts).bodyBy g kept id).1 = (d.bodyBy g kept id).1 :=
  congrArg g (d.embeddingText_withFacts facts)

/-- The fields of a payload that hold texts, in a payload with its keys in order. -/
theorem Payload.get?_texts {p : Payload} (hp : Table.Sorted p) (field : String) :
    Table.get? p.texts field = p.text? field :=
  Table.get?_filterMap hp Json.str? field

/-- What is stored of a document is in order. -/
theorem sorted_bodyBy (kept : Json → Json) (d : Document) (g : String → Embedding) (id : String) :
    Table.Sorted (d.bodyBy g kept id).2 := by
  have hpay : Table.Sorted (d.recordBy g id).payload := by
    rw [TextRecord.payload, Document.attributes_recordBy]
    exact Table.sorted_insert (sorted_payload (sorted_documentAttributes _ _)) _ _
  rw [payload_bodyBy]
  exact Table.sorted_map (Table.sorted_insert hpay _ _) kept

section Texts

variable (hkept : ∀ j, (kept j).str? = j.str?)

include hkept

/-- The stored document holds the text of the document. -/
theorem content_bodyBy : Payload.text? (d.bodyBy g kept id).2 contentField = some d.content := by
  have hne : contentField ≠ documentIdField := by decide
  rw [Payload.text?, get?_bodyBy, if_neg hne, if_pos rfl, Option.map_some, Option.bind_some, hkept]
  rfl

/-- **The stored document is listed with the digest of its text.** -/
theorem listedText_bodyBy :
    IndexStore.listedText contentHashField (d.bodyBy g kept id) = d.metadata.contentHash := by
  have hid : contentHashField ≠ documentIdField := by decide
  have hc : contentHashField ≠ contentField := by decide
  rw [IndexStore.listedText, Table.getD, Payload.get?_texts (sorted_bodyBy kept d g id), Payload.text?,
    get?_bodyBy, if_neg hid, if_neg hc, contentHash_documentAttributes, Option.bind_some]
  change ((some (kept (.str d.metadata.contentHash))).bind Json.str?).getD "" = _
  rw [Option.bind_some, hkept]
  rfl

end Texts

end Body

/-! ### Writing a document -/

namespace IndexStore

/-- How far the writing of a document comes. -/
inductive Progress where
  /-- A text cannot be embedded. -/
  | unembedded (cause : IndexError)
  /-- The document is refused. -/
  | refused (cause : IndexError)
  /-- The document is stored, and its chunks are refused. -/
  | halved (p : Point) (cause : IndexError)
  /-- The document and its chunks are stored. -/
  | stored (p : Point) (ps : List Point)

/-- The result of a writing that comes so far. -/
def Progress.result : Progress → Except IndexError Nat
  | .unembedded cause | .refused cause | .halved _ cause => .error cause
  | .stored _ ps => .ok ps.length

/-- What is held after a writing that comes so far. -/
def Progress.after (kept : Json → Json) (id : String) (h : Holdings) : Progress → Holdings
  | .unembedded _ => h
  | .refused _ => h.cleared id
  | .halved p _ => h.replaced kept id p []
  | .stored p ps => h.replaced kept id p ps

theorem Progress.after_stored (kept : Json → Json) (id : String) (h : Holdings) (p : Point)
    (ps : List Point) : (Progress.stored p ps).after kept id h = h.replaced kept id p ps := rfl

/-- How far the writing of a document comes in a store that holds `h`. -/
def progress (fits : Nat → Bool) (h : Holdings) (e : Embedder) (id : String) (d : Document) :
    Progress :=
  match d.records e id with
  | .error cause => .unembedded cause
  | .ok (whole, parts) => match documentPoint fits h e whole with
    | .error cause => .refused cause
    | .ok p => match chunkPoints fits h e parts with
      | .error cause => .halved p cause
      | .ok ps => .stored p ps

/-- The record of a document has its id. -/
theorem id_of_records {e : Embedder} {d : Document} {id : String}
    {r : TextRecord × List TextRecord} (h : d.records e id = .ok r) : r.1.id = id := by
  rw [Document.records_eq e.follows_vectorOf h, Document.recordBy]

section Progress

variable {fits : Nat → Bool} {h : Holdings} {e : Embedder} {g : String → Embedding} {id : String}
  {d : Document} {p : Point}

/-- The point of a document with the vector that a function gives it. -/
def documentPointBy (d : Document) (g : String → Embedding) (id : String) : Point :=
  documentWith (d.recordBy g id) (g (d.metadata.embeddingText d.content))

theorem id_documentPointBy : (documentPointBy d g id).id = id := by
  rw [documentPointBy, documentWith, Document.recordBy]

/-- Whether a document that can be embedded is refused depends on the length of its vector. -/
theorem documentPoint_recordBy (e : Embedder) :
    documentPoint fits h e (d.recordBy g id) =
      match h.refusal? fits documentsCollection
        (g (d.metadata.embeddingText d.content)).length with
      | some cause => .error (.storage cause)
      | none => .ok (documentPointBy d g id) := by
  -- the vector of the record is the one that it comes with
  have hv : (d.recordBy g id).vector e = .ok (g (d.metadata.embeddingText d.content)) := by
    rw [TextRecord.vector, Document.recordBy]
  have hp : (d.recordBy g id).point e = .ok ⟨(d.recordBy g id).id,
      g (d.metadata.embeddingText d.content), (d.recordBy g id).payload⟩ := by
    rw [point_eq, hv, Except.map]
  cases hr : h.refusal? fits documentsCollection (g (d.metadata.embeddingText d.content)).length with
  | some cause => rw [documentPoint_of_point hp, hr]
  | none => rw [documentPoint_of_point hp, hr, documentPointBy, documentWith]

/-- **The ways in which a writing can go**, for an embedder that follows a function. -/
theorem progress_cases (hg : e.Follows g) :
    (∃ cause, d.records e id = .error cause ∧ progress fits h e id d = .unembedded cause) ∨
    (d.records e id = .ok (d.recordBy g id, d.chunkRecordsBy g id) ∧
      ((∃ cause, h.refusal? fits documentsCollection
            (g (d.metadata.embeddingText d.content)).length = some cause ∧
          progress fits h e id d = .refused (.storage cause)) ∨
        h.refusal? fits documentsCollection
            (g (d.metadata.embeddingText d.content)).length = none ∧
          ((∃ cause, chunkPoints fits h e (d.chunkRecordsBy g id) = .error cause ∧
              progress fits h e id d = .halved (documentPointBy d g id) cause) ∨
            chunkPoints fits h e (d.chunkRecordsBy g id) = .ok (d.chunkPointsBy g id) ∧
              progress fits h e id d =
                .stored (documentPointBy d g id) (d.chunkPointsBy g id)))) := by
  cases hr : d.records e id with
  -- some text cannot be embedded
  | error cause => exact Or.inl ⟨cause, rfl, by rw [progress, hr]⟩
  | ok r =>
    -- the vectors are those of the function, so only their lengths are left to be checked
    obtain rfl := Document.records_eq hg hr
    refine Or.inr ⟨rfl, ?_⟩
    rw [progress, hr]
    dsimp only
    rw [documentPoint_recordBy]
    cases hd : h.refusal? fits documentsCollection
        (g (d.metadata.embeddingText d.content)).length with
    -- the document is refused
    | some cause => exact Or.inl ⟨cause, rfl, rfl⟩
    | none =>
      refine Or.inr ⟨rfl, ?_⟩
      cases hc : chunkPoints fits h e (d.chunkRecordsBy g id) with
      -- one of its chunks is
      | error cause => exact Or.inl ⟨cause, rfl, rfl⟩
      | ok ps =>
        have hps := (chunkPoints_eq_ok_iff.1 hc).1
        rw [mapM_point_chunkRecordsBy] at hps
        obtain rfl := Except.ok.inj hps
        -- nothing is refused
        exact Or.inr ⟨rfl, rfl⟩

theorem body_documentPointBy (kept : Json → Json) (d : Document) (g : String → Embedding)
    (id : String) :
    ((documentPointBy d g id).vector, ((documentPointBy d g id).keptBy kept).payload) =
      d.bodyBy g kept id := rfl

variable {kept : Json → Json}

/-- A document is stored as its text and what is told about its file have it. -/
theorem held?_replaced_self (h : Holdings) (kept : Json → Json) (d : Document)
    (g : String → Embedding) (id : String) (ps : List Point) :
    (h.replaced kept id (documentPointBy d g id) ps).held? documentsCollection id =
      some (d.bodyBy g kept id) := by
  rw [Holdings.held?_replaced_documents h kept id_documentPointBy, if_pos rfl]
  exact congrArg some (body_documentPointBy kept d g id)

/-- Replacing a document leaves the other documents alone. -/
theorem held?_replaced_of_ne (h : Holdings) (kept : Json → Json) (d : Document)
    (g : String → Embedding) {id i : String} (hi : i ≠ id) (ps : List Point) :
    (h.replaced kept id (documentPointBy d g id) ps).held? documentsCollection i =
      h.held? documentsCollection i := by
  rw [Holdings.held?_replaced_documents h kept id_documentPointBy, if_neg hi]

/-- **Writing a document keeps the lengths that are there.** -/
theorem grows_progress : h.Grows ((progress fits h e id d).after kept id h) := by
  rcases progress_cases e.follows_vectorOf with
    ⟨cause, -, hp⟩ | ⟨-, ⟨cause, -, hp⟩ | ⟨hd, ⟨cause, -, hp⟩ | ⟨hc, hp⟩⟩⟩
  · -- nothing was written
    rw [hp]
    exact Holdings.Grows.refl h
  · -- the old document was cleared
    rw [hp]
    exact Holdings.Grows.refl h
  · -- the document was written without its chunks
    rw [hp]
    exact Holdings.grows_replaced hd (by simp) id
  · -- the document was written with them
    rw [hp]
    have hall := (chunkPoints_eq_ok_iff.1 hc).2
    exact Holdings.grows_replaced hd (fun q hq => (hall q hq).1) id

/-- **What writing a document leaves**, however far it comes: what was there before, nothing of the document, or the
document anew with none or all of its chunks. -/
theorem after_cases : (progress fits h e id d).after kept id h = h ∨
    (progress fits h e id d).after kept id h = h.cleared id ∨
    ∃ ps, (∀ q ∈ ps, q ∈ d.chunkPointsBy e.vectorOf id) ∧
      (progress fits h e id d).after kept id h = h.replaced kept id (documentPointBy d e.vectorOf id) ps := by
  rcases progress_cases e.follows_vectorOf with
    ⟨cause, -, hp⟩ | ⟨-, ⟨cause, -, hp⟩ | ⟨-, ⟨cause, -, hp⟩ | ⟨-, hp⟩⟩⟩
  · rw [hp]
    exact Or.inl rfl
  · rw [hp]
    exact Or.inr (Or.inl rfl)
  · rw [hp]
    exact Or.inr (Or.inr ⟨[], List.forall_mem_nil _, rfl⟩)
  · rw [hp]
    exact Or.inr (Or.inr ⟨_, fun q hq => hq, rfl⟩)

/-- Writing a document leaves the other documents as they are. -/
theorem held?_after_of_ne {i : String} (hi : i ≠ id) :
    ((progress fits h e id d).after kept id h).held? documentsCollection i =
      h.held? documentsCollection i := by
  rcases @after_cases fits h e id d kept with hafter | hafter | ⟨ps, -, hafter⟩
  · rw [hafter]
  · rw [hafter, Holdings.held?_cleared_documents, if_neg hi]
  · rw [hafter]
    exact held?_replaced_of_ne h kept d _ hi ps

/-- Writing a document writes no chunks of other documents. -/
theorem held?_after_chunks (hkept : ∀ j, (kept j).str? = j.str?) {i : String} {b : PointBody}
    (hb : ((progress fits h e id d).after kept id h).held? chunksCollection i = some b) :
    h.held? chunksCollection i = some b ∨ Holdings.isPartOf id b = true := by
  rcases @after_cases fits h e id d kept with hafter | hafter | ⟨ps, hps, hafter⟩
  · rw [hafter] at hb
    -- nothing was written
    exact Or.inl hb
  · rw [hafter] at hb
    -- a chunk that is left was there before
    exact Or.inl ((Holdings.held?_cleared_chunks_eq_some_iff h).1 hb).1
  · rw [hafter] at hb
    rcases Holdings.held?_replaced_chunks_cases h kept hb with ⟨q, hq, -, rfl⟩ | ⟨hb, -⟩
    · -- a chunk that was written is one of the document
      exact Or.inr ((isPartOf_of_mem_chunkPointsBy hkept (hps q hq) id).2 rfl)
    · exact Or.inl hb

end Progress

open LawfulVectorStore (fits kept)

/-- **A writing comes as far as it comes, and leaves behind what it has done.** -/
theorem writeDocument_spec {σ : Type} [VectorStore σ] [LawfulVectorStore σ] {s : σ} (hs : Valid s)
    (e : Embedder) (id : String) (d : Document) :
    Ends (writeDocument e id d) s (progress (fits σ) (holdings s) e id d).result
      ((progress (fits σ) (holdings s) e id d).after (kept σ) id (holdings s)) := by
  unfold writeDocument progress
  cases hr : d.records e id with
  -- nothing is written without records
  | error cause => exact Ends.stop (Ends.ofExcept hs _)
  | ok r =>
    obtain ⟨whole, parts⟩ := r
    -- the document is replaced under the id that its record has
    obtain rfl : whole.id = id := id_of_records hr
    refine Ends.bind (Ends.ofExcept hs (.ok (whole, parts))) fun s₁ hv hh => ?_
    rw [← hh]
    dsimp only
    cases hd : documentPoint (fits σ) (holdings s₁) e whole with
    | error cause => exact replaceDocument_document_refused hv hd
    | ok p =>
      dsimp only
      cases hc : chunkPoints (fits σ) (holdings s₁) e parts with
      -- the chunks are refused after the document was written
      | error cause => exact replaceDocument_chunks_refused hv hd hc
      | ok ps => exact replaceDocument_stored hv hd hc

end IndexStore

end CodeSearch
