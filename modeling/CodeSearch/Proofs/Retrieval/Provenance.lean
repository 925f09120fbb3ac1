import CodeSearch.Proofs.Index.Standing
import CodeSearch.Proofs.Retrieval.Success

/-!
# Where results come from

A chunk is written as a payload and read again as a result. What is read is what was written: the document, the
text, the lines, the kind and the name (`RetrievalResult.Reports`). Three things are behind this.

* A result is made of a stored chunk and of nothing else, whichever source it has (`mem_retrieve`).
* Writer and reader fit (`reports_of_payload`): every field that is read is written, the text is kept apart from
  the fields, and no value is changed on the way by a store. A line number that is too large would be written
  as a text and read as the first line, and a blank name would be read as none.
* As long as a chunk stands, what is held under its id is the chunk as it was written (`Indexer.Stands.eq_bodyBy`),
  and no chunk that the indexer writes has a blank name.

So every result reports the chunk that was indexed (`reports_of_mem_retrieve`), until another chunk is stored under
its id. It would be too much to say that only a replacement or a removal of the document ends this: a chunk that is
added by itself under the id takes the place of that chunk (`not_reports_of_overwritten`).
-/

namespace CodeSearch

/-! ### Reading a chunk -/

/-- What a result says of a chunk of a document. -/
structure RetrievalResult.Reports (r : RetrievalResult) (document : String) (c : Chunk) : Prop where
  documentId : r.documentId = document
  content : r.content = c.content
  startLine : r.startLine = c.startLine
  endLine : r.endLine = c.endLine
  kind : r.kind = some c.kind
  name : r.name = c.name?

/-- The text is taken out of a payload, and no other field. -/
theorem StoredText.get?_fields_ofHit (h : Hit) {field : String} (hf : field ≠ contentField) :
    Table.get? (StoredText.ofHit h).fields field = Table.get? h.payload field := by
  change Table.get? (Table.erase h.payload contentField) field = _
  rw [Table.get?_erase, if_neg hf]

namespace RetrievalResult

variable {σ : Type} [VectorStore σ] [LawfulVectorStore σ] [TransparentVectorStore σ]

open LawfulVectorStore (kept)

/-- A count that can be stored is read as it was written. -/
theorem count?_kept_ofCount {n : Nat} (hn : n ≤ Attribute.greatestInteger) :
    (((Attribute.ofCount n).stored?).map (kept σ)).bind Json.count? = some n := by
  have hint : (Attribute.ofCount n).stored? = some (.int n) := by
    rw [Attribute.ofCount, if_pos hn]
    rfl
  have hcount : (n : Int) ≤ Json.greatestCount :=
    Int.ofNat_le.2 (Nat.le_trans hn (by decide))
  rw [hint, Option.map_some, TransparentVectorStore.kept_of_isPlain (j := .int n) trivial, Option.bind_some,
    Json.count?, if_pos ⟨Int.natCast_nonneg n, hcount⟩]
  rfl

/-- **What is read of a stored chunk is the chunk.** -/
theorem reports_of_payload {c : Chunk} {id : String} (hname : c.name? ≠ some "")
    (hfirst : c.startLine ≤ Attribute.greatestInteger) (hlast : c.endLine ≤ Attribute.greatestInteger)
    {g : String → Embedding} {m : Metadata} {index : Nat} {h : Hit}
    (hpayload : h.payload = (c.bodyBy g (kept σ) id m index).2) (score : Score) (source : MatchSource) :
    (ofStored (.ofHit h) score source).Reports id c := by
  have hkept := LawfulVectorStore.str?_kept (σ := σ)
  obtain ⟨hid, hkind, hnames, hstart, hend⟩ := get?_chunkAttributes id m c
  have hget := Chunk.get?_bodyBy g (kept σ) id m c index
  rw [← hpayload] at hget
  -- a field that is not the text is the attribute of that name
  have hfield : ∀ {field : String} {a : Attribute}, field ≠ contentField →
      Table.get? (chunkAttributes id m c) field = some a →
        Table.get? (StoredText.ofHit h).fields field = a.stored?.map (kept σ) := by
    intro field a hf ha
    -- each field of a result is one attribute, or for the text the payload itself
    rw [StoredText.get?_fields_ofHit h hf, hget, if_neg hf, ha, Option.bind_some]
  have htext : ∀ s : String, ((Attribute.ofText s).stored?).map (kept σ) = some (.str s) := fun s =>
    congrArg some (kept_str hkept s)
  constructor
  · change ((Table.get? (StoredText.ofHit h).fields documentIdField).bind Json.str?).getD h.id = id
    rw [hfield (by decide) hid, htext]
    rfl
  · change ((Table.get? h.payload contentField).bind Json.str?).getD "" = c.content
    rw [hget, if_pos rfl, Option.map_some, kept_str hkept]
    rfl
  · -- a row is read back as it was written as long as it is a number of the format
    change ((Table.get? (StoredText.ofHit h).fields startLineField).bind Json.count?).getD 1 = c.startLine
    rw [hfield (by decide) hstart, count?_kept_ofCount hfirst, Option.getD_some]
  · change ((Table.get? (StoredText.ofHit h).fields endLineField).bind Json.count?).getD 1 = c.endLine
    rw [hfield (by decide) hend, count?_kept_ofCount hlast, Option.getD_some]
  · change ((Table.get? (StoredText.ofHit h).fields kindField).bind Json.str?).bind ChunkKind.ofName? = some c.kind
    rw [hfield (by decide) hkind, htext]
    exact ChunkKind.ofName?_name c.kind
  · change ((Table.get? (StoredText.ofHit h).fields nameField).bind Json.str?).filter (· ≠ "") = c.name?
    rw [hfield (by decide) hnames]
    cases hc : c.name? with
    | none => rfl
    | some name =>
      -- no name is written as an empty one, so none is lost when an empty one is taken as missing
      have hne : name ≠ "" := fun hblank => hname (by rw [hc, hblank])
      rw [show Attribute.ofText? (some name) = .ofText name from rfl, htext]
      exact if_pos (decide_eq_true hne)

end RetrievalResult

/-! ### What results are made of -/

namespace Retrieval

open RetrievalResult (ranked ofStored)

/-- A merged list holds nothing but what was merged. -/
theorem mem_foldl_merge {extra rs : List RetrievalResult} {r : RetrievalResult}
    (h : r ∈ extra.foldl merge rs) : r ∈ extra ∨ r ∈ rs := by
  induction extra generalizing rs with
  | nil => exact Or.inr h
  | cons x extra ih =>
    rcases ih h with h | h
    · exact Or.inl (List.mem_cons_of_mem x h)
    · rcases mem_merge h with rfl | h
      · exact Or.inl List.mem_cons_self
      · exact Or.inr h

variable {σ : Type} [VectorStore σ] [LawfulVectorStore σ] [TransparentVectorStore σ]
  [ThoroughVectorStore σ] {s : σ}

/-- **Every result is made of a stored chunk**, from whichever source it comes. -/
theorem mem_retrieve (hs : Valid s) {e : Embedder} {structure? : Option StructuralContext}
    {settings : RetrievalSettings} {text : String} {k : Nat} {useStructure : Bool} {rs : List RetrievalResult}
    (h : retrieve s e structure? settings text k useStructure = .ok rs) {r : RetrievalResult} (hr : r ∈ rs) :
    ∃ p ∈ points s chunksCollection, ∃ query score source, r = ofStored (.ofHit (p.hit query)) score source := by
  have hk : k ≠ 0 := by
    rintro rfl
    obtain rfl := Except.ok.inj h
    cases hr
  -- the question was answered, so a query was made and fits the store
  obtain ⟨query, -, hread, hsize, hanswer⟩ := retrieve_ok hs hk h
  have hfetched : r ∈ fetched s settings query k →
      ∃ p ∈ points s chunksCollection, ∃ query score source,
        r = ofStored (.ofHit (p.hit query)) score source := by
    intro hr
    obtain ⟨p, hp, rfl⟩ := mem_chunks.1 (mem_chunks_of_mem_fetched hr)
    exact ⟨p, hp, query, _, _, rfl⟩
  cases hstructure : (if useStructure = true then structure? else none) with
  | none =>
    -- without a graph all results are fetched ones
    rw [hstructure, answer, candidates_eq hs hread hsize] at hanswer
    obtain rfl := Except.ok.inj hanswer
    exact hfetched ((RetrievalResult.perm_ranked _).mem_iff.1 (List.mem_of_mem_take hr))
  | some c =>
    rw [hstructure, answer_eq hs hread hsize] at hanswer
    obtain rfl := Except.ok.inj hanswer
    -- with one they are fetched or added
    rcases List.mem_append.1 ((RetrievalResult.perm_ranked _).mem_iff.1 (List.mem_of_mem_take hr)) with hr | hr
    · exact hfetched hr
    · -- what is added is the best chunk of a document
      obtain ⟨-, o, document, t, -, hbest, rfl⟩ := mem_added.1 ((mem_foldl_merge hr).resolve_right List.not_mem_nil)
      obtain ⟨p, hp, -, rfl⟩ := exists_point_of_best? hbest
      exact ⟨p, hp, query, _, _, rfl⟩

end Retrieval

/-! ### Results -/

namespace Retrieval

open LawfulVectorStore (kept)

variable {σ : Type} [VectorStore σ] [LawfulVectorStore σ] [TransparentVectorStore σ]
  [ThoroughVectorStore σ] {s : σ}

/-- **A result reports the chunk that was indexed.** As long as a chunk stands that the indexer has written, every
result of a retrieval with its id has the document's id, and the text, the lines, the kind and the name of the
chunk. A chunk of no declaration is reported without a name. -/
theorem reports_of_mem_retrieve {d : Document} {id : String} {index : Nat} (hs : Indexer.Stands d id index s)
    {c : Chunk} (hc : d.chunks[index]? = some c) (hfirst : c.startLine ≤ Attribute.greatestInteger)
    (hlast : c.endLine ≤ Attribute.greatestInteger) {e : Embedder} {structure? : Option StructuralContext}
    {settings : RetrievalSettings} {text : String} {k : Nat} {useStructure : Bool} {rs : List RetrievalResult}
    (hrun : retrieve s e structure? settings text k useStructure = .ok rs) {r : RetrievalResult} (hr : r ∈ rs)
    (hid : r.chunkId = chunkId id index) : r.Reports id c ∧ (c.kind = .fileScope → r.name = none) := by
  have hv := hs.reachable.sound.valid
  obtain ⟨p, hp, query, score, source, rfl⟩ := mem_retrieve hv hrun hr
  have hheld := (TransparentVectorStore.mem_points hv.ordered).1 hp
  rw [show p.id = chunkId id index from hid] at hheld
  obtain ⟨g, hbody⟩ := hs.eq_bodyBy hc hheld
  -- the payload is one that was written for this chunk of the document
  have hpayload : (p.hit query).payload = (c.bodyBy g (kept σ) id d.metadata index).2 := congrArg Prod.snd hbody
  have hnamed := hs.named (List.mem_of_getElem? hc)
  have hreports : (RetrievalResult.ofStored (.ofHit (p.hit query)) score source).Reports id c :=
    RetrievalResult.reports_of_payload hnamed.name?_ne_blank hfirst hlast hpayload score source
  exact ⟨hreports, fun hkind => hreports.name.trans (hnamed.name?_eq_none_iff.2 hkind)⟩

/-! ### All chunks -/

omit [ThoroughVectorStore σ] in
/-- A retrieval that asks for as many results as there are chunks gives all of them. -/
theorem retrieve_of_length_le (hs : Valid s) (hread : ∀ p ∈ points s chunksCollection, readable σ p.vector = true)
    {query : Embedding} (hsize : ∀ n, (holdings s).size? chunksCollection = some n → query.length = n)
    {e : Embedder} {text : String} (hquery : e.embed text = .ok query) (settings : RetrievalSettings) {k : Nat}
    (hk : (points s chunksCollection).length ≤ k) :
    retrieve s e none settings text k false = .ok (RetrievalResult.ranked (chunks s query)) := by
  have hlength : (chunks s query).length ≤ k := by
    simpa [chunks, IndexStore.found, Hit.ranked] using hk
  have hfetched : fetched s settings query k = chunks s query :=
    List.take_of_length_le (Nat.le_trans hlength (le_candidateCount settings k))
  rw [retrieve_false hs hread hsize hquery, hfetched, List.take_of_length_le]
  -- ranking neither adds nor drops a result
  rw [(RetrievalResult.perm_ranked _).length_eq]
  exact hlength

/-! A file of two lines, each of them a chunk, and a retrieval that gives both. -/

section Lines

open Indexer (linesDocument linesWorkspace pairIndexer prepare_lines)
open IndexStore (Operation)

/-- The index of the file. -/
def storedLines : Memory := stateAfter (IndexStore.writeDocument unitEmbedder "b" linesDocument) VectorStore.empty

/-- Nothing fails in the writing of the file. -/
theorem exists_run_lines : ∃ chunks,
    (IndexStore.writeDocument unitEmbedder "b" linesDocument).run VectorStore.empty = .ok chunks storedLines := by
  have hok : (match (IndexStore.writeDocument unitEmbedder "b" linesDocument).run (VectorStore.empty : Memory) with
      | .ok _ _ => true
      | .error _ _ => false) = true := by decide +kernel
  unfold storedLines stateAfter
  cases hrun : (IndexStore.writeDocument unitEmbedder "b" linesDocument).run (VectorStore.empty : Memory) with
  | error cause s =>
    rw [hrun] at hok
    cases hok
  | ok chunks s => exact ⟨chunks, rfl⟩

/-- Written to an empty store, the file stands. -/
theorem standsUntil_lines (ends : Operation → Memory → Prop) :
    Indexer.StandsUntil ends linesDocument "b" storedLines := by
  obtain ⟨chunks, hrun⟩ := exists_run_lines
  exact .written .empty prepare_lines hrun

/-- Its second line. -/
theorem exists_secondLine : ∃ c, linesDocument.chunks[1]? = some c ∧ c.content = "y" ∧ c.startLine = 2 ∧
    c.endLine = 2 ∧ c.kind = .fileScope := by
  have hfacts : (linesDocument.chunks[1]?).map (fun c => (c.content, c.startLine, c.endLine, c.kind)) =
      some ("y", 2, 2, .fileScope) := by decide +kernel
  obtain ⟨c, hc, heq⟩ := Option.map_eq_some_iff.1 hfacts
  simp only [Prod.mk.injEq] at heq
  exact ⟨c, hc, heq⟩

/-- What is held under the id of the second line is among the results. -/
theorem exists_mem_retrieve_lines {s : Memory} (hs : Valid s) {b : PointBody}
    (hsize : (holdings s).size? chunksCollection = some 1) (hlength : (points s chunksCollection).length = 2)
    (hheld : (holdings s).held? chunksCollection "b::1" = some b) :
    ∃ rs, retrieve s unitEmbedder none {} "q" 5 false = .ok rs ∧ ∃ r ∈ rs, r.chunkId = "b::1" ∧
      r.content = (Payload.text? b.2 contentField).getD "" := by
  have hquery : unitEmbedder.embed "q" = .ok [1] := rfl
  have hone : ∀ n, (holdings s).size? chunksCollection = some n → ([1] : Embedding).length = n :=
    fun n hn => Option.some.inj (hsize.symm.trans hn)
  have hrun := retrieve_of_length_le hs (fun _ _ => rfl) hone hquery {} (k := 5) (by rw [hlength]; decide)
  -- a chunk that is held is a point, and all points come back
  have hp : ⟨"b::1", b.1, b.2⟩ ∈ points s chunksCollection := (TransparentVectorStore.mem_points hs.ordered).2 hheld
  have hmem := (RetrievalResult.perm_ranked (chunks s [1])).mem_iff.2 (mem_chunks.2 ⟨_, hp, rfl⟩)
  exact ⟨_, hrun, _, hmem, rfl, rfl⟩

/-- The second line is reported as it was indexed. -/
theorem retrieve_storedLines :
    ∃ rs, retrieve storedLines unitEmbedder none {} "q" 5 false = .ok rs ∧ ∃ r ∈ rs, r.chunkId = "b::1" ∧
      r.documentId = "b" ∧ r.content = "y" ∧ r.startLine = 2 ∧ r.endLine = 2 ∧ r.kind = some .fileScope ∧
      r.name = none := by
  obtain ⟨c, hc, hcontent, hfirst, hlast, hkind⟩ := exists_secondLine
  obtain ⟨chunks, hwritten⟩ := exists_run_lines
  have hheld := Indexer.held?_writeDocument IndexStore.Reachable.empty.sound.valid hwritten hc
  obtain ⟨rs, hrun, r, hr, hid, -⟩ := exists_mem_retrieve_lines
    (standsUntil_lines fun _ _ => False).reachable.sound.valid (by decide +kernel) (by decide +kernel) hheld
  obtain ⟨hreports, hname⟩ := reports_of_mem_retrieve (standsUntil_lines _) hc (by rw [hfirst]; decide)
    (by rw [hlast]; decide) hrun hr hid
  exact ⟨rs, hrun, r, hr, hid, hreports.documentId, hreports.content.trans hcontent,
    hreports.startLine.trans hfirst, hreports.endLine.trans hlast, hkind ▸ hreports.kind, hname hkind⟩

/-- Another text under the id of the second line. -/
def otherLine : TextRecord :=
  { id := "b::1", content := "z", attributes := [(documentIdField, .ofText "b")] }

/-- **A document is not reported as it was indexed until it is replaced or deleted**: another chunk may have been
stored under the id of one of its chunks. -/
theorem not_reports_of_overwritten :
    ¬ ∀ (d : Document) (id : String) (index : Nat) (s : Memory),
      Indexer.StandsUntil (fun o _ => o.Replaces id) d id s → ∀ c, d.chunks[index]? = some c →
      c.startLine ≤ Attribute.greatestInteger → c.endLine ≤ Attribute.greatestInteger →
      ∀ (e : Embedder) (settings : RetrievalSettings) (text : String) (k : Nat) (rs : List RetrievalResult),
      retrieve s e none settings text k false = .ok rs → ∀ r ∈ rs, r.chunkId = chunkId id index →
      r.Reports id c := by
  intro h
  obtain ⟨c, hc, hcontent, hfirst, hlast, -⟩ := exists_secondLine
  -- the other text was stored by itself, so the document was neither replaced nor deleted
  have hstands : Indexer.StandsUntil (fun o _ => o.Replaces "b") linesDocument "b"
      ((Operation.addChunks unitEmbedder [otherLine]).after storedLines) :=
    (standsUntil_lines _).after _ id
  have hheld : ((holdings ((Operation.addChunks unitEmbedder [otherLine]).after storedLines)).held? chunksCollection
      "b::1").map (fun b => Payload.text? b.2 contentField) = some (some "z") := by decide +kernel
  obtain ⟨b, hb, htext⟩ := Option.map_eq_some_iff.1 hheld
  obtain ⟨rs, hrun, r, hr, hid, hz⟩ := exists_mem_retrieve_lines hstands.reachable.sound.valid (by decide +kernel)
    (by decide +kernel) hb
  -- if the document were reported, the text of its second line would be the one of the file
  have hy := (h linesDocument "b" 1 _ hstands c hc (by rw [hfirst]; decide) (by rw [hlast]; decide) unitEmbedder {}
    "q" 5 rs hrun r hr hid).content
  rw [hz, htext, hcontent] at hy
  exact absurd hy (by decide)

end Lines

end Retrieval

end CodeSearch
