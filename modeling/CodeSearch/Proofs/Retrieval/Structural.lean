import CodeSearch.Proofs.Embedding.Order
import CodeSearch.Proofs.Retrieval.Candidates
import Mathlib.Data.List.Induction
import Mathlib.Data.List.ReduceOption

/-!
# Structural results

A retrieval that knows the structure of the code takes the documents of its first results and looks for the
files related to them. Every such file sends its best chunk, which is scored by the document that brought it
in. A chunk that was fetched itself stays as it is, and of the results for one chunk the one with the highest
score is kept (`BestOf`).

* `merge_cases` — what becomes of a result that is added;
* `bestOf_foldl` — what becomes of a list of them;
* `retrieve_hybrid` — what a retrieval gives, told without the order in which results were added.
-/

namespace CodeSearch

namespace Retrieval

open RetrievalResult (ofStored ranking ranked)

/-! ### Adding a result -/

/-- **What becomes of a result that is added**: it goes last if it is the first for its chunk, and else it
takes the place of the other one or is dropped. -/
theorem merge_cases (rs : List RetrievalResult) (x : RetrievalResult) :
    (∀ r ∈ rs, r.chunkId ≠ x.chunkId) ∧ merge rs x = rs ++ [x] ∨
    ∃ before r after, rs = before ++ r :: after ∧ r.chunkId = x.chunkId ∧
      merge rs x = before ++
        (if r.source = .structural ∧ r.score.value < x.score.value then x else r) :: after := by
  induction rs with
  | nil => exact Or.inl ⟨fun r hr => absurd hr List.not_mem_nil, rfl⟩
  | cons s rs ih =>
    rw [merge]
    by_cases hs : s.chunkId = x.chunkId
    · -- the search ends here, whatever comes later
      rw [if_pos hs]
      refine Or.inr ⟨[], s, rs, rfl, hs, ?_⟩
      split <;> rfl
    · -- it may be met further on
      rw [if_neg hs]
      rcases ih with ⟨hnone, heq⟩ | ⟨before, r, after, rfl, hr, heq⟩
      · exact Or.inl ⟨List.forall_mem_cons.2 ⟨hs, hnone⟩, by rw [heq]; rfl⟩
      · exact Or.inr ⟨s :: before, r, after, rfl, hr, by rw [heq]; rfl⟩

section Direct

variable {direct : List RetrievalResult}

/-- A result for a chunk that was fetched itself is dropped. -/
theorem merge_append_of_mem (hdirect : ∀ r ∈ direct, r.source = .vector) {x : RetrievalResult}
    (hx : x.chunkId ∈ direct.map RetrievalResult.chunkId) (rest : List RetrievalResult) :
    merge (direct ++ rest) x = direct ++ rest := by
  induction direct with
  | nil => cases hx
  | cons s direct ih =>
    obtain ⟨hs, hdirect⟩ := List.forall_mem_cons.1 hdirect
    rw [List.cons_append, merge]
    split
    · -- only structural results give way to others
      rw [if_neg]
      rintro ⟨hsource, -⟩
      rw [hs] at hsource
      cases hsource
    · next hne =>
      have hx' := (List.mem_cons.1 hx).resolve_left fun h => hne h.symm
      rw [ih hdirect hx']

/-- A result for a chunk that was not fetched itself is merged into the structural ones. -/
theorem merge_append_of_not_mem {x : RetrievalResult}
    (hx : x.chunkId ∉ direct.map RetrievalResult.chunkId) (rest : List RetrievalResult) :
    merge (direct ++ rest) x = direct ++ merge rest x := by
  induction direct with
  | nil => rfl
  | cons s direct ih =>
    rw [List.map_cons, List.mem_cons, not_or] at hx
    rw [List.cons_append, merge, if_neg fun h => hx.1 h.symm, ih hx.2]
    rfl

/-- **What was fetched stays as it is**, and what is added comes together behind it. -/
theorem foldl_merge (hdirect : ∀ r ∈ direct, r.source = .vector) (extra rest : List RetrievalResult) :
    extra.foldl merge (direct ++ rest) =
      direct ++ (extra.filter fun x => x.chunkId ∉ direct.map RetrievalResult.chunkId).foldl merge rest := by
  induction extra generalizing rest with
  | nil => rfl
  | cons x extra ih =>
    rw [List.foldl_cons, List.filter_cons]
    by_cases hx : x.chunkId ∈ direct.map RetrievalResult.chunkId
    · rw [merge_append_of_mem hdirect hx, ih, if_neg (by simpa using hx)]
    · rw [merge_append_of_not_mem hx, ih, if_pos (by simpa using hx), List.foldl_cons]

end Direct

/-- Whether results are the best ones of a list, one for each chunk. -/
structure BestOf (kept all : List RetrievalResult) : Prop where
  nodup : (kept.map RetrievalResult.chunkId).Nodup
  mem : ∀ x ∈ kept, x ∈ all
  best : ∀ y ∈ all, ∃ x ∈ kept, x.chunkId = y.chunkId ∧ y.score.value ≤ x.score.value

section BestOf

variable {kept all before after : List RetrievalResult} {r w x : RetrievalResult}

/-- A result for a chunk that had none before it is the best one there. -/
theorem BestOf.append (h : BestOf kept all) (hnone : ∀ r ∈ kept, r.chunkId ≠ x.chunkId)
    (hx : x.score.value ≤ x.score.value) : BestOf (kept ++ [x]) (all ++ [x]) := by
  constructor
  case nodup =>
    rw [List.map_append, List.nodup_append]
    refine ⟨h.nodup, List.nodup_singleton _, fun id hid id' hid' => ?_⟩
    obtain ⟨r, hr, rfl⟩ := List.mem_map.1 hid
    rw [List.mem_singleton.1 hid']
    exact hnone r hr
  case mem =>
    intro y hy
    rcases List.mem_append.1 hy with hy | hy
    · exact List.mem_append_left _ (h.mem y hy)
    · exact List.mem_append_right _ hy
  case best =>
    intro y hy
    -- who was best before is so still, and the new one stands for itself
    rcases List.mem_append.1 hy with hy | hy
    · obtain ⟨z, hz, hid, hle⟩ := h.best y hy
      exact ⟨z, List.mem_append_left _ hz, hid, hle⟩
    · rw [List.mem_singleton.1 hy]
      exact ⟨x, List.mem_append_right _ (List.mem_singleton.2 rfl), rfl, hx⟩

/-- Another result for the chunk may stand in the place of one if its score is no lower. -/
theorem BestOf.replace (h : BestOf (before ++ r :: after) all) (hw : w.chunkId = r.chunkId)
    (hx : x.chunkId = r.chunkId) (hmem : w ∈ all ++ [x])
    (hr : ∀ y ∈ all, y.score.value ≤ r.score.value → y.score.value ≤ w.score.value)
    (hle : x.score.value ≤ w.score.value) : BestOf (before ++ w :: after) (all ++ [x]) := by
  have hself : w ∈ before ++ w :: after := List.mem_append_right _ List.mem_cons_self
  constructor
  case nodup =>
    -- the chunks are the same as before
    have hn := h.nodup
    rw [List.map_append, List.map_cons] at hn ⊢
    rw [hw]
    exact hn
  case mem =>
    intro y hy
    rcases List.mem_append.1 hy with hy | hy
    · exact List.mem_append_left _ (h.mem y (List.mem_append_left _ hy))
    · rcases List.mem_cons.1 hy with rfl | hy
      · exact hmem
      · exact List.mem_append_left _ (h.mem y (List.mem_append_right _ (List.mem_cons_of_mem _ hy)))
  case best =>
    intro y hy
    rcases List.mem_append.1 hy with hy | hy
    · obtain ⟨z, hz, hid, hzle⟩ := h.best y hy
      -- the best one was another result, or the one that is replaced
      rcases List.mem_append.1 hz with hz | hz
      · exact ⟨z, List.mem_append_left _ hz, hid, hzle⟩
      · rcases List.mem_cons.1 hz with rfl | hz
        · exact ⟨w, hself, hw.trans hid, hr y hy hzle⟩
        · exact ⟨z, List.mem_append_right _ (List.mem_cons_of_mem _ hz), hid, hzle⟩
    · rw [List.mem_singleton.1 hy]
      exact ⟨w, hself, hw.trans hx.symm, hle⟩

/-- A structural result whose score is defined. -/
def Scored (r : RetrievalResult) : Prop := r.source = .structural ∧ r.score.value.isNaN = false

/-- **Adding a result keeps the best ones.** -/
theorem bestOf_merge (h : BestOf kept all) (hall : ∀ r ∈ all, Scored r) (hx : Scored x) :
    BestOf (merge kept x) (all ++ [x]) := by
  have hself : x.score.value ≤ x.score.value := FloatOrder.le_refl hx.2
  -- either its chunk is new, or there is one result for it that it is measured with
  rcases merge_cases kept x with ⟨hnone, heq⟩ | ⟨before, r, after, rfl, hr, heq⟩
  · rw [heq]
    exact h.append hnone hself
  · have hmem : r ∈ all := h.mem r (List.mem_append_right _ List.mem_cons_self)
    obtain ⟨hsource, hnan⟩ := hall r hmem
    by_cases hlt : r.score.value < x.score.value
    · -- the new result is better
      rw [if_pos ⟨hsource, hlt⟩] at heq
      rw [heq]
      have hle : r.score.value ≤ x.score.value := FloatOrder.le_of_lt hnan hx.2 hlt
      refine h.replace hr.symm hr.symm (List.mem_append_right _ (List.mem_singleton.2 rfl)) ?_ hself
      intro y hy hyr
      exact FloatOrder.le_trans (hall y hy).2 hnan hx.2 hyr hle
    · -- the other one stays
      rw [if_neg fun hboth => hlt hboth.2] at heq
      rw [heq]
      have hle : x.score.value ≤ r.score.value := (FloatOrder.le_iff_not_lt hx.2 hnan).2 hlt
      exact h.replace rfl hr.symm (List.mem_append_left _ hmem) (fun y _ hyr => hyr) hle

/-- **Adding results one after the other gives the best ones of them.** -/
theorem bestOf_foldl (hall : ∀ r ∈ all, Scored r) : BestOf (all.foldl merge []) all := by
  -- the fold is from the left, so the list is taken apart at its end
  induction all using List.reverseRecOn with
  | nil =>
    exact ⟨List.nodup_nil, fun x hx => absurd hx List.not_mem_nil, fun y hy => absurd hy List.not_mem_nil⟩
  | append_singleton all x ih =>
    rw [List.foldl_append]
    have hbefore : ∀ r ∈ all, Scored r := fun r hr => hall r (List.mem_append_left _ hr)
    have hx : Scored x := hall x (List.mem_append_right _ (List.mem_singleton.2 rfl))
    exact bestOf_merge (ih hbefore) hbefore hx

end BestOf

/-! ### Documents that are brought in -/

/-- Whether a direct result brings in a document: it is the best ranked one of its own document, one of the
first results is of that document too, and one of the first files related to the document is the file of the
other one. -/
def Brings (c : StructuralContext) (settings : RetrievalSettings) (direct : List RetrievalResult) (k : Nat)
    (o : RetrievalResult) (document : String) : Prop :=
  o.documentId ∈ ((ranked direct).take k).map RetrievalResult.documentId ∧
  (ranked direct).find? (·.documentId = o.documentId) = some o ∧
  document ≠ o.documentId ∧
  ∃ path ∈ (c.map.related c.resolver ⟨o.documentId⟩).take settings.relatedPerCandidate,
    documentId? c.map.root path = some document

/-- Related documents are others that a short enough path leads to. -/
theorem mem_relatedDocuments {c : StructuralContext} {perCandidate : Nat} {document related : String} :
    related ∈ relatedDocuments c perCandidate document ↔ related ≠ document ∧
      ∃ path ∈ (c.map.related c.resolver ⟨document⟩).take perCandidate,
        documentId? c.map.root path = some related := by
  rw [relatedDocuments, List.mem_filter, List.mem_filterMap, decide_eq_true_iff, And.comm]

/-- An origin is the first result of its document. -/
theorem mem_origins {rs : List RetrievalResult} {o : RetrievalResult} :
    o ∈ origins rs ↔ rs.find? (·.documentId = o.documentId) = some o := by
  induction rs with
  | nil => exact ⟨fun h => absurd h List.not_mem_nil, fun h => by cases h⟩
  | cons r rs ih =>
    -- both sides take the first element if it is of the document, and else go on with the others
    rw [origins, List.mem_cons, List.mem_filter, ih, List.find?_cons]
    by_cases hr : r.documentId = o.documentId
    · rw [decide_eq_true hr]
      constructor
      · rintro (rfl | ⟨-, hne⟩)
        · rfl
        · exact absurd hr.symm (by simpa using hne)
      · intro h
        exact Or.inl (Option.some.inj h).symm
    · rw [decide_eq_false hr]
      constructor
      · rintro (rfl | ⟨h, -⟩)
        · exact absurd rfl hr
        · exact h
      · intro h
        exact Or.inr ⟨h, by simpa using fun heq => hr heq.symm⟩

/-- The first of the first results of a document is the best ranked one of all. -/
theorem mem_origins_take {direct : List RetrievalResult} {k : Nat} {o : RetrievalResult} :
    o ∈ origins ((ranked direct).take k) ↔
      o.documentId ∈ ((ranked direct).take k).map RetrievalResult.documentId ∧
        (ranked direct).find? (·.documentId = o.documentId) = some o := by
  have hprefix : (ranked direct).take k <+: ranked direct := List.take_prefix k _
  rw [mem_origins]
  constructor
  · intro h
    exact ⟨List.mem_map_of_mem (List.mem_of_find?_eq_some h), hprefix.find?_eq_some h⟩
  · rintro ⟨hmem, h⟩
    -- there is a first one, and it is the first one of all
    obtain ⟨r, hr, hid⟩ := List.mem_map.1 hmem
    cases hfirst : ((ranked direct).take k).find? (·.documentId = o.documentId) with
    | none => exact absurd hid (by simpa using List.find?_eq_none.1 hfirst r hr)
    | some o' =>
      have hall := hprefix.find?_eq_some hfirst
      rw [h] at hall
      exact hall.symm

variable {σ : Type} [VectorStore σ] [LawfulVectorStore σ] [TransparentVectorStore σ]

/-- The stored chunk of a document that is most like a query. -/
def best? (s : σ) (query : Embedding) (document : String) : Option StoredText :=
  (IndexStore.found s chunksCollection query (.textIs documentIdField document)).head?

/-- The structural results that a direct result adds, whatever others add. -/
def addedBy (s : σ) (c : StructuralContext) (settings : RetrievalSettings) (query : Embedding)
    (o : RetrievalResult) : List RetrievalResult :=
  ((relatedDocuments c settings.relatedPerCandidate o.documentId).map (best? s query)).reduceOption.map
    fun t => ofStored t (o.score.scale settings.structuralDiscount) .structural

/-- What is found for a document is a point whose payload tells that document. -/
theorem exists_point_of_best? {s : σ} {query : Embedding} {document : String} {t : StoredText}
    (ht : best? s query document = some t) :
    ∃ p ∈ points s chunksCollection, Payload.text? p.payload documentIdField = some document ∧
      t = .ofHit (p.hit query) := by
  obtain ⟨p, hp, haccepts, rfl⟩ := IndexStore.mem_found.1 (List.mem_of_head? ht)
  exact ⟨p, hp, (Filter.accepts_textIs _ _ _).1 haccepts, rfl⟩

/-- A chunk is searched for by its document, so what is found is of that document. -/
theorem documentId_of_best? {s : σ} {query : Embedding} {document : String} {t : StoredText}
    (ht : best? s query document = some t) (score : Score) (source : MatchSource) :
    (ofStored t score source).documentId = document := by
  obtain ⟨p, -, htext, rfl⟩ := exists_point_of_best? ht
  -- the text is taken out of the payload, and nothing else
  have hkept : Table.get? (Table.erase p.payload contentField) documentIdField =
      Table.get? p.payload documentIdField := by
    rw [Table.get?_erase, if_neg (by decide)]
  calc
    ((Table.get? (Table.erase p.payload contentField) documentIdField).bind Json.str?).getD p.id
    _ = (Payload.text? p.payload documentIdField).getD p.id := by rw [hkept, Payload.text?]
    _ = document := by rw [htext, Option.getD_some]

/-- Documents do not share chunks. -/
theorem eq_of_best? {s : σ} (hs : Valid s) {query : Embedding} {document document' : String}
    {t t' : StoredText} (ht : best? s query document = some t) (ht' : best? s query document' = some t')
    (hid : t.id = t'.id) : document = document' := by
  obtain ⟨p, hp, htext, rfl⟩ := exists_point_of_best? ht
  obtain ⟨p', hp', htext', rfl⟩ := exists_point_of_best? ht'
  have hpoint : p = p' :=
    List.inj_on_of_nodup_map (TransparentVectorStore.nodup_points chunksCollection hs.ordered) hp hp' hid
  rw [hpoint, htext'] at htext
  exact (Option.some.inj htext).symm

/-- The structural results for chunks that were not fetched, in the order in which they are found. -/
def added (s : σ) (c : StructuralContext) (settings : RetrievalSettings) (query : Embedding)
    (direct : List RetrievalResult) (k : Nat) : List RetrievalResult :=
  ((origins ((ranked direct).take k)).flatMap (addedBy s c settings query)).filter
    fun x => x.chunkId ∉ direct.map RetrievalResult.chunkId

/-- **What is added** are the best chunks of the documents that are brought in. -/
theorem mem_added {s : σ} {c : StructuralContext} {settings : RetrievalSettings} {query : Embedding}
    {direct : List RetrievalResult} {k : Nat} {x : RetrievalResult} :
    x ∈ added s c settings query direct k ↔ x.chunkId ∉ direct.map RetrievalResult.chunkId ∧
      ∃ o document t, Brings c settings direct k o document ∧ best? s query document = some t ∧
        x = ofStored t (o.score.scale settings.structuralDiscount) .structural := by
  unfold added
  rw [List.mem_filter, decide_eq_true_iff, And.comm, List.mem_flatMap]
  refine and_congr_right fun _ => ?_
  constructor
  · -- what is added comes from an origin and one of the documents next to it
    rintro ⟨o, ho, hx⟩
    obtain ⟨t, ht, rfl⟩ := List.mem_map.1 hx
    obtain ⟨document, hdocument, hbest⟩ := List.mem_map.1 (List.reduceOption_mem_iff.1 ht)
    obtain ⟨hne, hpath⟩ := mem_relatedDocuments.1 hdocument
    obtain ⟨hfirst, hfind⟩ := mem_origins_take.1 ho
    exact ⟨o, document, t, ⟨hfirst, hfind, hne, hpath⟩, hbest, rfl⟩
  · rintro ⟨o, document, t, ⟨hfirst, hfind, hne, hpath⟩, hbest, rfl⟩
    refine ⟨o, mem_origins_take.2 ⟨hfirst, hfind⟩, List.mem_map_of_mem (List.reduceOption_mem_iff.2 ?_)⟩
    exact List.mem_map.2 ⟨document, mem_relatedDocuments.2 ⟨hne, hpath⟩, hbest⟩

/-! ### The structural results of a retrieval -/

/-- What structural results are. They are of different chunks, none of which was fetched itself, and of
different documents. Each is the best chunk of a document that is brought in, with the highest score that a
direct result gives it. Every document that is brought in has one, unless it has no chunk or its best chunk
was fetched. -/
structure IsStructural (s : σ) (c : StructuralContext) (settings : RetrievalSettings) (query : Embedding)
    (direct : List RetrievalResult) (k : Nat) (extra : List RetrievalResult) : Prop where
  nodup : ((direct ++ extra).map RetrievalResult.chunkId).Nodup
  nodup_documents : (extra.map RetrievalResult.documentId).Nodup
  sound : ∀ x ∈ extra, ∃ o t, Brings c settings direct k o x.documentId ∧
    best? s query x.documentId = some t ∧
    x = ofStored t (o.score.scale settings.structuralDiscount) .structural ∧
    ∀ o', Brings c settings direct k o' x.documentId →
      (o'.score.scale settings.structuralDiscount).value ≤ x.score.value
  complete : ∀ o document t, Brings c settings direct k o document → best? s query document = some t →
    t.id ∉ direct.map RetrievalResult.chunkId → document ∈ extra.map RetrievalResult.documentId

section Structural

variable {s : σ} {c : StructuralContext} {settings : RetrievalSettings} {query : Embedding}
  {direct extra : List RetrievalResult} {k : Nat}
  (hextra : BestOf extra (added s c settings query direct k))

include hextra

/-- What is kept was brought in with a document, and is the best chunk of that. -/
theorem exists_brings_of_mem {x : RetrievalResult} (hx : x ∈ extra) :
    x.chunkId ∉ direct.map RetrievalResult.chunkId ∧ ∃ o t, Brings c settings direct k o x.documentId ∧
      best? s query x.documentId = some t ∧
      x = ofStored t (o.score.scale settings.structuralDiscount) .structural := by
  obtain ⟨hid, o, document, t, hbrings, hbest, rfl⟩ := mem_added.1 (hextra.mem x hx)
  have hdocument := documentId_of_best? hbest (o.score.scale settings.structuralDiscount) .structural
  rw [hdocument]
  exact ⟨hid, o, t, hbrings, hbest, rfl⟩

/-- Whatever brings in a document, something as good is kept for its best chunk. -/
theorem exists_mem_of_brings {o : RetrievalResult} {document : String} {t : StoredText}
    (hbrings : Brings c settings direct k o document) (hbest : best? s query document = some t)
    (hid : t.id ∉ direct.map RetrievalResult.chunkId) :
    ∃ x ∈ extra, x.chunkId = t.id ∧
      (o.score.scale settings.structuralDiscount).value ≤ x.score.value := by
  apply hextra.best (ofStored t (o.score.scale settings.structuralDiscount) .structural)
  exact mem_added.2 ⟨hid, o, document, t, hbrings, hbest, rfl⟩

/-- The best of what is added is what structural results are. -/
theorem isStructural_of_bestOf (hs : Valid s) (hids : (direct.map RetrievalResult.chunkId).Nodup) :
    IsStructural s c settings query direct k extra := by
  have hsame : ∀ x ∈ extra, ∀ y ∈ extra, x.chunkId = y.chunkId → x = y := fun x hx y hy =>
    List.inj_on_of_nodup_map hextra.nodup hx hy
  constructor
  case nodup =>
    -- nothing is added for a chunk that was fetched
    rw [List.map_append, List.nodup_append]
    refine ⟨hids, hextra.nodup, fun id hid id' hid' heq => ?_⟩
    obtain ⟨x, hx, rfl⟩ := List.mem_map.1 hid'
    exact (exists_brings_of_mem hextra hx).1 (heq ▸ hid)
  case nodup_documents =>
    refine List.Nodup.map_on (fun x hx y hy hdocument => hsame x hx y hy ?_) hextra.nodup.of_map
    obtain ⟨-, o, t, -, ht, hxt⟩ := exists_brings_of_mem hextra hx
    obtain ⟨-, o', t', -, ht', hyt⟩ := exists_brings_of_mem hextra hy
    -- a document has one best chunk
    rw [hdocument, ht'] at ht
    obtain rfl := Option.some.inj ht
    rw [hxt, hyt]
    rfl
  case sound =>
    intro x hx
    obtain ⟨hid, o, t, hbrings, hbest, hxt⟩ := exists_brings_of_mem hextra hx
    have hchunk : x.chunkId = t.id := by
      rw [hxt]
      rfl
    refine ⟨o, t, hbrings, hbest, hxt, fun o' hbrings' => ?_⟩
    -- what is kept for the chunk is the result itself
    obtain ⟨z, hz, hzid, hle⟩ := exists_mem_of_brings hextra hbrings' hbest (hchunk ▸ hid)
    rwa [hsame z hz x hx (hzid.trans hchunk.symm)] at hle
  case complete =>
    intro o document t hbrings hbest hid
    obtain ⟨x, hx, hxid, -⟩ := exists_mem_of_brings hextra hbrings hbest hid
    -- what is kept was the best chunk of a document too, and one chunk belongs to one document
    obtain ⟨-, o', t', -, hbest', hxt⟩ := exists_brings_of_mem hextra hx
    have hchunk : t'.id = t.id := by
      rw [← hxid, hxt]
      rfl
    exact List.mem_map.2 ⟨x, hx, eq_of_best? hs hbest' hbest hchunk⟩

end Structural

/-! ### Whole retrievals -/

section Answers

variable {s : σ} (hs : Valid s) (hread : ∀ p ∈ points s chunksCollection, readable σ p.vector = true)
  {query : Embedding} (hsize : ∀ n, (holdings s).size? chunksCollection = some n → query.length = n)

include hs hread hsize

/-- A search for the best chunk of a document that finds the vectors readable does not fail. -/
theorem bestChunk?_eq (document : String) :
    bestChunk? s query document = .ok (best? s query document) := by
  rw [bestChunk?, searchChunks_eq hs hread hsize, best?]
  change Except.ok ((IndexStore.found s chunksCollection query _).take 1).head? = _
  rw [List.head?_take, if_neg Nat.one_ne_zero]

/-- What one direct result adds is added without a failure. -/
theorem structuralOf_eq (c : StructuralContext) (settings : RetrievalSettings) (o : RetrievalResult) :
    structuralOf s c settings query o = .ok (addedBy s c settings query o) := by
  have hbest : bestChunk? s query = fun document => Except.ok (best? s query document) :=
    funext (bestChunk?_eq hs hread hsize)
  have hall : (relatedDocuments c settings.relatedPerCandidate o.documentId).mapM (bestChunk? s query) =
      .ok ((relatedDocuments c settings.relatedPerCandidate o.documentId).map (best? s query)) := by
    rw [hbest]
    exact List.mapM_pure
  rw [structuralOf, hall]
  rfl

/-- What all direct results add is added without a failure. -/
theorem structural_eq (c : StructuralContext) (settings : RetrievalSettings) (rs : List RetrievalResult) :
    structural s c settings query rs = .ok ((origins rs).flatMap (addedBy s c settings query)) := by
  have hone : structuralOf s c settings query = fun o => Except.ok (addedBy s c settings query o) :=
    funext (structuralOf_eq hs hread hsize c settings)
  have hall : (origins rs).mapM (structuralOf s c settings query) =
      .ok ((origins rs).map (addedBy s c settings query)) := by
    rw [hone]
    exact List.mapM_pure
  rw [structural, hall]
  rfl

/-- What a retrieval puts together, best results first. -/
theorem answer_eq (c : StructuralContext) (settings : RetrievalSettings) (k : Nat) :
    answer s (some c) settings query k = .ok ((ranked (fetched s settings query k ++
      (added s c settings query (fetched s settings query k) k).foldl merge [])).take k) := by
  have hdirect : ∀ r ∈ fetched s settings query k, r.source = .vector := fun r => source_of_mem_fetched
  have hmerge := foldl_merge hdirect ((origins ((ranked (fetched s settings query k)).take k)).flatMap
    (addedBy s c settings query)) []
  rw [List.append_nil] at hmerge
  -- what was fetched stays in front while the others are merged in
  rw [answer, candidates_eq hs hread hsize, added, ← hmerge]
  change (structural s c settings query ((ranked (fetched s settings query k)).take k) >>= _) = _
  rw [structural_eq hs hread hsize]
  rfl

end Answers

/-- The results that were fetched, among the first ones of all. -/
theorem vector_take_ranked {direct extra : List RetrievalResult}
    (hdirect : ∀ r ∈ direct, r.source = .vector) (hextra : ∀ r ∈ extra, r.source = .structural)
    (hids : (direct.map RetrievalResult.chunkId).Nodup) (k : Nat) :
    ((ranked (direct ++ extra)).take k).filter (·.source = .vector) <+: (ranked direct).take k := by
  have hfilter : (direct ++ extra).filter (·.source = .vector) = direct := by
    rw [List.filter_append, List.filter_eq_self.2 fun r hr => decide_eq_true (hdirect r hr),
      List.filter_eq_nil_iff.2 fun r hr => by simp [hextra r hr], List.append_nil]
  -- taking the others out leaves the results in order
  have hranked : ranked direct = (ranked (direct ++ extra)).filter (·.source = .vector) := by
    refine RetrievalResult.ranked_eq_of_pairwise ?_ hids
      ((RetrievalResult.pairwise_ranked (direct ++ extra)).filter _)
    have hperm := (RetrievalResult.perm_ranked (direct ++ extra)).filter (·.source = .vector)
    rwa [hfilter] at hperm
  -- so those among the first ones come first, and there are no more of them than asked for
  rw [List.prefix_take_iff]
  constructor
  · rw [hranked]
    exact (List.take_prefix k _).filter _
  · exact (List.length_filter_le _ _).trans (List.length_take_le k _)

/-- **What a retrieval gives that knows the structure of the code.** Let no score be undefined that a
structural result could get. Then the results are the first ones, in their ranking, of what is fetched
together with the structural results (`IsStructural`). Those among them that are not structural are the first
results of a retrieval without structure. -/
theorem retrieve_hybrid {s : σ} (hs : Valid s)
    (hread : ∀ p ∈ points s chunksCollection, readable σ p.vector = true) {query : Embedding}
    (hsize : ∀ n, (holdings s).size? chunksCollection = some n → query.length = n) {e : Embedder}
    {text : String} (hquery : e.embed text = .ok query) (c : StructuralContext)
    (settings : RetrievalSettings) (k : Nat)
    (hdefined : ∀ o document t, Brings c settings (fetched s settings query k) k o document →
      best? s query document = some t →
      (o.score.scale settings.structuralDiscount).value.isNaN = false) :
    ∃ extra, IsStructural s c settings query (fetched s settings query k) k extra ∧
      candidates s settings query k = .ok (fetched s settings query k) ∧
      (∀ r ∈ fetched s settings query k, r.source = .vector ∧ ∃ p ∈ points s chunksCollection,
        r = ofStored (.ofHit (p.hit query)) (Embedding.similarity query p.vector) .vector) ∧
      retrieve s e (some c) settings text k true =
        .ok ((ranked (fetched s settings query k ++ extra)).take k) ∧
      ∃ direct, retrieve s e (some c) settings text k false = .ok direct ∧
        ((ranked (fetched s settings query k ++ extra)).take k).filter (·.source = .vector) <+: direct := by
  have hdirect : ∀ r ∈ fetched s settings query k, r.source = .vector := fun r => source_of_mem_fetched
  have hids := nodup_fetched hs settings query k
  have hscored : ∀ x ∈ added s c settings query (fetched s settings query k) k, Scored x := by
    intro x hx
    obtain ⟨-, o, document, t, hbrings, ht, rfl⟩ := mem_added.1 hx
    exact ⟨rfl, hdefined o document t hbrings ht⟩
  -- what is added one after the other are the best results of what is found
  have hbest := bestOf_foldl hscored
  refine ⟨_, isStructural_of_bestOf hbest hs hids, candidates_eq hs hread hsize settings k,
    fun r hr => ⟨hdirect r hr, mem_chunks.1 (mem_chunks_of_mem_fetched hr)⟩, ?_, _,
    retrieve_false hs hread hsize hquery (some c) settings k,
    vector_take_ranked hdirect (fun r hr => (hscored r (hbest.mem r hr)).1) hids k⟩
  unfold retrieve
  -- a question for nothing has no results
  by_cases hk : k = 0
  · rw [if_pos hk, hk, List.take_zero]
  · rw [if_neg hk, hquery]
    exact answer_eq hs hread hsize c settings k

/-! ### A file that is brought in -/

/-- A chunk that is all of a document. -/
def wholeChunk (document : String) (v : Embedding) : TextRecord :=
  { id := chunkId document 0, content := "x", attributes := [(documentIdField, .ofText document)]
    embedding := some v }

/-- An embedder that gives all texts one direction. -/
def sideEmbedder : Embedder := { embed := fun _ => .ok [1, 0] }

/-- Three documents, of which one is like a query, one is its opposite, and one has nothing to do with it. -/
def sideChunks : Memory :=
  (IndexStore.Operation.addChunks sideEmbedder
    [wholeChunk "a.py" [1, 0], wholeChunk "b.py" [-1, 0], wholeChunk "c.py" [0, 1]]).after VectorStore.empty

theorem valid_sideChunks : Valid sideChunks :=
  (IndexStore.Reachable.after .empty _ : IndexStore.Reachable sideChunks).sound.valid

/-- The opposite is related to the first one. -/
def sideContext : StructuralContext :=
  { map := { root := ⟨"/r"⟩, entries := [("a.py", .file (.new ⟨"/r"⟩ "a.py" 1))] }
    resolver := { search := fun _ => [], related := fun _ => [⟨"/r/b.py"⟩] } }

/-- The point of a chunk. -/
def wholePoint (document : String) (v : Embedding) : Point :=
  { id := chunkId document 0, vector := v, payload := (wholeChunk document v).payload }

/-- The result that the chunk makes. -/
def wholeResult (document : String) (v : Embedding) : RetrievalResult :=
  ofStored (.ofHit ((wholePoint document v).hit [1, 0])) (Embedding.similarity [1, 0] v) .vector

/-- What is fetched if two results are asked for. -/
def sideResults : List RetrievalResult := [wholeResult "a.py" [1, 0], wholeResult "c.py" [0, 1]]

theorem points_sideChunks : points sideChunks chunksCollection =
    [wholePoint "a.py" [1, 0], wholePoint "b.py" [-1, 0], wholePoint "c.py" [0, 1]] := rfl

/-- The third chunk is nearer to the query than the second one. -/
theorem fetched_sideChunks :
    fetched sideChunks { candidateMultiplier := 1 } [1, 0] 2 = sideResults := by
  let a := (wholePoint "a.py" [1, 0]).hit [1, 0]
  let b := (wholePoint "b.py" [-1, 0]).hit [1, 0]
  let c := (wholePoint "c.py" [0, 1]).hit [1, 0]
  have hsorted : [a, c, b].Pairwise fun x y => x.precedes y = true := by decide +kernel
  have hranked : Hit.ranked [a, b, c] = [a, c, b] := by
    have hperm : [a, b, c].Perm [a, c, b] := (List.Perm.swap c b []).cons a
    rw [Hit.ranked_eq_of_perm hperm (by decide)]
    exact List.mergeSort_of_pairwise hsorted
  unfold fetched chunks IndexStore.found
  rw [points_sideChunks]
  exact congrArg (fun hits => ((hits.map StoredText.ofHit).map fun t => ofStored t t.score .vector).take 2)
    hranked

theorem brings_sideResults :
    Brings sideContext { candidateMultiplier := 1 } sideResults 2 (wholeResult "a.py" [1, 0]) "b.py" := by
  have hranked : ranked sideResults = sideResults := by
    have hsorted : sideResults.Pairwise fun x y => (ranking x y).isLE = true := by decide +kernel
    exact List.mergeSort_of_pairwise hsorted
  unfold Brings
  rw [hranked]
  exact ⟨by decide, List.find?_cons_of_pos (by decide), by decide, ⟨"/r/b.py"⟩, by decide,
    by decide⟩

theorem best?_sideChunks : best? sideChunks [1, 0] "b.py" =
    some (.ofHit ((wholePoint "b.py" [-1, 0]).hit [1, 0])) := by
  unfold best? IndexStore.found
  rw [points_sideChunks]
  exact congrArg (fun hits => (hits.map StoredText.ofHit).head?) (List.mergeSort_singleton _)

/-- The opposite of the first document comes in with most of the score of that document. -/
theorem retrieve_sideChunks :
    ∃ extra, IsStructural sideChunks sideContext { candidateMultiplier := 1 } [1, 0] sideResults 2 extra ∧
      "b.py" ∈ extra.map RetrievalResult.documentId ∧
      retrieve sideChunks sideEmbedder (some sideContext) { candidateMultiplier := 1 } "y" 2 true =
        .ok ((ranked (sideResults ++ extra)).take 2) := by
  have hquery : sideEmbedder.embed "y" = .ok [1, 0] := rfl
  have hsize : ∀ n, (holdings sideChunks).size? chunksCollection = some n → ([1, 0] : Embedding).length = n :=
    fun n h => Option.some.inj h
  have hdefined : ∀ r ∈ sideResults, (r.score.scale 0.8).value.isNaN = false := by decide +kernel
  obtain ⟨extra, hextra, -, -, hretrieve, -⟩ := retrieve_hybrid valid_sideChunks (fun _ _ => rfl) hsize hquery
    -- of the two that were fetched, both have a score
    sideContext { candidateMultiplier := 1 } 2 (by
      rintro o document t ⟨-, hfind, -⟩ -
      rw [fetched_sideChunks] at hfind
      exact hdefined o ((RetrievalResult.perm_ranked _).mem_iff.1 (List.mem_of_find?_eq_some hfind)))
  rw [fetched_sideChunks] at hextra hretrieve
  exact ⟨extra, hextra, hextra.complete _ _ _ brings_sideResults best?_sideChunks (by decide), hretrieve⟩

end Retrieval

end CodeSearch
