import CodeSearch.Proofs.Index.Reachable
import CodeSearch.Proofs.VectorStore.Transparent

/-!
# What an index shows

What can be read of an index in good order, told by what its store holds: the document under an id
(`document?_eq`), the best texts for a query (`search_eq`), the table of a field (`documentFields_spec`
of `Reachable` and `sorted_documentFields`), and the number that a deletion gives (`count_deleteDocument`).
-/

namespace CodeSearch

/-! ### Values of attributes -/

/-- Attributes are stored as single values. -/
theorem Attribute.isPlain_of_stored? {a : Attribute} {j : Json} (h : a.stored? = some j)
    (hfloat : ∀ x : Float, j ≠ .float x) : j.IsPlain := by
  cases a with
  | absent => cases h
  | list items =>
    -- lists and named values are stored as texts
    obtain rfl := Option.some.inj h
    trivial
  | named fields =>
    obtain rfl := Option.some.inj h
    trivial
  | scalar v =>
    obtain rfl := Option.some.inj h
    cases v with
    | text s => trivial
    | integer n => trivial
    | truth b => trivial
    | float x =>
      rw [Scalar.toJson] at hfloat ⊢
      split at hfloat
      · -- a finite number is stored as a number
        exact absurd rfl (hfloat x)
      · next hfinite =>
        rw [if_neg hfinite]
        -- any other one is stored as nothing
        trivial

theorem Attributes.isPlain_of_mem_payload {as : Attributes} {k : String} {j : Json}
    (h : (k, j) ∈ as.payload) (hfloat : ∀ x : Float, j ≠ .float x) : j.IsPlain := by
  obtain ⟨⟨k', a⟩, -, ha⟩ := List.mem_filterMap.1 h
  obtain ⟨v, hv, hkv⟩ := Option.map_eq_some_iff.1 ha
  obtain ⟨-, rfl⟩ := Prod.mk.inj hkv
  exact Attribute.isPlain_of_stored? hv hfloat

namespace IndexStore

/-- What is done to the store alone is done by the action of an index. -/
theorem run_of_run_onStore {σ α : Type} {a : StoreAction σ α} {x : α} {s s' : σ}
    (h : (onStore a).run s = .ok x s') : a.run s = .ok x s' := by
  change EStateM.adaptExcept _ a s = _ at h
  rw [EStateM.adaptExcept] at h
  change a s = _
  cases ha : a s with
  | error e s₁ =>
    rw [ha] at h
    cases h
  | ok y s₁ =>
    rw [ha] at h
    cases h
    rfl

variable {σ : Type} [VectorStore σ] [LawfulVectorStore σ] [TransparentVectorStore σ] {s s' : σ}

/-- The stored text of what is held under an id. -/
def textOf (id : String) (b : PointBody) (score : Score) : StoredText :=
  StoredText.ofHit { id, score, payload := b.2 }

/-- The stored texts that a search gives without a limit, in their ranking. -/
def found (s : σ) (c : String) (query : Embedding) (f : Filter) : List StoredText :=
  (Hit.ranked (((points s c).filter (f.accepts ·.payload)).map (·.hit query))).map .ofHit

/-- What is found are the points that the filter accepts, with their scores. -/
theorem mem_found {c : String} {query : Embedding} {f : Filter} {t : StoredText} :
    t ∈ found s c query f ↔ ∃ p ∈ points s c, f.accepts p.payload = true ∧
      t = textOf p.id (p.vector, p.payload) (Embedding.similarity query p.vector) := by
  rw [found, List.mem_map]
  constructor
  · -- ranking changes only the order
    rintro ⟨hit, hhit, rfl⟩
    obtain ⟨p, hp, rfl⟩ := List.mem_map.1 ((Hit.perm_ranked _).mem_iff.1 hhit)
    obtain ⟨hp, hf⟩ := List.mem_filter.1 hp
    exact ⟨p, hp, hf, rfl⟩
  · rintro ⟨p, hp, hf, rfl⟩
    refine ⟨p.hit query, (Hit.perm_ranked _).mem_iff.2 ?_, rfl⟩
    exact List.mem_map_of_mem (List.mem_filter.2 ⟨hp, hf⟩)

/-- A search finds no text twice. -/
theorem nodup_found (hs : Valid s) (c : String) (query : Embedding) (f : Filter) :
    ((found s c query f).map StoredText.id).Nodup := by
  have hids : ((points s c).map Point.id).Nodup := TransparentVectorStore.nodup_points c hs.ordered
  have hperm := ((Hit.perm_ranked (((points s c).filter (f.accepts ·.payload)).map (·.hit query))).map
    StoredText.ofHit).map StoredText.id
  rw [found, hperm.nodup_iff, List.map_map, List.map_map]
  exact hids.sublist (List.filter_sublist.map Point.id)

/-- **Stores that hold the same find the same**, in the same order. -/
theorem found_congr {τ : Type} [VectorStore τ] [LawfulVectorStore τ] [TransparentVectorStore τ] {t : τ}
    (hs : Valid s) (ht : Valid t) {c : String} (h : (holdings s).held? c = (holdings t).held? c)
    (query : Embedding) (f : Filter) : found s c query f = found t c query f := by
  have hperm := ((perm_points hs.ordered ht.ordered h).filter (f.accepts ·.payload)).map (·.hit query)
  have hids : ((points s c).map Point.id).Nodup := TransparentVectorStore.nodup_points c hs.ordered
  rw [found, found, Hit.ranked_eq_of_perm hperm]
  rw [List.map_map]
  exact hids.sublist (List.filter_sublist.map Point.id)

/-- **A document is read as it is held.** -/
theorem document?_eq (hs : Valid s) {id : String}
    (hread : ∀ b, (holdings s).held? documentsCollection id = some b → readable σ b.1 = true) :
    document? s id =
      .ok (((holdings s).held? documentsCollection id).map fun b => textOf id b ⟨1, false⟩) := by
  rw [document?, TransparentVectorStore.get_eq fun b hb => ⟨hread b hb, hs.legible _ _ b hb⟩]
  cases (holdings s).held? documentsCollection id <;> rfl

/-- **A search gives the best of what is there.** A collection that is not there answers like an empty
one. -/
theorem search_eq (hs : Valid s) {c : String} (hread : ∀ p ∈ points s c, readable σ p.vector = true)
    (query : Embedding) (k : Nat) (f : Filter) :
    search s c query k f =
      match (holdings s).size? c with
      | none => .ok []
      | some n =>
        if k = 0 then .ok []
        else if query.length = n then .ok ((found s c query f).take k)
        else .error (.dimension c n query.length) := by
  rw [search, LawfulVectorStore.contains_eq]
  cases hc : (holdings s).size? c with
  | none => simp
  | some n =>
    by_cases hk : k = 0
    · -- a search for nothing is not made
      simp [hk]
    · rw [if_neg (by simp [hk]), TransparentVectorStore.search_eq query k f hc fun p hp =>
        ⟨hread p hp, hs.legible_of_mem hp⟩]
      -- the length of the query must be that of the collection
      by_cases hq : query.length = n
      · simp only [hk, hq, if_true, if_false, found, ← List.map_take]
        rfl
      · simp only [hk, hq, if_false]
        rfl

/-! ### Fields of documents -/

/-- What is listed of documents is in order. -/
theorem sorted_documentFields {field : String} {t : Table String}
    (h : documentFields s field = .ok t) : t.Sorted := by
  rw [documentFields] at h
  split at h
  · cases hrows : VectorStore.scroll s documentsCollection documentIdField with
    | error cause =>
      rw [hrows] at h
      cases h
    | ok rows =>
      rw [hrows] at h
      obtain rfl := Except.ok.inj h
      exact Table.sorted_map (TransparentVectorStore.sorted_scroll hrows) fun t => Table.getD t field ""
  · -- without documents nothing is listed
    obtain rfl := Except.ok.inj h
    exact Table.sorted_nil

/-- **The listed ids are in order**, and each is listed once. -/
theorem sorted_documentIds {ids : List String} (h : documentIds s = .ok ids) :
    ids.Pairwise (· < ·) := by
  rw [documentIds] at h
  cases ht : documentFields s documentIdField with
  | error cause =>
    rw [ht] at h
    cases h
  | ok t =>
    rw [ht] at h
    obtain rfl := Except.ok.inj h
    exact List.pairwise_map.2 (sorted_documentFields ht)

/-! ### Counting what is taken out -/

/-- The chunks of a document. -/
def chunksOf (s : σ) (id : String) : List Point :=
  (points s chunksCollection).filter fun p => Holdings.isPartOf id (p.vector, p.payload)

/-- **A deletion gives the number of chunks of the document.** -/
theorem count_deleteDocument (hs : Valid s) {id : String} {n : Nat}
    (hrun : (deleteDocument id).run s = .ok n s') : n = (chunksOf s id).length := by
  -- the filter accepts the chunks that belong to the document
  have hfilter : (fun p : Point => (Filter.textIs documentIdField id).accepts p.payload) =
      fun p : Point => Holdings.isPartOf id (p.vector, p.payload) := by
    funext p
    rw [Bool.eq_iff_iff, Filter.accepts_textIs, Holdings.isPartOf_iff]
  obtain ⟨m, s₁, hdelete, hrest⟩ := exists_of_run_bind hrun
  -- the number is that of the points that were taken out
  have hcount := TransparentVectorStore.count_deleteWhere hs.ordered (run_of_run_onStore hdelete)
  rw [hfilter] at hcount
  -- what follows takes out the document and hands the number on
  obtain ⟨s₂, s₂', hget, hrest⟩ := exists_of_run_bind hrest
  dsimp only at hrest
  split at hrest
  · obtain ⟨-, s₃, -, hpure⟩ := exists_of_run_bind hrest
    cases hpure
    exact hcount
  · cases hrest
    exact hcount

end IndexStore

end CodeSearch
