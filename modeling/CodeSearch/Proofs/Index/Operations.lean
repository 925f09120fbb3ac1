import CodeSearch.Index.Store
import CodeSearch.Proofs.Steps
import CodeSearch.Proofs.VectorStore.Lawful

/-!
# What index operations leave behind

An operation on an index is a sequence of actions on a store, and may end in the middle of it. For a
lawful store of which all payloads can be read (`Valid`) the result of each operation, and what the store
holds afterwards, are functions of what it held before, and all payloads can still be read, for those that
are written hold neither lists nor objects:

* `deleteDocument` always succeeds, and leaves `Holdings.cleared` (`deleteDocument_spec`);
* `addDocument` and `addChunks` write the points that `documentPoint` and `chunkPoints` give, or fail
  and change nothing (`addDocument_spec`, `addChunks_spec`);
* `replaceDocument` ends in one of three ways (`replaceDocument_document_refused`,
  `replaceDocument_chunks_refused`, `replaceDocument_stored`), and what was stored under the id is gone in
  each of them.

Whether a point is refused depends on the lengths of the collections and on the embedder only
(`documentPoint_congr`, `chunkPoints_congr`).
-/

namespace CodeSearch

namespace Holdings

/-- The holdings with points written to a collection that is made for the first of them. -/
def write (h : Holdings) (kept : Json → Json) (c : String) : List Point → Holdings
  | [] => h
  | p :: ps => (h.make c p.vector.length).putAll c ((p :: ps).map (Point.keptBy kept))

/-- Whether a point belongs to a document. -/
def isPartOf (id : String) (b : PointBody) : Bool :=
  Payload.text? b.2 documentIdField == some id

/-- The holdings without a document and its chunks. -/
def cleared (h : Holdings) (id : String) : Holdings :=
  (h.cut chunksCollection fun _ b => isPartOf id b).cut documentsCollection fun i _ => i == id

variable (h : Holdings) (kept : Json → Json)

theorem isPartOf_iff {id : String} {b : PointBody} :
    isPartOf id b = true ↔ Payload.text? b.2 documentIdField = some id := beq_iff_eq

/-- What belongs to one document belongs to no other. -/
theorem isPartOf_of_ne {id id' : String} (hne : id' ≠ id) {b : PointBody}
    (hb : isPartOf id' b = true) : isPartOf id b = false := by
  rw [Bool.eq_false_iff]
  intro hb'
  rw [isPartOf_iff] at hb hb'
  exact hne (Option.some.inj (hb.symm.trans hb'))

theorem documentsCollection_ne : documentsCollection ≠ chunksCollection := by decide

@[simp] theorem size?_cleared (id : String) : (h.cleared id).size? = h.size? := rfl

/-- Clearing takes out the document with the id. -/
theorem held?_cleared_documents (id i : String) :
    (h.cleared id).held? documentsCollection i =
      if i = id then none else h.held? documentsCollection i := by
  rw [cleared, held?_cut, if_pos rfl, held?_cut, if_neg documentsCollection_ne]
  by_cases hi : i = id
  · rw [if_pos hi, hi]
    cases h.held? documentsCollection id <;> simp
  · -- under another id there is nothing to take out
    rw [if_neg hi]
    cases h.held? documentsCollection i <;> simp [hi]

/-- Clearing takes out the chunks that belong to the document. -/
theorem held?_cleared_chunks (id i : String) :
    (h.cleared id).held? chunksCollection i =
      (h.held? chunksCollection i).filter fun b => !isPartOf id b := by
  rw [cleared, held?_cut, if_neg documentsCollection_ne.symm, held?_cut, if_pos rfl]

/-- Clearing takes chunks out and changes none. -/
theorem held?_cleared_chunks_eq_some_iff {id i : String} {b : PointBody} :
    (h.cleared id).held? chunksCollection i = some b ↔
      h.held? chunksCollection i = some b ∧ isPartOf id b = false := by
  rw [held?_cleared_chunks, Option.filter_eq_some_iff, Bool.not_eq_true']

/-! ### Writing -/

@[simp] theorem write_nil (c : String) : h.write kept c [] = h := rfl

/-- A collection that is written to is there, and has the length of the first vector. -/
theorem size?_write (c c' : String) (p : Point) (ps : List Point) :
    (h.write kept c (p :: ps)).size? c' =
      if c' = c then some p.vector.length else h.size? c' := by
  rw [write, size?_putAll, size?_make]

/-- Writing to one collection leaves the others as they are. -/
theorem held?_write_of_ne {c c' : String} (hc : c' ≠ c) (ps : List Point) (i : String) :
    (h.write kept c ps).held? c' i = h.held? c' i := by
  cases ps with
  | nil => rfl
  | cons p ps => rw [write, held?_putAll_of_ne _ hc, held?_make]

/-- Writing leaves what is under ids that no written point has. -/
theorem held?_write_of_forall_ne {c c' : String} {ps : List Point} {i : String}
    (hi : ∀ p ∈ ps, p.id ≠ i) : (h.write kept c ps).held? c' i = h.held? c' i := by
  cases ps with
  | nil => rfl
  | cons p ps =>
    rw [write, held?_putAll_of_forall_ne, held?_make]
    intro q hq
    obtain ⟨q', hq', rfl⟩ := List.mem_map.1 hq
    exact hi q' hq'

/-- **A written point is found under its id**, if the points have ids of their own. -/
theorem held?_write_of_mem {c : String} {ps : List Point} (hn : (ps.map Point.id).Nodup)
    {p : Point} (hp : p ∈ ps) :
    (h.write kept c ps).held? c p.id = some ((p.keptBy kept).vector, (p.keptBy kept).payload) := by
  -- what is kept of the points has their ids
  have hp' : p.keptBy kept ∈ ps.map (Point.keptBy kept) := List.mem_map_of_mem hp
  have hn' : ((ps.map (Point.keptBy kept)).map Point.id).Nodup := by
    rw [List.map_map]
    exact hn
  cases ps with
  | nil => cases hp
  -- the first point makes the collection, and then all of them are put into it
  | cons q ps => exact held?_putAll_of_mem _ c hn' hp'

/-- The written document. -/
theorem held?_write_documents (p : Point) (i : String) :
    (h.write kept documentsCollection [p]).held? documentsCollection i =
      if i = p.id then some ((p.keptBy kept).vector, (p.keptBy kept).payload)
      else h.held? documentsCollection i := by
  change ((h.make _ _).put _ (p.keptBy kept)).held? _ _ = _
  rw [held?_put]
  by_cases hi : i = p.id
  · rw [if_pos hi, if_pos ⟨rfl, hi⟩]
  · rw [if_neg hi, if_neg fun he => hi he.2, held?_make]

/-- The holdings with a document and chunks in the place of what was stored under an id. -/
def replaced (h : Holdings) (kept : Json → Json) (id : String) (p : Point) (ps : List Point) :
    Holdings :=
  ((h.cleared id).write kept documentsCollection [p]).write kept chunksCollection ps

/-- Writing the document changes nothing in the length of the chunks. -/
theorem size?_written_chunks (id : String) (p : Point) :
    ((h.cleared id).write kept documentsCollection [p]).size? chunksCollection =
      h.size? chunksCollection := by
  rw [size?_write, if_neg documentsCollection_ne.symm, size?_cleared]

/-- What is found in a collection after a write was written, or was there before. -/
theorem held?_write_cases {c i : String} {ps : List Point} {b : PointBody}
    (hb : (h.write kept c ps).held? c i = some b) :
    (∃ p ∈ ps, p.id = i ∧ b = ((p.keptBy kept).vector, (p.keptBy kept).payload)) ∨
      h.held? c i = some b := by
  cases ps with
  | nil => exact Or.inr hb
  | cons p ps =>
    -- making the collection brings no points
    refine (held?_putAll_cases _ c hb).imp_left ?_
    rintro ⟨q, hq, hi, rfl⟩
    obtain ⟨p', hp', rfl⟩ := List.mem_map.1 hq
    exact ⟨p', hp', hi, rfl⟩

/-! ### Replacing -/

/-- After a replacement the document with the id is the new one. -/
theorem held?_replaced_documents {id : String} {p : Point} (hp : p.id = id) (ps : List Point)
    (i : String) :
    (h.replaced kept id p ps).held? documentsCollection i =
      if i = id then some (p.vector, (p.keptBy kept).payload)
      else h.held? documentsCollection i := by
  rw [replaced, held?_write_of_ne _ _ documentsCollection_ne, held?_write_documents, hp,
    held?_cleared_documents]
  by_cases hi : i = id
  · rw [if_pos hi, if_pos hi, Point.vector_keptBy]
  · rw [if_neg hi, if_neg hi, if_neg hi]

/-- The chunks after a replacement are those that were written, and those of other documents. -/
theorem held?_replaced_chunks_cases {id : String} {p : Point} {ps : List Point} {i : String}
    {b : PointBody} (hb : (h.replaced kept id p ps).held? chunksCollection i = some b) :
    (∃ q ∈ ps, q.id = i ∧ b = ((q.keptBy kept).vector, (q.keptBy kept).payload)) ∨
      h.held? chunksCollection i = some b ∧ isPartOf id b = false := by
  refine (held?_write_cases _ _ hb).imp_right fun hb => ?_
  rw [held?_write_of_ne _ _ documentsCollection_ne.symm] at hb
  exact (held?_cleared_chunks_eq_some_iff h).1 hb

/-- Chunks under ids that are not written stay if they belong to other documents. -/
theorem held?_replaced_chunks_of_forall_ne {id : String} {p : Point} {ps : List Point} {i : String}
    (hi : ∀ q ∈ ps, q.id ≠ i) :
    (h.replaced kept id p ps).held? chunksCollection i =
      (h.held? chunksCollection i).filter fun b => !isPartOf id b := by
  rw [replaced, held?_write_of_forall_ne _ _ hi, held?_write_of_ne _ _ documentsCollection_ne.symm,
    held?_cleared_chunks]

/-- Written chunks are found under their ids. -/
theorem held?_replaced_chunks_of_mem {id : String} {p : Point} {ps : List Point}
    (hn : (ps.map Point.id).Nodup) {q : Point} (hq : q ∈ ps) :
    (h.replaced kept id p ps).held? chunksCollection q.id =
      some ((q.keptBy kept).vector, (q.keptBy kept).payload) :=
  held?_write_of_mem _ kept hn hq

/-! ### Lengths of collections -/

/-- The collections that are there in `h` are there in `h'`, with vectors of the same lengths. -/
def Grows (h h' : Holdings) : Prop := ∀ c n, h.size? c = some n → h'.size? c = some n

section Lengths

variable {fits : Nat → Bool} {kept : Json → Json} {h : Holdings}

theorem Grows.refl (h : Holdings) : h.Grows h := fun _ _ hc => hc

theorem size?_replaced_documents (id : String) (p : Point) (ps : List Point) :
    (h.replaced kept id p ps).size? documentsCollection = some p.vector.length := by
  have hp : ((h.cleared id).write kept documentsCollection [p]).size? documentsCollection =
      some p.vector.length := by rw [size?_write, if_pos rfl]
  cases ps with
  | nil => exact hp
  | cons q ps => rw [replaced, size?_write, if_neg documentsCollection_ne, hp]

theorem size?_replaced_chunks (id : String) (p : Point) (ps : List Point) :
    (h.replaced kept id p ps).size? chunksCollection =
      match ps with
      | [] => h.size? chunksCollection
      | q :: _ => some q.vector.length := by
  cases ps with
  | nil => exact size?_written_chunks h kept id p
  | cons q ps => rw [replaced, size?_write, if_pos rfl]

/-- A replacement changes the lengths of no other collection. -/
theorem size?_replaced_of_ne {c : String} (hd : c ≠ documentsCollection) (hc : c ≠ chunksCollection)
    (id : String) (p : Point) (ps : List Point) :
    (h.replaced kept id p ps).size? c = h.size? c := by
  cases ps with
  | nil => rw [replaced, write_nil, size?_write, if_neg hd, size?_cleared]
  | cons q ps => rw [replaced, size?_write, if_neg hc, size?_write, if_neg hd, size?_cleared]

/-- A replacement by points that are not refused keeps the lengths that are there. -/
theorem grows_replaced {p : Point} {ps : List Point}
    (hd : h.refusal? fits documentsCollection p.vector.length = none)
    (hc : ∀ q ∈ ps, h.refusal? fits chunksCollection q.vector.length = none) (id : String) :
    h.Grows (h.replaced kept id p ps) := by
  intro c n hn
  -- only the two collections that are written to can have changed
  by_cases hcd : c = documentsCollection
  · subst hcd
    -- the length of the document is that of the collection, or there was none
    rw [size?_replaced_documents, ((refusal?_eq_none_iff _ _ _ _).1 hd).2 n hn]
  · by_cases hcc : c = chunksCollection
    · subst hcc
      rw [size?_replaced_chunks]
      cases ps with
      -- without chunks nothing is written to their collection
      | nil => exact hn
      | cons q ps =>
        -- what is true of all chunks is true of the first one
        have hq := hc q List.mem_cons_self
        exact congrArg some (((refusal?_eq_none_iff _ _ _ _).1 hq).2 n hn).symm
    · rw [size?_replaced_of_ne hcd hcc, hn]

end Lengths

end Holdings

/-! ### Payloads of records -/

theorem Scalar.isFlat_toJson (v : Scalar) : v.toJson.IsFlat := by
  cases v with
  | text _ | integer _ | truth _ => trivial
  | float x =>
    rw [toJson]
    split <;> trivial

/-- An attribute is stored as a single value, if at all. -/
theorem Attribute.isFlat_of_stored? {a : Attribute} {j : Json} (h : a.stored? = some j) : j.IsFlat := by
  cases a with
  | absent => cases h
  | scalar v =>
    obtain rfl := Option.some.inj h
    exact v.isFlat_toJson
  | list _ | named _ =>
    obtain rfl := Option.some.inj h
    trivial

theorem Point.IsFlat.insert {p : Point} (hp : p.IsFlat) (k s : String) :
    ({ p with payload := p.payload.insert k (.str s) } : Point).IsFlat := by
  intro e he
  rcases Table.mem_insert he with rfl | he
  · trivial
  · exact hp e he

/-- The payload of a record is not nested. -/
theorem TextRecord.isFlat_payload (r : TextRecord) : ∀ e ∈ r.payload, e.2.IsFlat := by
  intro e he
  rcases Table.mem_insert he with rfl | he
  · trivial
  · obtain ⟨⟨k, a⟩, -, hstored⟩ := List.mem_filterMap.1 he
    obtain ⟨j, hj, rfl⟩ := Option.map_eq_some_iff.1 hstored
    exact Attribute.isFlat_of_stored? hj

namespace IndexStore

/-! ### What is written -/

/-- The point that a document is stored as, unless it is refused. -/
def documentPoint (fits : Nat → Bool) (h : Holdings) (e : Embedder) (r : TextRecord) :
    Except IndexError Point := do
  let p ← r.point e
  match h.refusal? fits documentsCollection p.vector.length with
  | some cause => throw (.storage cause)
  | none => return { p with payload := p.payload.insert documentIdField (.str r.id) }

/-- The points that chunks are stored as, unless one of them is refused. -/
def chunkPoints (fits : Nat → Bool) (h : Holdings) (e : Embedder) (rs : List TextRecord) :
    Except IndexError (List Point) := do
  match ← rs.mapM (·.point e) with
  | [] => return []
  | p :: ps =>
    match ps.find? (·.vector.length ≠ p.vector.length) with
    | some q => throw (.unequal q.id p.vector.length q.vector.length)
    | none => match h.refusal? fits chunksCollection p.vector.length with
      | some cause => throw (.storage cause)
      | none => return p :: ps

section Points

variable {fits : Nat → Bool} {h h' : Holdings} {e : Embedder}

/-- The document that a record makes with a vector. -/
def documentWith (r : TextRecord) (v : Embedding) : Point :=
  { id := r.id, vector := v, payload := r.payload.insert documentIdField (.str r.id) }

theorem point_eq (r : TextRecord) (e : Embedder) :
    r.point e = (r.vector e).map fun v => { id := r.id, vector := v, payload := r.payload } := by
  rw [TextRecord.point]
  cases r.vector e <;> rfl

theorem isFlat_of_point {r : TextRecord} {p : Point} (hp : r.point e = .ok p) : p.IsFlat := by
  obtain ⟨v, -, hp⟩ := exists_of_bind_eq_ok hp
  obtain rfl := Except.ok.inj hp
  exact r.isFlat_payload

theorem isFlat_of_mapM_point {rs : List TextRecord} {ps : List Point} (hp : rs.mapM (·.point e) = .ok ps) :
    ∀ p ∈ ps, p.IsFlat := by
  intro p hmem
  obtain ⟨r, -, hr⟩ := exists_of_mem_mapM hp hmem
  exact isFlat_of_point hr

/-- A document with a vector is refused if its length is. -/
theorem documentPoint_of_point {r : TextRecord} {p : Point} (hp : r.point e = .ok p) :
    documentPoint fits h e r =
      match h.refusal? fits documentsCollection p.vector.length with
      | some cause => .error (.storage cause)
      | none => .ok { p with payload := p.payload.insert documentIdField (.str r.id) } := by
  rw [documentPoint, hp]
  change (match h.refusal? fits documentsCollection p.vector.length with | some _ => _ | none => _) = _
  cases h.refusal? fits documentsCollection p.vector.length <;> rfl

theorem documentPoint_of_error {r : TextRecord} {cause : IndexError}
    (hp : r.point e = .error cause) : documentPoint fits h e r = .error cause := by
  rw [documentPoint, hp]
  rfl

/-- Without all of their vectors chunks are not stored. -/
theorem chunkPoints_of_error {rs : List TextRecord} {cause : IndexError}
    (hp : rs.mapM (·.point e) = .error cause) : chunkPoints fits h e rs = .error cause := by
  rw [chunkPoints, hp]
  rfl

theorem chunkPoints_of_nil {rs : List TextRecord} (hp : rs.mapM (·.point e) = .ok []) :
    chunkPoints fits h e rs = .ok [] := by
  rw [chunkPoints, hp]
  rfl

/-- Of chunks with vectors, the first one whose length differs stands in the way, and then the length of the
first. -/
theorem chunkPoints_of_cons {rs : List TextRecord} {p : Point} {ps : List Point}
    (hp : rs.mapM (·.point e) = .ok (p :: ps)) :
    chunkPoints fits h e rs =
      match ps.find? (·.vector.length ≠ p.vector.length) with
      | some q => .error (.unequal q.id p.vector.length q.vector.length)
      | none => match h.refusal? fits chunksCollection p.vector.length with
        | some cause => .error (.storage cause)
        | none => .ok (p :: ps) := by
  rw [chunkPoints, hp]
  change (match ps.find? (·.vector.length ≠ p.vector.length) with | some _ => _ | none => _) = _
  cases ps.find? (·.vector.length ≠ p.vector.length) with
  | some q => rfl
  | none => cases h.refusal? fits chunksCollection p.vector.length <;> rfl

/-- **A document is stored** if it has a vector and the collection takes vectors of its length. -/
theorem documentPoint_eq_ok_iff {r : TextRecord} {p : Point} :
    documentPoint fits h e r = .ok p ↔
      ∃ v, r.vector e = .ok v ∧ h.refusal? fits documentsCollection v.length = none ∧
        p = documentWith r v := by
  cases hv : r.vector e with
  | error cause =>
    -- a record without a vector is no point
    have hp : r.point e = .error cause := by
      rw [point_eq, hv]
      rfl
    rw [documentPoint_of_error hp]
    simp
  | ok v =>
    -- a record with one is stored unless its length is refused
    have hp : r.point e = .ok { id := r.id, vector := v, payload := r.payload } := by
      rw [point_eq, hv]
      rfl
    rw [documentPoint_of_point hp]
    cases hr : h.refusal? fits documentsCollection v.length with
    | some cause => simp [hr]
    | none => simp [hr, documentWith, eq_comm]

/-- No point of a list stands out if all have vectors of the length of the first one. -/
theorem unequal_eq_none_iff {p : Point} {ps : List Point} :
    ps.find? (·.vector.length ≠ p.vector.length) = none ↔
      ∀ q ∈ p :: ps, q.vector.length = p.vector.length := by
  rw [List.find?_eq_none]
  constructor
  · intro h q hq
    rcases List.mem_cons.1 hq with rfl | hq
    · -- the first one has its own length
      rfl
    · simpa using h q hq
  · intro h q hq
    simpa using h q (List.mem_cons_of_mem _ hq)

/-- **Chunks are stored** if they have vectors of one length, which the collection takes. -/
theorem chunkPoints_eq_ok_iff {rs : List TextRecord} {ps : List Point} :
    chunkPoints fits h e rs = .ok ps ↔
      rs.mapM (·.point e) = .ok ps ∧
        ∀ p ∈ ps, h.refusal? fits chunksCollection p.vector.length = none ∧
          ∀ q ∈ ps, q.vector.length = p.vector.length := by
  cases hp : rs.mapM (·.point e) with
  | error cause =>
    -- without vectors there is nothing to store
    rw [chunkPoints_of_error hp]
    simp
  | ok qs =>
    cases qs with
    | nil =>
      -- no chunks are always stored
      rw [chunkPoints_of_nil hp]
      constructor
      · intro h
        cases h
        simp
      · rintro ⟨h, -⟩
        exact h
    | cons p₀ qs =>
      rw [chunkPoints_of_cons hp]
      constructor
      · intro h
        -- each of the two checks is passed
        split at h
        · cases h
        · next hu =>
          have hlen := unequal_eq_none_iff.1 hu
          split at h
          · cases h
          · next hc =>
            cases h
            refine ⟨rfl, fun p hp => ⟨?_, fun q hq => ?_⟩⟩
            · rw [hlen p hp]
              exact hc
            · rw [hlen q hq, hlen p hp]
      · -- with equal lengths and a length that is taken there is nothing to refuse
        rintro ⟨h, hall⟩
        cases h
        obtain ⟨hc, hlen⟩ := hall p₀ List.mem_cons_self
        rw [unequal_eq_none_iff.2 hlen, hc]

/-- Whether a document is refused depends on the length of its collection only. -/
theorem documentPoint_congr (hs : h.size? documentsCollection = h'.size? documentsCollection)
    (r : TextRecord) : documentPoint fits h e r = documentPoint fits h' e r := by
  simp only [documentPoint, Holdings.refusal?, hs]

theorem chunkPoints_congr (hs : h.size? chunksCollection = h'.size? chunksCollection)
    (rs : List TextRecord) : chunkPoints fits h e rs = chunkPoints fits h' e rs := by
  simp only [chunkPoints, Holdings.refusal?, hs]

end Points

variable {σ : Type} [VectorStore σ] [LawfulVectorStore σ] {s : σ}

open LawfulVectorStore (fits kept)

/-! ### Actions on the store -/

theorem ends_onStore {α : Type} {a : StoreAction σ α} {r : Except StoreError α} {h : Holdings}
    (ha : Ends a s r h) : Ends (onStore a) s (r.mapError .storage) h := by
  obtain ⟨s', hv, hh, ha⟩ := ha
  refine ⟨s', hv, hh, ?_⟩
  change EStateM.adaptExcept _ a s = _
  rw [EStateM.adaptExcept, show a s = _ from ha]
  cases r <;> rfl

/-- What an action does that first looks at the store. -/
theorem ends_get_bind {ε α : Type} {f : σ → EStateM ε σ α} {r : Except ε α} {h : Holdings}
    (hf : Ends (f s) s r h) : Ends (get >>= f) s r h := hf

/-- A length that is refused is refused without a trace. -/
theorem ends_ensure_refused (hs : Valid s) {c : String} {n : Nat} {cause : StoreError}
    (hc : (holdings s).refusal? (fits σ) c n = some cause) :
    Ends (onStore (VectorStore.ensure c n)) s (.error (.storage cause)) (holdings s) :=
  ends_onStore (r := .error cause) ⟨s, hs, rfl, LawfulVectorStore.ensure_refused hs.ordered hc⟩

/-- Making a collection and writing points to it, before whatever comes next. -/
theorem ends_write {α : Type} (hs : Valid s) {c : String} {p : Point} {ps : List Point}
    (hc : (holdings s).refusal? (fits σ) c p.vector.length = none)
    (hps : ∀ q ∈ p :: ps, q.vector.length = p.vector.length) (hflat : ∀ q ∈ p :: ps, q.IsFlat)
    {f : IndexAction σ α}
    {r : Except IndexError α} {h : Holdings}
    (hf : ∀ s', Valid s' → holdings s' = (holdings s).write (kept σ) c (p :: ps) → Ends f s' r h) :
    Ends (do
      onStore (VectorStore.ensure c p.vector.length)
      onStore (VectorStore.upsert c (p :: ps))
      f) s r h := by
  -- the collection is there afterwards, whether or not it was before
  obtain ⟨s₁, hrun, hv, hh⟩ := hs.ensure_taken hc
  refine Ends.bind (ends_onStore (r := .ok ()) ⟨s₁, hv, hh, hrun⟩) fun s₂ hv₂ hh₂ => ?_
  have hsize : (holdings s₂).size? c = some p.vector.length := by rw [hh₂]; simp
  -- the collection that is there now takes all the points
  obtain ⟨s₃, hrun₃, hv₃, hh₃⟩ := hv₂.upsert_fitting hsize hps hflat
  refine Ends.bind (ends_onStore (r := .ok ()) ⟨s₃, hv₃, rfl, hrun₃⟩) fun s₄ hv₄ hh₄ => ?_
  refine hf s₄ hv₄ ?_
  -- writing is making the collection and putting the points into it
  rw [hh₄, hh₃, hh₂]
  rfl

/-! ### The operations -/

/-- A collection that is not there holds nothing. -/
theorem held?_eq_none (hs : Valid s) {c : String} (hc : (holdings s).size? c = none) (i : String) :
    (holdings s).held? c i = none := by
  rw [Option.eq_none_iff_forall_ne_some]
  intro b hb
  rw [LawfulVectorStore.size?_of_held? hs.ordered hb] at hc
  cases hc

/-- **Deleting a document always succeeds.** -/
theorem deleteDocument_spec (hs : Valid s) (id : String) :
    ∃ n, Ends (deleteDocument id) s (.ok n) ((holdings s).cleared id) := by
  -- the filter looks at the id that the chunks carry
  have hf : ∀ b : PointBody,
      (Filter.textIs documentIdField id).accepts b.2 = Holdings.isPartOf id b := by
    intro b
    rw [Bool.eq_iff_iff, Filter.accepts_textIs, Holdings.isPartOf_iff]
  obtain ⟨n, s₁, hrun, hv, hh⟩ := hs.deleteWhere_run chunksCollection (.textIs documentIdField id)
  simp only [hf] at hh
  -- the chunks go first, then the document if there are any documents
  refine ⟨n, Ends.bind (ends_onStore (r := .ok n) ⟨s₁, hv, hh, hrun⟩) fun s₂ hv₂ hh₂ => ?_⟩
  refine ends_get_bind ?_
  have hsize : (holdings s₂).size? documentsCollection =
      (holdings s).size? documentsCollection := by rw [hh₂]; rfl
  rw [LawfulVectorStore.contains_eq]
  cases hd : (holdings s₂).size? documentsCollection with
  | none =>
    -- there are no documents, so leaving one out changes nothing
    have hnone : (fun i => ((holdings s₂).held? documentsCollection i).filter
        fun _ => !(i == id)) = (holdings s₂).held? documentsCollection := by
      funext i
      rw [held?_eq_none hv₂ hd, Option.filter_none]
    have hcl : (holdings s).cleared id = holdings s₂ := by
      rw [Holdings.cleared, ← hh₂, Holdings.cut, hnone, Function.update_eq_self]
    exact Ends.pure hv₂ hcl.symm n
  | some m =>
    obtain ⟨s₃, hrun₃, hv₃, hh₃⟩ := hv₂.deleteIds_run [id] hd
    have hcl : holdings s₃ = (holdings s).cleared id := by
      rw [hh₃, hh₂, Holdings.cleared]
      refine congrArg (Holdings.cut _ _) (funext fun i => funext fun _ => ?_)
      rw [List.contains_cons, List.contains_nil, Bool.or_false]
    refine Ends.bind (ends_onStore (r := .ok ()) ⟨s₃, hv₃, hcl, hrun₃⟩) fun s₄ hv₄ hh₄ => ?_
    exact Ends.pure hv₄ hh₄ n

/-- **A document is written, or refused without a trace.** -/
theorem addDocument_spec (hs : Valid s) (e : Embedder) (r : TextRecord) :
    Ends (addDocument e r) s ((documentPoint (fits σ) (holdings s) e r).map fun _ => r.id)
      (match documentPoint (fits σ) (holdings s) e r with
        | .ok p => (holdings s).write (kept σ) documentsCollection [p]
        | .error _ => holdings s) := by
  unfold addDocument
  cases hp : r.point e with
  | error cause =>
    -- the text cannot be embedded
    rw [documentPoint_of_error hp]
    exact Ends.stop (Ends.ofExcept hs _)
  | ok p =>
    rw [documentPoint_of_point hp]
    refine Ends.bind (Ends.ofExcept hs (.ok p)) fun s₁ hv hh => ?_
    rw [← hh]
    cases hc : (holdings s₁).refusal? (fits σ) documentsCollection p.vector.length with
    -- the collection does not take the vector
    | some cause => exact Ends.stop (ends_ensure_refused hv hc)
    | none =>
      refine ends_write hv (p := { p with payload := p.payload.insert documentIdField (.str r.id) })
        hc (by simp) ?_ fun s₂ hv₂ hh₂ => ?_
      · -- the id is one more text
        rw [List.forall_mem_singleton]
        exact (isFlat_of_point hp).insert _ _
      · exact Ends.pure hv₂ hh₂ r.id

theorem addDocument_ok (hs : Valid s) {h : Holdings} (hh : holdings s = h) {e : Embedder}
    {r : TextRecord} {p : Point} (hd : documentPoint (fits σ) h e r = .ok p) :
    Ends (addDocument e r) s (.ok r.id) (h.write (kept σ) documentsCollection [p]) := by
  have hadd := addDocument_spec hs e r
  rw [hh, hd] at hadd
  exact hadd

/-- **Chunks are written together, or refused without a trace.** -/
theorem addChunks_spec (hs : Valid s) (e : Embedder) (rs : List TextRecord) :
    Ends (addChunks e rs) s ((chunkPoints (fits σ) (holdings s) e rs).map (·.map Point.id))
      (match chunkPoints (fits σ) (holdings s) e rs with
        | .ok ps => (holdings s).write (kept σ) chunksCollection ps
        | .error _ => holdings s) := by
  unfold addChunks
  cases hp : rs.mapM (·.point e) with
  | error cause =>
    -- some text cannot be embedded
    rw [chunkPoints_of_error hp]
    exact Ends.stop (Ends.ofExcept hs _)
  | ok qs =>
    refine Ends.bind (Ends.ofExcept hs (.ok qs)) fun s₁ hv hh => ?_
    rw [← hh]
    cases qs with
    | nil =>
      -- there are no chunks
      rw [chunkPoints_of_nil hp]
      exact Ends.pure hv rfl []
    | cons p ps =>
      rw [chunkPoints_of_cons hp]
      dsimp only
      cases hu : ps.find? (·.vector.length ≠ p.vector.length) with
      -- the vectors have different lengths
      | some q => exact Ends.throw hv _
      | none =>
        cases hc : (holdings s₁).refusal? (fits σ) chunksCollection p.vector.length with
        -- the collection does not take them
        | some cause => exact Ends.stop (ends_ensure_refused hv hc)
        | none =>
          -- all of them are written
          refine ends_write hv hc (unequal_eq_none_iff.1 hu) (isFlat_of_mapM_point hp) fun s₂ hv₂ hh₂ => ?_
          exact Ends.pure hv₂ hh₂ _

/-! ### Replacing a document -/

section Replace

variable {e : Embedder} {r : TextRecord} {rs : List TextRecord}

/-- A document that is refused leaves the place of its predecessor empty. -/
theorem replaceDocument_document_refused (hs : Valid s) {cause : IndexError}
    (hd : documentPoint (fits σ) (holdings s) e r = .error cause) :
    Ends (replaceDocument e r rs) s (.error cause) ((holdings s).cleared r.id) := by
  obtain ⟨n, hdel⟩ := deleteDocument_spec hs r.id
  refine Ends.bind hdel fun s₁ hv hh => Ends.stop ?_
  -- the deletion keeps the lengths, so the same document is refused after it
  have hd₁ : documentPoint (fits σ) (holdings s₁) e r = .error cause := by
    rw [← hd]
    exact documentPoint_congr (by rw [hh]; rfl) r
  have hadd := addDocument_spec hv e r
  rw [hd₁] at hadd
  rw [← hh]
  exact hadd

/-- A document whose chunks are refused takes the place of its predecessor without them. -/
theorem replaceDocument_chunks_refused (hs : Valid s) {p : Point} {cause : IndexError}
    (hd : documentPoint (fits σ) (holdings s) e r = .ok p)
    (hc : chunkPoints (fits σ) (holdings s) e rs = .error cause) :
    Ends (replaceDocument e r rs) s (.error cause) ((holdings s).replaced (kept σ) r.id p []) := by
  obtain ⟨n, hdel⟩ := deleteDocument_spec hs r.id
  refine Ends.bind hdel fun s₁ hv hh => ?_
  -- the document is taken as it would have been before the deletion
  have hadd := addDocument_ok hv hh ((documentPoint_congr (by rfl) r).trans hd)
  refine Ends.bind hadd fun s₂ hv₂ hh₂ => Ends.stop ?_
  -- the length of the chunks is what it was before the document was written
  have hc₂ : chunkPoints (fits σ) (holdings s₂) e rs = .error cause := by
    rw [← hc]
    exact chunkPoints_congr (by rw [hh₂]; exact Holdings.size?_written_chunks _ _ _ _) rs
  have hchunks := addChunks_spec hv₂ e rs
  rw [hc₂, hh₂] at hchunks
  exact hchunks

/-- A document that is not refused takes the place of its predecessor with its chunks. -/
theorem replaceDocument_stored (hs : Valid s) {p : Point} {ps : List Point}
    (hd : documentPoint (fits σ) (holdings s) e r = .ok p)
    (hc : chunkPoints (fits σ) (holdings s) e rs = .ok ps) :
    Ends (replaceDocument e r rs) s (.ok ps.length)
      ((holdings s).replaced (kept σ) r.id p ps) := by
  obtain ⟨n, hdel⟩ := deleteDocument_spec hs r.id
  refine Ends.bind hdel fun s₁ hv hh => ?_
  have hadd := addDocument_ok hv hh ((documentPoint_congr (by rfl) r).trans hd)
  refine Ends.bind hadd fun s₂ hv₂ hh₂ => ?_
  -- and so are the chunks, after deletion and document
  have hc₂ : chunkPoints (fits σ) (holdings s₂) e rs = .ok ps := by
    rw [← hc]
    exact chunkPoints_congr (by rw [hh₂]; exact Holdings.size?_written_chunks _ _ _ _) rs
  have hchunks := addChunks_spec hv₂ e rs
  rw [hc₂, hh₂] at hchunks
  refine Ends.bind hchunks fun s₃ hv₃ hh₃ => ?_
  rw [← ps.length_map Point.id]
  exact Ends.pure hv₃ hh₃ _

end Replace

end IndexStore

end CodeSearch
