import CodeSearch.Proofs.Index.Catalog

/-!
# Which store an index has does not show

A client asks an index for one thing after another (`Request`) and gets an `Answer` each time, which may be
an error. `IndexStore.answers_memory_eq_answers_database` says that an index in memory and one in database
tables give the same answers to the same requests, whatever state these lead to, and whether the requests
succeed or not.

The two stores differ in what they can hold, so this is about requests that both can (`Request.Plain`): the
components of all vectors are finite numbers, and no attribute is a floating point number. A vector has a
length that the table of lengths can hold, as every vector has that fits into memory.

The stores are compared by what they hold. Two stores are *alike* (`IndexStore.Alike`) if they are in good
order and hold the same, and what they hold is plain. An action that ends with the same result and the same
holdings on both keeps them alike (`agree_ofAction`), and of two stores that are alike everything is read
alike. So requests keep them alike (`Alike.agree`), one after the other (`Alike.answers_eq_answers`).
-/

namespace CodeSearch

/-! ### Requests -/

/-- What a client may ask of an index. -/
inductive Request where
  /-- Texts are to be embedded by another embedder from now on. -/
  | useEmbedder (e : Embedder)
  | addDocument (r : TextRecord)
  | addChunks (rs : List TextRecord)
  | replaceDocument (r : TextRecord) (rs : List TextRecord)
  | deleteDocument (id : String)
  | clear
  | searchDocuments (query : Embedding) (k : Nat) (f : Filter)
  | searchChunks (query : Embedding) (k : Nat) (f : Filter)
  | document (id : String)
  | documentIds
  | documentFields (field : String)

/-- What an index gives. -/
inductive Answer where
  | done
  | id (id : String)
  | ids (ids : List String)
  | count (n : Nat)
  | texts (ts : List StoredText)
  | text (t? : Option StoredText)
  | fields (t : Table String)
  | failed (cause : IndexError)

namespace Answer

/-- The answer to a request that changes the index, with the state that it leaves. -/
def ofAction {σ α : Type} (f : α → Answer) (a : IndexAction σ α) (s : σ) : Answer × σ :=
  match a.run s with
  | .ok x s' => (f x, s')
  | .error cause s' => (failed cause, s')

/-- The answer to a request that only reads. -/
def ofReading {α : Type} (f : α → Answer) : Except StoreError α → Answer
  | .ok x => f x
  | .error cause => failed (.storage cause)

end Answer

/-- The answer to a request, with the state that it leaves. -/
def Request.answer {σ : Type} [VectorStore σ] (e : Embedder) (s : σ) :
    Request → Answer × Embedder × σ
  | useEmbedder e' => (.done, e', s)
  | addDocument r =>
    let (a, s') := Answer.ofAction .id (IndexStore.addDocument e r) s
    (a, e, s')
  | addChunks rs =>
    let (a, s') := Answer.ofAction .ids (IndexStore.addChunks e rs) s
    (a, e, s')
  | replaceDocument r rs =>
    let (a, s') := Answer.ofAction .count (IndexStore.replaceDocument e r rs) s
    (a, e, s')
  | deleteDocument id =>
    let (a, s') := Answer.ofAction .count (IndexStore.deleteDocument id) s
    (a, e, s')
  | clear =>
    let (a, s') := Answer.ofAction (fun _ => .done) IndexStore.clear s
    (a, e, s')
  | searchDocuments query k f =>
    (Answer.ofReading .texts (IndexStore.searchDocuments s query k f), e, s)
  | searchChunks query k f => (Answer.ofReading .texts (IndexStore.searchChunks s query k f), e, s)
  | document id => (Answer.ofReading .text (IndexStore.document? s id), e, s)
  | documentIds => (Answer.ofReading .ids (IndexStore.documentIds s), e, s)
  | documentFields field => (Answer.ofReading .fields (IndexStore.documentFields s field), e, s)

/-- The answers to requests, each in the state that those before it have led to. -/
def answers {σ : Type} [VectorStore σ] (e : Embedder) (s : σ) : List Request → List Answer
  | [] => []
  | q :: qs =>
    let (a, e', s') := q.answer e s
    a :: answers e' s' qs

theorem answers_cons {σ : Type} [VectorStore σ] (e : Embedder) (s : σ) (q : Request) (qs : List Request) :
    answers e s (q :: qs) =
      (q.answer e s).1 :: answers (q.answer e s).2.1 (q.answer e s).2.2 qs := rfl

/-! ### Requests that every store can hold -/

/-- Whether all components of a vector are finite numbers, and its length can be held. -/
structure Embedding.Plain (v : Embedding) : Prop where
  finite : ∀ x ∈ v, x.isFinite = true
  length_le : v.length ≤ Database.greatestSize

/-- Whether an embedder gives such vectors. -/
def Embedder.Plain (e : Embedder) : Prop := ∀ text v, e.embed text = .ok v → Embedding.Plain v

/-- Whether a record comes with such a vector, if with any, and no attribute is a floating point
number. -/
structure TextRecord.Plain (r : TextRecord) : Prop where
  embedding : ∀ v, r.embedding = some v → Embedding.Plain v
  attributes : ∀ k x, (k, Attribute.scalar (.float x)) ∉ r.attributes

/-- Whether a request holds such vectors and records only. -/
def Request.Plain : Request → Prop
  | useEmbedder e => e.Plain
  | addDocument r => r.Plain
  | addChunks rs => ∀ r ∈ rs, r.Plain
  | replaceDocument r rs => r.Plain ∧ ∀ r ∈ rs, r.Plain
  | _ => True

section Plain

variable {e : Embedder} {r : TextRecord}

theorem Embedding.plain_nil : Embedding.Plain [] where
  finite x hx := by cases hx
  length_le := Nat.zero_le _

theorem TextRecord.Plain.vectorBy (hr : r.Plain) (he : e.Plain) : Embedding.Plain (r.vectorBy e) := by
  rw [TextRecord.vectorBy, TextRecord.vector]
  cases hv : r.embedding with
  | some v => exact hr.embedding v hv
  | none =>
    cases hembed : e.embed r.content with
    | error cause => exact Embedding.plain_nil
    | ok v => exact he _ v hembed

/-- No value of a plain record is a floating point number. -/
theorem TextRecord.Plain.isPlain_of_mem (hr : r.Plain) {k : String} {j : Json}
    (h : (k, j) ∈ r.payload) : j.IsPlain := by
  rcases Table.mem_insert h with heq | h
  · obtain ⟨-, rfl⟩ := Prod.mk.inj heq
    trivial
  · refine Attributes.isPlain_of_mem_payload h ?_
    rintro x rfl
    obtain ⟨⟨k', a⟩, hmem, ha⟩ := List.mem_filterMap.1 h
    obtain ⟨v, hv, hkv⟩ := Option.map_eq_some_iff.1 ha
    obtain ⟨rfl, rfl⟩ := Prod.mk.inj hkv
    -- only a floating point number is stored as one
    cases a with
    | scalar v =>
      cases v with
      | float y => exact hr.attributes _ y hmem
      | text s => cases hv
      | integer n => cases hv
      | truth b => cases hv
    | list items => cases hv
    | named fields => cases hv
    | absent => cases hv

end Plain

/-- Whether the vectors that are held are plain. -/
def Holdings.Plain (h : Holdings) : Prop := ∀ c id b, h.held? c id = some b → Embedding.Plain b.1

/-- Whether a point has a plain vector and plain values. -/
structure Point.Plain (p : Point) : Prop where
  vector : Embedding.Plain p.vector
  payload : ∀ k j, (k, j) ∈ p.payload → j.IsPlain

namespace Holdings

variable {h : Holdings}

theorem plain_empty : Holdings.empty.Plain := by
  intro c id b hb
  cases hb

theorem Plain.cut (hh : h.Plain) (c : String) (gone : String → PointBody → Bool) :
    (h.cut c gone).Plain := by
  intro c' id b hb
  rw [held?_cut] at hb
  split at hb
  · exact hh c id b (Option.filter_eq_some_iff.1 hb).1
  · exact hh c' id b hb

theorem Plain.cleared (hh : h.Plain) (id : String) : (h.cleared id).Plain := (hh.cut _ _).cut _ _

theorem Plain.drop (hh : h.Plain) (c : String) : (h.drop c).Plain := by
  intro c' id b hb
  rw [held?_drop] at hb
  split at hb
  · cases hb
  · exact hh c' id b hb

/-- Points that are written keep the vectors plain. -/
theorem Plain.write (hh : h.Plain) (kept : Json → Json) (c : String) {ps : List Point}
    (hps : ∀ p ∈ ps, p.Plain) : (h.write kept c ps).Plain := by
  intro c' id b hb
  by_cases hc : c' = c
  · subst hc
    rcases held?_write_cases h kept hb with ⟨p, hp, -, rfl⟩ | hb
    · exact (hps p hp).vector
    · exact hh _ _ _ hb
  · rw [held?_write_of_ne _ _ hc] at hb
    exact hh _ _ _ hb

end Holdings

namespace IndexStore

open LawfulVectorStore (fits kept)

/-! ### What plain records lead to -/

/-- Whether stores can hold and read all plain vectors. -/
structure Accommodates (σ : Type) [VectorStore σ] [LawfulVectorStore σ] [TransparentVectorStore σ] :
    Prop where
  fits : ∀ v : Embedding, v.Plain → fits σ v.length = true
  readable : ∀ v : Embedding, v.Plain → readable σ v = true

theorem accommodates_memory : Accommodates Memory where
  fits _ _ := rfl
  readable _ _ := rfl

theorem accommodates_database : Accommodates Database where
  fits _ hv := decide_eq_true hv.length_le
  readable _ hv := List.all_eq_true.2 hv.finite

/-- No length is refused for being too large. -/
def anyLength : Nat → Bool := fun _ => true

section Points

variable {h : Holdings} {e : Embedder} {r : TextRecord} {rs : List TextRecord}

theorem plain_pointBy (he : e.Plain) (hr : r.Plain) : (r.pointBy e).Plain where
  vector := hr.vectorBy he
  payload _ _ := hr.isPlain_of_mem

theorem plain_documentWith (he : e.Plain) (hr : r.Plain) : (documentWith r (r.vectorBy e)).Plain where
  vector := hr.vectorBy he
  payload k j hj := by
    rcases Table.mem_insert hj with heq | hj
    · obtain ⟨-, rfl⟩ := Prod.mk.inj heq
      trivial
    · exact hr.isPlain_of_mem hj

theorem plain_of_documentPoint {f : Nat → Bool} {p : Point} (he : e.Plain) (hr : r.Plain)
    (hp : documentPoint f h e r = .ok p) : p.Plain := by
  obtain ⟨v, hv, -, rfl⟩ := documentPoint_eq_ok_iff.1 hp
  obtain rfl := vectorBy_eq hv
  exact plain_documentWith he hr

theorem plain_of_mapM {ps : List Point} (he : e.Plain) (hrs : ∀ r ∈ rs, r.Plain)
    (hps : rs.mapM (·.point e) = .ok ps) : ∀ p ∈ ps, p.Plain := by
  rw [points_eq_map hps]
  intro p hp
  obtain ⟨r, hr, rfl⟩ := List.mem_map.1 hp
  exact plain_pointBy he (hrs r hr)

theorem plain_of_chunkPoints {f : Nat → Bool} {ps : List Point} (he : e.Plain)
    (hrs : ∀ r ∈ rs, r.Plain) (hps : chunkPoints f h e rs = .ok ps) : ∀ p ∈ ps, p.Plain :=
  plain_of_mapM he hrs (chunkPoints_eq_ok_iff.1 hps).1

end Points

/-! ### Outcomes

How an operation on plain records ends, and what is held after it, is a function of what was held. -/

section Outcomes

variable (h : Holdings) (e : Embedder) (r : TextRecord) (rs : List TextRecord)

def addedDocument : Except IndexError String × Holdings :=
  match documentPoint anyLength h e r with
  | .error cause => (.error cause, h)
  | .ok p => (.ok r.id, h.write (fun j => j) documentsCollection [p])

def addedChunks : Except IndexError (List String) × Holdings :=
  match chunkPoints anyLength h e rs with
  | .error cause => (.error cause, h)
  | .ok ps => (.ok (ps.map Point.id), h.write (fun j => j) chunksCollection ps)

def replacedDocument : Except IndexError Nat × Holdings :=
  match documentPoint anyLength h e r with
  | .error cause => (.error cause, h.cleared r.id)
  | .ok p =>
    match chunkPoints anyLength h e rs with
    | .error cause => (.error cause, h.replaced (fun j => j) r.id p [])
    | .ok ps => (.ok ps.length, h.replaced (fun j => j) r.id p ps)

variable {h e r rs}

/-- A document that is added keeps the vectors plain. -/
theorem plain_addedDocument (hh : h.Plain) (he : e.Plain) (hr : r.Plain) :
    (addedDocument h e r).2.Plain := by
  rw [addedDocument]
  cases hd : documentPoint anyLength h e r with
  | error cause => exact hh
  | ok p => exact hh.write _ _ (List.forall_mem_singleton.2 (plain_of_documentPoint he hr hd))

theorem plain_addedChunks (hh : h.Plain) (he : e.Plain) (hrs : ∀ r ∈ rs, r.Plain) :
    (addedChunks h e rs).2.Plain := by
  rw [addedChunks]
  cases hc : chunkPoints anyLength h e rs with
  | error cause => exact hh
  | ok ps => exact hh.write _ _ (plain_of_chunkPoints he hrs hc)

/-- However far a replacement comes, it keeps the vectors plain. -/
theorem plain_replacedDocument (hh : h.Plain) (he : e.Plain) (hr : r.Plain)
    (hrs : ∀ r ∈ rs, r.Plain) : (replacedDocument h e r rs).2.Plain := by
  rw [replacedDocument]
  cases hd : documentPoint anyLength h e r with
  | error cause => exact hh.cleared r.id
  | ok p =>
    -- the document is written before its chunks are looked at
    have hp := List.forall_mem_singleton.2 (plain_of_documentPoint he hr hd)
    have hwritten := (hh.cleared r.id).write (fun j => j) documentsCollection hp
    cases hc : chunkPoints anyLength h e rs with
    | error cause => exact hwritten
    | ok ps => exact hwritten.write _ _ (plain_of_chunkPoints he hrs hc)

variable {σ : Type} [VectorStore σ] [LawfulVectorStore σ] [TransparentVectorStore σ]

/-- Plain points are kept as they are. -/
theorem keptBy_of_plain {p : Point} (hp : p.Plain) : p.keptBy (kept σ) = p := by
  have hpayload : p.payload.map (fun e => (e.1, kept σ e.2)) = p.payload := by
    rw [List.map_congr_left (g := id), List.map_id]
    rintro ⟨k, j⟩ hj
    exact Prod.ext rfl (TransparentVectorStore.kept_of_isPlain (hp.payload k j hj))
  rw [Point.keptBy, hpayload]

/-- Plain points are held as they are given. -/
theorem write_of_plain (h : Holdings) (c : String) {ps : List Point} (hps : ∀ p ∈ ps, p.Plain) :
    h.write (kept σ) c ps = h.write (fun j => j) c ps := by
  have hsame : ps.map (Point.keptBy (kept σ)) = ps.map (Point.keptBy fun j => j) := by
    refine List.map_congr_left fun p hp => ?_
    have hid : p.payload.map (fun e => (e.1, e.2)) = p.payload := List.map_id p.payload
    rw [keptBy_of_plain (hps p hp), Point.keptBy, hid]
  cases ps with
  | nil => rfl
  | cons p ps => rw [Holdings.write, Holdings.write, hsame]

theorem replaced_of_plain (h : Holdings) (id : String) {p : Point} (hp : p.Plain) {ps : List Point}
    (hps : ∀ p ∈ ps, p.Plain) :
    h.replaced (kept σ) id p ps = h.replaced (fun j => j) id p ps := by
  rw [Holdings.replaced, Holdings.replaced, write_of_plain _ _ (List.forall_mem_singleton.2 hp),
    write_of_plain _ _ hps]

variable (hσ : Accommodates σ)

include hσ

/-- Plain vectors are refused for their length only if a collection has another one. -/
theorem refusal?_of_plain (c : String) {v : Embedding} (hv : v.Plain) :
    h.refusal? (fits σ) c v.length = h.refusal? anyLength c v.length := by
  rw [Holdings.refusal?, Holdings.refusal?, hσ.fits v hv, anyLength]

/-- Whether a plain document is refused does not depend on the store. -/
theorem documentPoint_of_plain (he : e.Plain) (hr : r.Plain) :
    documentPoint (fits σ) h e r = documentPoint anyLength h e r := by
  cases hp : r.point e with
  | error cause => rw [documentPoint_of_error hp, documentPoint_of_error hp]
  | ok p =>
    have hps : [r].mapM (·.point e) = .ok [p] := by
      rw [List.mapM_cons, hp]
      rfl
    have hv := (plain_of_mapM he (List.forall_mem_singleton.2 hr) hps p List.mem_cons_self).vector
    rw [documentPoint_of_point hp, documentPoint_of_point hp, refusal?_of_plain hσ _ hv]

/-- Whether plain chunks are refused does not depend on the store. -/
theorem chunkPoints_of_plain (he : e.Plain) (hrs : ∀ r ∈ rs, r.Plain) :
    chunkPoints (fits σ) h e rs = chunkPoints anyLength h e rs := by
  cases hp : rs.mapM (·.point e) with
  | error cause => rw [chunkPoints_of_error hp, chunkPoints_of_error hp]
  | ok ps =>
    cases ps with
    | nil => rw [chunkPoints_of_nil hp, chunkPoints_of_nil hp]
    | cons p ps =>
      have hv := (plain_of_mapM he hrs hp p List.mem_cons_self).vector
      rw [chunkPoints_of_cons hp, chunkPoints_of_cons hp, refusal?_of_plain hσ _ hv]

variable {s : σ}

/-- How adding a plain document ends does not depend on the store. -/
theorem ends_addDocument (hs : Valid s) (he : e.Plain) (hr : r.Plain) :
    Ends (addDocument e r) s (addedDocument (holdings s) e r).1 (addedDocument (holdings s) e r).2 := by
  have hends := addDocument_spec hs e r
  rw [documentPoint_of_plain hσ he hr] at hends
  rw [addedDocument]
  cases hd : documentPoint anyLength (holdings s) e r with
  | error cause =>
    -- a refused document leaves the store as it was
    rw [hd] at hends
    exact hends
  | ok p =>
    -- a plain point is held as it is given
    have hwrite := write_of_plain (σ := σ) (holdings s) documentsCollection
      (List.forall_mem_singleton.2 (plain_of_documentPoint he hr hd))
    rw [hd] at hends
    dsimp only at hends ⊢
    rw [← hwrite]
    exact hends

/-- How adding plain chunks ends does not depend on the store. -/
theorem ends_addChunks (hs : Valid s) (he : e.Plain) (hrs : ∀ r ∈ rs, r.Plain) :
    Ends (addChunks e rs) s (addedChunks (holdings s) e rs).1 (addedChunks (holdings s) e rs).2 := by
  have hends := addChunks_spec hs e rs
  rw [chunkPoints_of_plain hσ he hrs] at hends
  rw [addedChunks]
  cases hc : chunkPoints anyLength (holdings s) e rs with
  | error cause =>
    rw [hc] at hends
    exact hends
  | ok ps =>
    have hwrite := write_of_plain (σ := σ) (holdings s) chunksCollection
      (plain_of_chunkPoints he hrs hc)
    rw [hc] at hends
    dsimp only at hends ⊢
    rw [← hwrite]
    exact hends

/-- How replacing a document by a plain one ends does not depend on the store. -/
theorem ends_replaceDocument (hs : Valid s) (he : e.Plain) (hr : r.Plain)
    (hrs : ∀ r ∈ rs, r.Plain) :
    Ends (replaceDocument e r rs) s (replacedDocument (holdings s) e r rs).1
      (replacedDocument (holdings s) e r rs).2 := by
  have hdocument := documentPoint_of_plain hσ (h := holdings s) he hr
  have hchunks := chunkPoints_of_plain hσ (h := holdings s) he hrs
  rw [replacedDocument]
  cases hd : documentPoint anyLength (holdings s) e r with
  -- refused as a document
  | error cause => exact replaceDocument_document_refused hs (hdocument.trans hd)
  | ok p =>
    have hp := plain_of_documentPoint he hr hd
    cases hc : chunkPoints anyLength (holdings s) e rs with
    | error cause =>
      -- refused as chunks, when the document is written already
      have hsame := replaced_of_plain (σ := σ) (holdings s) r.id hp (List.forall_mem_nil _)
      dsimp only
      rw [← hsame]
      exact replaceDocument_chunks_refused hs (hdocument.trans hd) (hchunks.trans hc)
    | ok ps =>
      -- nothing is refused
      have hsame := replaced_of_plain (σ := σ) (holdings s) r.id hp (plain_of_chunkPoints he hrs hc)
      dsimp only
      rw [← hsame]
      exact replaceDocument_stored hs (hdocument.trans hd) (hchunks.trans hc)

end Outcomes

/-! ### Stores that are alike -/

variable {σ τ : Type} [VectorStore σ] [LawfulVectorStore σ] [VectorStore τ] [LawfulVectorStore τ]
  {s : σ} {t : τ}

/-- Two stores in good order that hold the same, with plain vectors. -/
structure Alike (s : σ) (t : τ) : Prop where
  left : Sound s
  right : Sound t
  holdings_eq : holdings s = holdings t
  plain : (holdings s).Plain

/-- Empty stores are alike. -/
theorem alike_empty : Alike (VectorStore.empty : σ) (VectorStore.empty : τ) where
  left := sound_empty
  right := sound_empty
  holdings_eq := by rw [LawfulVectorStore.holdings_empty, LawfulVectorStore.holdings_empty]
  plain := by
    rw [LawfulVectorStore.holdings_empty]
    exact Holdings.plain_empty

theorem snd_ofAction {σ α : Type} (f : α → Answer) (a : IndexAction σ α) (s : σ) :
    (Answer.ofAction f a s).2 = stateAfter a s := by
  rw [Answer.ofAction, stateAfter]
  cases a.run s <;> rfl

theorem Alike.plain_right (hst : Alike s t) : (holdings t).Plain := hst.holdings_eq ▸ hst.plain

/-- Requests that were asked of two stores have led alike: to one answer, and to stores that are alike. -/
structure Agree (p : Answer × Embedder × σ) (q : Answer × Embedder × τ) : Prop where
  answer_eq : p.1 = q.1
  embedder_eq : p.2.1 = q.2.1
  plain : p.2.1.Plain
  alike : Alike p.2.2 q.2.2

section Actions

variable {α : Type} {a : IndexAction σ α} {b : IndexAction τ α} {x : Except IndexError α} {h : Holdings}
  {e : Embedder}

/-- **An action that ends with one result and the same holdings on both stores keeps them alike.** -/
theorem agree_ofAction (ha : Ends a s x h) (hb : Ends b t x h) (hs : Sound (stateAfter a s))
    (ht : Sound (stateAfter b t)) (hh : h.Plain) (he : e.Plain) (f : α → Answer) :
    Agree ((Answer.ofAction f a s).1, e, (Answer.ofAction f a s).2)
      ((Answer.ofAction f b t).1, e, (Answer.ofAction f b t).2) := by
  have hs' : (Answer.ofAction f a s).2 = stateAfter a s := snd_ofAction f a s
  have ht' : (Answer.ofAction f b t).2 = stateAfter b t := snd_ofAction f b t
  have hleft := (stateAfter_of_ends ha).2
  have hright := (stateAfter_of_ends hb).2
  -- what is left is what the actions end with
  rw [hs', ht']
  refine ⟨?_, rfl, he, hs, ht, hleft.trans hright.symm, hleft.symm ▸ hh⟩
  -- the answers come from the one result of both runs
  obtain ⟨s₁, -, -, ha⟩ := ha
  obtain ⟨t₁, -, -, hb⟩ := hb
  rw [Answer.ofAction, Answer.ofAction, ha, hb]
  cases x <;> rfl

/-- A request that only reads leaves the stores as they are. -/
theorem Alike.agree_ofReading (hst : Alike s t) (he : e.Plain) (f : α → Answer)
    {x y : Except StoreError α} (hxy : x = y) :
    Agree (Answer.ofReading f x, e, s) (Answer.ofReading f y, e, t) :=
  ⟨congrArg (Answer.ofReading f) hxy, rfl, he, hst⟩

end Actions

/-! ### Reading from stores that are alike -/

section Reading

variable [TransparentVectorStore σ] [TransparentVectorStore τ] (hσ : Accommodates σ)
  (hτ : Accommodates τ) (hst : Alike s t)

omit [VectorStore τ] [LawfulVectorStore τ] [TransparentVectorStore τ] in
include hσ in
/-- All that a plain store holds can be read. -/
theorem readable_points (hs : Valid s) (hh : (holdings s).Plain) (c : String) :
    ∀ p ∈ points s c, readable σ p.vector = true := fun p hp =>
  hσ.readable _ (hh c p.id _ ((TransparentVectorStore.mem_points hs.ordered).1 hp))

include hst

/-- **What a deletion gives is the same.** -/
theorem Alike.length_chunksOf (id : String) : (chunksOf s id).length = (chunksOf t id).length := by
  have hheld := congrArg (fun h => h.held? chunksCollection) hst.holdings_eq
  exact ((perm_points hst.left.valid.ordered hst.right.valid.ordered hheld).filter _).length_eq

/-- What is said of the documents under a field is the same. -/
theorem Alike.documentFields_eq (field : String) : documentFields s field = documentFields t field := by
  obtain ⟨u, hu, hget⟩ := documentFields_spec hst.left field
  obtain ⟨v, hv, hget'⟩ := documentFields_spec hst.right field
  -- both are tables in order, and say the same of every id
  have huv : u = v := by
    refine Table.ext_of_get? (sorted_documentFields hu) (sorted_documentFields hv) fun id => ?_
    rw [hget, hget', hst.holdings_eq]
  rw [hu, hv, huv]

theorem Alike.documentIds_eq : documentIds s = documentIds t := by
  rw [documentIds, documentIds, hst.documentFields_eq]

include hσ hτ

/-- **A search gives the same**, also one that is refused or for which there is no collection. -/
theorem Alike.search_eq (c : String) (query : Embedding) (k : Nat) (f : Filter) :
    search s c query k f = search t c query k f := by
  have hheld := congrArg (fun h => h.held? c) hst.holdings_eq
  rw [IndexStore.search_eq hst.left.valid (readable_points hσ hst.left.valid hst.plain c),
    IndexStore.search_eq hst.right.valid (readable_points hτ hst.right.valid hst.plain_right c),
    hst.holdings_eq, found_congr hst.left.valid hst.right.valid hheld]

/-- Asking for a document gives the same. -/
theorem Alike.document?_eq (id : String) : document? s id = document? t id := by
  rw [IndexStore.document?_eq hst.left.valid fun b hb => hσ.readable _ (hst.plain _ _ b hb),
    IndexStore.document?_eq hst.right.valid fun b hb => hτ.readable _ (hst.plain_right _ _ b hb), hst.holdings_eq]

end Reading

/-! ### Requests to stores that are alike -/

section Requests

variable [TransparentVectorStore σ] [TransparentVectorStore τ] (hσ : Accommodates σ)
  (hτ : Accommodates τ)

/-- Deletions count the same and leave the same. -/
theorem Alike.ends_deleteDocument (hst : Alike s t) (id : String) :
    ∃ n, Ends (deleteDocument id) s (.ok n) ((holdings s).cleared id) ∧
      Ends (deleteDocument id) t (.ok n) ((holdings s).cleared id) := by
  obtain ⟨n, hn⟩ := deleteDocument_spec hst.left.valid id
  obtain ⟨m, hm⟩ := deleteDocument_spec hst.right.valid id
  -- both deletions come to an end
  have hrun : ∃ s', (deleteDocument id).run s = .ok n s' := by
    obtain ⟨s', -, -, hrun⟩ := hn
    exact ⟨s', hrun⟩
  have hrun' : ∃ t', (deleteDocument id).run t = .ok m t' := by
    obtain ⟨t', -, -, hrun⟩ := hm
    exact ⟨t', hrun⟩
  obtain ⟨s', hrun⟩ := hrun
  obtain ⟨t', hrun'⟩ := hrun'
  -- on either store the number is that of the chunks which it lists
  have hnm : n = m := by
    rw [count_deleteDocument hst.left.valid hrun, count_deleteDocument hst.right.valid hrun',
      hst.length_chunksOf]
  rw [← hst.holdings_eq, ← hnm] at hm
  exact ⟨n, hn, hm⟩

include hσ hτ

/-- **Stores that are alike answer alike**, and stay alike. -/
theorem Alike.agree (hst : Alike s t) {e : Embedder} (he : e.Plain) {q : Request} (hq : q.Plain) :
    Agree (q.answer e s) (q.answer e t) := by
  have hs := hst.left
  have ht := hst.right
  -- how a change ends on the second store is told by what the first one holds
  cases q with
  | useEmbedder e' => exact ⟨rfl, rfl, hq, hst⟩
  | addDocument r =>
    have hends := ends_addDocument hτ ht.valid he hq
    rw [← hst.holdings_eq] at hends
    exact agree_ofAction (ends_addDocument hσ hs.valid he hq) hends (hs.after (.addDocument e r))
      (ht.after (.addDocument e r)) (plain_addedDocument hst.plain he hq) he _
  | addChunks rs =>
    have hends := ends_addChunks hτ ht.valid he hq
    rw [← hst.holdings_eq] at hends
    exact agree_ofAction (ends_addChunks hσ hs.valid he hq) hends (hs.after (.addChunks e rs))
      (ht.after (.addChunks e rs)) (plain_addedChunks hst.plain he hq) he _
  | replaceDocument r rs =>
    obtain ⟨hr, hrs⟩ := hq
    have hends := ends_replaceDocument hτ ht.valid he hr hrs
    rw [← hst.holdings_eq] at hends
    exact agree_ofAction (ends_replaceDocument hσ hs.valid he hr hrs) hends
      (hs.after (.replaceDocument e r rs)) (ht.after (.replaceDocument e r rs))
      (plain_replacedDocument hst.plain he hr hrs) he _
  | deleteDocument id =>
    obtain ⟨n, hends, hends'⟩ := hst.ends_deleteDocument id
    exact agree_ofAction hends hends' (hs.after (.deleteDocument id)) (ht.after (.deleteDocument id))
      (hst.plain.cleared id) he _
  | clear =>
    have hends := clear_spec ht.valid
    rw [← hst.holdings_eq] at hends
    exact agree_ofAction (clear_spec hs.valid) hends (hs.after .clear) (ht.after .clear)
      ((hst.plain.drop _).drop _) he _
  | searchDocuments query k f => exact hst.agree_ofReading he _ (hst.search_eq hσ hτ _ query k f)
  | searchChunks query k f => exact hst.agree_ofReading he _ (hst.search_eq hσ hτ _ query k f)
  | document id => exact hst.agree_ofReading he _ (hst.document?_eq hσ hτ id)
  | documentIds => exact hst.agree_ofReading he _ hst.documentIds_eq
  | documentFields field => exact hst.agree_ofReading he _ (hst.documentFields_eq field)

/-- Stores that are alike give the same answers to all requests. -/
theorem Alike.answers_eq_answers (hst : Alike s t) {e : Embedder} (he : e.Plain) {qs : List Request}
    (hqs : ∀ q ∈ qs, q.Plain) : answers e s qs = answers e t qs := by
  -- the first request leads to two stores that are alike again, and to one embedder
  induction qs generalizing s t e with
  | nil => rfl
  | cons q qs ih =>
    obtain ⟨hq, hqs⟩ := List.forall_mem_cons.1 hqs
    obtain ⟨hanswer, hembedder, hplain, halike⟩ := hst.agree hσ hτ he hq
    rw [answers_cons, answers_cons, hanswer, ih halike hplain hqs, hembedder]

end Requests

/-! ### Memory and database tables -/

/-- **An index in memory and one in database tables give the same answers to the same requests.** -/
theorem answers_memory_eq_answers_database {e : Embedder} (he : e.Plain) {qs : List Request}
    (hqs : ∀ q ∈ qs, q.Plain) :
    answers e (VectorStore.empty : Memory) qs = answers e (VectorStore.empty : Database) qs :=
  alike_empty.answers_eq_answers accommodates_memory accommodates_database he hqs

/-- An embedder that gives every text one vector. -/
def constantEmbedder (v : Embedding) : Embedder := { embed := fun _ => .ok v }

theorem plain_constantEmbedder {v : Embedding} (hv : v.Plain) : (constantEmbedder v).Plain := by
  intro text w hw
  obtain rfl := Except.ok.inj hw
  exact hv

/-- A chunk of one letter. -/
def letterPart : TextRecord :=
  { id := "a.py::0", content := "x", attributes := [("document_id", .scalar (.text "a.py"))] }

/-- Requests of which the first come before there is a collection. Then the embedder changes its length, so
that a replacement loses the document. -/
def letterRequests : List Request :=
  [.searchChunks [1, 0] 5 {}, .documentIds, .deleteDocument "a.py", .addDocument letterRecord,
    .addChunks [letterPart], .documentIds, .searchDocuments [1, 0] 5 {},
    .useEmbedder (constantEmbedder [1, 0]), .replaceDocument letterRecord [letterPart], .documentIds,
    .clear, .addDocument letterRecord]

/-- What the requests get. -/
def letterAnswers : List Answer :=
  [.texts [], .ids [], .count 0, .id "a.py", .ids ["a.py::0"], .ids ["a.py"],
    .failed (.storage (.dimension documentsCollection 1 2)), .done,
    .failed (.storage (.dimension documentsCollection 1 2)), .ids [], .done, .id "a.py"]

theorem answers_letterRequests_memory :
    answers (constantEmbedder [1]) (VectorStore.empty : Memory) letterRequests = letterAnswers := rfl

/-- What the store in memory says there, the one in database tables says too. -/
theorem answers_letterRequests_database :
    answers (constantEmbedder [1]) (VectorStore.empty : Database) letterRequests = letterAnswers := by
  have hone : Embedding.Plain [1] := ⟨by decide, by decide⟩
  have htwo : Embedding.Plain [1, 0] := ⟨by decide, by decide⟩
  have hrecord : letterRecord.Plain := ⟨by simp [letterRecord], by simp [letterRecord]⟩
  have hpart : letterPart.Plain := ⟨by simp [letterPart], by simp [letterPart]⟩
  have hrequests : ∀ q ∈ letterRequests, q.Plain := by
    simp [letterRequests, Request.Plain, hrecord, hpart, plain_constantEmbedder htwo]
  rw [← answers_memory_eq_answers_database (plain_constantEmbedder hone) hrequests,
    answers_letterRequests_memory]

end IndexStore

end CodeSearch
