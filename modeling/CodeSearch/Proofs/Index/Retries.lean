import CodeSearch.Proofs.Index.Runs

/-!
# What becomes of a file that could not be stored

A file that could not be stored is looked at again by the next run, and its text is compared with what is
listed. `Stuck` says why it could not be stored and what is listed of it since:

* a text of it cannot be embedded, and what is listed is what was listed before, another text;
* the documents refuse its vector, and nothing is listed;
* the chunks are refused, and the document is listed without them.

Reasons and listings persist, as long as what is read under the id has the same text: they are untouched
by what happens to other files (`Stuck.frame`), and looking at the file once more ends in the same way
(`Stuck.again`). So the verdict of a later run is known from the reason (`verdict_of_failed`): in the third
case the file is taken for up to date, and in the others it fails again.
-/

namespace CodeSearch

namespace Indexer

open IndexStore (Reachable Sound progress documentPointBy listedText chunkPoints)

/-- The digest that is listed of a document, if there is one. -/
def listing (h : Holdings) (id : String) : Option String :=
  (h.held? documentsCollection id).map (listedText contentHashField)

/-- The length of the vector of a document. -/
def vectorLength (e : Embedder) (d : Document) : Nat :=
  (e.vectorOf (d.metadata.embeddingText d.content)).length

/-- Why a document cannot be stored, and what is listed of it. The truth value tells whether the document
is there without its chunks. -/
inductive Stuck (fits : Nat → Bool) (e : Embedder) (id : String) (d : Document) (cause : IndexError)
    (h : Holdings) : Bool → Prop where
  /-- A text cannot be embedded, and another text is listed, or none. -/
  | unembedded (hr : d.records e id = .error cause)
      (hl : listing h id ≠ some d.metadata.contentHash) : Stuck fits e id d cause h false
  /-- The document is refused, and nothing is listed. -/
  | refused {refusal : StoreError} (hr : ∀ c, d.records e id ≠ .error c)
      (hd : h.refusal? fits documentsCollection (vectorLength e d) = some refusal)
      (hcause : cause = .storage refusal)
      (hl : h.held? documentsCollection id = none) : Stuck fits e id d cause h false
  /-- The chunks are refused, and the document is listed without chunks. -/
  | halved (hr : ∀ c, d.records e id ≠ .error c)
      (hd : h.size? documentsCollection = some (vectorLength e d))
      (hfits : fits (vectorLength e d) = true)
      (hc : chunkPoints fits h e (d.chunkRecordsBy e.vectorOf id) = .error cause)
      (hl : listing h id = some d.metadata.contentHash)
      (hp : ∀ i b, h.held? chunksCollection i = some b → Holdings.isPartOf id b = false) :
      Stuck fits e id d cause h true

section Stuck

variable {fits : Nat → Bool} {e : Embedder} {id : String} {d : Document} {cause : IndexError}
  {h h' : Holdings} {half : Bool}

/-- A vector that is refused stays refused for the same reason. -/
theorem refusal?_of_grows {c : String} {n : Nat} {refusal : StoreError} (hg : h.Grows h')
    (hr : h.refusal? fits c n = some refusal) : h'.refusal? fits c n = some refusal := by
  unfold Holdings.refusal? at hr ⊢
  -- the length is too large for any collection, or another one than that of a collection that stays
  split
  · next hn =>
    rw [if_pos hn] at hr
    -- a collection of that length is not refused
    cases hc : h.size? c with
    | none =>
      rw [hc] at hr
      cases hr
    | some m =>
      rw [hc] at hr
      rw [hg c m hc]
      exact hr
  · next hn =>
    -- such a length is refused by every store
    rw [if_neg hn] at hr
    exact hr

/-- Chunks that are refused stay refused for the same reason. -/
theorem chunkPoints_of_grows {rs : List TextRecord} (hg : h.Grows h')
    (hc : chunkPoints fits h e rs = .error cause) : chunkPoints fits h' e rs = .error cause := by
  -- only the last check looks at what is stored
  cases hp : rs.mapM (·.point e) with
  | error c =>
    -- some chunk has no vector
    rw [IndexStore.chunkPoints_of_error hp] at hc ⊢
    exact hc
  | ok ps =>
    cases ps with
    | nil =>
      -- no chunks are not refused
      rw [IndexStore.chunkPoints_of_nil hp] at hc
      cases hc
    | cons p ps =>
      rw [IndexStore.chunkPoints_of_cons hp] at hc ⊢
      cases hu : ps.find? (·.vector.length ≠ p.vector.length) with
      | some q =>
        -- two vectors have different lengths
        rw [hu] at hc
        exact hc
      | none =>
        rw [hu] at hc
        cases hr : h.refusal? fits chunksCollection p.vector.length with
        | none =>
          -- a length that fits is not refused
          rw [hr] at hc
          cases hc
        | some refusal =>
          rw [hr] at hc
          rw [refusal?_of_grows hg hr]
          exact hc

/-- **What happens to other files changes nothing.** -/
theorem Stuck.frame (hstuck : Stuck fits e id d cause h half) (hg : h.Grows h')
    (hd : h'.held? documentsCollection id = h.held? documentsCollection id)
    (hc : ∀ i b, h'.held? chunksCollection i = some b →
      h.held? chunksCollection i = some b ∨ Holdings.isPartOf id b = false) :
    Stuck fits e id d cause h' half := by
  have hlist : listing h' id = listing h id := by rw [listing, listing, hd]
  -- each reason is about the document itself, the lengths of collections, which stay, or the chunks of the
  -- document
  cases hstuck with
  | unembedded hr hl => exact .unembedded hr (hlist ▸ hl)
  | refused hr hrefused hcause hl =>
    exact .refused hr (refusal?_of_grows hg hrefused) hcause (hd.trans hl)
  | halved hr hsize hfits hchunks hl hp =>
    -- the chunks that are new belong to other documents
    refine .halved hr (hg _ _ hsize) hfits (chunkPoints_of_grows hg hchunks) (hlist.trans hl) ?_
    intro i b hb
    rcases hc i b hb with hb | hb
    · exact hp i b hb
    · exact hb

/-- What is listed of a document that was written. -/
theorem listing_replaced {kept : Json → Json} (hkept : ∀ j, (kept j).str? = j.str?) (facts : FileFacts)
    (ps : List Point) :
    listing (h.replaced kept id (documentPointBy (d.withFacts facts) e.vectorOf id) ps) id =
      some d.metadata.contentHash := by
  rw [listing, Holdings.held?_replaced_documents _ _ IndexStore.id_documentPointBy, if_pos rfl,
    ← Point.vector_keptBy kept, Option.map_some]
  exact congrArg some (listedText_bodyBy hkept)

/-- The length of the vector depends on the text only. -/
theorem vectorLength_withFacts (facts : FileFacts) :
    vectorLength e (d.withFacts facts) = vectorLength e d := by
  rw [vectorLength, vectorLength, Document.embeddingText_withFacts]

/-- **The ways in which a writing can go**, whatever is told about the file. -/
theorem progress_withFacts_cases (fits : Nat → Bool) (h : Holdings) (e : Embedder) (id : String)
    (d : Document) (facts : FileFacts) :
    (∃ c, d.records e id = .error c ∧
      progress fits h e id (d.withFacts facts) = .unembedded c) ∨
    ((∀ c, d.records e id ≠ .error c) ∧
      ((∃ c, h.refusal? fits documentsCollection (vectorLength e d) = some c ∧
          progress fits h e id (d.withFacts facts) = .refused (.storage c)) ∨
        h.refusal? fits documentsCollection (vectorLength e d) = none ∧
          ((∃ c, chunkPoints fits h e (d.chunkRecordsBy e.vectorOf id) = .error c ∧
              progress fits h e id (d.withFacts facts) =
                .halved (documentPointBy (d.withFacts facts) e.vectorOf id) c) ∨
            (∃ ps, chunkPoints fits h e (d.chunkRecordsBy e.vectorOf id) = .ok ps) ∧
              ∃ p ps, progress fits h e id (d.withFacts facts) = .stored p ps))) := by
  have hcases := @IndexStore.progress_cases fits h e _ id (d.withFacts facts) e.follows_vectorOf
  rw [Document.chunkRecordsBy_withFacts] at hcases
  rcases hcases with ⟨c, hr, hp⟩ | ⟨hr, hrest⟩
  · -- some text cannot be embedded
    exact Or.inl ⟨c, (Document.records_withFacts d facts).1 hr, hp⟩
  · refine Or.inr ⟨fun c hc => ?_, ?_⟩
    · -- the records are there, whatever is told about the file
      rw [(Document.records_withFacts d facts).2 hc] at hr
      cases hr
    · -- the vector of the document is that of its text
      rw [← vectorLength_withFacts facts]
      rcases hrest with hd | ⟨hd, hc | ⟨hc, hp⟩⟩
      · exact Or.inl hd
      · exact Or.inr ⟨hd, Or.inl hc⟩
      · exact Or.inr ⟨hd, Or.inr ⟨⟨_, hc⟩, _, _, hp⟩⟩

/-- Whether a document is stored and its chunks are refused. -/
def isHalved : IndexStore.Progress → Bool
  | .halved .. => true
  | .unembedded _ | .refused _ | .stored .. => false

/-- **A writing that fails is stuck.** If a text could not be embedded, nothing was written, and what is
listed must not be the text of the document already. -/
theorem stuck_of_failed {kept : Json → Json} (hkept : ∀ j, (kept j).str? = j.str?) {m : Metadata}
    {facts : FileFacts}
    (hfailed : (progress fits h e id (d.withFacts facts)).verdict m = .failed cause)
    (hl : d.records e id = .error cause → listing h id ≠ some d.metadata.contentHash) :
    Stuck fits e id d cause ((progress fits h e id (d.withFacts facts)).after kept id h)
      (isHalved (progress fits h e id (d.withFacts facts))) := by
  rcases progress_withFacts_cases fits h e id d facts with
    ⟨c, hr, hp⟩ | ⟨hr, ⟨c, hd, hp⟩ | ⟨hd, ⟨c, hc, hp⟩ | ⟨-, p, ps, hp⟩⟩⟩
  · -- nothing was written
    rw [hp] at hfailed ⊢
    obtain rfl := Verdict.failed.inj hfailed
    exact .unembedded hr (hl hr)
  · -- the old document was taken out, and no new one was written
    rw [hp] at hfailed ⊢
    refine .refused hr hd (Verdict.failed.inj hfailed).symm ?_
    exact (Holdings.held?_cleared_documents h id id).trans (if_pos rfl)
  · -- the new document was written with its digest, before its chunks were refused
    rw [hp] at hfailed ⊢
    obtain rfl := Verdict.failed.inj hfailed
    refine .halved hr ?_ ((Holdings.refusal?_eq_none_iff _ _ _ _).1 hd).1 ?_
      (listing_replaced hkept facts []) ?_
    · rw [← vectorLength_withFacts facts]
      exact Holdings.size?_replaced_documents _ _ _
    · rw [← hc]
      -- writing the document keeps the length of the chunks
      exact IndexStore.chunkPoints_congr (Holdings.size?_replaced_chunks _ _ _) _
    · intro i b hb
      -- the chunks of the old document were cleared
      rcases Holdings.held?_replaced_chunks_cases h kept hb with ⟨q, hq, -⟩ | ⟨-, hb⟩
      · cases hq
      · exact hb
  · -- what is stored has not failed
    rw [hp] at hfailed
    cases hfailed

/-- The text of a file that is stuck is listed exactly if the file is half written. -/
theorem Stuck.listing_iff (hstuck : Stuck fits e id d cause h half) :
    listing h id = some d.metadata.contentHash ↔ half = true := by
  cases hstuck with
  | unembedded hr hl => exact ⟨fun h => absurd h hl, nofun⟩
  | refused hr hd hcause hl =>
    refine ⟨fun h => ?_, nofun⟩
    rw [listing, hl] at h
    cases h
  | halved hr hd hfits hc hl hp => exact ⟨fun _ => rfl, fun _ => hl⟩

/-- **What is stuck fails again**, for the same reason. -/
theorem Stuck.again (hstuck : Stuck fits e id d cause h half) (facts : FileFacts) (m : Metadata) :
    (progress fits h e id (d.withFacts facts)).verdict m = .failed cause ∧
      isHalved (progress fits h e id (d.withFacts facts)) = half := by
  have hcases := progress_withFacts_cases fits h e id d facts
  -- the reason leaves one of the ways only
  cases hstuck with
  | unembedded hr hl =>
    -- the text cannot be embedded again
    rcases hcases with ⟨c, hc, hp⟩ | ⟨hne, -⟩
    · rw [hr] at hc
      obtain rfl := Except.error.inj hc
      rw [hp]
      exact ⟨rfl, rfl⟩
    · exact absurd hr (hne _)
  | refused hr hd hcause hl =>
    -- the vector is refused again
    rcases hcases with ⟨c, hc, -⟩ | ⟨-, ⟨c, hd', hp⟩ | ⟨hd', -⟩⟩
    · exact absurd hc (hr c)
    · rw [hd] at hd'
      obtain rfl := Option.some.inj hd'
      rw [hp, hcause]
      exact ⟨rfl, rfl⟩
    · rw [hd] at hd'
      cases hd'
  | halved hr hsize hfits hchunks hl hparts =>
    -- the document is taken again, and its chunks are refused again
    have hd : h.refusal? fits documentsCollection (vectorLength e d) = none := by
      refine (Holdings.refusal?_eq_none_iff _ _ _ _).2 ⟨hfits, fun n hn => ?_⟩
      rw [hsize] at hn
      exact (Option.some.inj hn).symm
    rcases hcases with ⟨c, hc, -⟩ | ⟨-, ⟨c, hd', -⟩ | ⟨-, ⟨c, hc, hp⟩ | ⟨⟨ps, hc⟩, -⟩⟩⟩
    · exact absurd hc (hr c)
    · rw [hd] at hd'
      cases hd'
    · rw [hchunks] at hc
      obtain rfl := Except.error.inj hc
      rw [hp]
      exact ⟨rfl, rfl⟩
    · rw [hchunks] at hc
      cases hc

/-- Looking at a file once more that is stuck leaves it stuck. -/
theorem Stuck.after {kept : Json → Json} (hkept : ∀ j, (kept j).str? = j.str?)
    (hstuck : Stuck fits e id d cause h half) (facts : FileFacts) :
    Stuck fits e id d cause ((progress fits h e id (d.withFacts facts)).after kept id h) half := by
  -- what fails again is stuck again
  obtain ⟨hfailed, hhalf⟩ := hstuck.again facts d.metadata
  have h' := stuck_of_failed hkept hfailed fun hr => ?_
  · rw [hhalf] at h'
    exact h'
  · cases hstuck with
    -- the listed text is still another one
    | unembedded _ hl => exact hl
    -- the text can be embedded, so this is not the reason
    | refused hne => exact absurd hr (hne _)
    | halved hne => exact absurd hr (hne _)

end Stuck

/-! ### Runs -/

section Runs

variable {σ : Type} [VectorStore σ] [LawfulVectorStore σ] {s s' : σ} {i : Indexer} {e : Embedder}
  {w : Workspace} {root : Path} {existing : Table String} {id content : String} {cause : IndexError}
  {half : Bool}

open LawfulVectorStore (fits kept)

/-- Whether a workspace holds one text only under an id, as far as it is read. -/
def ReadsOnly (i : Indexer) (w : Workspace) (root : Path) (id content : String) : Prop :=
  ∀ f ∈ i.filesOf w root, f.id = id →
    ∀ d, i.prepare w f.path f.id = .ok (.ready d) → d.content = content

/-- **Whatever a run looks at, a file that is stuck stays stuck.** -/
theorem Stuck.judge (hs : Valid s)
    (hstuck : Stuck (fits σ) e id (i.textDocument id content) cause (holdings s) half)
    {f : IndexedFile}
    (hread : f.id = id → ∀ d, i.prepare w f.path f.id = .ok (.ready d) → d.content = content) :
    Stuck (fits σ) e id (i.textDocument id content) cause
      (holdings (i.judge e w existing s f).2) half := by
  rcases i.holdings_judge_cases e w existing hs f with hh | ⟨d, hready, -, hh⟩
  · -- nothing has changed
    rw [hh]
    exact hstuck
  · rw [hh]
    by_cases hid : f.id = id
    · -- the file itself is looked at once more
      have hc := hread hid d hready
      rw [hid] at hready ⊢
      obtain ⟨facts, rfl⟩ := i.ready_eq hready hc
      exact hstuck.after LawfulVectorStore.str?_kept facts
    · -- another document is written
      refine hstuck.frame IndexStore.grows_progress (IndexStore.held?_after_of_ne (Ne.symm hid)) ?_
      intro n b hb
      exact (IndexStore.held?_after_chunks LawfulVectorStore.str?_kept hb).imp_right
        (Holdings.isPartOf_of_ne hid)

/-- A file that is stuck and is written again fails for the same reason. -/
theorem Stuck.verdict (hs : Valid s)
    (hstuck : Stuck (fits σ) e id (i.textDocument id content) cause (holdings s) half)
    {f : IndexedFile} (hid : f.id = id) {d : Document}
    (hready : i.prepare w f.path f.id = .ok (.ready d)) (hc : d.content = content)
    (hu : i.isUnchanged existing f.id d = false) :
    (i.judge e w existing s f).1 = .failed cause := by
  -- the file is written, and fails as it did
  have hv := (i.judge_of_ready e w existing hs hready hu).1
  rw [hid] at hready hv
  obtain ⟨facts, rfl⟩ := i.ready_eq hready hc
  rw [hv]
  exact (hstuck.again facts _).1

/-- Going through files leaves a file stuck that is. -/
theorem Stuck.judgeAll {fs : List IndexedFile} (hs : Valid s)
    (hstuck : Stuck (fits σ) e id (i.textDocument id content) cause (holdings s) half)
    (hread : ∀ f ∈ fs, f.id = id →
      ∀ d, i.prepare w f.path f.id = .ok (.ready d) → d.content = content) :
    (Valid (i.judgeAll e w existing fs s).2 ∧
      Stuck (fits σ) e id (i.textDocument id content) cause
        (holdings (i.judgeAll e w existing fs s).2) half) ∧
    ∀ f v, (f, v) ∈ (i.judgeAll e w existing fs s).1 → f.id = id →
      ∀ d, i.prepare w f.path f.id = .ok (.ready d) →
        (i.isUnchanged existing f.id d = true ∧ v = .unchanged d.metadata) ∨
          i.isUnchanged existing f.id d = false ∧ v = .failed cause := by
  -- the file stays stuck with every verdict, and each verdict on it comes from such a state
  let P : σ → Prop := fun s =>
    Valid s ∧ Stuck (fits σ) e id (i.textDocument id content) cause (holdings s) half
  have hstep : ∀ f ∈ fs, ∀ s, P s → P (i.judge e w existing s f).2 := fun f hf s hP =>
    ⟨valid_judge i e w existing hP.1 f, hP.2.judge hP.1 (hread f hf)⟩
  obtain ⟨hend, hall⟩ := i.judgeAll_invariant e w existing hstep ⟨hs, hstuck⟩
  refine ⟨hend, fun f v hmem hid d hready => ?_⟩
  obtain ⟨hf, s₁, ⟨hv₁, hstuck₁⟩, rfl⟩ := hall f v hmem
  cases hu : i.isUnchanged existing f.id d with
  | true =>
    exact Or.inl ⟨rfl, congrArg Prod.fst (i.judge_of_unchanged e w existing hready hu s₁)⟩
  | false => exact Or.inr ⟨rfl, hstuck₁.verdict hv₁ hid hready (hread f hf hid d hready) hu⟩

end Runs

/-! ### From the failure to the next run -/

section Failure

variable {σ : Type} [VectorStore σ] [LawfulVectorStore σ] {s s' : σ} {i : Indexer} {e : Embedder}
  {w : Workspace} {root : Path} {allowed : Option Nat} {existing : Table String}
  {id content : String} {cause : IndexError} {half : Bool}

open LawfulVectorStore (fits kept)

/-- While a text of the document cannot be embedded, what is listed under its id stays. -/
theorem listing_judgeAll {fs : List IndexedFile} (hs : Valid s)
    (hr : (i.textDocument id content).records e id = .error cause)
    (hread : ∀ f ∈ fs, f.id = id →
      ∀ d, i.prepare w f.path f.id = .ok (.ready d) → d.content = content) :
    listing (holdings (i.judgeAll e w existing fs s).2) id = listing (holdings s) id := by
  let P : σ → Prop := fun t => Valid t ∧ listing (holdings t) id = listing (holdings s) id
  refine (i.judgeAll_invariant (P := P) e w existing (fun f hf t ht => ?_) ⟨hs, rfl⟩).1.2
  refine ⟨valid_judge i e w existing ht.1 f, Eq.trans ?_ ht.2⟩
  -- the file changes nothing, or it is written
  rcases i.holdings_judge_cases e w existing ht.1 f with hh | ⟨d, hready, -, hh⟩
  · rw [hh]
  · rw [hh]
    by_cases hid : f.id = id
    · -- a document that cannot be embedded is not written
      have hc := hread f hf hid d hready
      rw [hid] at hready ⊢
      obtain ⟨facts, rfl⟩ := i.ready_eq hready hc
      rw [progress, (Document.records_withFacts _ facts).2 hr]
      rfl
    · -- another document is written
      rw [listing, listing, IndexStore.held?_after_of_ne (Ne.symm hid)]

/-- Dropping other documents leaves a file stuck. -/
theorem Stuck.drop {h : Holdings} {d : Document} {fits : Nat → Bool}
    (hstuck : Stuck fits e id d cause h half) {ids : List String} (hid : id ∉ ids) :
    Stuck fits e id d cause (ids.foldl Holdings.cleared h) half := by
  refine hstuck.frame (fun c n hn => ?_) ?_ fun n b hb => Or.inl ?_
  · rw [size?_foldl_cleared]
    exact hn
  · rw [held?_foldl_cleared_documents, if_neg hid]
  · exact ((held?_foldl_cleared_chunks h ids).1 hb).1

/-- Whether a text and its digest are listed already, by the time of a run. -/
theorem isUnchanged_iff (hs : Sound s) (hskip : i.index.skipUnchanged = true) (id : String)
    (d : Document) :
    i.isUnchanged (listedAt s) id d = true ↔ listing (holdings s) id = some d.metadata.contentHash := by
  rw [isUnchanged, hskip, Bool.true_and, beq_iff_eq, get?_listedAt hs]
  rfl

/-- A file that is judged to have failed is stuck. -/
theorem stuck_of_judge (hs : Valid s) {f : IndexedFile} {d : Document}
    (hready : i.prepare w f.path f.id = .ok (.ready d))
    (hv : (i.judge e w existing s f).1 = .failed cause)
    (hl : (i.textDocument f.id d.content).records e f.id = .error cause →
      listing (holdings s) f.id ≠ some d.metadata.contentHash) :
    ∃ half, Stuck (fits σ) e f.id (i.textDocument f.id d.content) cause
      (holdings (i.judge e w existing s f).2) half := by
  -- the document is the one that the text makes, with facts that do not matter
  obtain ⟨facts, hd⟩ := i.ready_eq hready rfl
  have hhash : d.metadata.contentHash = (i.textDocument f.id d.content).metadata.contentHash := by
    rw [congrArg (fun d : Document => d.metadata.contentHash) hd]
    rfl
  cases hu : i.isUnchanged existing f.id d with
  | true =>
    -- a file that is unchanged has not failed
    rw [i.judge_of_unchanged e w existing hready hu] at hv
    cases hv
  | false =>
    obtain ⟨hverdict, hh⟩ := i.judge_of_ready e w existing hs hready hu
    have hfail : (progress (fits σ) (holdings s) e f.id
        ((i.textDocument f.id d.content).withFacts facts)).verdict d.metadata = .failed cause := by
      rw [← hd, ← hverdict]
      exact hv
    have hstuck := stuck_of_failed (LawfulVectorStore.str?_kept (σ := σ)) hfail (hhash ▸ hl)
    rw [← hd, ← hh] at hstuck
    exact ⟨_, hstuck⟩

/-- **A run that fails to store a file leaves it stuck.** -/
theorem stuck_of_run (hs : Reachable s) (hskip : i.index.skipUnchanged = true) {o : IndexOutcome}
    (hrun : (i.indexProject e w root allowed).run s = .ok o s') {f : IndexedFile}
    (hfailed : (f, .failed cause) ∈ i.chronicle e w root allowed s) {d : Document}
    (hready : i.prepare w f.path f.id = .ok (.ready d)) (hread : ReadsOnly i w root f.id d.content) :
    ∃ half, Stuck (fits σ) e f.id (i.textDocument f.id d.content) cause (holdings s') half := by
  have hsound := hs.sound
  -- the state in which the file is judged, and the files before and after it
  obtain ⟨as, bs, hfs, hv, hend⟩ := i.exists_split_of_mem_judgeAll e w _ hfailed
  have hread' : ∀ g, g ∈ as ∨ g ∈ bs → g.id = f.id →
      ∀ d', i.prepare w g.path g.id = .ok (.ready d') → d'.content = d.content := by
    -- files before and after it that have its id are read as the same text
    intro g hg
    have htaken : g ∈ i.taken w root allowed := by
      rw [hfs, List.mem_append, List.mem_cons]
      exact hg.imp_right Or.inr
    exact hread g (mem_filesOf_of_mem_taken htaken)
  have hvalid : Valid (i.judgeAll e w (listedAt s) as s).2 :=
    (i.judgeAll_invariant (P := Valid) e w (listedAt s)
      (fun g _ t ht => valid_judge i e w _ ht g) hsound.valid).1
  have hlisted : listing (holdings s) f.id ≠ some d.metadata.contentHash := by
    -- otherwise the file would have been left alone
    intro hl
    have hu := (isUnchanged_iff hsound hskip f.id d).2 hl
    rw [i.judge_of_unchanged e w _ hready hu] at hv
    cases hv
  -- what was listed has not changed before the file is judged
  obtain ⟨half, hstuck⟩ := stuck_of_judge hvalid hready hv.symm fun hr => by
    rw [listing_judgeAll hsound.valid hr fun g hg => hread' g (Or.inl hg)]
    exact hlisted
  have hvalid' := valid_judge i e w (listedAt s) hvalid f
  have hafter : Stuck (fits σ) e f.id (i.textDocument f.id d.content) cause
      (holdings (i.midway e w root allowed s)) half := by
    rw [midway, hend]
    exact (hstuck.judgeAll hvalid' fun g hg => hread' g (Or.inr hg)).1.2
  refine ⟨half, ?_⟩
  -- a file that failed has been seen, so its document is not dropped
  rw [(IsRun.of_run hsound hrun).holdings_eq]
  refine hafter.drop fun hdrop => ?_
  have hskipped := ((mem_dropped_iff hsound).1 hdrop).2.2 f _ hfailed rfl
  cases hskipped

/-- The state that runs leave behind one after another. -/
def afterRuns (i : Indexer) (e : Embedder) (root : Path) (s : σ)
    (runs : List (Workspace × Option Nat)) : σ :=
  runs.foldl (fun s r => stateAfter (i.indexProject e r.1 root r.2) s) s

/-- Stopped runs leave a file stuck. -/
theorem Stuck.afterRuns (hs : Reachable s)
    (hstuck : Stuck (fits σ) e id (i.textDocument id content) cause (holdings s) half)
    {runs : List (Workspace × Option Nat)}
    (hruns : ∀ r ∈ runs, i.stops r.1 root r.2 = true ∧ ReadsOnly i r.1 root id content) :
    Reachable (afterRuns i e root s runs) ∧
      Stuck (fits σ) e id (i.textDocument id content) cause
        (holdings (Indexer.afterRuns i e root s runs)) half := by
  induction runs generalizing s with
  | nil => exact ⟨hs, hstuck⟩
  | cons r runs ih =>
    -- the first run is stopped, and the file is still stuck after it
    obtain ⟨hstop, hread⟩ := hruns r List.mem_cons_self
    refine ih (reachable_indexProject hs i e r.1 root r.2) ?_
      fun q hq => hruns q (List.mem_cons_of_mem _ hq)
    obtain ⟨o, s₁, hrun, hcourse⟩ := indexProject_spec hs.sound i e r.1 root r.2
    have hstate : stateAfter (i.indexProject e r.1 root r.2) s = s₁ := by
      rw [stateAfter, hrun]
    -- a run that is stopped drops nothing
    have hdropped : i.dropped e r.1 root r.2 s = [] := by rw [dropped, hstop, if_pos rfl]
    change Stuck _ _ _ _ _ (holdings (stateAfter (i.indexProject e r.1 root r.2) s)) _
    rw [hstate, hcourse.holdings_eq, hdropped]
    exact (hstuck.judgeAll hs.sound.valid fun f hf => hread f (mem_filesOf_of_mem_taken hf)).1.2

/-- Whether the index accepts a document apart from its chunks: all its texts can be embedded, and the
documents have vectors of the length of its vector. -/
def Accepts (h : Holdings) (e : Embedder) (id : String) (d : Document) : Prop :=
  (∀ c, d.records e id ≠ .error c) ∧ h.size? documentsCollection = some (vectorLength e d)

/-- A file that is stuck is half written exactly if the index accepts its document. -/
theorem Stuck.half_iff (hs : Valid s) {d : Document}
    (hstuck : Stuck (fits σ) e id d cause (holdings s) half) :
    half = true ↔ Accepts (holdings s) e id d := by
  cases hstuck with
  -- what cannot be embedded is not accepted
  | unembedded hr hl => exact ⟨nofun, fun h => absurd hr (h.1 _)⟩
  | refused hr hd hcause hl =>
    -- a document that is accepted is not refused
    refine ⟨nofun, fun h => ?_⟩
    have hnone : (holdings s).refusal? (fits σ) documentsCollection (vectorLength e d) = none := by
      refine (Holdings.refusal?_eq_none_iff _ _ _ _).2
        ⟨LawfulVectorStore.fits_of_size? hs.ordered h.2, fun n hn => ?_⟩
      rw [h.2] at hn
      exact (Option.some.inj hn).symm
    rw [hd] at hnone
    cases hnone
  -- the document is there, and only its chunks were refused
  | halved hr hd hfits hc hl hp => exact ⟨fun _ => ⟨hr, hd⟩, fun _ => rfl⟩

theorem accepts_withFacts {h : Holdings} {d : Document} (facts : FileFacts) :
    Accepts h e id (d.withFacts facts) ↔ Accepts h e id d := by
  simp only [Accepts, vectorLength_withFacts, ne_eq, Document.records_withFacts]

/-- **What becomes of a file that could not be stored.** As long as its text stays the same, the next run
that comes to it takes it for up to date exactly if the run that failed left an index that accepts the
document, which then is there without chunks. In all other cases it fails again for the same reason. -/
theorem verdict_of_failed (hs : Reachable s) (hskip : i.index.skipUnchanged = true)
    {o : IndexOutcome} (hrun : (i.indexProject e w root allowed).run s = .ok o s')
    {f : IndexedFile} (hfailed : (f, .failed cause) ∈ i.chronicle e w root allowed s) {d : Document}
    (hready : i.prepare w f.path f.id = .ok (.ready d)) (hread : ReadsOnly i w root f.id d.content)
    {runs : List (Workspace × Option Nat)}
    (hruns : ∀ r ∈ runs, i.stops r.1 root r.2 = true ∧ ReadsOnly i r.1 root f.id d.content)
    {w' : Workspace} {allowed' : Option Nat} (hread' : ReadsOnly i w' root f.id d.content)
    {f' : IndexedFile} {v : Verdict}
    (hnext : (f', v) ∈ i.chronicle e w' root allowed' (afterRuns i e root s' runs))
    (hid : f'.id = f.id) {d' : Document}
    (hready' : i.prepare w' f'.path f'.id = .ok (.ready d')) :
    (v.isUnchanged = true ↔ Accepts (holdings s') e f.id d) ∧
      (Accepts (holdings s') e f.id d → ∀ n b,
        (holdings (afterRuns i e root s' runs)).held? chunksCollection n = some b →
          Holdings.isPartOf f.id b = false) ∧
      (¬Accepts (holdings s') e f.id d → v = .failed cause) := by
  have hreach : Reachable s' := by
    have h := reachable_indexProject hs i e w root allowed
    rw [stateAfter, hrun] at h
    exact h
  -- the file is stuck from the run that failed to the run that comes to it again
  obtain ⟨half, hstuck⟩ := stuck_of_run hs hskip hrun hfailed hready hread
  obtain ⟨facts, hd⟩ := i.ready_eq hready rfl
  have hhalf : half = true ↔ Accepts (holdings s') e f.id d := by
    have h := hstuck.half_iff hreach.sound.valid
    rw [← accepts_withFacts facts, ← hd] at h
    exact h
  obtain ⟨hreach₁, hstuck₁⟩ := hstuck.afterRuns hreach hruns
  -- the next run reads the same text
  have hc' : d'.content = d.content :=
    hread' f' (mem_filesOf_of_mem_taken (mem_taken_of_mem_chronicle hnext)) hid d' hready'
  -- so the digest is the same as well
  have hhash : d'.metadata.contentHash = (i.textDocument f.id d.content).metadata.contentHash := by
    rw [hid] at hready'
    obtain ⟨facts', hd'⟩ := i.ready_eq hready' hc'
    rw [hd']
    rfl
  -- the text is compared with what is listed, and that is known from the reason
  have hu : i.isUnchanged (listedAt (afterRuns i e root s' runs)) f'.id d' = true ↔ half = true := by
    rw [isUnchanged_iff hreach₁.sound hskip, hhash, hid]
    exact hstuck₁.listing_iff
  rw [← hhalf]
  refine ⟨?_, fun hh n b hb => ?_, fun hh => ?_⟩
  · -- whether the file is taken for up to date
    rcases (hstuck₁.judgeAll hreach₁.sound.valid fun g hg => hread' g
      (mem_filesOf_of_mem_taken hg)).2 f' v hnext hid d' hready' with ⟨hu', rfl⟩ | ⟨hu', rfl⟩
    · exact ⟨fun _ => hu.1 hu', fun _ => rfl⟩
    · rw [← hu, hu']
      exact ⟨nofun, nofun⟩
  · -- a half-written document has no chunks
    subst hh
    cases hstuck₁ with
    | halved _ _ _ _ _ hparts => exact hparts n b hb
  · -- a file that is not up to date fails again
    rcases (hstuck₁.judgeAll hreach₁.sound.valid fun g hg => hread' g
      (mem_filesOf_of_mem_taken hg)).2 f' v hnext hid d' hready' with ⟨hu', -⟩ | ⟨-, hv⟩
    · exact absurd (hu.1 hu') hh
    · exact hv

end Failure

/-! ### A file whose chunks are refused -/

section Uneven

/-- An indexer that cuts texts into pieces of two bytes. -/
def pairIndexer : Indexer :=
  { selector :=
      { includeDirs := [], directoryRules := [], fileRules := [], extensions := [],
        minFilesWarning := 0, dominantDirRatio := 1, dominantDirMinFiles := 0 }
    chunks := { maxChunkSize := 2, minFragmentSize := 0 }
    index := {}
    grammars := .empty }

/-- A single file of two short lines. -/
def linesWorkspace : Workspace :=
  { entry? := fun _ => some .file
    facts := fun _ => .ok { size := 3, modified := none }
    read := fun _ => .ok [120, 10, 121] }

/-- The file. -/
def linesFile : IndexedFile := { path := ⟨"b"⟩, id := "b" }

/-- Its document. -/
def linesDocument : Document :=
  pairIndexer.documentOf "b" [120, 10, 121] { size := 3, modified := none }

/-- An embedder that gives the second line of the file a longer vector than all other texts. -/
def unevenEmbedder : Embedder := { embed := fun t => .ok (if t = "# b\ny" then [0] else []) }

/-- The run. -/
def linesRun : IndexAction Memory IndexOutcome :=
  pairIndexer.indexProject unevenEmbedder linesWorkspace ⟨"b"⟩ none

/-- The index after the first run. -/
def linesIndex : Memory := stateAfter linesRun VectorStore.empty

/-- What becomes of the file in a run. -/
def linesChronicle (s : Memory) : Chronicle :=
  pairIndexer.chronicle unevenEmbedder linesWorkspace ⟨"b"⟩ none s

theorem linesRun_empty : ∃ o, linesRun.run VectorStore.empty = .ok o linesIndex := by
  obtain ⟨o, s, hrun, -⟩ := indexProject_spec (σ := Memory) IndexStore.sound_empty pairIndexer
    unevenEmbedder linesWorkspace ⟨"b"⟩ none
  refine ⟨o, ?_⟩
  rw [linesIndex, stateAfter, linesRun, hrun]

theorem filesOf_lines : pairIndexer.filesOf linesWorkspace ⟨"b"⟩ = [linesFile] := by
  decide

theorem prepare_lines :
    pairIndexer.prepare linesWorkspace linesFile.path linesFile.id = .ok (.ready linesDocument) := rfl

/-- The only text under the id is that of the file. -/
theorem readsOnly_lines : ReadsOnly pairIndexer linesWorkspace ⟨"b"⟩ "b" linesDocument.content := by
  intro f hf _ d hd
  rw [filesOf_lines, List.mem_singleton] at hf
  subst hf
  rw [prepare_lines] at hd
  cases hd
  rfl

/-- In the first run the second chunk of the file is refused. -/
theorem failed_mem_linesChronicle :
    (linesFile, .failed (.unequal "b::1" 0 1)) ∈ linesChronicle VectorStore.empty := by
  -- which verdicts there are is computed, up to what they say of the file
  have hcauses : (linesChronicle VectorStore.empty).map (fun x => (x.1, x.2.cause?)) =
      [(linesFile, some (.unequal "b::1" 0 1))] := by decide +kernel
  have hmem : (linesFile, some (IndexError.unequal "b::1" 0 1)) ∈
      (linesChronicle VectorStore.empty).map fun x => (x.1, x.2.cause?) := by
    rw [hcauses]
    exact List.mem_singleton_self _
  obtain ⟨⟨f, v⟩, hv, he⟩ := List.mem_map.1 hmem
  obtain ⟨rfl, hc⟩ := Prod.mk.inj he
  rw [Verdict.cause?_eq_some_iff] at hc
  rw [← hc]
  exact hv

theorem accepts_lines : Accepts (holdings linesIndex) unevenEmbedder "b" linesDocument := by
  refine ⟨fun c hc => ?_, by decide +kernel⟩
  have hok : (linesDocument.records unevenEmbedder "b").isOk = true := by decide +kernel
  rw [hc] at hok
  cases hok

/-- The file of which no chunk is stored is taken for up to date by the second run. -/
theorem verdict_of_failed_lines :
    ∃ v, (linesFile, v) ∈ linesChronicle linesIndex ∧ v.isUnchanged = true := by
  obtain ⟨o, hrun⟩ := linesRun_empty
  -- the run has one file
  have htaken : linesFile ∈ pairIndexer.taken linesWorkspace ⟨"b"⟩ none := by
    rw [taken, Option.elim_none, filesOf_lines]
    exact List.mem_singleton_self _
  obtain ⟨v, hv⟩ := exists_mem_chronicle htaken unevenEmbedder linesIndex
  refine ⟨v, hv, ?_⟩
  -- no other runs come between the two
  have hnext : (linesFile, v) ∈ pairIndexer.chronicle unevenEmbedder linesWorkspace ⟨"b"⟩ none
      (afterRuns pairIndexer unevenEmbedder ⟨"b"⟩ linesIndex []) := hv
  have h := verdict_of_failed .empty rfl hrun failed_mem_linesChronicle prepare_lines
    readsOnly_lines (List.forall_mem_nil _) readsOnly_lines hnext rfl prepare_lines
  exact h.1.2 accepts_lines

/-- **A file that could not be stored need not be tried again**: the second of two runs leaves it alone
and reports no failure. -/
theorem failed_file_left_alone :
    ¬∀ (i : Indexer) (e : Embedder) (w : Workspace) (root : Path) (s : Memory) (f : IndexedFile)
      (cause : IndexError) (v : Verdict), Reachable s → i.index.skipUnchanged = true →
      (f, .failed cause) ∈ i.chronicle e w root none s →
      (f, v) ∈ i.chronicle e w root none (stateAfter (i.indexProject e w root none) s) →
        v.isUnchanged = false := by
  intro h
  -- the verdict of the second run is computed as well
  have hsecond : (linesChronicle linesIndex).map (fun x => (x.1, x.2.isUnchanged)) =
      [(linesFile, true)] := by decide +kernel
  have hmem : (linesFile, true) ∈ (linesChronicle linesIndex).map fun x => (x.1, x.2.isUnchanged) := by
    rw [hsecond]
    exact List.mem_singleton_self _
  obtain ⟨⟨f, v⟩, hv, he⟩ := List.mem_map.1 hmem
  obtain ⟨rfl, hu⟩ := Prod.mk.inj he
  have hnot := h pairIndexer unevenEmbedder linesWorkspace ⟨"b"⟩ VectorStore.empty _ _ v .empty rfl
    failed_mem_linesChronicle hv
  rw [hnot] at hu
  cases hu

end Uneven

end Indexer

end CodeSearch
