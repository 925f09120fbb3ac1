import CodeSearch.Proofs.Index.Runs
import Mathlib.Data.Set.Basic

/-!
# Complete documents

What is stored of a text under an id is fixed by the two, but for what is told about the file: the
document itself (`HoldsText`) and its chunks (`HoldsChunks`). An index is *complete* for some texts if
every document in it is one of these texts with all chunks of that text, every chunk belongs to a
document, and all vectors have one length (`Complete`).

Clearing a document keeps an index complete, and so does replacing one by a text with all its chunks.
Nothing else can happen while all vectors have one length, as the store then refuses either all documents
or nothing (`progress_of_complete`): a document is never left without its chunks.
-/

namespace CodeSearch

/-- The chunks of a document are called by its id. -/
theorem exists_id_of_mem_chunkPointsBy {d : Document} {g : String → Embedding} {id : String}
    {p : Point} (h : p ∈ d.chunkPointsBy g id) : ∃ k, p.id = chunkId id k := by
  obtain ⟨⟨c, k⟩, -, rfl⟩ := List.mem_map.1 h
  exact ⟨k, rfl⟩

/-- The text of the document that is stored under an id. -/
def Holdings.content? (h : Holdings) (id : String) : Option String :=
  (h.held? documentsCollection id).bind fun b => Payload.text? b.2 contentField

namespace Indexer

open IndexStore (documentPointBy progress)

section Complete

variable (i : Indexer) (g : String → Embedding) (kept : Json → Json)

/-- The document that is stored under an id is that of a text. -/
def HoldsText (h : Holdings) (id content : String) : Prop :=
  ∃ facts, h.held? documentsCollection id =
    some (((i.textDocument id content).withFacts facts).bodyBy g kept id)

/-- The chunks that belong to a document are those of a text. -/
def HoldsChunks (h : Holdings) (id content : String) : Prop :=
  ∀ c b, h.held? chunksCollection c = some b ∧ Holdings.isPartOf id b = true ↔
    ∃ p ∈ (i.textDocument id content).chunkPointsBy g id, p.id = c ∧
      b = ((p.keptBy kept).vector, (p.keptBy kept).payload)

/-- Every document is one of some texts with its chunks, every chunk belongs to a document, and all
vectors have one length. -/
structure Complete (texts : Set String) (n : Nat) (h : Holdings) : Prop where
  sizes : ∀ c m, h.size? c = some m → m = n
  documents : ∀ id b, h.held? documentsCollection id = some b →
    ∃ content ∈ texts, i.HoldsText g kept h id content ∧ i.HoldsChunks g kept h id content
  chunks : ∀ c b, h.held? chunksCollection c = some b →
    ∃ id, Holdings.isPartOf id b = true ∧ (h.held? documentsCollection id).isSome

end Complete

section Steps

variable {i : Indexer} {g : String → Embedding} {kept : Json → Json} {texts : Set String}
  {n : Nat} {h : Holdings} {id content content' : String}

theorem complete_empty : i.Complete g kept texts n Holdings.empty where
  sizes := nofun
  documents := nofun
  chunks := nofun

section Texts

variable (hkept : ∀ j, (kept j).str? = j.str?)

include hkept

/-- The text can be read off what is stored of it. -/
theorem text?_bodyBy_textDocument (facts : FileFacts) :
    Payload.text? (((i.textDocument id content).withFacts facts).bodyBy g kept id).2 contentField =
      some content := by
  rw [content_bodyBy hkept, Document.content_withFacts, content_textDocument]

theorem HoldsText.content? (hd : i.HoldsText g kept h id content) : h.content? id = some content := by
  obtain ⟨facts, hb⟩ := hd
  rw [Holdings.content?, hb, Option.bind_some]
  exact text?_bodyBy_textDocument hkept facts

/-- A document is that of one text only. -/
theorem HoldsText.content_eq (hd : i.HoldsText g kept h id content)
    (hd' : i.HoldsText g kept h id content') : content = content' :=
  Option.some.inj ((hd.content? hkept).symm.trans (hd'.content? hkept))

/-- In a complete index the chunks of a document are those of its text. -/
theorem Complete.holdsChunks (hc : i.Complete g kept texts n h)
    (hd : i.HoldsText g kept h id content) :
    content ∈ texts ∧ i.HoldsChunks g kept h id content := by
  obtain ⟨facts, hb⟩ := hd
  obtain ⟨content', hmem, hd', hchunks⟩ := hc.documents id _ hb
  obtain rfl := HoldsText.content_eq hkept ⟨facts, hb⟩ hd'
  exact ⟨hmem, hchunks⟩

/-- The document of a text is listed with the digest of the text. -/
theorem HoldsText.listed (hd : i.HoldsText g kept h id content) :
    (h.held? documentsCollection id).map (IndexStore.listedText contentHashField) =
      some (Digest.ofText content) := by
  obtain ⟨facts, hb⟩ := hd
  rw [hb, Option.map_some, listedText_bodyBy hkept, Document.contentHash_withFacts,
    contentHash_textDocument]

end Texts

/-- What belongs to other documents does not show in a document. -/
theorem HoldsText.congr {h' : Holdings} (hd : i.HoldsText g kept h id content)
    (hsame : h'.held? documentsCollection id = h.held? documentsCollection id) :
    i.HoldsText g kept h' id content := by
  obtain ⟨facts, hb⟩ := hd
  exact ⟨facts, hsame.trans hb⟩

/-- A document of some text is there. -/
theorem HoldsText.isSome (hd : i.HoldsText g kept h id content) :
    (h.held? documentsCollection id).isSome := by
  obtain ⟨facts, hb⟩ := hd
  rw [hb]
  rfl

/-- A document that is not there is of no text. -/
theorem not_holdsText_of_none (hb : h.held? documentsCollection id = none) : ¬i.HoldsText g kept h id content := by
  intro hd
  have hsome := hd.isSome
  rw [hb] at hsome
  cases hsome

/-- **Clearing a document keeps an index complete.** -/
theorem Complete.cleared (hc : i.Complete g kept texts n h) (id : String) :
    i.Complete g kept texts n (h.cleared id) where
  sizes := hc.sizes
  documents := by
    intro id' b hb
    rw [Holdings.held?_cleared_documents] at hb
    split at hb
    · cases hb
    · next hne =>
      -- another document keeps its text
      obtain ⟨content, hmem, hd, hchunks⟩ := hc.documents id' b hb
      refine ⟨content, hmem, hd.congr ?_, fun c b' => ?_⟩
      · rw [Holdings.held?_cleared_documents, if_neg hne]
      · rw [← hchunks c b', Holdings.held?_cleared_chunks_eq_some_iff]
        -- the chunks of another document are not cleared
        constructor
        · rintro ⟨⟨hb', -⟩, hpart⟩
          exact ⟨hb', hpart⟩
        · rintro ⟨hb', hpart⟩
          exact ⟨⟨hb', Holdings.isPartOf_of_ne hne hpart⟩, hpart⟩
  chunks := by
    intro c b hb
    -- a chunk that is left belongs to a document that is left
    obtain ⟨hb, hnot⟩ := (Holdings.held?_cleared_chunks_eq_some_iff h).1 hb
    obtain ⟨id', hpart, hsome⟩ := hc.chunks c b hb
    have hne : id' ≠ id := by
      rintro rfl
      rw [hpart] at hnot
      cases hnot
    exact ⟨id', hpart, by rw [Holdings.held?_cleared_documents, if_neg hne]; exact hsome⟩

/-! ### Replacing a document by a text -/

section Replaced

variable (h) (facts : FileFacts)

/-- What is held when a document was replaced by a text with all its chunks. -/
def replacedBy (i : Indexer) (g : String → Embedding) (kept : Json → Json) (h : Holdings)
    (id content : String) (facts : FileFacts) : Holdings :=
  h.replaced kept id (documentPointBy ((i.textDocument id content).withFacts facts) g id)
    ((i.textDocument id content).chunkPointsBy g id)

theorem held?_replacedBy_of_ne {id' : String} (hid : id' ≠ id) :
    (i.replacedBy g kept h id content facts).held? documentsCollection id' =
      h.held? documentsCollection id' := by
  rw [replacedBy, IndexStore.held?_replaced_of_ne _ _ _ _ hid]

theorem holdsText_replacedBy :
    i.HoldsText g kept (i.replacedBy g kept h id content facts) id content := by
  refine ⟨facts, ?_⟩
  rw [replacedBy, IndexStore.held?_replaced_self]

/-- All vectors have one length still. -/
theorem size_of_replacedBy (hg : ∀ t, (g t).length = n) (hs : ∀ c m, h.size? c = some m → m = n)
    {c : String} {m : Nat} (hm : (i.replacedBy g kept h id content facts).size? c = some m) :
    m = n := by
  unfold replacedBy at hm
  -- each collection has the length of what was written last
  by_cases hcd : c = documentsCollection
  · subst hcd
    rw [Holdings.size?_replaced_documents] at hm
    exact (Option.some.inj hm).symm.trans (hg _)
  by_cases hcc : c = chunksCollection
  · subst hcc
    rw [Holdings.size?_replaced_chunks] at hm
    cases hps : (i.textDocument id content).chunkPointsBy g id with
    | nil =>
      -- without chunks the collection stays as it was
      rw [hps] at hm
      exact hs _ m hm
    | cons p ps =>
      rw [hps] at hm
      have hp : p ∈ (i.textDocument id content).chunkPointsBy g id := by
        rw [hps]
        exact List.mem_cons_self
      obtain ⟨⟨c, k⟩, -, rfl⟩ := List.mem_map.1 hp
      exact (Option.some.inj hm).symm.trans (hg _)
  · -- there are no other collections of interest
    rw [Holdings.size?_replaced_of_ne hcd hcc] at hm
    exact hs c m hm

variable (hkept : ∀ j, (kept j).str? = j.str?)

include hkept

/-- The chunks of the text take the place of all chunks of the document. -/
theorem holdsChunks_replacedBy :
    i.HoldsChunks g kept (i.replacedBy g kept h id content facts) id content := by
  intro c b
  rw [replacedBy]
  constructor
  · rintro ⟨hb, hpart⟩
    -- a chunk of the document is a new one, since the old ones were cleared
    rcases Holdings.held?_replaced_chunks_cases h kept hb with ⟨q, hq, hi, rfl⟩ | ⟨-, hnot⟩
    · exact ⟨q, hq, hi, rfl⟩
    · rw [hpart] at hnot
      cases hnot
  · -- and all new ones are there
    rintro ⟨p, hp, rfl, rfl⟩
    exact ⟨Holdings.held?_replaced_chunks_of_mem h kept nodup_chunkPointsBy hp,
      (isPartOf_of_mem_chunkPointsBy hkept hp id).2 rfl⟩

/-- The chunks of other documents stay. -/
theorem HoldsChunks.replacedBy {id' : String} (hid : id' ≠ id)
    (hchunks : i.HoldsChunks g kept h id' content') :
    i.HoldsChunks g kept (i.replacedBy g kept h id content facts) id' content' := by
  intro c b
  rw [← hchunks c b, Indexer.replacedBy]
  constructor
  · rintro ⟨hb, hpart⟩
    -- a chunk of another document was there before
    rcases Holdings.held?_replaced_chunks_cases h kept hb with ⟨q, hq, -, rfl⟩ | ⟨hb, -⟩
    · exact absurd ((isPartOf_of_mem_chunkPointsBy hkept hq id').1 hpart).symm hid
    · exact ⟨hb, hpart⟩
  · rintro ⟨hb, hpart⟩
    refine ⟨?_, hpart⟩
    -- the ids of the new chunks are not those of the chunks of another document
    obtain ⟨p, hp, rfl, -⟩ := (hchunks c b).1 ⟨hb, hpart⟩
    have hids : ∀ q ∈ (i.textDocument id content).chunkPointsBy g id, q.id ≠ p.id := by
      intro q hq he
      obtain ⟨k, hk⟩ := exists_id_of_mem_chunkPointsBy hq
      obtain ⟨k', hk'⟩ := exists_id_of_mem_chunkPointsBy hp
      rw [hk, hk'] at he
      exact hid (chunkId_inj he).1.symm
    rw [Holdings.held?_replaced_chunks_of_forall_ne h kept hids, hb,
      Option.filter_some, Holdings.isPartOf_of_ne hid hpart]
    rfl

end Replaced

/-- **Replacing a document by a text with its chunks keeps an index complete.** -/
theorem Complete.replacedBy (hkept : ∀ j, (kept j).str? = j.str?) (hg : ∀ t, (g t).length = n)
    (hc : i.Complete g kept texts n h) (hcontent : content ∈ texts) (facts : FileFacts) :
    i.Complete g kept texts n (i.replacedBy g kept h id content facts) where
  sizes _ _ hm := size_of_replacedBy h facts hg hc.sizes hm
  documents := by
    intro id' b hb
    -- the document is the new one or another one
    by_cases hid : id' = id
    · subst hid
      exact ⟨content, hcontent, holdsText_replacedBy h facts, holdsChunks_replacedBy h facts hkept⟩
    · have hsame : (i.replacedBy g kept h id content facts).held? documentsCollection id' =
          h.held? documentsCollection id' := held?_replacedBy_of_ne h facts hid
      obtain ⟨content', hmem, hd, hchunks⟩ := hc.documents id' b (hsame.symm.trans hb)
      exact ⟨content', hmem, hd.congr hsame, hchunks.replacedBy h facts hkept hid⟩
  chunks := by
    intro c b hb
    rw [Indexer.replacedBy] at hb
    -- a new chunk belongs to the new document
    rcases Holdings.held?_replaced_chunks_cases h kept hb with ⟨q, hq, -, rfl⟩ | ⟨hb, hnot⟩
    · exact ⟨id, (isPartOf_of_mem_chunkPointsBy hkept hq id).2 rfl,
        (holdsText_replacedBy h facts).isSome⟩
    · -- a chunk that stays belongs to another document, which stays too
      obtain ⟨id', hpart, hsome⟩ := hc.chunks c b hb
      have hne : id' ≠ id := by
        rintro rfl
        rw [hpart] at hnot
        cases hnot
      exact ⟨id', hpart, by rw [held?_replacedBy_of_ne h facts hne]; exact hsome⟩

/-! ### Writing a text -/

/-- **How far a writing comes in a complete index**: all the way, unless a text cannot be embedded or
there can be no vectors of that length at all. -/
theorem progress_of_complete (fits : Nat → Bool) {e : Embedder} (he : e.Follows g)
    (hg : ∀ t, (g t).length = n) (hc : i.Complete g kept texts n h) (d : Document) (id : String) :
    (∃ cause, d.records e id = .error cause ∧ progress fits h e id d = .unembedded cause) ∨
      (fits n = false ∧ ∃ cause, progress fits h e id d = .refused cause) ∨
        progress fits h e id d = .stored (documentPointBy d g id) (d.chunkPointsBy g id) := by
  -- there is one length only, so only the store itself can refuse it
  have hrefusal : ∀ c, h.refusal? fits c n = none ↔ fits n = true := by
    intro c
    rw [Holdings.refusal?_eq_none_iff]
    exact and_iff_left (hc.sizes c)
  have hlength : ∀ q ∈ d.chunkPointsBy g id, q.vector.length = n := by
    intro q hq
    obtain ⟨⟨c, k⟩, -, rfl⟩ := List.mem_map.1 hq
    exact hg _
  rcases IndexStore.progress_cases (h := h) he with
    ⟨cause, hr, hp⟩ | ⟨-, ⟨cause, hd, hp⟩ | ⟨hd, ⟨cause, hchunks, -⟩ | ⟨-, hp⟩⟩⟩
  · -- a text cannot be embedded
    exact Or.inl ⟨cause, hr, hp⟩
  · -- there can be no vectors of this length
    refine Or.inr (Or.inl ⟨?_, _, hp⟩)
    rw [← Bool.not_eq_true, ← hrefusal documentsCollection, ← hg (d.metadata.embeddingText d.content),
      hd]
    exact nofun
  · -- chunks with vectors of the right length are not refused
    rw [hg, hrefusal] at hd
    have hok : IndexStore.chunkPoints fits h e (d.chunkRecordsBy g id) =
        .ok (d.chunkPointsBy g id) := by
      refine IndexStore.chunkPoints_eq_ok_iff.2 ⟨mapM_point_chunkRecordsBy e, fun q hq => ⟨?_, ?_⟩⟩
      · rw [hlength q hq]
        exact (hrefusal _).2 hd
      · intro q' hq'
        rw [hlength q hq, hlength q' hq']
    rw [hok] at hchunks
    cases hchunks
  · -- everything is stored
    exact Or.inr (Or.inr hp)

/-- **Writing a text keeps an index complete**, however far it comes. -/
theorem Complete.after {fits : Nat → Bool} {e : Embedder} (hkept : ∀ j, (kept j).str? = j.str?)
    (he : e.Follows g) (hg : ∀ t, (g t).length = n) (hc : i.Complete g kept texts n h)
    (hcontent : content ∈ texts) (facts : FileFacts) :
    i.Complete g kept texts n ((progress fits h e id
      ((i.textDocument id content).withFacts facts)).after kept id h) := by
  rcases progress_of_complete fits he hg hc ((i.textDocument id content).withFacts facts) id
    with ⟨cause, -, hp⟩ | ⟨-, cause, hp⟩ | hp
  · -- nothing has changed
    rw [hp]
    exact hc
  · -- the document is cleared, with all of its chunks
    rw [hp]
    exact hc.cleared id
  · -- the document is the new text
    rw [hp, Document.chunkPointsBy_withFacts]
    exact hc.replacedBy hkept hg hcontent facts

end Steps

/-! ### Runs -/

section Runs

variable {σ : Type} [VectorStore σ] [LawfulVectorStore σ] {s s' : σ} {i : Indexer} {e : Embedder}
  {g : String → Embedding} {w : Workspace} {root path : Path} {allowed : Option Nat}
  {existing : Table String} {texts : Set String} {n : Nat} {id content : String}

open LawfulVectorStore (fits kept)

/-- The documents of a complete index carry their ids, so they can be listed. -/
theorem Complete.sound (hs : Valid s) (hc : i.Complete g (kept σ) texts n (holdings s)) :
    IndexStore.Sound s where
  valid := hs
  tagged := by
    intro id b hb
    obtain ⟨content, -, ⟨facts, hd⟩, -⟩ := hc.documents id b hb
    rw [hb] at hd
    rw [Option.some.inj hd, Payload.text?, get?_bodyBy, if_pos rfl, Option.map_some, Option.bind_some,
      LawfulVectorStore.str?_kept]
    rfl

/-- An empty store is complete. -/
theorem complete_of_empty : i.Complete g (kept σ) texts n (holdings (VectorStore.empty : σ)) := by
  rw [LawfulVectorStore.holdings_empty]
  exact complete_empty

/-- There are no documents if there can be no vectors of their length. -/
theorem Complete.fits_of_isSome (hs : Valid s) (hc : i.Complete g (kept σ) texts n (holdings s))
    (hsome : ((holdings s).held? documentsCollection id).isSome) : fits σ n = true := by
  obtain ⟨b, hb⟩ := Option.isSome_iff_exists.1 hsome
  have hsize := LawfulVectorStore.size?_of_held? hs.ordered hb
  rw [← hc.sizes _ _ hsize]
  exact LawfulVectorStore.fits_of_size? hs.ordered hsize

/-- A document that is written with vectors from a function is stored, if there can be vectors of their length. -/
theorem progress_ofFunction (hg : ∀ t, (g t).length = n) (hc : i.Complete g (kept σ) texts n (holdings s))
    (hfits : fits σ n = true) (d : Document) (id : String) :
    progress (fits σ) (holdings s) (.ofFunction g) id d =
      .stored (documentPointBy d g id) (d.chunkPointsBy g id) := by
  rcases progress_of_complete (fits σ) (Embedder.follows_ofFunction g) hg hc d id with
    ⟨cause, hr, -⟩ | ⟨hnot, -⟩ | hp
  · -- the embedder never fails
    rw [Document.records_ofFunction] at hr
    cases hr
  · -- vectors of this length can be held
    rw [hfits] at hnot
    cases hnot
  · exact hp

/-- The texts that files are read as. -/
def textsOf (i : Indexer) (w : Workspace) (fs : List IndexedFile) : Set String :=
  {content | ∃ f ∈ fs, ∃ d, i.prepare w f.path f.id = .ok (.ready d) ∧ d.content = content}

/-- **Judging a file keeps an index complete.** -/
theorem Complete.judge (he : e.Follows g) (hg : ∀ t, (g t).length = n) (hs : Valid s)
    (hc : i.Complete g (kept σ) texts n (holdings s)) {f : IndexedFile}
    (hf : ∀ d, i.prepare w f.path f.id = .ok (.ready d) → d.content ∈ texts) :
    i.Complete g (kept σ) texts n (holdings (i.judge e w existing s f).2) := by
  -- the file changes nothing, or it is written
  rcases i.holdings_judge_cases e w existing hs f with hh | ⟨d, hready, -, hh⟩
  · rw [hh]
    exact hc
  · have hcontent := hf d hready
    obtain ⟨facts, hd⟩ := i.ready_eq hready rfl
    rw [hh, hd]
    exact hc.after LawfulVectorStore.str?_kept he hg hcontent facts

/-- Going through files keeps an index complete. -/
theorem Complete.judgeAll (he : e.Follows g) (hg : ∀ t, (g t).length = n) (hs : Valid s)
    (hc : i.Complete g (kept σ) texts n (holdings s)) {fs : List IndexedFile}
    (hfs : i.textsOf w fs ⊆ texts) :
    (Valid (i.judgeAll e w existing fs s).2 ∧
        i.Complete g (kept σ) texts n (holdings (i.judgeAll e w existing fs s).2)) ∧
      ∀ f v, (f, v) ∈ (i.judgeAll e w existing fs s).1 → f ∈ fs ∧ ∃ s' : σ,
        (Valid s' ∧ i.Complete g (kept σ) texts n (holdings s')) ∧
          v = (i.judge e w existing s' f).1 := by
  -- both hold before and after every file, so they hold at every verdict
  let P : σ → Prop := fun t => Valid t ∧ i.Complete g (kept σ) texts n (holdings t)
  refine i.judgeAll_invariant (P := P) e w existing (fun f hf t ht => ?_) ⟨hs, hc⟩
  refine ⟨valid_judge i e w existing ht.1 f, ht.2.judge he hg ht.1 fun d hready => ?_⟩
  exact hfs ⟨f, hf, d, hready, rfl⟩

theorem Complete.foldl_cleared {h : Holdings} {kept : Json → Json}
    (hc : i.Complete g kept texts n h) (ids : List String) :
    i.Complete g kept texts n (ids.foldl Holdings.cleared h) := by
  induction ids generalizing h with
  | nil => exact hc
  | cons id ids ih => exact ih (hc.cleared id)

/-- **A run keeps an index complete**, whether or not it is stopped. -/
theorem Complete.indexProject (he : e.Follows g) (hg : ∀ t, (g t).length = n) (hs : Valid s)
    (hc : i.Complete g (kept σ) texts n (holdings s))
    (htexts : i.textsOf w (i.filesOf w root) ⊆ texts) {o : IndexOutcome}
    (hrun : (i.indexProject e w root allowed).run s = .ok o s') :
    Valid s' ∧ i.Complete g (kept σ) texts n (holdings s') := by
  have hcourse := IsRun.of_run (hc.sound hs) hrun
  -- the files of the run are among those of the root
  have htaken : i.textsOf w (i.taken w root allowed) ⊆ texts := by
    rintro c ⟨f, hf, hd⟩
    exact htexts ⟨f, mem_filesOf_of_mem_taken hf, hd⟩
  refine ⟨hcourse.valid, ?_⟩
  rw [hcourse.holdings_eq]
  exact (hc.judgeAll he hg hs htaken).1.2.foldl_cleared _

end Runs

end Indexer

end CodeSearch
