import CodeSearch.Proofs.Index.Catalog
import CodeSearch.Proofs.Index.Cleanup
import CodeSearch.Proofs.Index.Complete

/-!
# Failures are contained

A file *fails* in an index if it cannot be read, or if one of the texts that are to be embedded for it cannot be
(`Indexer.Fails`). Nothing else is to notice: what is stored under its id stays (`Holdings.SameUnder`), and a run
goes on as if the file had been passed over as one with the stored text (`Indexer.SparesOthers`).

To say the latter, a run is told by its step (`Indexer.projectBy`), and beside the step of a run there is one that
passes over a file whatever it is (`Indexer.passing`). If there is a file with the stored text in place of the one
that fails, a run that goes by the other step is the run on it (`Indexer.projectBy_passing_eq`); but there need not
be one. The two runs differ in the verdict on that one file only, since

* all texts of a file are embedded before anything is written, so a file that fails leaves the very state that it
  was judged in (`Indexer.judge_of_fails`);
* a file that fails is seen all the same, so the same documents are dropped at the end (`seen_foldl_passing`).

What is stored under the id of the file has to be spared by all the other files as well. A chunk that stands where
its document and its place put it (`Placed`) is touched by its own document only (`Holdings.Agrees.after`), so files
with other ids do spare it. A file whose name looks the same has the same id, and takes the place of what is stored
if it can be read (`failure_not_contained`).
-/

namespace CodeSearch

open IndexStore (documentPointBy progress Sound)

/-! ### What is stored under an id -/

namespace Holdings

/-- Whether the document under an id, and the chunks under the ids that it gives, are the same. -/
structure Agrees (id : String) (h h' : Holdings) : Prop where
  document : h'.held? documentsCollection id = h.held? documentsCollection id
  chunks : ∀ n, h'.held? chunksCollection (chunkId id n) = h.held? chunksCollection (chunkId id n)

/-- Whether all that is stored under an id is the same, chunks that carry it included. -/
structure SameUnder (id : String) (h h' : Holdings) : Prop extends Agrees id h h' where
  parts : ∀ k b, isPartOf id b = true →
    (h'.held? chunksCollection k = some b ↔ h.held? chunksCollection k = some b)

variable {h h' h'' : Holdings} {id id' : String}

/-- A store agrees with itself under every id. -/
theorem Agrees.refl (id : String) (h : Holdings) : Agrees id h h := ⟨rfl, fun _ => rfl⟩

theorem Agrees.trans (hab : Agrees id h h') (hbc : Agrees id h' h'') : Agrees id h h'' :=
  ⟨hbc.document.trans hab.document, fun n => (hbc.chunks n).trans (hab.chunks n)⟩

/-- A chunk at a place of a document carries its id. -/
theorem isPartOf_of_placed (hp : Placed h) {n : Nat} {b : PointBody}
    (hb : h.held? chunksCollection (chunkId id n) = some b) : isPartOf id b = true := by
  obtain ⟨document, index, hid, hpart⟩ := hp _ b hb
  obtain ⟨rfl, -⟩ := chunkId_inj hid
  exact hpart

/-- A chunk that carries an id is at a place of that document. -/
theorem exists_index_of_placed (hp : Placed h) {k : String} {b : PointBody}
    (hb : h.held? chunksCollection k = some b) (hpart : isPartOf id b = true) : ∃ n, k = chunkId id n := by
  obtain ⟨document, n, rfl, hpart'⟩ := hp k b hb
  rw [isPartOf_iff] at hpart hpart'
  obtain rfl : id = document := Option.some.inj (hpart.symm.trans hpart')
  exact ⟨n, rfl⟩

/-- **The chunks that carry an id are those at its places**, so nothing is left to be compared. -/
theorem Agrees.sameUnder (ha : Agrees id h h') (hp : Placed h) (hp' : Placed h') : SameUnder id h h' := by
  -- either store has the chunk at a place of the document, and there the two have the same
  refine { ha with parts := fun k b hpart => ⟨fun hb => ?_, fun hb => ?_⟩ }
  · obtain ⟨n, rfl⟩ := exists_index_of_placed hp' hb hpart
    rw [← ha.chunks]
    exact hb
  · obtain ⟨n, rfl⟩ := exists_index_of_placed hp hb hpart
    rw [ha.chunks]
    exact hb

/-- Of a chunk that belongs to one document nothing is taken out with another one. -/
theorem filter_not_isPartOf (hp : Placed h) (hne : id ≠ id') (n : Nat) :
    ((h.held? chunksCollection (chunkId id n)).filter fun b => !isPartOf id' b) =
      h.held? chunksCollection (chunkId id n) := by
  cases hb : h.held? chunksCollection (chunkId id n) with
  | none => rfl
  | some b =>
    have hother : isPartOf id' b = false := isPartOf_of_ne hne (isPartOf_of_placed hp hb)
    rw [Option.filter_some, hother]
    rfl

/-- Clearing a document touches nothing of another one. -/
theorem Agrees.cleared (hp : Placed h) (hne : id ≠ id') : Agrees id h (h.cleared id') where
  document := by rw [held?_cleared_documents, if_neg hne]
  chunks n := by rw [held?_cleared_chunks, filter_not_isPartOf hp hne]

section Replaced

variable {fits : Nat → Bool} {kept : Json → Json} {e : Embedder} {g : String → Embedding} {d : Document}
  {ps : List Point}

/-- Replacing a document touches nothing of another one. -/
theorem Agrees.replaced (hp : Placed h) (hne : id ≠ id') (hps : ∀ q ∈ ps, q ∈ d.chunkPointsBy g id') :
    Agrees id h (h.replaced kept id' (documentPointBy d g id') ps) where
  document := IndexStore.held?_replaced_of_ne h kept d g hne ps
  chunks n := by
    -- the chunks that are written have the ids of another document
    have hids : ∀ q ∈ ps, q.id ≠ chunkId id n := by
      intro q hq he
      obtain ⟨k, hk⟩ := exists_id_of_mem_chunkPointsBy (hps q hq)
      exact hne (chunkId_inj (hk.symm.trans he)).1.symm
    rw [held?_replaced_chunks_of_forall_ne h kept hids, filter_not_isPartOf hp hne]

/-- Replacing a document leaves every chunk under an id that tells its place. -/
theorem placed_replaced (hkept : ∀ j, (kept j).str? = j.str?) (hp : Placed h) (p : Point)
    (hps : ∀ q ∈ ps, q ∈ d.chunkPointsBy g id) : Placed (h.replaced kept id p ps) := by
  intro k b hb
  rcases held?_replaced_chunks_cases h kept hb with ⟨q, hq, hid, rfl⟩ | ⟨hb, -⟩
  · -- a chunk that was written has the id of its place in the document
    obtain ⟨n, hn⟩ := exists_id_of_mem_chunkPointsBy (hps q hq)
    exact ⟨id, n, hid.symm.trans hn, (isPartOf_of_mem_chunkPointsBy hkept (hps q hq) id).2 rfl⟩
  · -- any other one was there before
    exact hp k b hb

/-- **Writing a document touches nothing of another one**, however far it comes. -/
theorem Agrees.after (hp : Placed h) (hne : id ≠ id') :
    Agrees id h ((progress fits h e id' d).after kept id' h) := by
  rcases @IndexStore.after_cases fits h e id' d kept with hafter | hafter | ⟨ps, hps, hafter⟩
  · rw [hafter]
    exact Agrees.refl id h
  · rw [hafter]
    exact Agrees.cleared hp hne
  · rw [hafter]
    exact Agrees.replaced hp hne hps

/-- Writing a document leaves chunks where they belong. -/
theorem placed_after (hkept : ∀ j, (kept j).str? = j.str?) (hp : Placed h) :
    Placed ((progress fits h e id d).after kept id h) := by
  rcases @IndexStore.after_cases fits h e id d kept with hafter | hafter | ⟨ps, hps, hafter⟩
  · rw [hafter]
    exact hp
  · rw [hafter]
    exact hp.cleared id
  · rw [hafter]
    exact placed_replaced hkept hp _ hps

end Replaced

/-- Dropping documents leaves chunks where they belong. -/
theorem placed_foldl_cleared (hp : Placed h) (ids : List String) : Placed (ids.foldl Holdings.cleared h) := by
  induction ids generalizing h with
  | nil => exact hp
  | cons i ids ih => exact ih (hp.cleared i)

/-- Dropping other documents leaves what is stored under an id. -/
theorem Agrees.foldl_cleared (hp : Placed h) {ids : List String} (hid : id ∉ ids) :
    Agrees id h (ids.foldl Holdings.cleared h) := by
  induction ids generalizing h with
  | nil => exact Agrees.refl id h
  | cons i ids ih =>
    obtain ⟨hne, hids⟩ := not_or.1 (mt List.mem_cons.2 hid)
    exact (Agrees.cleared hp hne).trans (ih (hp.cleared i) hids)

end Holdings

/-! ### Texts that cannot be embedded -/

/-- The texts that are embedded for a document: its own and those of its chunks. -/
def Document.embeddedTexts (d : Document) : List String :=
  d.metadata.embeddingText d.content :: d.chunks.map (·.embeddingText d.metadata)

/-- **A document with a text that cannot be embedded has no records.** -/
theorem Document.records_of_unembedded {d : Document} {e : Embedder} {t : String} {cause : EmbeddingFailure}
    (ht : t ∈ d.embeddedTexts) (he : e.embed t = .error cause) (id : String) :
    ∃ cause', d.records e id = .error cause' := by
  rw [Document.records_eq_bind]
  cases hwhole : d.record e id with
  -- the document itself has no record
  | error cause' => exact ⟨cause', rfl⟩
  | ok whole =>
    rcases List.mem_cons.1 ht with rfl | ht
    · -- the text of the document itself can be embedded
      rw [Document.record, he] at hwhole
      cases hwhole
    · -- the chunks are gone through one by one, and its chunk comes with its place
      obtain ⟨c, hc, rfl⟩ := List.mem_map.1 ht
      obtain ⟨n, hn⟩ := List.mem_iff_getElem?.1 hc
      cases hparts : d.chunks.zipIdx.mapM fun x : Chunk × Nat => x.1.record e id d.metadata x.2 with
      | error cause' => exact ⟨cause', rfl⟩
      | ok parts =>
        obtain ⟨r, hr⟩ := exists_ok_of_mapM hparts (c, n) (List.mk_mem_zipIdx_iff_getElem?.2 hn)
        rw [Chunk.record, he] at hr
        cases hr

/-! ### Chronicles without a file -/

namespace Chronicle

/-- A chronicle in which a file is passed over as unchanged. -/
def passing (c : Chronicle) (left : IndexedFile) (m : Metadata) : Chronicle :=
  c.map fun x => if x.1 = left then (left, .unchanged m) else x

variable {c : Chronicle} {left f : IndexedFile} {m : Metadata} {v : Verdict}

theorem passing_cons_self : passing ((left, v) :: c) left m = (left, .unchanged m) :: c.passing left m :=
  congrArg (· :: _) (if_pos rfl)

theorem passing_cons_of_ne (hf : f ≠ left) : passing ((f, v) :: c) left m = (f, v) :: c.passing left m :=
  congrArg (· :: _) (if_neg hf)

/-- Of all other files it tells the same. -/
theorem mem_passing_iff (hf : f ≠ left) : (f, v) ∈ c.passing left m ↔ (f, v) ∈ c := by
  refine List.mem_map.trans ⟨?_, fun h => ⟨(f, v), h, if_neg hf⟩⟩
  rintro ⟨⟨g, u⟩, hmem, he⟩
  by_cases hg : g = left
  · rw [if_pos hg] at he
    exact absurd (Prod.mk.inj he).1.symm hf
  · rw [if_neg hg] at he
    rw [← he]
    exact hmem

end Chronicle

namespace IndexOutcome

/-- The outcome that a chronicle tells, with the number of documents that were dropped. -/
def ofChronicle (c : Chronicle) (removed : Nat) (cancelled : Bool) : IndexOutcome :=
  let o := c.foldl note {}
  { o with report := { o.report with removed, cancelled } }

/-- Verdicts drop nothing and do not stop a run. -/
theorem foldl_note_eq (c : Chronicle) : ∃ o : IndexOutcome, c.foldl note {} = o ∧ o.report.removed = 0 ∧
    o.report.cancelled = false :=
  ⟨_, rfl, removed_foldl_note {} c, cancelled_foldl_note {} c⟩

theorem ofChronicle_stopped (c : Chronicle) :
    ({ c.foldl note {} with report := { (c.foldl note {}).report with cancelled := true } } : IndexOutcome) =
      ofChronicle c 0 true := by
  obtain ⟨⟨report, documents, seen⟩, ho, hremoved, -⟩ := foldl_note_eq c
  rw [ofChronicle, ho, ← hremoved]

theorem ofChronicle_ended (c : Chronicle) (n : Nat) :
    ({ c.foldl note {} with
      report := { (c.foldl note {}).report with removed := (c.foldl note {}).report.removed + n } } : IndexOutcome) =
      ofChronicle c n false := by
  obtain ⟨⟨report, documents, seen⟩, ho, hremoved, hcancelled⟩ := foldl_note_eq c
  rw [ofChronicle, ho, ← hcancelled, hremoved, Nat.zero_add]

/-- **A file that is passed over as unchanged is seen**, so nothing changes for those that have not been. -/
theorem seen_foldl_passing {left : IndexedFile} (m : Metadata) {c : Chronicle}
    (hleft : ∀ v, (left, v) ∈ c → v.isSkipped = false) :
    ((c.passing left m).foldl note {}).seen = (c.foldl note {}).seen := by
  rw [seen_foldl_note, seen_foldl_note]
  refine congrArg (_ ++ ·) ?_
  induction c with
  | nil => rfl
  | cons x c ih =>
    have hrest := ih fun v hv => hleft v (List.mem_cons_of_mem _ hv)
    -- the induction is on the chronicle, verdict by verdict
    obtain ⟨f, v⟩ := x
    by_cases hf : f = left
    · subst hf
      -- the verdict on the file is another one, but neither of the two says that it is passed over
      have hv : v.isSkipped = false := hleft v List.mem_cons_self
      rw [Chronicle.passing_cons_self, List.filter_cons_of_pos rfl, List.filter_cons_of_pos (by rw [hv]; rfl),
        List.map_cons, List.map_cons, hrest]
    · -- the verdict on any other file is the same
      rw [Chronicle.passing_cons_of_ne hf]
      cases hv : v.isSkipped with
      | true =>
        rw [List.filter_cons_of_neg (by rw [hv]; exact nofun), List.filter_cons_of_neg (by rw [hv]; exact nofun),
          hrest]
      | false =>
        rw [List.filter_cons_of_pos (by rw [hv]; rfl), List.filter_cons_of_pos (by rw [hv]; rfl), List.map_cons,
          List.map_cons, hrest]

end IndexOutcome

namespace Indexer

section Steps

variable {σ : Type} [VectorStore σ]

/-- What a run does with a file, from the outcome and the store so far, if some digests were listed at its start. -/
abbrev FileStep (σ : Type) := Table String → IndexOutcome × σ → IndexedFile → IndexOutcome × σ

/-- The step that passes over one file as unchanged, whatever it is. -/
def passing (left : IndexedFile) (m : Metadata) (step : FileStep σ) : FileStep σ := fun existing run f =>
  if f = left then ((run.1.scan.see f.id).leave m, run.2) else step existing run f

/-- A run that goes through its files by a step. -/
def projectBy (i : Indexer) (w : Workspace) (root : Path) (allowed : Option Nat) (step : FileStep σ) :
    IndexAction σ IndexOutcome := do
  let existing ← MonadExcept.ofExcept
    ((IndexStore.documentFields (← get) contentHashField).mapError .storage)
  let files := i.filesOf w root
  let taken := allowed.elim files files.take
  let run := taken.foldl (step existing) ({}, ← get)
  let (outcome, s) := finish existing (taken.length < files.length) run
  set s
  return outcome

variable {i : Indexer} {e : Embedder} {w : Workspace} {root : Path} {allowed : Option Nat}

/-- A run goes through its files as the steps say. -/
theorem indexProject_eq_projectBy :
    (i.indexProject e w root allowed : IndexAction σ IndexOutcome) = i.projectBy w root allowed (i.indexFile e w) :=
  rfl

theorem projectBy_run (step : FileStep σ) (s : σ) : (i.projectBy w root allowed step).run s =
    match IndexStore.documentFields s contentHashField with
    | .error cause => .error (.storage cause) s
    | .ok t =>
      let r := finish t (i.stops w root allowed) ((i.taken w root allowed).foldl (step t) ({}, s))
      .ok r.1 r.2 := by
  simp only [projectBy, EStateM.run, bind, EStateM.bind, get, getThe, MonadStateOf.get, get_apply]
  cases IndexStore.documentFields s contentHashField <;> rfl

/-- Whether a file cannot be read, or a text that is to be embedded for it cannot be. -/
inductive Fails (i : Indexer) (e : Embedder) (w : Workspace) (path : Path) (id : String) : Prop where
  /-- The file cannot be read. -/
  | unread {cause : FileError} (h : i.prepare w path id = .error cause)
  /-- The text of the document or of one of its chunks cannot be embedded. -/
  | unembedded {d : Document} {t : String} {cause : EmbeddingFailure} (h : i.prepare w path id = .ok (.ready d))
      (ht : t ∈ d.embeddedTexts) (he : e.embed t = .error cause)

/-- **All texts are embedded before anything is written.** -/
theorem writeDocument_of_unembedded {d : Document} {t : String} {cause : EmbeddingFailure}
    (ht : t ∈ d.embeddedTexts) (he : e.embed t = .error cause) (id : String) (s : σ) :
    ∃ cause', (IndexStore.writeDocument e id d).run s = .error cause' s := by
  obtain ⟨cause', hrecords⟩ := Document.records_of_unembedded ht he id
  exact ⟨cause', by rw [writeDocument_run, hrecords]⟩

/-- **A file that fails leaves the state in which it is judged.** It is not passed over, and it is reported unless
it had the stored text. -/
theorem judge_of_fails {f : IndexedFile} (h : i.Fails e w f.path f.id) (existing : Table String) (s : σ) :
    ∃ v, i.judge e w existing s f = (v, s) ∧ v.isSkipped = false ∧
      ((v.failure? f.id).isSome ∨ v.isUnchanged = true) := by
  unfold judge
  cases h with
  | unread hunread =>
    rw [hunread]
    exact ⟨_, rfl, rfl, Or.inl rfl⟩
  | unembedded hready ht he =>
    rw [hready]
    dsimp only
    -- the stored text is not embedded again
    split
    · exact ⟨_, rfl, rfl, Or.inr rfl⟩
    · obtain ⟨cause, hrun⟩ := writeDocument_of_unembedded ht he f.id s
      rw [hrun]
      exact ⟨_, rfl, rfl, Or.inl rfl⟩

/-- **Passing over a file that leaves the state as it is** changes nothing but the verdict on it. -/
theorem foldl_passing {left : IndexedFile} (m : Metadata) {existing : Table String}
    (hleft : ∀ s : σ, (i.judge e w existing s left).2 = s) (fs : List IndexedFile) (o : IndexOutcome) (s : σ) :
    fs.foldl (passing left m (i.indexFile e w) existing) (o, s) =
      ((Chronicle.passing (i.judgeAll e w existing fs s).1 left m).foldl IndexOutcome.note o,
        (i.judgeAll e w existing fs s).2) := by
  induction fs generalizing o s with
  | nil => rfl
  | cons f fs ih =>
    have hnext : i.judgeAll e w existing (f :: fs) s =
        ((f, (i.judge e w existing s f).1) :: (i.judgeAll e w existing fs (i.judge e w existing s f).2).1,
          (i.judgeAll e w existing fs (i.judge e w existing s f).2).2) := rfl
    rw [List.foldl_cons, hnext]
    dsimp only
    -- both go on from the same store: the file is left alone, and any other one is judged in it
    by_cases hf : f = left
    · subst hf
      have hstep : passing f m (i.indexFile e w) existing (o, s) f = (o.note (f, .unchanged m), s) := if_pos rfl
      rw [hstep, Chronicle.passing_cons_self, hleft, ih, List.foldl_cons]
    · have hstep : passing left m (i.indexFile e w) existing (o, s) f =
          (o.note (f, (i.judge e w existing s f).1), (i.judge e w existing s f).2) := by
        rw [← indexFile_eq]
        exact if_neg hf
      rw [hstep, Chronicle.passing_cons_of_ne hf, ih, List.foldl_cons]

/-- **A run that passes over a file is a run that finds the stored text in it**, if nothing else is different. -/
theorem projectBy_passing_eq {w' : Workspace} {f : IndexedFile} {d : Document} {t : Table String} {s : σ}
    (ht : IndexStore.documentFields s contentHashField = .ok t) (hfiles : i.filesOf w' root = i.filesOf w root)
    (hothers : ∀ g ∈ i.taken w root allowed, g ≠ f → i.prepare w' g.path g.id = i.prepare w g.path g.id)
    (hready : i.prepare w' f.path f.id = .ok (.ready d)) (hu : i.isUnchanged t f.id d = true) :
    (i.projectBy w root allowed (passing f d.metadata (i.indexFile e w))).run s =
      (i.indexProject e w' root allowed).run s := by
  have htaken : i.taken w' root allowed = i.taken w root allowed := by rw [taken, taken, hfiles]
  have hstops : i.stops w' root allowed = i.stops w root allowed := by rw [stops, stops, htaken, hfiles]
  have hstep : ∀ run : IndexOutcome × σ, ∀ g ∈ i.taken w root allowed,
      passing f d.metadata (i.indexFile e w) t run g = i.indexFile e w' t run g := by
    -- the file is passed over by the one run, and found unchanged by the other
    rintro ⟨o, s⟩ g hg
    by_cases hgf : g = f
    · subst hgf
      rw [indexFile_eq, judge_of_unchanged i e w' t hready hu]
      exact if_pos rfl
    · -- any other file is judged alike
      rw [indexFile, hothers g hg hgf]
      exact if_neg hgf
  rw [indexProject_eq_projectBy, projectBy_run, projectBy_run, ht, htaken, hstops]
  dsimp only
  rw [List.foldl_ext _ _ _ hstep]

/-- What dropping leaves does not depend on what was counted before. -/
theorem snd_foldl_dropStale (o o' : IndexOutcome) (s : σ) (ids : List String) :
    (ids.foldl dropStale (o, s)).2 = (ids.foldl dropStale (o', s)).2 := by
  induction ids generalizing o o' s with
  | nil => rfl
  | cons id ids ih =>
    -- only the counts are different, and the store does not depend on them
    rw [List.foldl_cons, List.foldl_cons, dropStale, dropStale]
    dsimp only
    cases (IndexStore.deleteDocument id).run s with
    | ok n s' => exact ih _ _ s'
    | error cause s' => exact ih _ _ s'

end Steps

/-! ### What a run spares -/

section Runs

variable {σ : Type} [VectorStore σ] [LawfulVectorStore σ] {s mid : σ} {i : Indexer} {e : Embedder} {w : Workspace}
  {root path : Path} {allowed : Option Nat} {f : IndexedFile} {id : String}

open Holdings (Agrees SameUnder)

/-- Judging a file with another id touches nothing under an id. -/
theorem agrees_judge (existing : Table String) (hs : Valid s) (hp : Placed (holdings s)) (hne : id ≠ f.id) :
    Agrees id (holdings s) (holdings (i.judge e w existing s f).2) := by
  rcases i.holdings_judge_cases e w existing hs f with hh | ⟨d, -, -, hh⟩
  · rw [hh]
    exact Agrees.refl id _
  · rw [hh]
    exact Agrees.after hp hne

/-- Judging a file leaves every chunk under an id that tells its place. -/
theorem placed_judge (existing : Table String) (hs : Valid s) (hp : Placed (holdings s)) :
    Placed (holdings (i.judge e w existing s f).2) := by
  rcases i.holdings_judge_cases e w existing hs f with hh | ⟨d, -, -, hh⟩
  · rw [hh]
    exact hp
  · rw [hh]
    exact Holdings.placed_after LawfulVectorStore.str?_kept hp

theorem placed_judgeAll (i : Indexer) (e : Embedder) (w : Workspace) (existing : Table String) (fs : List IndexedFile)
    (hs : Valid s) (hp : Placed (holdings s)) : Placed (holdings (i.judgeAll e w existing fs s).2) :=
  (i.judgeAll_invariant (P := fun t => Valid t ∧ Placed (holdings t)) e w existing
    (fun g _ _ ht => ⟨valid_judge i e w existing ht.1 g, placed_judge existing ht.1 ht.2⟩) ⟨hs, hp⟩).1.2

/-- Files that leave what is stored under an id, or have other ids, leave it all together. -/
theorem agrees_judgeAll (existing : Table String) {fs : List IndexedFile} (hs : Valid s) (hp : Placed (holdings s))
    (hfs : ∀ g ∈ fs, id = g.id → ∀ t : σ, (i.judge e w existing t g).2 = t) :
    Agrees id (holdings s) (holdings (i.judgeAll e w existing fs s).2) := by
  let P : σ → Prop := fun t => Valid t ∧ Placed (holdings t) ∧ Agrees id (holdings s) (holdings t)
  have hstep : ∀ g ∈ fs, ∀ t, P t → P (i.judge e w existing t g).2 := by
    rintro g hg t ⟨hv, hpt, hagrees⟩
    refine ⟨valid_judge i e w existing hv g, placed_judge existing hv hpt, ?_⟩
    -- nothing happens for a file with the id, and for another one nothing under the id
    by_cases hid : id = g.id
    · rw [hfs g hg hid t]
      exact hagrees
    · exact hagrees.trans (agrees_judge existing hv hpt hid)
  exact (i.judgeAll_invariant (P := P) e w existing hstep ⟨hs, hp, Agrees.refl id _⟩).1.2.2

/-- **A run leaves chunks where they belong.** -/
theorem placed_indexProject (hs : Sound s) (hp : Placed (holdings s)) (i : Indexer) (e : Embedder) (w : Workspace)
    (root : Path) (allowed : Option Nat) :
    Placed (holdings (stateAfter (i.indexProject e w root allowed) s)) := by
  obtain ⟨o, s', hrun, hcourse⟩ := indexProject_spec hs i e w root allowed
  rw [stateAfter, hrun]
  change Placed (holdings s')
  rw [hcourse.holdings_eq]
  exact Holdings.placed_foldl_cleared (placed_judgeAll i e w (listedAt s) _ hs.valid hp) _

/-- A first run leaves a store in good order. -/
theorem valid_placed_of_first_run (i : Indexer) (e : Embedder) (w : Workspace) (root : Path) :
    Valid (stateAfter (i.indexProject e w root none) (VectorStore.empty : σ)) ∧
      Placed (holdings (stateAfter (i.indexProject e w root none) (VectorStore.empty : σ))) := by
  have hsound : Sound (VectorStore.empty : σ) := IndexStore.sound_empty
  -- nothing is stored in the beginning
  have hplaced : Placed (holdings (VectorStore.empty : σ)) := by
    rw [LawfulVectorStore.holdings_empty]
    exact nofun
  refine ⟨?_, placed_indexProject hsound hplaced i e w root none⟩
  obtain ⟨o, s', hrun, hcourse⟩ := indexProject_spec hsound i e w root none
  rw [stateAfter, hrun]
  exact hcourse.valid

/-- **Chronicles that have seen the same files end alike**: they drop the same documents, and leave the same
store. -/
theorem finish_chronicles (hmid : Valid mid) (t : Table String) (stopped : Bool) {c c' : Chronicle}
    (hseen : (c'.foldl IndexOutcome.note {}).seen = (c.foldl IndexOutcome.note {}).seen) :
    ∃ removed s', finish t stopped (c.foldl IndexOutcome.note {}, mid) = (.ofChronicle c removed stopped, s') ∧
      finish t stopped (c'.foldl IndexOutcome.note {}, mid) = (.ofChronicle c' removed stopped, s') ∧
      ∃ ids : List String, (∀ id ∈ (c.foldl IndexOutcome.note {}).seen, id ∉ ids) ∧
        holdings s' = ids.foldl Holdings.cleared (holdings mid) := by
  cases stopped with
  | true =>
    -- a run that is stopped drops nothing
    have hend : ∀ c : Chronicle, finish t true (c.foldl IndexOutcome.note {}, mid) = (.ofChronicle c 0 true, mid) :=
      fun c => congrArg (·, mid) (IndexOutcome.ofChronicle_stopped c)
    exact ⟨0, mid, hend c, hend c', [], fun _ _ => List.not_mem_nil, rfl⟩
  | false =>
    -- the one list of stale documents is dropped in both, one after another
    let ids := staleIds t (c.foldl IndexOutcome.note {})
    obtain ⟨s', hdrop, -, hh⟩ := foldl_dropStale hmid {} ids
    have hend : ∀ c'' : Chronicle, (c''.foldl IndexOutcome.note {}).seen = (c.foldl IndexOutcome.note {}).seen →
        finish t false (c''.foldl IndexOutcome.note {}, mid) = (.ofChronicle c'' ids.length false, s') := by
      intro c'' hsame
      -- the stale documents are told by what was seen
      have hstale : staleIds t (c''.foldl IndexOutcome.note {}) = ids := by
        rw [staleIds, hsame]
        rfl
      obtain ⟨s'', hdrop'', -, -⟩ := foldl_dropStale hmid (c''.foldl IndexOutcome.note {}) ids
      -- and they are dropped alike, whatever was counted before
      have hstate : s'' = s' := by
        have hsnd := snd_foldl_dropStale (c''.foldl IndexOutcome.note {}) {} mid ids
        rwa [hdrop'', hdrop] at hsnd
      rw [finish, if_neg Bool.false_ne_true, hstale, hdrop'', hstate, IndexOutcome.ofChronicle_ended]
    refine ⟨ids.length, s', hend c rfl, hend c' hseen, ids, fun id hid hstale => ?_, hh⟩
    -- what is dropped has not been seen
    have hnot := (List.mem_filter.1 hstale).2
    rw [Bool.not_eq_true', Bool.eq_false_iff, ne_eq, List.contains_iff_mem] at hnot
    exact hnot hid

/-- Whether a run and one that passes over a file as unchanged go alike for all other files: they are refused alike,
or leave the same store and report what the same chronicle tells, but for the verdict on that file
(`Chronicle.mem_passing_iff`). -/
def SparesOthers (i : Indexer) (e : Embedder) (w : Workspace) (root : Path) (allowed : Option Nat) (s : σ)
    (f : IndexedFile) (m : Metadata) : Prop :=
  (∃ cause, (i.indexProject e w root allowed).run s = .error cause s ∧
    (i.projectBy w root allowed (passing f m (i.indexFile e w))).run s = .error cause s) ∨
  ∃ removed s', (i.indexProject e w root allowed).run s =
      .ok (.ofChronicle (i.chronicle e w root allowed s) removed (i.stops w root allowed)) s' ∧
    (i.projectBy w root allowed (passing f m (i.indexFile e w))).run s =
      .ok (.ofChronicle (Chronicle.passing (i.chronicle e w root allowed s) f m) removed (i.stops w root allowed)) s'

/-- Whether a file is not written, as it fails or is passed over. -/
def IsIdle (i : Indexer) (e : Embedder) (w : Workspace) (f : IndexedFile) : Prop :=
  i.Fails e w f.path f.id ∨ ∃ reason, i.prepare w f.path f.id = .ok (.skipped reason)

omit [LawfulVectorStore σ] in
theorem judge_of_isIdle (h : i.IsIdle e w f) (existing : Table String) (s : σ) :
    (i.judge e w existing s f).2 = s := by
  rcases h with hfails | ⟨reason, hskipped⟩
  · obtain ⟨v, hv, -⟩ := judge_of_fails hfails existing s
    rw [hv]
  · rw [judge, hskipped]

/-- Whether the failure of a file is contained in a run. -/
structure Contains (i : Indexer) (e : Embedder) (w : Workspace) (root : Path) (allowed : Option Nat) (s : σ)
    (f : IndexedFile) : Prop where
  /-- What is stored under the id of the file stays as it is to the end of the run, if no file with the id is
  written. -/
  same : (∀ g ∈ i.taken w root allowed, g.id = f.id → i.IsIdle e w g) →
    SameUnder f.id (holdings s) (holdings (stateAfter (i.indexProject e w root allowed) s))
  /-- Every other file fares as if this one had been passed over. -/
  spares : ∀ m, i.SparesOthers e w root allowed s f m
  /-- The file is reported as failed, unless it had the stored text. -/
  reported : ∀ v, (f, v) ∈ i.chronicle e w root allowed s → (v.failure? f.id).isSome ∨ v.isUnchanged = true

/-- What a run and one that passes over a failing file come to, if digests can be listed. -/
theorem run_of_fails (hs : Valid s) (hp : Placed (holdings s)) (hf : f ∈ i.taken w root allowed)
    (hfails : i.Fails e w f.path f.id) {t : Table String}
    (ht : IndexStore.documentFields s contentHashField = .ok t) (m : Metadata) :
    ∃ removed s', (i.indexProject e w root allowed).run s =
        .ok (.ofChronicle (i.chronicle e w root allowed s) removed (i.stops w root allowed)) s' ∧
      (i.projectBy w root allowed (passing f m (i.indexFile e w))).run s =
        .ok (.ofChronicle (Chronicle.passing (i.chronicle e w root allowed s) f m) removed
          (i.stops w root allowed)) s' ∧
      ((∀ g ∈ i.taken w root allowed, g.id = f.id → i.IsIdle e w g) →
        SameUnder f.id (holdings s) (holdings s')) := by
  have hlisted : listedAt s = t := by rw [listedAt, ht]; rfl
  have hleft : ∀ s : σ, (i.judge e w t s f).2 = s := judge_of_isIdle (Or.inl hfails) t
  -- a file that fails is never passed over
  have hskipped : ∀ v, (f, v) ∈ (i.judgeAll e w t (i.taken w root allowed) s).1 → v.isSkipped = false := by
    intro v hv
    obtain ⟨as, bs, -, rfl, -⟩ := i.exists_split_of_mem_judgeAll e w t hv
    obtain ⟨v, hv, hnot, -⟩ := judge_of_fails hfails t (i.judgeAll e w t as s).2
    rw [hv]
    exact hnot
  -- the chronicle and the one that passes over the file have seen the same, so they end alike
  have hmid : Valid (i.judgeAll e w t (i.taken w root allowed) s).2 := hlisted ▸ valid_midway hs
  obtain ⟨removed, s', hrun, hpassed, ids, hids, hh⟩ := finish_chronicles hmid t (i.stops w root allowed)
    (IndexOutcome.seen_foldl_passing m hskipped)
  have hplaced := placed_judgeAll i e w t (i.taken w root allowed) hs hp
  -- the file itself was seen, so its document is not among those that are dropped
  have hseen : f.id ∉ ids := by
    obtain ⟨v, hv⟩ := exists_mem_chronicle hf e s
    refine hids f.id ?_
    rw [← hlisted]
    refine mem_seen_iff.2 ⟨f, v, hv, rfl, hskipped v ?_⟩
    rw [← hlisted]
    exact hv
  have hend := Agrees.foldl_cleared hplaced hseen
  have hplaced' := Holdings.placed_foldl_cleared hplaced ids
  rw [← hh] at hend hplaced'
  refine ⟨removed, s', ?_, ?_, fun hidle => ?_⟩
  · -- the run itself
    rw [indexProject_eq_projectBy, projectBy_run, ht]
    dsimp only
    rw [foldl_indexFile, hrun, chronicle, hlisted]
  · -- the run that passes over the file
    rw [projectBy_run, ht]
    dsimp only
    rw [foldl_passing m hleft, hpassed, chronicle, hlisted]
  · -- what is stored under the id
    have hagrees := agrees_judgeAll t hs hp fun g hg hid => judge_of_isIdle (hidle g hg hid.symm) t
    exact (hagrees.trans hend).sameUnder hp hplaced'

/-- The failure of a file of a run is contained in it. -/
theorem contains_of_fails (hs : Valid s) (hp : Placed (holdings s)) (hf : f ∈ i.taken w root allowed)
    (hfails : i.Fails e w f.path f.id) : i.Contains e w root allowed s f := by
  -- the verdict on the file comes from some state in the middle of the run
  have hreported : ∀ v, (f, v) ∈ i.chronicle e w root allowed s →
      (v.failure? f.id).isSome ∨ v.isUnchanged = true := by
    intro v hv
    obtain ⟨as, bs, -, rfl, -⟩ := i.exists_split_of_mem_judgeAll e w (listedAt s) hv
    obtain ⟨v, hv, -, hreport⟩ := judge_of_fails hfails (listedAt s) (i.judgeAll e w (listedAt s) as s).2
    rw [hv]
    exact hreport
  cases ht : IndexStore.documentFields s contentHashField with
  | error cause =>
    -- nothing is done before the digests are listed
    have hrefused : ∀ step, (i.projectBy w root allowed step).run s = .error (.storage cause) s := by
      intro step
      rw [projectBy_run, ht]
    refine ⟨?_, fun m => Or.inl ⟨_, hrefused _, hrefused _⟩, hreported⟩
    rw [indexProject_eq_projectBy, stateAfter, hrefused]
    exact fun _ => (Agrees.refl f.id _).sameUnder hp hp
  | ok t =>
    refine ⟨?_, fun m => ?_, hreported⟩
    · -- any description of the file will do for this part
      obtain ⟨removed, s', hrun, -, hsame⟩ := run_of_fails hs hp hf hfails ht default
      rw [stateAfter, hrun]
      exact hsame
    · obtain ⟨removed, s', hrun, hpassed, -⟩ := run_of_fails hs hp hf hfails ht m
      exact Or.inr ⟨removed, s', hrun, hpassed⟩

omit [LawfulVectorStore σ] in
/-- Indexing a file that is there anew fails if it fails, and leaves the store as it is. -/
theorem reindexFile_of_fails (hid : documentId? root path = some id) (hthere : w.contains path = true)
    (hfails : i.Fails e w path id) (s : σ) :
    ∃ cause, (i.reindexFile e w root path).run s = .error cause s := by
  -- the file has an id and is there, so it is prepared
  have hfile : fileId root path = .ok id := by rw [fileId, hid]
  unfold reindexFile
  rw [hfile, ofExcept_ok_bind, hthere]
  cases hfails with
  | unread hunread =>
    -- the file cannot be read
    rw [hunread]
    exact ⟨_, rfl⟩
  | unembedded hready ht he =>
    -- a text of the file cannot be embedded
    rw [hready]
    exact writeDocument_of_unembedded ht he id s

/-- **A failure is contained.** In a run, all other files fare as if a file that fails had been passed over as
unchanged, and what is stored under its id stays as it is, unless another file with the id is written. A file that is
still there, which is what `Workspace.contains` asks, and fails as it is indexed anew leaves the store as it is. -/
theorem failure_contained (hs : Valid s) (hp : Placed (holdings s)) (i : Indexer) (e : Embedder) (w : Workspace)
    (root : Path) :
    (∀ allowed f, f ∈ i.taken w root allowed → i.Fails e w f.path f.id →
      i.Contains e w root allowed s f) ∧
    ∀ path id, documentId? root path = some id → w.contains path = true → i.Fails e w path id →
      ∃ cause, (i.reindexFile e w root path).run s = .error cause s :=
  ⟨fun _ _ hf hfails => contains_of_fails hs hp hf hfails,
    fun _ _ hid hthere hfails => reindexFile_of_fails hid hthere hfails s⟩

end Runs

/-! ### A chunk that cannot be embedded -/

section Siblings

/-- A directory with two files of one text. -/
def siblingsWorkspace (bytes : List UInt8) : Workspace :=
  { entry? := fun path =>
      if path = ⟨"/p"⟩ then some (.directory (some [("a", .file), ("b", .file)])) else some .file
    facts := fun _ => .ok { size := bytes.length, modified := none }
    read := fun _ => .ok bytes }

/-- The first of the two files. -/
def siblingFile : IndexedFile := { path := ⟨"/p/a"⟩, id := "a" }

/-- An embedder that fails for the second line of the first file. -/
def waryEmbedder : Embedder := { embed := fun t => if t = "# a\ny" then .error ⟨"timeout"⟩ else .ok [] }

/-- The index of the two files, of one line each. -/
def siblingsIndex : Memory :=
  stateAfter (pairIndexer.indexProject waryEmbedder (siblingsWorkspace [120]) ⟨"/p"⟩ none) VectorStore.empty

theorem wellNamed_siblings (bytes : List UInt8) : (siblingsWorkspace bytes).WellNamed ⟨"/p"⟩ :=
  Workspace.wellNamed_of_flat rfl <|
    List.forall_mem_cons.2 ⟨⟨by decide, nofun⟩, List.forall_mem_singleton.2 ⟨by decide, nofun⟩⟩

theorem filesOf_siblings (bytes : List UInt8) :
    pairIndexer.filesOf (siblingsWorkspace bytes) ⟨"/p"⟩ = [siblingFile, { path := ⟨"/p/b"⟩, id := "b" }] := by
  rw [filesOf_of_flat (i := pairIndexer) (w := siblingsWorkspace bytes) (l := some _) rfl rfl
    (wellNamed_siblings bytes) (by decide) (by decide)]
  decide

/-- The text of the second chunk of the first file cannot be embedded. -/
theorem fails_sibling : pairIndexer.Fails waryEmbedder (siblingsWorkspace [120, 10, 121]) ⟨"/p/a"⟩ "a" :=
  .unembedded (t := "# a\ny") rfl (by decide +kernel) rfl

theorem taken_siblings (bytes : List UInt8) : pairIndexer.taken (siblingsWorkspace bytes) ⟨"/p"⟩ none =
    [siblingFile, { path := ⟨"/p/b"⟩, id := "b" }] := filesOf_siblings bytes

theorem isSome_held?_siblingsIndex : ((holdings siblingsIndex).held? documentsCollection "a").isSome := by
  rw [siblingsIndex, indexProject, filesOf_siblings]
  decide +kernel

/-- With a second line in both files, the document of the first one stays as it is, and the second one fares as if
the first one had been left alone. -/
theorem failure_contained_siblings :
    ((holdings siblingsIndex).held? documentsCollection "a").isSome ∧
      Holdings.SameUnder "a" (holdings siblingsIndex) (holdings (stateAfter (pairIndexer.indexProject waryEmbedder
        (siblingsWorkspace [120, 10, 121]) ⟨"/p"⟩ none) siblingsIndex)) ∧
      (∀ m, pairIndexer.SparesOthers waryEmbedder (siblingsWorkspace [120, 10, 121]) ⟨"/p"⟩ none siblingsIndex
        siblingFile m) ∧
      ∃ cause, (pairIndexer.reindexFile waryEmbedder (siblingsWorkspace [120, 10, 121]) ⟨"/p"⟩ ⟨"/p/a"⟩).run
        siblingsIndex = .error cause siblingsIndex := by
  have htaken := taken_siblings [120, 10, 121]
  obtain ⟨hvalid, hplaced⟩ := valid_placed_of_first_run (σ := Memory) pairIndexer waryEmbedder
    (siblingsWorkspace [120]) ⟨"/p"⟩
  obtain ⟨hcontains, hanew⟩ := failure_contained (s := siblingsIndex) hvalid hplaced pairIndexer waryEmbedder
    (siblingsWorkspace [120, 10, 121]) ⟨"/p"⟩
  have hcontained := hcontains none siblingFile (htaken ▸ List.mem_cons_self) fails_sibling
  refine ⟨isSome_held?_siblingsIndex, hcontained.same fun g hg hid => ?_, hcontained.spares,
    hanew ⟨"/p/a"⟩ "a" (by decide) rfl fails_sibling⟩
  -- the other file has another id
  rw [htaken] at hg
  simp only [List.mem_cons, List.not_mem_nil, or_false] at hg
  rcases hg with rfl | rfl
  · exact Or.inl fails_sibling
  · exact absurd hid (by decide)

end Siblings

/-! ### A file with the id of another one -/

section Shadowed

/-- The two files as they are read first: of one text, or the first one not at all. -/
def shadowedTexts (readable : Bool) (path : Path) : Except FileError (List UInt8) :=
  if path = lookalikeFile.path ∧ !readable then .error .notFound else .ok [if readable then 120 else 121]

/-- An indexer that writes every file, whether or not it has changed. -/
def diligentIndexer : Indexer := { pairIndexer with index := { skipUnchanged := false } }

/-- A run over the two files. -/
def shadowedRun (readable : Bool) : IndexAction Memory IndexOutcome :=
  diligentIndexer.indexProject waryEmbedder (lookalikeWorkspace (shadowedTexts readable)) ⟨"/p"⟩ none

/-- The index in which the text of both files is stored. -/
def shadowedIndex : Memory := stateAfter (shadowedRun true) VectorStore.empty

/-- With the first file failing, the text of the second one takes the place of what is stored under their id. -/
theorem content?_shadowed : (holdings shadowedIndex).content? "a\uFFFD" = some "x" ∧
    (holdings (stateAfter (shadowedRun false) shadowedIndex)).content? "a\uFFFD" = some "y" := by
  rw [shadowedIndex, shadowedRun, shadowedRun, indexProject, indexProject, filesOf_lookalikes rfl,
    filesOf_lookalikes rfl]
  decide +kernel

/-- A directory with one file, of which nothing is told but under its own path. -/
def strictWorkspace : Workspace :=
  { entry? := fun path => if path = ⟨"/p"⟩ then some (.directory (some [("b", .file)])) else none
    facts := fun path => if path = ⟨"/p/b"⟩ then .ok { size := 1, modified := none } else .error .notFound
    read := fun path => if path = ⟨"/p/b"⟩ then .ok [120] else .error .notFound }

theorem wellNamed_strict : strictWorkspace.WellNamed ⟨"/p"⟩ :=
  Workspace.wellNamed_of_flat rfl (List.forall_mem_singleton.2 ⟨by decide, nofun⟩)

/-- The index of the one file. -/
def strictIndex : Memory :=
  stateAfter (pairIndexer.indexProject waryEmbedder strictWorkspace ⟨"/p"⟩ none) VectorStore.empty

/-- **What is stored under an id is not safe from other files, nor from other ways to write its path.** A file that can
be read takes the place of one with the same id that cannot be. And with a slash at its end the path of a file leads
nowhere but gives the same id, so a file that is there is dropped instead of failing. -/
theorem failure_not_contained :
    (¬∀ (i : Indexer) (e : Embedder) (w : Workspace) (root : Path) (s : Memory) (f : IndexedFile), Valid s →
      Placed (holdings s) → w.WellNamed root → f ∈ i.filesOf w root → w.contains f.path = true →
      i.Fails e w f.path f.id →
      Holdings.SameUnder f.id (holdings s) (holdings (stateAfter (i.indexProject e w root none) s))) ∧
    ¬∀ (i : Indexer) (e : Embedder) (w : Workspace) (root path : Path) (s : Memory) (f : IndexedFile), Valid s →
      Placed (holdings s) → w.WellNamed root → f ∈ i.filesOf w root → w.contains f.path = true →
      documentId? root path = some f.id → i.Fails e w path f.id →
      Holdings.SameUnder f.id (holdings s) (holdings (stateAfter (i.reindexFile e w root path) s)) := by
  constructor
  · intro h
    obtain ⟨hvalid, hplaced⟩ := valid_placed_of_first_run (σ := Memory) diligentIndexer waryEmbedder
      (lookalikeWorkspace (shadowedTexts true)) ⟨"/p"⟩
    have hfile : lookalikeFile ∈ diligentIndexer.filesOf (lookalikeWorkspace (shadowedTexts false)) ⟨"/p"⟩ := by
      rw [filesOf_lookalikes rfl]
      exact List.mem_cons_self
    have hsame : Holdings.SameUnder "a\uFFFD" (holdings shadowedIndex)
        (holdings (stateAfter (shadowedRun false) shadowedIndex)) :=
      h _ _ _ _ _ lookalikeFile hvalid hplaced wellNamed_lookalikes hfile rfl (.unread rfl)
    -- the text would be the one that was there
    obtain ⟨hbefore, hafter⟩ := content?_shadowed
    rw [Holdings.content?, hsame.document] at hafter
    exact absurd (hbefore.symm.trans hafter) (by decide)
  · intro h
    obtain ⟨hvalid, hplaced⟩ := valid_placed_of_first_run (σ := Memory) pairIndexer waryEmbedder
      strictWorkspace ⟨"/p"⟩
    have hsame : Holdings.SameUnder "b" (holdings strictIndex)
        (holdings (stateAfter (pairIndexer.reindexFile waryEmbedder strictWorkspace ⟨"/p"⟩ ⟨"/p/b/"⟩) strictIndex)) :=
      h _ _ _ ⟨"/p"⟩ ⟨"/p/b/"⟩ _ ⟨⟨"/p/b"⟩, "b"⟩ hvalid hplaced wellNamed_strict (by decide +kernel)
        (by decide) (by decide) (.unread rfl)
    -- the document would still be there
    have hbefore : ((holdings strictIndex).held? documentsCollection "b").isSome = true := by decide +kernel
    have hafter : ((holdings (stateAfter (pairIndexer.reindexFile waryEmbedder strictWorkspace ⟨"/p"⟩ ⟨"/p/b/"⟩)
        strictIndex)).held? documentsCollection "b").isSome = false := by decide +kernel
    rw [hsame.document, hbefore] at hafter
    cases hafter

end Shadowed

end Indexer

end CodeSearch
