import CodeSearch.Proofs.Index.Files
import CodeSearch.Proofs.Index.Retries

/-!
# Documents that a run loses

A run can lose a document in two ways (`lost_iff`). At its end it drops what it has not seen: files that
its walk did not come to, and files that it passed over. And on its way it takes out what it cannot put
back: a document whose new vector has another length than those that are stored (`Misfits`), unless a file
that looks the same brings the document back later on (`LostOnTheWay`).

So a document may go although its file is still there, is selected and is not passed over: if the walk
could not come to the file, because a directory on the way could not be read or because the run was
about another file, and if the new vector does not fit. These are the only ways
(`lost_only_if_gone_iff`).
-/

namespace CodeSearch

namespace Indexer

open IndexStore (Reachable Sound progress)

variable {σ : Type} [VectorStore σ] [LawfulVectorStore σ] {s s' : σ} {i : Indexer} {e : Embedder}
  {w : Workspace} {root : Path} {allowed : Option Nat} {existing : Table String} {id : String}
  {f : IndexedFile} {n : Nat}

open LawfulVectorStore (fits kept)

/-- Whether a file is to be stored anew with a vector of another length than the documents have. -/
def Misfits (i : Indexer) (e : Embedder) (w : Workspace) (existing : Table String) (n : Option Nat)
    (f : IndexedFile) : Prop :=
  ∃ d, i.prepare w f.path f.id = .ok (.ready d) ∧ i.isUnchanged existing f.id d = false ∧
    (∀ cause, d.records e f.id ≠ .error cause) ∧ n ≠ some (vectorLength e d)

/-- Whether a file is to be stored anew with a vector of the length that the documents have. -/
def Refits (i : Indexer) (e : Embedder) (w : Workspace) (existing : Table String) (n : Option Nat)
    (f : IndexedFile) : Prop :=
  ∃ d, i.prepare w f.path f.id = .ok (.ready d) ∧ i.isUnchanged existing f.id d = false ∧
    (∀ cause, d.records e f.id ≠ .error cause) ∧ n = some (vectorLength e d)

/-- Whether of the files with an id one misfits, and none after it brings the document back. Where no two files have
one id, this is to say that the file with the id misfits. -/
def LostOnTheWay (i : Indexer) (e : Embedder) (w : Workspace) (existing : Table String) (n : Option Nat)
    (fs : List IndexedFile) (id : String) : Prop :=
  ∃ before f after, fs = before ++ f :: after ∧ f.id = id ∧ i.Misfits e w existing n f ∧
    ∀ g ∈ after, g.id = id → ¬i.Refits e w existing n g

/-! ### Documents on the way of a run -/

/-- A vector is refused by documents with vectors of another length, and by no others. -/
theorem refusal?_eq_none_iff_length (hs : Valid s)
    (hn : (holdings s).size? documentsCollection = some n) {m : Nat} :
    (holdings s).refusal? (fits σ) documentsCollection m = none ↔ m = n := by
  rw [Holdings.refusal?_eq_none_iff, hn]
  constructor
  · rintro ⟨-, hm⟩
    exact (hm n rfl).symm
  · rintro rfl
    exact ⟨LawfulVectorStore.fits_of_size? hs.ordered hn, fun _ h => (Option.some.inj h).symm⟩

/-- **A document whose new vector does not fit is lost.** -/
theorem held?_judge_of_misfits (hs : Valid s)
    (hn : (holdings s).size? documentsCollection = some n) (hf : i.Misfits e w existing (some n) f) :
    (holdings (i.judge e w existing s f).2).held? documentsCollection f.id = none := by
  obtain ⟨d, hready, hchanged, hrecords, hlength⟩ := hf
  rw [(i.judge_of_ready e w existing hs hready hchanged).2]
  -- the records are there, so the vector is what is refused
  rcases IndexStore.progress_cases e.follows_vectorOf with
    ⟨cause, hr, -⟩ | ⟨-, ⟨cause, -, hp⟩ | ⟨hd, -⟩⟩
  · exact absurd hr (hrecords cause)
  · -- the old document was deleted before the new one was refused
    rw [hp]
    exact (Holdings.held?_cleared_documents _ _ _).trans (if_pos rfl)
  · -- a vector that is not refused has the length of the collection
    have hfit : vectorLength e d = n := (refusal?_eq_none_iff_length hs hn).1 hd
    exact absurd (congrArg some hfit.symm) hlength

/-- A document whose new vector fits is there afterwards. -/
theorem isSome_held?_judge_of_fits (hs : Valid s)
    (hn : (holdings s).size? documentsCollection = some n) (hf : i.Refits e w existing (some n) f) :
    ((holdings (i.judge e w existing s f).2).held? documentsCollection f.id).isSome := by
  obtain ⟨d, hready, hchanged, hrecords, hlength⟩ := hf
  have hfits := (refusal?_eq_none_iff_length hs hn).2 (Option.some.inj hlength).symm
  rw [(i.judge_of_ready e w existing hs hready hchanged).2]
  -- whatever becomes of the chunks, the document is written
  rcases IndexStore.progress_cases e.follows_vectorOf with
    ⟨cause, hr, -⟩ | ⟨-, ⟨cause, hd, -⟩ | ⟨-, ⟨cause, -, hp⟩ | ⟨-, hp⟩⟩⟩
  · exact absurd hr (hrecords cause)
  · -- a vector of the right length is not refused
    rw [vectorLength, hd] at hfits
    cases hfits
  · rw [hp]
    exact Option.isSome_iff_exists.2 ⟨_, IndexStore.held?_replaced_self _ _ _ _ _ _⟩
  · rw [hp]
    exact Option.isSome_iff_exists.2 ⟨_, IndexStore.held?_replaced_self _ _ _ _ _ _⟩

/-- Any other file leaves the document as it was. -/
theorem held?_judge_of_keeps (hs : Valid s) {n : Option Nat}
    (hf : f.id = id → ¬i.Misfits e w existing n f ∧ ¬i.Refits e w existing n f) :
    (holdings (i.judge e w existing s f).2).held? documentsCollection id =
      (holdings s).held? documentsCollection id := by
  by_cases hid : f.id = id
  · obtain ⟨hmisfits, hrefits⟩ := hf hid
    -- a file with this id changes nothing, or it is written
    rcases i.holdings_judge_cases e w existing hs f with hh | ⟨d, hready, hchanged, hh⟩
    · rw [hh]
    · rw [hh]
      -- what can be embedded fits or does not
      rcases IndexStore.progress_cases e.follows_vectorOf with ⟨cause, -, hp⟩ | ⟨hr, -⟩
      · -- what cannot be embedded changes nothing
        rw [hp]
        rfl
      · have hrecords : ∀ cause, d.records e f.id ≠ .error cause := by
          intro cause hc
          rw [hr] at hc
          cases hc
        by_cases hlength : n = some (vectorLength e d)
        · exact absurd ⟨d, hready, hchanged, hrecords, hlength⟩ hrefits
        · exact absurd ⟨d, hready, hchanged, hrecords, hlength⟩ hmisfits
  · exact held?_judge i e w existing hs fun h => absurd h hid

theorem Misfits.not_refits {n : Option Nat} (h : i.Misfits e w existing n f) : ¬i.Refits e w existing n f := by
  obtain ⟨d, hready, -, -, hlength⟩ := h
  rintro ⟨d', hready', -, -, hlength'⟩
  rw [hready] at hready'
  cases hready'
  exact hlength hlength'

/-- On the way to an id that is lost, the first file counts if none of the later ones brings it back. -/
theorem lostOnTheWay_cons {n : Option Nat} {fs : List IndexedFile} :
    i.LostOnTheWay e w existing n (f :: fs) id ↔ i.LostOnTheWay e w existing n fs id ∨
      f.id = id ∧ i.Misfits e w existing n f ∧ ∀ g ∈ fs, g.id = id → ¬i.Refits e w existing n g := by
  constructor
  · rintro ⟨before, g, after, hsplit, hid, hm, hafter⟩
    -- the misfit is the first file, or one of the later ones
    cases before with
    | nil =>
      obtain ⟨rfl, rfl⟩ := List.cons.inj hsplit
      exact Or.inr ⟨hid, hm, hafter⟩
    | cons f' before =>
      obtain ⟨-, rfl⟩ := List.cons.inj hsplit
      exact Or.inl ⟨before, g, after, rfl, hid, hm, hafter⟩
  · rintro (⟨before, g, after, rfl, hid, hm, hafter⟩ | ⟨hid, hm, hafter⟩)
    · -- files that come before the misfit play no part
      exact ⟨f :: before, g, after, rfl, hid, hm, hafter⟩
    · exact ⟨[], f, fs, rfl, hid, hm, hafter⟩

/-- **What is lost on the way**: a document that is there in the beginning is gone in the end if it does not fit and
is not brought back. -/
theorem held?_judgeAll_eq_none_iff {fs : List IndexedFile} (hs : Valid s)
    (hn : (holdings s).size? documentsCollection = some n) :
    (holdings (i.judgeAll e w existing fs s).2).held? documentsCollection id = none ↔
      i.LostOnTheWay e w existing (some n) fs id ∨ (holdings s).held? documentsCollection id = none ∧
        ∀ g ∈ fs, g.id = id → ¬i.Refits e w existing (some n) g := by
  induction fs generalizing s with
  | nil =>
    -- without files there is no misfit
    have hnil : ¬i.LostOnTheWay e w existing (some n) [] id := by
      rintro ⟨before, f, after, hsplit, -⟩
      cases before <;> cases hsplit
    exact ⟨fun h => Or.inr ⟨h, nofun⟩, fun h => (h.resolve_left hnil).1⟩
  | cons f fs ih =>
    have hrest := ih (valid_judge i e w existing hs f) (grows_judge i e w existing hs f _ _ hn)
    change (holdings (i.judgeAll e w existing fs _).2).held? documentsCollection id = none ↔ _
    rw [hrest, lostOnTheWay_cons, List.forall_mem_cons]
    -- the first file has this id or another one
    by_cases hid : f.id = id
    · subst hid
      -- it may misfit, refit or leave the document as it is
      by_cases hm : i.Misfits e w existing (some n) f
      · rw [held?_judge_of_misfits hs hn hm]
        have hnot := hm.not_refits
        tauto
      · by_cases hr : i.Refits e w existing (some n) f
        · have hsome := isSome_held?_judge_of_fits hs hn hr
          rw [← Option.not_isSome_iff_eq_none, hsome]
          tauto
        · rw [held?_judge_of_keeps hs fun _ => ⟨hm, hr⟩]
          tauto
    · rw [held?_judge_of_keeps (n := some n) hs fun h => absurd h hid]
      tauto

/-! ### What a run loses -/

/-- **The two ways in which a run loses a document**: its new vector does not fit, or the run is not
stopped and has seen no file with its id that was not passed over. -/
theorem lost_iff (hs : Sound s) {o : IndexOutcome}
    (hrun : (i.indexProject e w root allowed).run s = .ok o s')
    (hheld : ((holdings s).held? documentsCollection id).isSome) :
    (holdings s').held? documentsCollection id = none ↔
      i.LostOnTheWay e w (listedAt s) ((holdings s).size? documentsCollection) (i.taken w root allowed) id ∨
      o.report.cancelled = false ∧ ∀ f ∈ i.filesOf w root, f.id = id →
        ∃ reason, i.prepare w f.path f.id = .ok (.skipped reason) := by
  -- there is a document, so the collection has a length
  obtain ⟨b, hb⟩ := Option.isSome_iff_exists.1 hheld
  have hn := LawfulVectorStore.size?_of_held? hs.valid.ordered hb
  have hcourse := IsRun.of_run hs hrun
  have hmidway : (holdings (i.midway e w root allowed s)).held? documentsCollection id = none ↔ _ :=
    (held?_judgeAll_eq_none_iff hs.valid hn).trans (or_iff_left fun h => by rw [h.1] at hheld; cases hheld)
  -- what the run drops, in terms of its files
  have hdropped : id ∈ i.dropped e w root allowed s ↔ o.report.cancelled = false ∧
      ∀ f ∈ i.filesOf w root, f.id = id →
        ∃ reason, i.prepare w f.path f.id = .ok (.skipped reason) := by
    rw [mem_dropped_iff hs, hcourse.cancelled]
    refine and_congr_right fun hstop => ?_
    constructor
    · -- every file of the run was judged, and each one with this id was passed over
      rintro ⟨-, hall⟩ f hf hid
      rw [← taken_of_not_stops hstop] at hf
      obtain ⟨v, hv⟩ := exists_mem_chronicle hf e s
      exact (isSkipped_of_mem_chronicle hv).1 (hall f v hv hid)
    · -- a file that was judged is a file of the run
      intro hall
      refine ⟨hheld, fun f v hv hid => (isSkipped_of_mem_chronicle hv).2 ?_⟩
      exact hall f (mem_filesOf_of_mem_taken (mem_taken_of_mem_chronicle hv)) hid
  rw [hn, ← hmidway, ← hdropped, hcourse.holdings_eq, held?_foldl_cleared_documents]
  -- what is dropped is not held in the end
  by_cases hid : id ∈ i.dropped e w root allowed s
  · rw [if_pos hid]
    exact ⟨fun _ => Or.inr hid, fun _ => rfl⟩
  · rw [if_neg hid]
    exact ⟨Or.inl, fun h => h.resolve_right hid⟩

/-! ### Documents of files that are still there -/

/-- Where the file with an id lies, or one that looks like it. -/
def placeOf (w : Workspace) (root : Path) (id : String) : Path := (idRoot w root).join ⟨id⟩

/-- There is no file with an id any more. -/
def Gone (w : Workspace) (root : Path) (id : String) : Prop :=
  ∀ path, documentId? (idRoot w root) path = some id → w.isFile path = false

/-- The file with an id is not selected. -/
def Excluded (i : Indexer) (w : Workspace) (root : Path) (id : String) : Prop :=
  i.selector.accepts (idRoot w root) (placeOf w root id) = false

/-- The file with an id is passed over by a run, as it is binary or too large. -/
def Skipped (i : Indexer) (w : Workspace) (root : Path) (allowed : Option Nat) (id : String) : Prop :=
  ∃ f ∈ i.taken w root allowed, f.id = id ∧
    ∃ reason, i.prepare w f.path f.id = .ok (.skipped reason)

/-- **When only documents are lost whose files are gone**, not selected or passed over: a document whose
file is still there, is selected and is not passed over stays exactly if the run was stopped or its walk
could come to the file, and its new vector, if there is one, fits. -/
theorem lost_only_if_gone_iff (hs : Reachable s) (hw : w.WellNamed root) {o : IndexOutcome}
    (hrun : (i.indexProject e w root allowed).run s = .ok o s')
    (hheld : ((holdings s).held? documentsCollection id).isSome) :
    ((holdings s').held? documentsCollection id = none →
        Gone w root id ∨ i.Excluded w root id ∨ i.Skipped w root allowed id) ↔
      Gone w root id ∨ i.Excluded w root id ∨ i.Skipped w root allowed id ∨
        (o.report.cancelled = true ∨ w.Shows root id) ∧
          ¬i.LostOnTheWay e w (listedAt s) ((holdings s).size? documentsCollection)
            (i.taken w root allowed) id := by
  -- in the three ways that are allowed both sides hold
  by_cases hgone : Gone w root id
  · exact ⟨fun _ => Or.inl hgone, fun _ _ => Or.inl hgone⟩
  by_cases hexcluded : i.Excluded w root id
  · exact ⟨fun _ => Or.inr (Or.inl hexcluded), fun _ _ => Or.inr (Or.inl hexcluded)⟩
  by_cases hskipped : i.Skipped w root allowed id
  · exact ⟨fun _ => Or.inr (Or.inr (Or.inl hskipped)), fun _ _ => Or.inr (Or.inr hskipped)⟩
  simp only [hgone, hexcluded, hskipped, false_or, imp_false]
  rw [lost_iff hs.sound hrun hheld, not_or, and_comm]
  refine and_congr_left fun _ => ?_
  have hcancelled := (IsRun.of_run hs.sound hrun).cancelled
  cases hc : o.report.cancelled with
  -- a run that was stopped drops nothing
  | true => simp
  | false =>
    -- what is not seen at the end of the run is dropped
    rw [hc] at hcancelled
    have haccepted : i.selector.accepts (idRoot w root) (placeOf w root id) = true := by
      rw [← Bool.not_eq_false]
      exact hexcluded
    -- a walk that is not stopped comes to all files that the root shows
    have hshows : w.Shows root id ↔ ∃ f ∈ i.filesOf w root, f.id = id := by
      rw [exists_mem_filesOf_iff hw]
      exact (and_iff_left haccepted).symm
    rw [hshows]
    constructor
    · -- a file with this id that was not passed over is one that the walk came to
      intro hnot
      by_contra hno
      exact hnot ⟨rfl, fun f hf hid => absurd (Or.inr ⟨f, hf, hid⟩) hno⟩
    · rintro (h | ⟨f, hf, hid⟩) ⟨-, hall⟩
      · cases h
      · -- the file is not passed over, so the run has seen it
        refine hskipped ⟨f, ?_, hid, hall f hf hid⟩
        rw [taken_of_not_stops hcancelled.symm]
        exact hf

/-! ### A run about another file -/

section Letters

open IndexStore (emptyEmbedder letterIndex reachable_letterIndex)

/-- The index of one document after a run about a file that lies beside it. -/
def besideIndex : Memory :=
  stateAfter (pairIndexer.indexProject emptyEmbedder linesWorkspace ⟨"b"⟩ none) letterIndex

theorem run_letterIndex : ∃ o, (pairIndexer.indexProject emptyEmbedder linesWorkspace ⟨"b"⟩ none).run
    letterIndex = .ok o besideIndex ∧ o.report.cancelled = false := by
  obtain ⟨o, s, hrun, hcourse⟩ := indexProject_spec (σ := Memory) reachable_letterIndex.sound
    pairIndexer emptyEmbedder linesWorkspace ⟨"b"⟩ none
  refine ⟨o, ?_, hcourse.cancelled⟩
  rw [besideIndex, stateAfter, hrun]

theorem isSome_held?_letterIndex :
    ((holdings letterIndex).held? documentsCollection "a.py").isSome := by decide

theorem wellNamed_lines : linesWorkspace.WellNamed ⟨"b"⟩ := by
  intro e he names e' hleads n hn
  obtain rfl := Option.some.inj he
  cases hleads
  cases hn

/-- The file is there, is selected, and is not passed over. -/
theorem still_there_letters : ¬(Gone linesWorkspace ⟨"b"⟩ "a.py" ∨
    pairIndexer.Excluded linesWorkspace ⟨"b"⟩ "a.py" ∨
      pairIndexer.Skipped linesWorkspace ⟨"b"⟩ none "a.py") := by
  rintro (hgone | hexcluded | ⟨f, hf, hid, -⟩)
  · -- the file is there
    have hthere := hgone (placeOf linesWorkspace ⟨"b"⟩ "a.py") (by decide)
    cases hthere
  · -- it is selected
    have haccepts : pairIndexer.selector.accepts (idRoot linesWorkspace ⟨"b"⟩)
        (placeOf linesWorkspace ⟨"b"⟩ "a.py") = true := by decide
    rw [Excluded, haccepts] at hexcluded
    cases hexcluded
  · -- and the only file of the run has another id
    have hother : f = linesFile := by
      rw [taken, Option.elim_none, filesOf_lines] at hf
      exact List.mem_singleton.1 hf
    subst hother
    exact absurd hid (by decide)

/-- The run does not come to the file, so its document is lost. -/
theorem lost_letters :
    (holdings besideIndex).held? documentsCollection "a.py" = none ∧
      ¬(Gone linesWorkspace ⟨"b"⟩ "a.py" ∨ pairIndexer.Excluded linesWorkspace ⟨"b"⟩ "a.py" ∨
        pairIndexer.Skipped linesWorkspace ⟨"b"⟩ none "a.py") := by
  obtain ⟨o, hrun, hcancelled⟩ := run_letterIndex
  -- the root is a file, so its walk shows no other one
  have hshows : ¬linesWorkspace.Shows ⟨"b"⟩ "a.py" := by
    rintro (⟨l, names, e, he, -⟩ | ⟨-, hname⟩)
    · cases he
    · exact absurd hname (by decide)
  have h := lost_only_if_gone_iff reachable_letterIndex wellNamed_lines hrun isSome_held?_letterIndex
  refine Classical.not_imp.1 fun hkept => ?_
  -- all other reasons are excluded
  rcases h.1 hkept with hgone | hexcluded | hskipped | ⟨hstopped | hshown, -⟩
  · exact still_there_letters (Or.inl hgone)
  · exact still_there_letters (Or.inr (Or.inl hexcluded))
  · exact still_there_letters (Or.inr (Or.inr hskipped))
  · rw [hcancelled] at hstopped
    cases hstopped
  · exact hshows hshown

/-- **A document can be lost whose file is still there**, is selected and is not passed over. -/
theorem document_of_existing_file_lost :
    ¬∀ (i : Indexer) (e : Embedder) (w : Workspace) (root : Path) (s s' : Memory) (o : IndexOutcome)
      (id : String), Reachable s → w.WellNamed root →
      (i.indexProject e w root none).run s = .ok o s' →
      ((holdings s).held? documentsCollection id).isSome →
      (holdings s').held? documentsCollection id = none →
        Gone w root id ∨ i.Excluded w root id ∨ i.Skipped w root none id := by
  intro h
  obtain ⟨o, hrun, -⟩ := run_letterIndex
  have hlost : (holdings besideIndex).held? documentsCollection "a.py" = none := by
    rw [← Option.isNone_iff_eq_none]
    decide +kernel
  exact still_there_letters (h _ _ _ _ _ _ o "a.py" reachable_letterIndex wellNamed_lines hrun
    isSome_held?_letterIndex hlost)

end Letters

end Indexer

end CodeSearch
