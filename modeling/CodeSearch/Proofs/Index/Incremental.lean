import CodeSearch.Proofs.Index.Convergence

/-!
# Indexing one file anew

When one file below a root changes after a run, the file can be indexed anew by itself, or there can be another
run over the root. Both leave the same documents and the same chunks (`reindexFile_eq_indexProject`), whatever
the change was, as long as the walk of a run comes to the file if there is something at its path, and no other
file has its id. Behind a link to a directory the former is not so, and the file is indexed by the one and dropped
by the other (`reindexFile_ne_indexProject`).

A complete index is fixed by the texts that its documents are of (`Complete.sameIndex_of_texts`). So it is told of
each document what text it is of afterwards:

* indexing a file anew leaves other documents alone, and the document of the file is dropped, kept or replaced
  as the file is missing or passed over, cannot be read, or can be (`holdings_reindexFile`);
* a run keeps the text of a document that it sees if no file with the id is read as another text
  (`holdsText_indexProject_iff`), and drops a document that it does not see (`not_holdsText_indexProject`).

What the change is for a run is told first, file by file (`ChangesOnly`).
-/

namespace CodeSearch

namespace Workspace

/-- Whether a walk from a root finds the file to which names lead. -/
def Finds (w : Workspace) (root : Path) (names : List RawText) : Prop :=
  ∃ l e, w.entry? root = some (.directory l) ∧ (Entry.directory l).Leads names e ∧ e.isFile = true

/-- Whether two workspaces differ below a root in the file to which some names lead only: walks come to the same
other files, and these are told and read alike. -/
structure DiffersAt (w w' : Workspace) (root : Path) (names : List RawText) : Prop where
  finds : ∀ other, other ≠ names → (w'.Finds root other ↔ w.Finds root other)
  facts : ∀ other, other ≠ names → w.Finds root other →
    w'.facts (root.belowRaw other) = w.facts (root.belowRaw other)
  read : ∀ other, other ≠ names → w.Finds root other →
    w'.read (root.belowRaw other) = w.read (root.belowRaw other)

end Workspace

namespace Indexer

open IndexStore (documentPointBy progress)

open LawfulVectorStore (fits kept)

/-! ### Texts of documents -/

section Texts

variable {i : Indexer} {g : String → Embedding} {kept : Json → Json} {texts : Set String} {n : ℕ}
  {h h' : Holdings} (hkept : ∀ j, (kept j).str? = j.str?)

include hkept

omit hkept in
/-- There is a document under an id if it is of some text. -/
theorem Complete.isSome_iff (hc : i.Complete g kept texts n h) {id : String} :
    (h.held? documentsCollection id).isSome ↔ ∃ content, i.HoldsText g kept h id content := by
  refine ⟨fun hsome => ?_, fun ⟨_, htext⟩ => htext.isSome⟩
  obtain ⟨b, hb⟩ := Option.isSome_iff_exists.1 hsome
  obtain ⟨content, -, htext, -⟩ := hc.documents id b hb
  exact ⟨content, htext⟩

/-- **Complete indexes whose documents are of the same texts are the same.** -/
theorem Complete.sameIndex_of_texts (hc : i.Complete g kept texts n h) (hc' : i.Complete g kept texts n h')
    (htexts : ∀ id content, i.HoldsText g kept h id content ↔ i.HoldsText g kept h' id content) :
    SameIndex h h' := by
  refine hc.sameIndex hc' (fun id => Bool.eq_iff_iff.2 ?_) fun id hsome => ?_
  · exact hc.isSome_iff.trans ((exists_congr (htexts id)).trans hc'.isSome_iff.symm)
  · obtain ⟨content, htext⟩ := hc.isSome_iff.1 hsome
    exact hc.sameDocument hkept hc' htext ((htexts id content).1 htext)

omit hkept in
/-- A document that was cleared is of no text, and the others are of the texts that they were of. -/
theorem holdsText_cleared_iff {id other content : String} :
    i.HoldsText g kept (h.cleared id) other content ↔ other ≠ id ∧ i.HoldsText g kept h other content := by
  by_cases hne : other = id
  · -- the document itself is gone
    subst hne
    have hnone : (h.cleared other).held? documentsCollection other = none := by
      rw [Holdings.held?_cleared_documents, if_pos rfl]
    exact iff_of_false (not_holdsText_of_none hnone) fun htext => htext.1 rfl
  · -- any other one is where it was
    have hsame : (h.cleared id).held? documentsCollection other = h.held? documentsCollection other := by
      rw [Holdings.held?_cleared_documents, if_neg hne]
    exact ⟨fun htext => ⟨hne, htext.congr hsame.symm⟩, fun htext => htext.2.congr hsame⟩

end Texts

/-! ### The file that changed -/

section Files

variable {i : Indexer} {w w' : Workspace} {root : Path} {f : IndexedFile} {names : List RawText}

/-- A directory is no file, so it takes a name to find one. -/
theorem ne_nil_of_finds (h : w.Finds root names) : names ≠ [] := by
  obtain ⟨l, e, -, hleads, hfile⟩ := h
  rintro rfl
  cases hleads
  cases hfile

/-- The files of a run over a directory are those that a walk finds and the selector accepts. -/
theorem mem_filesOf_iff_finds (hw : w.WellNamed root) (hroot : w.isDirectory root = true) :
    f ∈ i.filesOf w root ↔ ∃ names, w.Finds root names ∧
      i.selector.accepts root (root.belowRaw names) = true ∧
        f = { path := root.belowRaw names, id := RawText.place names } := by
  obtain ⟨l, hl⟩ : ∃ l, w.entry? root = some (.directory l) := by
    rw [Workspace.isDirectory] at hroot
    cases he : w.entry? root with
    | none =>
      -- a root that is no directory is excluded
      rw [he] at hroot
      cases hroot
    | some e =>
      rw [he] at hroot
      cases e with
      | directory l => exact ⟨l, rfl⟩
      | file | fileLink | other => cases hroot
  rw [mem_filesOf_of_directory hl hw]
  constructor
  · rintro ⟨names, e, -, hleads, hfile, hacc, hpath, hid⟩
    refine ⟨names, ⟨l, e, hl, hleads, hfile⟩, hpath ▸ hacc, ?_⟩
    rw [IndexedFile.mk.injEq]
    exact ⟨hpath, hid⟩
  · -- names lead to an entry, so there are some
    rintro ⟨names, hfinds, hacc, rfl⟩
    have hne := ne_nil_of_finds hfinds
    obtain ⟨l', e, hl', hleads, hfile⟩ := hfinds
    rw [hl] at hl'
    cases hl'
    exact ⟨names, e, hne, hleads, hfile, hacc, rfl, rfl⟩

/-- What becomes of a file depends on what is told about it and what is read of it. -/
theorem prepare_congr {path : Path} {id : String} (hfacts : w'.facts path = w.facts path)
    (hread : w'.read path = w.read path) : i.prepare w' path id = i.prepare w path id := by
  rw [prepare, prepare, hfacts, hread]

/-- Whether one file is all that is different for a run: the same becomes of files with other ids, and the file is
gone through exactly if there is something at its path. -/
structure ChangesOnly (i : Indexer) (w w' : Workspace) (root : Path) (f : IndexedFile) : Prop where
  id_eq : fileId root f.path = .ok f.id
  others : ∀ g, g.id ≠ f.id → (g ∈ i.filesOf w' root ↔ g ∈ i.filesOf w root)
  prepared : ∀ g ∈ i.filesOf w root, g.id ≠ f.id → i.prepare w' g.path g.id = i.prepare w g.path g.id
  alone : ∀ g ∈ i.filesOf w' root, g.id = f.id → g = f
  there : f ∈ i.filesOf w' root ↔ w'.contains f.path = true

/-- **A change of one file is one for a run as well**, if the file is accepted, the walk comes to it if there is
something at its path, and no other file has its id. -/
theorem changesOnly_of_differsAt (hw : w.WellNamed root) (hw' : w'.WellNamed root)
    (hroot : w.isDirectory root = true) (hroot' : w'.isDirectory root = true) (hchange : w.DiffersAt w' root names)
    (hne : names ≠ []) (hnames : ∀ n ∈ names, Path.IsName n.text)
    (haccepts : i.selector.accepts root (root.belowRaw names) = true)
    (hwalk : w'.contains (root.belowRaw names) = true ↔ w'.Finds root names)
    (halone : ∀ other, w'.Finds root other → RawText.place other = RawText.place names → other = names) :
    i.ChangesOnly w w' root { path := root.belowRaw names, id := RawText.place names } where
  id_eq := by rw [fileId, documentId?_belowRaw root hne hnames]
  others g hid := by
    rw [mem_filesOf_iff_finds hw hroot, mem_filesOf_iff_finds hw' hroot']
    -- a file with another id has other names
    refine exists_congr fun other => and_congr_left fun hg => hchange.finds other ?_
    rintro rfl
    exact hid (congrArg IndexedFile.id hg.2)
  prepared g hg hid := by
    obtain ⟨other, hfinds, -, rfl⟩ := (mem_filesOf_iff_finds hw hroot).1 hg
    -- the names of another file are other names
    have hother : other ≠ names := fun h => hid (congrArg RawText.place h)
    exact prepare_congr (hchange.facts other hother hfinds) (hchange.read other hother hfinds)
  alone g hg hid := by
    obtain ⟨other, hfinds, -, rfl⟩ := (mem_filesOf_iff_finds hw' hroot').1 hg
    -- the names of a file with the id are the ones of the changed file
    rw [halone other hfinds hid]
  there := by
    rw [mem_filesOf_iff_finds hw' hroot', hwalk]
    constructor
    · -- what is found under the id is the file itself
      rintro ⟨other, hfinds, -, hf⟩
      rwa [halone other hfinds (congrArg IndexedFile.id hf).symm] at hfinds
    · exact fun hfinds => ⟨names, hfinds, haccepts, rfl⟩

end Files

variable {σ : Type} [VectorStore σ] [LawfulVectorStore σ] {s s' : σ} {i : Indexer}
  {g : String → Embedding} {w w' : Workspace} {root : Path} {texts : Set String} {n : ℕ}
  {id content : String}

/-! ### Indexing a file anew -/

/-- **What indexing a file anew leaves behind.** -/
theorem holdings_reindexFile (i : Indexer) (e : Embedder) (w : Workspace) {root path : Path}
    (hid : fileId root path = .ok id) (hs : Valid s) :
    Valid (stateAfter (i.reindexFile e w root path) s) ∧
      holdings (stateAfter (i.reindexFile e w root path) s) =
        if w.contains path then
          match i.prepare w path id with
          | .error _ => holdings s
          | .ok (.skipped _) => (holdings s).cleared id
          | .ok (.ready d) => (progress (fits σ) (holdings s) e id d).after (kept σ) id (holdings s)
        else (holdings s).cleared id := by
  unfold reindexFile
  rw [hid, ofExcept_ok_bind]
  cases w.contains path with
  -- nothing is there any more
  | false => exact IndexStore.stateAfter_of_ends (ends_delete hs id)
  | true =>
    cases i.prepare w path id with
    -- the file cannot be read
    | error cause => exact IndexStore.stateAfter_of_ends (Ends.stop (Ends.ofExcept hs _))
    | ok p =>
      cases p with
      -- the file is passed over
      | skipped reason => exact IndexStore.stateAfter_of_ends (ends_delete hs id)
      -- the file is written
      | ready d => exact IndexStore.stateAfter_of_ends (IndexStore.writeDocument_spec hs e id d)

/-! ### Runs over a complete index -/

section Runs

variable (hg : ∀ t, (g t).length = n) (hs : Valid s) (hc : i.Complete g (kept σ) texts n (holdings s))

include hg hs hc

/-- A stored text stays while files are gone through, if no file with its id is read as another one. -/
theorem holdsText_judgeAll_of_holdsText {existing : Table String} {fs : List IndexedFile}
    (htexts : i.textsOf w fs ⊆ texts) (htext : i.HoldsText g (kept σ) (holdings s) id content)
    (hread : ∀ f ∈ fs, f.id = id → ∀ d, i.prepare w f.path f.id = .ok (.ready d) → d.content = content) :
    i.HoldsText g (kept σ) (holdings (i.judgeAll (.ofFunction g) w existing fs s).2) id content := by
  let P : σ → Prop := fun t => (Valid t ∧ i.Complete g (kept σ) texts n (holdings t)) ∧
    i.HoldsText g (kept σ) (holdings t) id content
  refine (i.judgeAll_invariant (P := P) (.ofFunction g) w existing (fun f hf t ht => ?_)
    ⟨⟨hs, hc⟩, htext⟩).1.2
  obtain ⟨⟨hv, hct⟩, htt⟩ := ht
  -- the index stays complete with every file
  have hjudge : Valid (i.judge (.ofFunction g) w existing t f).2 ∧
      i.Complete g (kept σ) texts n (holdings (i.judge (.ofFunction g) w existing t f).2) :=
    ⟨valid_judge i _ w existing hv f, hct.judge (Embedder.follows_ofFunction g) hg hv
      fun d hready => htexts ⟨f, hf, d, hready, rfl⟩⟩
  refine ⟨hjudge, ?_⟩
  rcases i.holdings_judge_cases (.ofFunction g) w existing hv f with hh | ⟨d, hready, hu, -⟩
  · exact htt.congr (by rw [hh])
  · by_cases hid : f.id = id
    · -- the text is written over with itself
      subst hid
      rw [← hread f hf rfl d hready]
      refine holdsText_judge (Embedder.follows_ofFunction g) hg hv hct hready hu ?_
      rw [(i.judge_of_ready _ w existing hv hready hu).1,
        progress_ofFunction hg hct (hct.fits_of_isSome hv htt.isSome)]
      rfl
    · -- a file with another id does not touch it
      exact htt.congr (held?_judge i _ w existing hv fun h => absurd h hid)

variable (htexts : i.textsOf w (i.filesOf w root) ⊆ texts) {o : IndexOutcome}
  (hcourse : i.IsRun (.ofFunction g) w root none s o s')

include htexts hcourse

/-- **A run keeps the text of a document that it sees**, if no file with the id is read as another one. -/
theorem holdsText_indexProject_iff
    (hready : ∀ f ∈ i.filesOf w root, f.id = id → ∀ d, i.prepare w f.path f.id = .ok (.ready d) →
      i.HoldsText g (kept σ) (holdings s) id d.content)
    (hseen : ((holdings s).held? documentsCollection id).isSome →
      ∃ f ∈ i.filesOf w root, f.id = id ∧ ∀ reason, i.prepare w f.path f.id ≠ .ok (.skipped reason))
    (content : String) :
    i.HoldsText g (kept σ) (holdings s') id content ↔ i.HoldsText g (kept σ) (holdings s) id content := by
  have hsound := hc.sound hs
  cases hb : (holdings s).held? documentsCollection id with
  | none =>
    -- there is no document before, and none is written
    have hnone : (holdings s').held? documentsCollection id = none := by
      rw [hcourse.holdings_eq, held?_foldl_cleared_documents, midway, held?_judgeAll i _ w _ hs, hb, ite_self]
      intro f hf hid d hd
      exact absurd (hready f hf hid d hd) (not_holdsText_of_none hb)
    -- so it is of no text, before and after
    exact iff_of_false (not_holdsText_of_none hnone) (not_holdsText_of_none hb)
  | some b =>
    -- the document has a text, and it is the only one in the end
    obtain ⟨content', -, htext', -⟩ := hc.documents id b hb
    have hmidway : i.HoldsText g (kept σ) (holdings (i.midway (.ofFunction g) w root none s)) id content' :=
      holdsText_judgeAll_of_holdsText hg hs hc htexts htext' fun f hf hid d hd =>
        (hready f hf hid d hd).content_eq LawfulVectorStore.str?_kept htext'
    -- what is seen is not dropped
    have hdropped : id ∉ i.dropped (.ofFunction g) w root none s := by
      intro hdropped
      obtain ⟨f, hf, hid, hnot⟩ := hseen (by rw [hb]; rfl)
      have htaken : f ∈ i.taken w root none := hf
      obtain ⟨v, hv⟩ := exists_mem_chronicle htaken (.ofFunction g) s
      obtain ⟨reason, hreason⟩ :=
        (isSkipped_of_mem_chronicle hv).1 (((mem_dropped_iff hsound).1 hdropped).2.2 f v hv hid)
      exact hnot reason hreason
    have hend : i.HoldsText g (kept σ) (holdings s') id content' := by
      refine hmidway.congr ?_
      rw [hcourse.holdings_eq, held?_foldl_cleared_documents, if_neg hdropped]
    -- a document is of one text only
    constructor
    · intro htext
      rw [htext.content_eq LawfulVectorStore.str?_kept hend]
      exact htext'
    · intro htext
      rw [htext.content_eq LawfulVectorStore.str?_kept htext']
      exact hend

omit hg htexts in
/-- **A run drops a document that it does not see.** -/
theorem not_holdsText_indexProject
    (hskipped : ∀ f ∈ i.filesOf w root, f.id = id → ∃ reason, i.prepare w f.path f.id = .ok (.skipped reason)) :
    ¬i.HoldsText g (kept σ) (holdings s') id content := by
  intro htext
  have hsome := htext.isSome
  rw [hcourse.holdings_eq, held?_foldl_cleared_documents, midway, held?_judgeAll i _ w _ hs] at hsome
  · -- a document that is still there was not dropped, although no file of the run was seen for it
    split at hsome
    · cases hsome
    · next hdropped =>
      refine hdropped ((mem_dropped_iff (hc.sound hs)).2 ⟨stops_none, hsome, fun f v hv hid => ?_⟩)
      exact (isSkipped_of_mem_chronicle hv).2 (hskipped f (mem_taken_of_mem_chronicle hv) hid)
  · -- no file with the id is ready
    intro f hf hid d hready
    obtain ⟨reason, hreason⟩ := hskipped f hf hid
    rw [hready] at hreason
    cases hreason

end Runs

/-! ### One file that changed -/

section Change

variable {f : IndexedFile} (hg : ∀ t, (g t).length = n) (hs : Valid s)
  (hc : i.Complete g (kept σ) texts n (holdings s)) (hid : fileId root f.path = .ok f.id)

include hs hid in
/-- Indexing a file anew leaves the documents of other files alone. -/
theorem holdsText_reindexFile_of_ne {other : String} (hne : other ≠ f.id) :
    i.HoldsText g (kept σ) (holdings (stateAfter (i.reindexFile (.ofFunction g) w root f.path) s)) other content ↔
      i.HoldsText g (kept σ) (holdings s) other content := by
  rw [(holdings_reindexFile i (.ofFunction g) w hid hs).2]
  split
  · split
    · -- nothing was done
      exact Iff.rfl
    · -- the document of the file was cleared
      exact holdsText_cleared_iff.trans (and_iff_right hne)
    · next d _ =>
      -- the document of the file was written
      have hsame : ((progress (fits σ) (holdings s) (.ofFunction g) f.id d).after (kept σ) f.id
          (holdings s)).held? documentsCollection other = (holdings s).held? documentsCollection other :=
        IndexStore.held?_after_of_ne hne
      exact ⟨fun h => h.congr hsame.symm, fun h => h.congr hsame⟩
  · exact holdsText_cleared_iff.trans (and_iff_right hne)

include hg hs hc hid in
/-- Indexing a file anew keeps an index complete. -/
theorem Complete.reindexFile
    (htexts : ∀ d, i.prepare w f.path f.id = .ok (.ready d) → w.contains f.path = true → d.content ∈ texts) :
    Valid (stateAfter (i.reindexFile (.ofFunction g) w root f.path) s) ∧
      i.Complete g (kept σ) texts n (holdings (stateAfter (i.reindexFile (.ofFunction g) w root f.path) s)) := by
  obtain ⟨hv, hh⟩ := holdings_reindexFile i (.ofFunction g) w hid hs
  refine ⟨hv, ?_⟩
  rw [hh]
  split
  · next hcontains =>
    split
    · -- the file cannot be read
      exact hc
    · -- the file is passed over
      exact hc.cleared f.id
    · next d hready =>
      obtain ⟨facts, hd⟩ := i.ready_eq hready rfl
      rw [hd]
      exact hc.after LawfulVectorStore.str?_kept (Embedder.follows_ofFunction g) hg
        (htexts d hready hcontains) facts
  · -- the file is gone
    exact hc.cleared f.id

omit hid

variable (hchange : i.ChangesOnly w w' root f) (hagree : i.Agree w (i.filesOf w root))
  (hsettled : i.Settled g (kept σ) w root (holdings s)) (htexts : i.textsOf w' (i.filesOf w' root) ⊆ texts)
  {o : IndexOutcome} (hcourse : i.IsRun (.ofFunction g) w' root none s o s')

include hg hs hc hchange hagree hsettled htexts hcourse in
/-- **A run after the change of one file keeps the texts of the others.** -/
theorem holdsText_indexProject_of_ne {other : String} (hne : other ≠ f.id) :
    i.HoldsText g (kept σ) (holdings s') other content ↔
      i.HoldsText g (kept σ) (holdings s) other content := by
  refine holdsText_indexProject_iff hg hs hc htexts hcourse (fun f' hf hfid d hready => ?_) (fun hsome => ?_) _
  · -- a file of the run with another id is one of the run before
    subst hfid
    have hf' := (hchange.others f' hne).1 hf
    rw [hchange.prepared f' hf' hne] at hready
    exact hsettled.texts f'.id _ (hagree.leaves hf' hready)
  · -- and its document has been seen
    obtain ⟨f', hf, rfl, d, hready⟩ := (hsettled.listed other).1 hsome
    refine ⟨f', (hchange.others f' hne).2 hf, rfl, fun reason hskipped => ?_⟩
    rw [hchange.prepared f' hf hne, hready] at hskipped
    cases hskipped

variable (hinj : Set.InjOn Digest.ofText texts)
  (hread : ∀ f ∈ i.filesOf w root, ∀ cause, i.prepare w f.path f.id ≠ .error cause)
  (hrun : (i.indexProject (.ofFunction g) w' root none).run s = .ok o s')

include hg hs hc hchange htexts hcourse hinj hread hrun in
/-- A run over files that can all be read leaves the text that the changed one is read as, if there can be vectors
of their length. -/
theorem holdsText_indexProject_of_ready (hfits : fits σ n = true) {d : Document}
    (hready : i.prepare w' f.path f.id = .ok (.ready d)) (hf : f ∈ i.filesOf w' root) :
    i.HoldsText g (kept σ) (holdings s') f.id d.content := by
  -- the other files were read before, and the changed one is ready
  have hread' : ∀ f' ∈ i.filesOf w' root, ∀ cause, i.prepare w' f'.path f'.id ≠ .error cause := by
    intro f' hf' cause
    by_cases hfid : f'.id = f.id
    · rw [hchange.alone f' hf' hfid, hready]
      exact nofun
    · have hfw := (hchange.others f' hfid).1 hf'
      rw [hchange.prepared f' hfw hfid]
      exact hread f' hfw cause
  have hfailures := failures_of_first_run hg htexts hread' (fun _ _ _ _ => hfits) hs hc hcourse
  have hsettled := settled_of_run (Embedder.follows_ofFunction g) hg htexts hinj hs hc hrun
    hcourse.cancelled_eq_false hfailures
  -- the file is alone with its id, so its text is the one that is left
  refine hsettled.texts f.id _ (leaves_of_forall hf hready fun f' hf' hfid d' hready' => ?_)
  rw [hchange.alone f' hf' hfid, hready] at hready'
  cases hready'
  rfl

include hg hs hc hchange htexts hcourse hinj hread hrun in
/-- If the file can be read, it is of the text that is read now, in whatever way it is indexed. -/
theorem holdsText_reindexFile_iff_of_ready {d : Document} (hready : i.prepare w' f.path f.id = .ok (.ready d))
    (hcontains : w'.contains f.path = true) :
    i.HoldsText g (kept σ) (holdings (stateAfter (i.reindexFile (.ofFunction g) w' root f.path) s)) f.id content ↔
      i.HoldsText g (kept σ) (holdings s') f.id content := by
  have hf := hchange.there.2 hcontains
  obtain ⟨-, hh⟩ := holdings_reindexFile i (.ofFunction g) w' hchange.id_eq hs
  rw [if_pos hcontains, hready] at hh
  dsimp only at hh
  -- both ways lead to complete indexes
  obtain ⟨hv, hcomplete⟩ := hc.reindexFile (w := w') hg hs hchange.id_eq fun d' hready' _ =>
    htexts ⟨f, hf, d', hready', rfl⟩
  have hrunComplete := hc.indexProject (Embedder.follows_ofFunction g) hg hs htexts hrun
  -- there are documents only if vectors fit, and then both are of that text
  have hanew : fits σ n = true → i.HoldsText g (kept σ)
      (holdings (stateAfter (i.reindexFile (.ofFunction g) w' root f.path) s)) f.id d.content := by
    intro hfits
    obtain ⟨facts, hd⟩ := i.ready_eq hready rfl
    refine ⟨facts, ?_⟩
    rw [hh, progress_ofFunction hg hc hfits, IndexStore.Progress.after_stored, IndexStore.held?_replaced_self, ← hd]
  have hagain := fun hfits => holdsText_indexProject_of_ready hg hs hc hchange htexts hcourse hinj hread hrun hfits
    hready hf
  constructor
  · intro htext
    have hfits := hcomplete.fits_of_isSome hv htext.isSome
    rw [htext.content_eq LawfulVectorStore.str?_kept (hanew hfits)]
    exact hagain hfits
  · intro htext
    have hfits := hrunComplete.2.fits_of_isSome hcourse.valid htext.isSome
    rw [htext.content_eq LawfulVectorStore.str?_kept (hagain hfits)]
    exact hanew hfits

include hg hs hc hchange htexts hcourse hinj hread hrun in
/-- **The document of the file is of the same text**, whether the file is indexed anew or gone through in a
run. -/
theorem holdsText_reindexFile_iff :
    i.HoldsText g (kept σ) (holdings (stateAfter (i.reindexFile (.ofFunction g) w' root f.path) s)) f.id content ↔
      i.HoldsText g (kept σ) (holdings s') f.id content := by
  obtain ⟨-, hh⟩ := holdings_reindexFile i (.ofFunction g) w' hchange.id_eq hs
  -- what is dropped anew is dropped by the run as well
  have hcleared : (∀ f' ∈ i.filesOf w' root, f'.id = f.id →
        ∃ reason, i.prepare w' f'.path f'.id = .ok (.skipped reason)) →
      (i.HoldsText g (kept σ) ((holdings s).cleared f.id) f.id content ↔
        i.HoldsText g (kept σ) (holdings s') f.id content) := fun hskipped =>
    iff_of_false (fun h => (holdsText_cleared_iff.1 h).1 rfl) (not_holdsText_indexProject hs hc hcourse hskipped)
  by_cases hcontains : w'.contains f.path = true
  · have hf := hchange.there.2 hcontains
    cases hprepare : i.prepare w' f.path f.id with
    | error cause =>
      -- what cannot be read is seen and left alone
      rw [if_pos hcontains, hprepare] at hh
      rw [hh]
      refine (holdsText_indexProject_iff hg hs hc htexts hcourse (fun f' hf' hfid d hready => ?_)
        (fun _ => ⟨f, hf, rfl, fun reason hskipped => ?_⟩) _).symm
      · -- the text cannot be one of a file that is ready
        rw [hchange.alone f' hf' hfid, hprepare] at hready
        cases hready
      · -- and the file is not passed over
        rw [hprepare] at hskipped
        cases hskipped
    | ok p =>
      cases p with
      | skipped reason =>
        rw [if_pos hcontains, hprepare] at hh
        rw [hh]
        -- the file is passed over by both
        refine hcleared fun f' hf' hfid => ⟨reason, ?_⟩
        rw [hchange.alone f' hf' hfid, hprepare]
      | ready d =>
        exact holdsText_reindexFile_iff_of_ready hg hs hc hchange htexts hcourse hinj hread hrun hprepare hcontains
  · -- the file is gone
    rw [if_neg hcontains] at hh
    rw [hh]
    refine hcleared fun f' hf' hfid => absurd (hchange.there.1 ?_) hcontains
    rwa [hchange.alone f' hf' hfid] at hf'

include hg hs hc hchange hagree hsettled htexts hcourse hinj hread hrun in
/-- A settled index with the file indexed anew is the index that a run leaves. -/
theorem sameIndex_reindexFile :
    SameIndex (holdings (stateAfter (i.reindexFile (.ofFunction g) w' root f.path) s)) (holdings s') := by
  obtain ⟨-, hcr⟩ := hc.reindexFile (w := w') hg hs hchange.id_eq fun d hready hcontains =>
    htexts ⟨f, hchange.there.2 hcontains, d, hready, rfl⟩
  obtain ⟨-, hcp⟩ := hc.indexProject (Embedder.follows_ofFunction g) hg hs htexts hrun
  refine hcr.sameIndex_of_texts LawfulVectorStore.str?_kept hcp fun other content => ?_
  by_cases hother : other = f.id
  · subst hother
    exact holdsText_reindexFile_iff hg hs hc hchange htexts hcourse hinj hread hrun
  · exact (holdsText_reindexFile_of_ne hs hchange.id_eq hother).trans
      (holdsText_indexProject_of_ne hg hs hc hchange hagree hsettled htexts hcourse hother).symm

end Change

/-- **Indexing a file anew is as good as another run.** An index has been settled by a run over a directory,
whatever happened to it before, and then one file below the directory changes that the selector accepts: it is
written, changed or taken out, or it becomes binary, too large or unreadable. If a walk comes to the file
exactly if there is something at its path, indexing it anew leaves the same documents and the same chunks as
another run over the directory does. Names that look the same must not come in between: no other file has the id of
the changed one, and before the change files of one id are read as one text. -/
theorem reindexFile_eq_indexProject (hg : ∀ t, (g t).length = n) {events : List Event}
    (hfollows : ∀ ev ∈ events, ev.Follows g) (hw : w.WellNamed root) (hw' : w'.WellNamed root)
    (hroot : w.isDirectory root = true) (hroot' : w'.isDirectory root = true) {o : IndexOutcome}
    (hrun : (i.indexProject (.ofFunction g) w root none).run
      (events.foldl (Event.after i root) (VectorStore.empty : σ)) = .ok o s)
    (hfailures : o.report.failures = []) {names : List RawText} (hne : names ≠ [])
    (hnames : ∀ m ∈ names, Path.IsName m.text) (haccepts : i.selector.accepts root (root.belowRaw names) = true)
    (hchange : w.DiffersAt w' root names)
    (hwalk : w'.contains (root.belowRaw names) = true ↔ w'.Finds root names)
    (halone : ∀ other, w'.Finds root other → RawText.place other = RawText.place names → other = names)
    (hagree : i.Agree w (i.filesOf w root))
    (hinj : Set.InjOn Digest.ofText (textsRead i root events ∪
      (i.textsOf w (i.filesOf w root) ∪ i.textsOf w' (i.filesOf w' root)))) :
    ∃ o' s', (i.indexProject (.ofFunction g) w' root none).run s = .ok o' s' ∧
      SameIndex (holdings (stateAfter (i.reindexFile (.ofFunction g) w' root (root.belowRaw names)) s))
        (holdings s') := by
  have htexts := Set.subset_union_left.trans (Set.subset_union_right (s := textsRead i root events)
    (t := i.textsOf w (i.filesOf w root) ∪ i.textsOf w' (i.filesOf w' root)))
  have htexts' := Set.subset_union_right.trans (Set.subset_union_right (s := textsRead i root events)
    (t := i.textsOf w (i.filesOf w root) ∪ i.textsOf w' (i.filesOf w' root)))
  have hfollows' := Embedder.follows_ofFunction g
  obtain ⟨hs₀, hc₀⟩ := complete_of_events (σ := σ) hfollows hg Set.subset_union_left valid_empty complete_of_empty
  obtain ⟨hs, hc⟩ := hc₀.indexProject hfollows' hg hs₀ htexts hrun
  -- the run before the change has settled the index
  have hcourse₀ := IsRun.of_run (hc₀.sound hs₀) hrun
  have hsettled := settled_of_run hfollows' hg htexts hinj hs₀ hc₀ hrun hcourse₀.cancelled_eq_false hfailures
  have hread : ∀ f ∈ i.filesOf w root, ∀ cause, i.prepare w f.path f.id ≠ .error cause :=
    fun f hf => prepare_ne_error hcourse₀ hfailures hf
  obtain ⟨o', s', hrun', hcourse⟩ := indexProject_spec (hc.sound hs) i (.ofFunction g) w' root none
  have honly := changesOnly_of_differsAt hw hw' hroot hroot' hchange hne hnames haccepts hwalk halone
  have hsame := sameIndex_reindexFile hg hs hc honly hagree hsettled htexts' hcourse hinj hread hrun'
  dsimp only at hsame
  exact ⟨o', s', hrun', hsame⟩

/-! ### A file that changes -/

section Changed

/-- The index after a run over the file with one text. -/
def firstIndex : Memory :=
  stateAfter (pairIndexer.indexProject (.ofFunction sameVector) (projectWorkspace [120]) ⟨"/p"⟩ none)
    VectorStore.empty

/-- There is no other file. -/
theorem eq_of_finds_project {bytes : List UInt8} {names : List RawText}
    (h : (projectWorkspace bytes).Finds ⟨"/p"⟩ names) : names = [.ofText "b"] := by
  obtain ⟨l, e, he, hleads, hfile⟩ := h
  cases he
  cases hleads with
  | refl => cases hfile
  | step hc h =>
    obtain ⟨rfl, rfl⟩ := Prod.mk.inj (List.mem_singleton.1 hc)
    cases h
    rfl

theorem finds_project (bytes : List UInt8) : (projectWorkspace bytes).Finds ⟨"/p"⟩ [.ofText "b"] :=
  ⟨_, .file, rfl, .step List.mem_cons_self (.refl _), rfl⟩

/-- The file with its new text leaves one index, in whatever way it is indexed. -/
theorem reindexFile_project : ∃ o s, (pairIndexer.indexProject (.ofFunction sameVector)
    (projectWorkspace [120, 10, 121]) ⟨"/p"⟩ none).run firstIndex = .ok o s ∧
      SameIndex (holdings (stateAfter (pairIndexer.reindexFile (.ofFunction sameVector)
        (projectWorkspace [120, 10, 121]) ⟨"/p"⟩ (Path.belowRaw ⟨"/p"⟩ [.ofText "b"])) firstIndex)) (holdings s) := by
  have hgoes : goesThrough (pairIndexer.indexProject (.ofFunction sameVector) (projectWorkspace [120]) ⟨"/p"⟩ none)
      VectorStore.empty = true := by decide +kernel
  obtain ⟨o, hrun, -, hfailures⟩ := exists_outcome_of_goesThrough hgoes
  have htexts : textsRead pairIndexer ⟨"/p"⟩ [] ∪
      (pairIndexer.textsOf (projectWorkspace [120]) (pairIndexer.filesOf (projectWorkspace [120]) ⟨"/p"⟩) ∪
        pairIndexer.textsOf (projectWorkspace [120, 10, 121])
          (pairIndexer.filesOf (projectWorkspace [120, 10, 121]) ⟨"/p"⟩)) ⊆
      {Text.decodeLossy [120], Text.decodeLossy [120, 10, 121]} := by
    rintro c (⟨ev, hev, -⟩ | ⟨f, -, d, hready, rfl⟩ | ⟨f, -, d, hready, rfl⟩)
    · cases hev
    · exact Or.inl (content_project hready)
    · exact Or.inr (content_project hready)
  exact reindexFile_eq_indexProject (σ := Memory) (n := 1) (fun _ => rfl) (List.forall_mem_nil _)
    (wellNamed_project _) (wellNamed_project _) rfl rfl hrun hfailures (List.cons_ne_nil _ _)
    (List.forall_mem_singleton.2 (by decide)) (by decide)
    ⟨fun _ _ => Iff.rfl, fun other hne h => absurd (eq_of_finds_project h) hne,
      fun other hne h => absurd (eq_of_finds_project h) hne⟩
    ⟨fun _ => finds_project _, fun _ => rfl⟩ (fun _ h _ => eq_of_finds_project h)
    (agree_of_distinct (wellNamed_project _) (distinct_project _)) (injOn_project.mono htexts)

end Changed

/-! ### A file behind a link -/

section Linked

/-- A walk comes to no file. -/
theorem not_finds_linked (written : Bool) (names : List RawText) : ¬(linkedWorkspace written).Finds ⟨"/p"⟩ names := by
  rintro ⟨l, e, he, hleads, hfile⟩
  cases he
  cases hleads with
  | refl => cases hfile
  | step hc h =>
    obtain ⟨rfl, rfl⟩ := Prod.mk.inj (List.mem_singleton.1 hc)
    cases h
    cases hfile

theorem filesOf_linked (written : Bool) : pairIndexer.filesOf (linkedWorkspace written) ⟨"/p"⟩ = [] := by
  revert written
  decide +kernel

/-- The index after a run before the file is written. -/
def linkedIndex : Memory := stateAfter (linkedRun false) VectorStore.empty

/-- **A file that a walk does not come to is indexed anew, and a run drops it.** -/
theorem reindexFile_ne_indexProject :
    ¬∀ (i : Indexer) (g : String → Embedding) (n : ℕ) (root : Path) (w w' : Workspace) (names : List RawText)
      (o : IndexOutcome) (s : Memory), (∀ t, (g t).length = n) → root.isAbsolute = true →
      w.WellNamed root → w'.WellNamed root → w.isDirectory root = true → w'.isDirectory root = true →
      (i.indexProject (.ofFunction g) w root none).run VectorStore.empty = .ok o s →
      o.report.failures = [] → names ≠ [] → (∀ m ∈ names, Path.IsName m.text) →
      i.selector.accepts root (root.belowRaw names) = true → w.DiffersAt w' root names →
      (w'.Finds root names → w'.contains (root.belowRaw names) = true) →
      (∀ other, w'.Finds root other → RawText.place other = RawText.place names → other = names) →
      i.Agree w (i.filesOf w root) →
      Set.InjOn Digest.ofText (i.textsOf w (i.filesOf w root) ∪ i.textsOf w' (i.filesOf w' root) ∪
        i.textsOf w' [⟨root.belowRaw names, RawText.place names⟩]) →
      ∃ o' s', (i.indexProject (.ofFunction g) w' root none).run s = .ok o' s' ∧
        SameIndex (holdings (stateAfter (i.reindexFile (.ofFunction g) w' root (root.belowRaw names)) s))
          (holdings s') := by
  intro h
  have hgoes : goesThrough (linkedRun false) VectorStore.empty = true := by decide +kernel
  obtain ⟨o, hrun, -, hfailures⟩ := exists_outcome_of_goesThrough hgoes
  have hagree : pairIndexer.Agree (linkedWorkspace false) (pairIndexer.filesOf (linkedWorkspace false) ⟨"/p"⟩) := by
    rw [filesOf_linked]
    exact nofun
  have hone : ∀ c ∈ pairIndexer.textsOf (linkedWorkspace false)
      (pairIndexer.filesOf (linkedWorkspace false) ⟨"/p"⟩) ∪
      pairIndexer.textsOf (linkedWorkspace true) (pairIndexer.filesOf (linkedWorkspace true) ⟨"/p"⟩) ∪
      pairIndexer.textsOf (linkedWorkspace true) [⟨Path.belowRaw ⟨"/p"⟩ ["link", "x"], RawText.place ["link", "x"]⟩],
      c = Text.decodeLossy [120] := by
    rw [filesOf_linked, filesOf_linked]
    rintro c ((⟨f, hf, -⟩ | ⟨f, hf, -⟩) | ⟨f, hf, d, hready, rfl⟩)
    · cases hf
    · cases hf
    · obtain rfl := List.mem_singleton.1 hf
      obtain ⟨bytes, facts, hread, rfl⟩ := pairIndexer.prepare_ready hready
      have hbytes : (linkedWorkspace true).read (Path.belowRaw ⟨"/p"⟩ ["link", "x"]) = .ok [120] := by rfl
      rw [hbytes] at hread
      obtain rfl := Except.ok.inj hread
      rw [Document.content_withFacts, content_textDocument]
  have hnot := not_finds_linked
  obtain ⟨o', s', hrun', hsame⟩ := h pairIndexer sameVector 1 ⟨"/p"⟩ (linkedWorkspace false)
    (linkedWorkspace true) ["link", "x"] o linkedIndex (fun _ => rfl) (by decide) (wellNamed_linked _)
    (wellNamed_linked _) rfl rfl hrun hfailures (List.cons_ne_nil _ _) (by decide) (by decide)
    ⟨fun other _ => iff_of_false (hnot _ _) (hnot _ _), fun other _ h => absurd h (hnot _ _),
      fun other _ h => absurd h (hnot _ _)⟩
    (fun h => absurd h (hnot _ _)) (fun other h => absurd h (hnot _ _)) hagree
    (fun a ha b hb _ => (hone a ha).trans (hone b hb).symm)
  have hs' : s' = stateAfter (linkedRun true) linkedIndex := by
    rw [stateAfter, linkedRun, hrun']
  subst hs'
  -- the document is there after the one, and not after the other
  have hindexed : ((holdings (stateAfter (pairIndexer.reindexFile (.ofFunction sameVector)
      (linkedWorkspace true) ⟨"/p"⟩ (Path.belowRaw ⟨"/p"⟩ ["link", "x"])) linkedIndex)).content? "link/x").isSome =
        true := by decide +kernel
  have hdropped : ((holdings (stateAfter (linkedRun true) linkedIndex)).content? "link/x").isSome = false := by
    decide +kernel
  rw [hsame.content?_eq, hdropped] at hindexed
  cases hindexed

end Linked

end Indexer

end CodeSearch
