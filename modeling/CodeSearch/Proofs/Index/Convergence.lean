import CodeSearch.Proofs.Index.Complete
import CodeSearch.Proofs.Index.Files
import CodeSearch.Proofs.Index.Retries
import Mathlib.Data.Set.Function

/-!
# Convergence

Whatever has happened to an index (`Event`), a run that is not stopped and reports no failure leaves
exactly the documents of the files that it went through and did not pass over, each with the chunks of its
text (`Settled`). Two indexes of which this is true hold the same documents and the same chunks, so the
index is the one that a first run makes of the same files (`indexProject_converges`).

Three things come together:

* every event keeps the index *complete*, in whatever way it fails (`Event.complete`);
* a file that is left alone has the text that is stored, as no two texts have one digest, and any other
  file is written (`holdsText_judgeAll`);
* what is not seen by the run is dropped at its end (`settled_of_run`).

A name need not be text, and ids are made of what is shown of it. So two files may have one id, and then they take
turns under it and there is nothing to converge to (`indexProject_not_converges`). It is enough that files with one
id have one text, as they have if no two names of a directory look the same.
-/

namespace CodeSearch

namespace Indexer

open IndexStore (documentPointBy progress)

open LawfulVectorStore (fits kept)

/-! ### What happens to an index -/

/-- Something that happens to an index of a root. -/
inductive Event where
  /-- A run, which may be stopped. -/
  | run (w : Workspace) (e : Embedder) (allowed : Option Nat)
  /-- A file is indexed anew. -/
  | reindex (w : Workspace) (e : Embedder) (path : Path)
  /-- A file is dropped. -/
  | remove (path : Path)

namespace Event

/-- Whether an event takes the vectors that it gets from a function. -/
def Follows (g : String → Embedding) : Event → Prop
  | run _ e _ | reindex _ e _ => e.Follows g
  | remove _ => True

/-- The texts that an event reads and does not pass over. -/
def texts (i : Indexer) (root : Path) : Event → Set String
  | run w _ _ => i.textsOf w (i.filesOf w root)
  | reindex w _ path =>
    {content | ∃ id d, i.prepare w path id = .ok (.ready d) ∧ d.content = content}
  | remove _ => ∅

/-- The index after an event. -/
def after {σ : Type} [VectorStore σ] (i : Indexer) (root : Path) (s : σ) : Event → σ
  | run w e allowed => stateAfter (i.indexProject e w root allowed) s
  | reindex w e path => stateAfter (i.reindexFile e w root path) s
  | remove path => stateAfter (removeFile root path) s

end Event

section Events

variable {σ : Type} [VectorStore σ] [LawfulVectorStore σ] {s s' : σ} {i : Indexer} {e : Embedder}
  {g : String → Embedding} {w : Workspace} {root path : Path} {allowed : Option Nat}
  {existing : Table String} {texts : Set String} {n : Nat} {id content : String}

/-- **Whatever happens to an index, it stays complete.** -/
theorem Event.complete {ev : Event} (hfollows : ev.Follows g) (hg : ∀ t, (g t).length = n)
    (htexts : ev.texts i root ⊆ texts) (hs : Valid s)
    (hc : i.Complete g (kept σ) texts n (holdings s)) :
    Valid (ev.after i root s) ∧ i.Complete g (kept σ) texts n (holdings (ev.after i root s)) := by
  cases ev with
  | run w e allowed =>
    obtain ⟨o, s₁, hrun, -⟩ := indexProject_spec (hc.sound hs) i e w root allowed
    -- the state after the event is that of the run
    have hstate : stateAfter (i.indexProject e w root allowed) s = s₁ := by
      rw [stateAfter, hrun]
    change Valid (stateAfter (i.indexProject e w root allowed) s) ∧
      i.Complete g (kept σ) texts n (holdings (stateAfter (i.indexProject e w root allowed) s))
    rw [hstate]
    exact hc.indexProject hfollows hg hs htexts hrun
  | reindex w e path =>
    -- a single file
    obtain ⟨r, h, hends, hcases⟩ := reindexFile_cases i e w root path hs
    obtain ⟨hv, hh⟩ := IndexStore.stateAfter_of_ends hends
    refine ⟨hv, ?_⟩
    change i.Complete g (kept σ) texts n (holdings (stateAfter (i.reindexFile e w root path) s))
    rw [hh]
    -- the file was not touched, dropped or written
    rcases hcases with rfl | ⟨id, rfl⟩ | ⟨id, d, hready, rfl⟩
    · exact hc
    · exact hc.cleared id
    · have hcontent : d.content ∈ texts := htexts ⟨id, d, hready, rfl⟩
      obtain ⟨facts, hd⟩ := i.ready_eq hready rfl
      rw [hd]
      exact hc.after LawfulVectorStore.str?_kept hfollows hg hcontent facts
  | remove path =>
    obtain ⟨r, h, hends, hcases⟩ := removeFile_cases root path hs
    obtain ⟨hv, hh⟩ := IndexStore.stateAfter_of_ends hends
    refine ⟨hv, ?_⟩
    change i.Complete g (kept σ) texts n (holdings (stateAfter (removeFile root path) s))
    rw [hh]
    -- a file that was taken out was not stored, or its document is cleared
    rcases hcases with rfl | ⟨id, rfl⟩
    · exact hc
    · exact hc.cleared id

/-- The texts that are read in the course of events. -/
def textsRead (i : Indexer) (root : Path) (events : List Event) : Set String :=
  {content | ∃ ev ∈ events, content ∈ ev.texts i root}

/-- **A history of events leaves an index complete.** -/
theorem complete_of_events {events : List Event} (hfollows : ∀ ev ∈ events, ev.Follows g)
    (hg : ∀ t, (g t).length = n) (htexts : textsRead i root events ⊆ texts) (hs : Valid s)
    (hc : i.Complete g (kept σ) texts n (holdings s)) :
    Valid (events.foldl (Event.after i root) s) ∧
      i.Complete g (kept σ) texts n (holdings (events.foldl (Event.after i root) s)) := by
  induction events generalizing s with
  | nil => exact ⟨hs, hc⟩
  | cons ev events ih =>
    have hfirst : ev.texts i root ⊆ texts := fun c hc => htexts ⟨ev, List.mem_cons_self, hc⟩
    -- the first event leaves a complete index for the others
    obtain ⟨hs₁, hc₁⟩ := Event.complete (hfollows ev List.mem_cons_self) hg hfirst hs hc
    refine ih (fun ev' hev' => hfollows ev' (List.mem_cons_of_mem _ hev')) ?_ hs₁ hc₁
    rintro c ⟨ev', hev', hc'⟩
    exact htexts ⟨ev', List.mem_cons_of_mem _ hev', hc'⟩

/-! ### A run without failures -/

/-- Whether going through some files leaves a text under an id, whatever was stored before: the last file with the
id that is not passed over is read as the text, and so are the ones before it, unless every file is written. -/
def Leaves (i : Indexer) (w : Workspace) (fs : List IndexedFile) (id content : String) : Prop :=
  ∃ before f after, fs = before ++ f :: after ∧ f.id = id ∧
    (∃ d, i.prepare w f.path f.id = .ok (.ready d) ∧ d.content = content) ∧
    (∀ g ∈ after, g.id = id → ∀ d, i.prepare w g.path g.id ≠ .ok (.ready d)) ∧
    (i.index.skipUnchanged = false ∨
      ∀ g ∈ before, g.id = id → ∀ d, i.prepare w g.path g.id = .ok (.ready d) → d.content = content)

/-- Whether files of one id are read as one text. Two files can have one id if their names look the same. -/
def Agree (i : Indexer) (w : Workspace) (fs : List IndexedFile) : Prop :=
  ∀ f ∈ fs, ∀ g ∈ fs, f.id = g.id → ∀ d d', i.prepare w f.path f.id = .ok (.ready d) →
    i.prepare w g.path g.id = .ok (.ready d') → d.content = d'.content

/-- The text of a file is left under its id if every file with the id is read as that text. -/
theorem leaves_of_forall {fs : List IndexedFile} {f : IndexedFile} (hf : f ∈ fs) {d : Document}
    (hready : i.prepare w f.path f.id = .ok (.ready d))
    (hsame : ∀ g ∈ fs, g.id = f.id → ∀ d', i.prepare w g.path g.id = .ok (.ready d') → d'.content = d.content) :
    i.Leaves w fs f.id d.content := by
  obtain ⟨before, g, after, rfl, ⟨hid, d', hready'⟩, hafter⟩ :=
    exists_last (p := fun g => g.id = f.id ∧ ∃ d, i.prepare w g.path g.id = .ok (.ready d)) ⟨f, hf, rfl, d, hready⟩
  refine ⟨before, g, after, rfl, hid, ⟨d', hready', ?_⟩, fun g' hg' hid' d hd => ?_, Or.inr fun g' hg' => ?_⟩
  · exact hsame g (List.mem_append_right _ List.mem_cons_self) hid d' hready'
  · exact hafter g' hg' ⟨hid', d, hd⟩
  · exact hsame g' (List.mem_append_left _ hg')

/-- The text that is left under an id is that of every file with the id, if these are read as one. -/
theorem Agree.leaves {fs : List IndexedFile} (hagree : i.Agree w fs) {f : IndexedFile} (hf : f ∈ fs) {d : Document}
    (hready : i.prepare w f.path f.id = .ok (.ready d)) : i.Leaves w fs f.id d.content :=
  leaves_of_forall hf hready fun g hg hid d' hready' => hagree g hg f hf hid d' d hready' hready

/-- Where every file is written, or files of one id are read as one text, some text is left under the id of every
file that is not passed over. -/
theorem exists_leaves {fs : List IndexedFile} (hfs : i.index.skipUnchanged = false ∨ i.Agree w fs)
    {f : IndexedFile} (hf : f ∈ fs) {d : Document} (hready : i.prepare w f.path f.id = .ok (.ready d)) :
    ∃ content, i.Leaves w fs f.id content := by
  rcases hfs with hskip | hagree
  · -- the last file with the id is written over what the others leave
    obtain ⟨before, g, after, rfl, ⟨hid, d', hready'⟩, hafter⟩ :=
      exists_last (p := fun g => g.id = f.id ∧ ∃ d, i.prepare w g.path g.id = .ok (.ready d)) ⟨f, hf, rfl, d, hready⟩
    exact ⟨d'.content, before, g, after, rfl, hid, ⟨d', hready', rfl⟩,
      fun g' hg' hid' d hd => hafter g' hg' ⟨hid', d, hd⟩, Or.inl hskip⟩
  · exact ⟨_, hagree.leaves hf hready⟩

/-- Where no two names look the same no two files have one id, let alone two texts. -/
theorem agree_of_distinct (hw : w.WellNamed root) (hdistinct : w.Distinct root) : i.Agree w (i.filesOf w root) := by
  intro f hf g hg hid d d' hready hready'
  obtain rfl := eq_of_id_eq hw hdistinct hf hg hid
  rw [hready] at hready'
  cases hready'
  rfl

/-- The index holds the documents of the files of a root that are not passed over, and no others. -/
structure Settled (i : Indexer) (g : String → Embedding) (kept : Json → Json) (w : Workspace)
    (root : Path) (h : Holdings) : Prop where
  listed : ∀ id, (h.held? documentsCollection id).isSome ↔
    ∃ f ∈ i.filesOf w root, f.id = id ∧ ∃ d, i.prepare w f.path f.id = .ok (.ready d)
  texts : ∀ id content, i.Leaves w (i.filesOf w root) id content → i.HoldsText g kept h id content

/-- A file that is written leaves its text behind, unless it fails. -/
theorem holdsText_judge (he : e.Follows g) (hg : ∀ t, (g t).length = n) (hs : Valid s)
    (hc : i.Complete g (kept σ) texts n (holdings s)) {f : IndexedFile} {d : Document}
    (hready : i.prepare w f.path f.id = .ok (.ready d))
    (hu : i.isUnchanged existing f.id d = false)
    (hnone : (i.judge e w existing s f).1.failure? f.id = none) :
    i.HoldsText g (kept σ) (holdings (i.judge e w existing s f).2) f.id d.content := by
  obtain ⟨hv, hh⟩ := i.judge_of_ready e w existing hs hready hu
  rw [hv] at hnone
  -- the first two ways would have been reported
  rcases progress_of_complete (fits σ) he hg hc d f.id with ⟨cause, -, hp⟩ | ⟨-, cause, hp⟩ | hp
  · rw [hp] at hnone
    cases hnone
  · rw [hp] at hnone
    cases hnone
  · -- the whole document was written
    obtain ⟨facts, hd⟩ := i.ready_eq hready rfl
    refine ⟨facts, ?_⟩
    rw [hh, hp, IndexStore.Progress.after_stored, IndexStore.held?_replaced_self, ← hd]

/-- One of some texts that is stored, or that a file of a list is to be stored with, gives way only to another one of
them, if no file fails and all that come later with the id have such texts. -/
theorem exists_holdsText_judgeAll (he : e.Follows g) (hg : ∀ t, (g t).length = n) {fs : List IndexedFile}
    (htexts : i.textsOf w fs ⊆ texts) (hs : Valid s)
    (hc : i.Complete g (kept σ) texts n (holdings s))
    (hfails : ∀ f v, (f, v) ∈ (i.judgeAll e w existing fs s).1 → v.failure? f.id = none) {S : Set String}
    (h : (∃ c ∈ S, i.HoldsText g (kept σ) (holdings s) id c) ∧
        (∀ f ∈ fs, f.id = id → ∀ d, i.prepare w f.path f.id = .ok (.ready d) → d.content ∈ S) ∨
      ∃ before f after, fs = before ++ f :: after ∧ f.id = id ∧
        (∃ d, i.prepare w f.path f.id = .ok (.ready d) ∧ d.content ∈ S ∧
          i.isUnchanged existing f.id d = false) ∧
        ∀ g ∈ after, g.id = id → ∀ d, i.prepare w g.path g.id = .ok (.ready d) → d.content ∈ S) :
    ∃ c ∈ S, i.HoldsText g (kept σ) (holdings (i.judgeAll e w existing fs s).2) id c := by
  induction fs generalizing s with
  | nil =>
    -- without files the text is the one that was stored
    rcases h with ⟨h, -⟩ | ⟨before, f, after, hsplit, -⟩
    · exact h
    · cases before <;> cases hsplit
  | cons f fs ih =>
    have hrest : i.textsOf w fs ⊆ texts := by
      rintro c ⟨f', hf', hd⟩
      exact htexts ⟨f', List.mem_cons_of_mem _ hf', hd⟩
    have hcontent : ∀ d, i.prepare w f.path f.id = .ok (.ready d) → d.content ∈ texts :=
      fun d hready => htexts ⟨f, List.mem_cons_self, d, hready, rfl⟩
    -- a file with the id that is written leaves its text behind
    have hwrites : f.id = id → ∀ d, i.prepare w f.path f.id = .ok (.ready d) → d.content ∈ S →
        i.isUnchanged existing f.id d = false →
          ∃ c ∈ S, i.HoldsText g (kept σ) (holdings (i.judge e w existing s f).2) id c := by
      rintro rfl d hready hd hu
      exact ⟨_, hd, holdsText_judge he hg hs hc hready hu (hfails f _ List.mem_cons_self)⟩
    refine ih hrest (valid_judge i e w existing hs f) (hc.judge he hg hs hcontent)
      (fun f' v hv => hfails f' v (List.mem_cons_of_mem _ hv)) ?_
    rcases h with ⟨⟨c, hmem, h⟩, hread⟩ | ⟨before, f', after, hsplit, hid, ⟨d, hready, hd, hu⟩, hafter⟩
    · -- what is stored stays, or is written over with such a text
      refine Or.inl ⟨?_, fun f' hf' => hread f' (List.mem_cons_of_mem _ hf')⟩
      rcases i.holdings_judge_cases e w existing hs f with hh | ⟨d, hready, hu, -⟩
      · -- the file changes nothing
        exact ⟨c, hmem, h.congr (by rw [hh])⟩
      · by_cases hid : f.id = id
        · exact hwrites hid d hready (hread f List.mem_cons_self hid d hready) hu
        · -- a file with another id does not touch it
          exact ⟨c, hmem, h.congr (held?_judge i e w existing hs fun h => absurd h hid)⟩
    · cases before with
      | nil =>
        -- the file is the one that is written
        obtain ⟨rfl, rfl⟩ := List.cons.inj hsplit
        exact Or.inl ⟨hwrites hid d hready hd hu, hafter⟩
      | cons f'' before =>
        -- the file that is written comes later
        obtain ⟨-, rfl⟩ := List.cons.inj hsplit
        exact Or.inr ⟨before, f', after, rfl, hid, ⟨d, hready, hd, hu⟩, hafter⟩

/-- A run without failures fails for no file. -/
theorem failure?_of_mem_chronicle {o : IndexOutcome} (hcourse : i.IsRun e w root allowed s o s')
    (hfailures : o.report.failures = []) {f : IndexedFile} {v : Verdict}
    (hv : (f, v) ∈ i.chronicle e w root allowed s) : v.failure? f.id = none := by
  rw [hcourse.failures, List.filterMap_eq_nil_iff] at hfailures
  exact hfailures _ hv

/-- Such a run can read all its files. -/
theorem prepare_ne_error {o : IndexOutcome} (hcourse : i.IsRun e w root allowed s o s')
    (hfailures : o.report.failures = []) {f : IndexedFile} (hf : f ∈ i.taken w root allowed)
    (cause : FileError) : i.prepare w f.path f.id ≠ .error cause := by
  intro hprepare
  obtain ⟨v, hv⟩ := exists_mem_chronicle hf e s
  have hnone := failure?_of_mem_chronicle hcourse hfailures hv
  obtain ⟨as, bs, -, rfl, -⟩ := i.exists_split_of_mem_judgeAll e w (listedAt s) hv
  unfold judge at hnone
  rw [hprepare] at hnone
  cases hnone

/-- A file that is left alone has the text that is stored, as no two of the texts have one digest. -/
theorem Complete.holdsText_of_isUnchanged (hinj : Set.InjOn Digest.ofText texts) (hs : Valid s)
    (hc : i.Complete g (kept σ) texts n (holdings s)) {f : IndexedFile} {d : Document}
    (hready : i.prepare w f.path f.id = .ok (.ready d)) (hd : d.content ∈ texts)
    (hu : i.isUnchanged (listedAt s) f.id d = true) :
    i.HoldsText g (kept σ) (holdings s) f.id d.content := by
  obtain ⟨facts, hfacts⟩ := i.ready_eq hready rfl
  rw [isUnchanged, Bool.and_eq_true, beq_iff_eq, get?_listedAt (hc.sound hs), hfacts,
    Document.contentHash_withFacts, contentHash_textDocument] at hu
  obtain ⟨b, hb, -⟩ := Option.map_eq_some_iff.1 hu.2
  -- the document is that of some text, and is listed with the digest of that text
  obtain ⟨content, hcontent, htext, -⟩ := hc.documents f.id b hb
  have hdigest := (htext.listed LawfulVectorStore.str?_kept).symm.trans hu.2
  have hsame : content = d.content := hinj hcontent hd (Option.some.inj hdigest)
  rw [← hsame]
  exact htext

section Midway

variable (he : e.Follows g) (hg : ∀ t, (g t).length = n)
  (htexts : i.textsOf w (i.taken w root allowed) ⊆ texts) (hinj : Set.InjOn Digest.ofText texts)
  (hs : Valid s) (hc : i.Complete g (kept σ) texts n (holdings s))
  (hfails : ∀ f v, (f, v) ∈ i.chronicle e w root allowed s → v.failure? f.id = none)

include he hg htexts hinj hs hc hfails

/-- When a run has gone through its files without a failure, there is one of some texts under the id of a file that
is read as one of them, if the files after it are, and unless every file is written those before it. -/
theorem exists_holdsText_midway {before after : List IndexedFile} {f : IndexedFile}
    (hsplit : i.taken w root allowed = before ++ f :: after) {d : Document}
    (hready : i.prepare w f.path f.id = .ok (.ready d)) {S : Set String} (hd : d.content ∈ S)
    (hafter : ∀ g ∈ after, g.id = f.id → ∀ d, i.prepare w g.path g.id = .ok (.ready d) → d.content ∈ S)
    (hbefore : i.index.skipUnchanged = false ∨
      ∀ g ∈ before, g.id = f.id → ∀ d, i.prepare w g.path g.id = .ok (.ready d) → d.content ∈ S) :
    ∃ c ∈ S, i.HoldsText g (kept σ) (holdings (i.midway e w root allowed s)) f.id c := by
  have hf : f ∈ i.taken w root allowed := hsplit ▸ List.mem_append_right _ List.mem_cons_self
  refine exists_holdsText_judgeAll he hg htexts hs hc hfails ?_
  cases hu : i.isUnchanged (listedAt s) f.id d with
  -- the file is written
  | false => exact Or.inr ⟨before, f, after, hsplit, rfl, ⟨d, hready, hd, hu⟩, hafter⟩
  | true =>
    -- files are left alone, so the ones before matter as well
    have hskips : i.index.skipUnchanged = true := by
      rw [isUnchanged, Bool.and_eq_true] at hu
      exact hu.1
    have hbefore := hbefore.resolve_left (by rw [hskips]; exact Bool.noConfusion)
    refine Or.inl ⟨⟨_, hd, hc.holdsText_of_isUnchanged hinj hs hready (htexts ⟨f, hf, d, hready, rfl⟩) hu⟩, ?_⟩
    rw [hsplit]
    intro g hg
    rcases List.mem_append.1 hg with hg | hg
    · -- files before it
      exact hbefore g hg
    · rcases List.mem_cons.1 hg with rfl | hg
      · -- the file itself
        intro _ d' hready'
        rw [hready] at hready'
        cases hready'
        exact hd
      · -- files after it
        exact hafter g hg

/-- The text that the files leave under an id is there. -/
theorem holdsText_midway (hleaves : i.Leaves w (i.taken w root allowed) id content) :
    i.HoldsText g (kept σ) (holdings (i.midway e w root allowed s)) id content := by
  obtain ⟨before, f, after, hsplit, rfl, ⟨d, hready, hd⟩, hafter, hbefore⟩ := hleaves
  obtain ⟨c, rfl, htext⟩ := exists_holdsText_midway he hg htexts hinj hs hc hfails hsplit hready
    (S := {content}) hd (fun g hg hid d' hready' => absurd hready' (hafter g hg hid d')) hbefore
  exact htext

/-- There is some document under the id of every file that is not passed over. -/
theorem isSome_held?_midway {f : IndexedFile} (hf : f ∈ i.taken w root allowed) {d : Document}
    (hready : i.prepare w f.path f.id = .ok (.ready d)) :
    ((holdings (i.midway e w root allowed s)).held? documentsCollection f.id).isSome := by
  obtain ⟨before, after, hsplit⟩ := List.append_of_mem hf
  obtain ⟨c, -, htext⟩ := exists_holdsText_midway he hg htexts hinj hs hc hfails hsplit hready (S := Set.univ)
    trivial (fun _ _ _ _ _ => trivial) (Or.inr fun _ _ _ _ _ => trivial)
  exact htext.isSome

end Midway

/-- **A run that is not stopped and does not fail settles the index.** -/
theorem settled_of_run (he : e.Follows g) (hg : ∀ t, (g t).length = n)
    (htexts : i.textsOf w (i.filesOf w root) ⊆ texts) (hinj : Set.InjOn Digest.ofText texts)
    (hs : Valid s) (hc : i.Complete g (kept σ) texts n (holdings s))
    {o : IndexOutcome} (hrun : (i.indexProject e w root allowed).run s = .ok o s')
    (hcancelled : o.report.cancelled = false) (hfailures : o.report.failures = []) :
    i.Settled g (kept σ) w root (holdings s') := by
  have hsound := hc.sound hs
  have hcourse := IsRun.of_run hsound hrun
  have hstops : i.stops w root allowed = false := hcourse.cancelled.symm.trans hcancelled
  have htaken := taken_of_not_stops hstops
  rw [← htaken] at htexts
  -- the end of the run does not touch the documents of files that are not passed over
  have hkeeps : ∀ f ∈ i.filesOf w root, ∀ d, i.prepare w f.path f.id = .ok (.ready d) →
      (holdings s').held? documentsCollection f.id =
        (holdings (i.midway e w root allowed s)).held? documentsCollection f.id := by
    intro f hf d hready
    rw [hcourse.holdings_eq, held?_foldl_cleared_documents,
      if_neg (not_mem_dropped_of_ready hsound (htaken ▸ hf) hready)]
  have hfails : ∀ f v, (f, v) ∈ i.chronicle e w root allowed s → v.failure? f.id = none :=
    fun f v hv => failure?_of_mem_chronicle hcourse hfailures hv
  refine ⟨fun id => ⟨fun hsome => ?_, ?_⟩, fun id content hleaves => ?_⟩
  -- the documents are those of files that are ready
  · -- what no file is ready for was there from the start, and is dropped
    by_contra hno
    have hready : ∀ f ∈ i.taken w root allowed, f.id = id →
        ∀ d, i.prepare w f.path f.id ≠ .ok (.ready d) := by
      intro f hf hid d hready
      exact hno ⟨f, htaken ▸ hf, hid, d, hready⟩
    rw [hcourse.holdings_eq, held?_foldl_cleared_documents, midway,
      held?_judgeAll i e w _ hs hready] at hsome
    split at hsome
    · cases hsome
    · next hdropped =>
      refine hdropped ((mem_dropped_iff hsound).2 ⟨hstops, hsome, fun f v hv hid => ?_⟩)
      have hf := mem_taken_of_mem_chronicle hv
      rw [isSkipped_of_mem_chronicle hv]
      -- a file that is seen has been read
      cases hprepare : i.prepare w f.path f.id with
      | error cause => exact absurd hprepare (prepare_ne_error hcourse hfailures hf cause)
      | ok p =>
        cases p with
        | ready d => exact absurd hprepare (hready f hf hid d)
        | skipped reason => exact ⟨reason, rfl⟩
  · -- a file that is ready has a document
    rintro ⟨f, hf, rfl, d, hready⟩
    rw [hkeeps f hf d hready]
    exact isSome_held?_midway he hg htexts hinj hs hc hfails (htaken ▸ hf) hready
  · -- the text is the one that the files leave
    have hsome := hleaves
    obtain ⟨before, f, after, hsplit, rfl, ⟨d, hready, -⟩, -⟩ := hsome
    have hf : f ∈ i.filesOf w root := hsplit ▸ List.mem_append_right _ List.mem_cons_self
    rw [← htaken] at hleaves
    exact (holdsText_midway he hg htexts hinj hs hc hfails hleaves).congr (hkeeps f hf d hready)

/-! ### Two settled indexes -/

/-- Whether two stored documents differ at most in what is told about their files. -/
def Alike (b b' : PointBody) : Prop :=
  b.1 = b'.1 ∧ ∀ field, field ≠ "size" → field ≠ "modified" →
    Table.get? b.2 field = Table.get? b'.2 field

/-- Whether two indexes hold the same document under an id, with the same chunks. -/
structure SameDocument (h h' : Holdings) (id : String) : Prop where
  document : ∃ b b', h.held? documentsCollection id = some b ∧ h'.held? documentsCollection id = some b' ∧
    Alike b b'
  chunks : ∀ c b, Holdings.isPartOf id b = true →
    (h.held? chunksCollection c = some b ↔ h'.held? chunksCollection c = some b)

/-- Whether two indexes hold the same documents and the same chunks. -/
structure SameIndex (h h' : Holdings) : Prop where
  documents : ∀ id, h.held? documentsCollection id = none ∧ h'.held? documentsCollection id = none ∨
    ∃ b b', h.held? documentsCollection id = some b ∧ h'.held? documentsCollection id = some b' ∧
      Alike b b'
  chunks : h.held? chunksCollection = h'.held? chunksCollection

/-- Indexes that hold the same documents hold the same texts. -/
theorem SameIndex.content?_eq {h h' : Holdings} (hsame : SameIndex h h') (id : String) :
    h.content? id = h'.content? id := by
  rcases hsame.documents id with ⟨hb, hb'⟩ | ⟨b, b', hb, hb', -, hfields⟩
  · rw [Holdings.content?, Holdings.content?, hb, hb']
  · rw [Holdings.content?, Holdings.content?, hb, hb', Option.bind_some, Option.bind_some, Payload.text?,
      Payload.text?, hfields contentField (by decide) (by decide)]

section Agreement

variable {h h' : Holdings} {kept : Json → Json}

/-- Documents of one text are alike. -/
theorem HoldsText.alike (hd : i.HoldsText g kept h id content)
    (hd' : i.HoldsText g kept h' id content) :
    ∃ b b', h.held? documentsCollection id = some b ∧ h'.held? documentsCollection id = some b' ∧
      Alike b b' := by
  obtain ⟨facts, hb⟩ := hd
  obtain ⟨facts', hb'⟩ := hd'
  refine ⟨_, _, hb, hb', ?_, fun field hs hm => ?_⟩
  · rw [vector_bodyBy_withFacts, vector_bodyBy_withFacts]
  · rw [get?_bodyBy_withFacts hs hm, get?_bodyBy_withFacts hs hm]

/-- **Documents of one text are the same in complete indexes.** -/
theorem Complete.sameDocument (hkept : ∀ j, (kept j).str? = j.str?) (hc : i.Complete g kept texts n h)
    (hc' : i.Complete g kept texts n h') (hd : i.HoldsText g kept h id content)
    (hd' : i.HoldsText g kept h' id content) : SameDocument h h' id where
  document := hd.alike hd'
  chunks c b hpart := by
    -- the chunks are those of the text in both of them
    have hchunks := (hc.holdsChunks hkept hd).2 c b
    have hchunks' := (hc'.holdsChunks hkept hd').2 c b
    rw [and_iff_left hpart] at hchunks hchunks'
    exact hchunks.trans hchunks'.symm

/-- **Complete indexes are the same if their documents are.** -/
theorem Complete.sameIndex (hc : i.Complete g kept texts n h) (hc' : i.Complete g kept texts n h')
    (hsome : ∀ id, (h.held? documentsCollection id).isSome = (h'.held? documentsCollection id).isSome)
    (hsame : ∀ id, (h.held? documentsCollection id).isSome → SameDocument h h' id) : SameIndex h h' where
  documents := by
    intro id
    cases hb : h.held? documentsCollection id with
    | some b =>
      -- the document is in both
      obtain ⟨b₁, b', hb₁, hb', halike⟩ := (hsame id (by rw [hb]; rfl)).document
      rw [hb] at hb₁
      obtain rfl := Option.some.inj hb₁
      exact Or.inr ⟨b, b', rfl, hb', halike⟩
    | none =>
      -- it is in none
      refine Or.inl ⟨rfl, ?_⟩
      rw [← Option.isNone_iff_eq_none, ← Option.not_isSome, ← hsome id, hb]
      rfl
  chunks := by
    funext c
    ext b
    -- every chunk belongs to a document
    constructor
    · intro hb
      obtain ⟨id, hpart, hid⟩ := hc.chunks c b hb
      exact ((hsame id hid).chunks c b hpart).1 hb
    · intro hb
      obtain ⟨id, hpart, hid⟩ := hc'.chunks c b hb
      exact ((hsame id ((hsome id).trans hid)).chunks c b hpart).2 hb

/-- Complete indexes that have settled on the same files hold the same document wherever these leave one text. -/
theorem Settled.sameDocument (hkept : ∀ j, (kept j).str? = j.str?) (hc : i.Complete g kept texts n h)
    (hc' : i.Complete g kept texts n h') (hsettled : i.Settled g kept w root h)
    (hsettled' : i.Settled g kept w root h') (hleaves : i.Leaves w (i.filesOf w root) id content) :
    SameDocument h h' id :=
  hc.sameDocument hkept hc' (hsettled.texts id content hleaves) (hsettled'.texts id content hleaves)

/-- **They are the same** if every file is written, or if files of one id are read as one text. -/
theorem Settled.sameIndex (hkept : ∀ j, (kept j).str? = j.str?) (hc : i.Complete g kept texts n h)
    (hc' : i.Complete g kept texts n h') (hsettled : i.Settled g kept w root h)
    (hsettled' : i.Settled g kept w root h')
    (hfs : i.index.skipUnchanged = false ∨ i.Agree w (i.filesOf w root)) : SameIndex h h' := by
  refine hc.sameIndex hc' (fun id => ?_) fun id hid => ?_
  · -- both have documents for the same ids
    exact Bool.eq_iff_iff.2 ((hsettled.listed id).trans (hsettled'.listed id).symm)
  · -- for each of them the files leave one text
    obtain ⟨f, hf, rfl, d, hready⟩ := (hsettled.listed id).1 hid
    obtain ⟨content, hleaves⟩ := exists_leaves hfs hf hready
    exact hsettled.sameDocument hkept hc hc' hsettled' hleaves

end Agreement

/-! ### The first run over the same files -/

/-- **A first run over files that can be read does not fail**, if the embedder does not and there can be
vectors of its length. -/
theorem failures_of_first_run (hg : ∀ t, (g t).length = n)
    (htexts : i.textsOf w (i.filesOf w root) ⊆ texts)
    (hread : ∀ f ∈ i.filesOf w root, ∀ cause, i.prepare w f.path f.id ≠ .error cause)
    (hfits : ∀ f ∈ i.filesOf w root, ∀ d, i.prepare w f.path f.id = .ok (.ready d) →
      fits σ n = true) (hs : Valid s) (hc : i.Complete g (kept σ) texts n (holdings s))
    {o : IndexOutcome} (hcourse : i.IsRun (.ofFunction g) w root none s o s') :
    o.report.failures = [] := by
  rw [hcourse.failures, List.filterMap_eq_nil_iff]
  rintro ⟨f, v⟩ hv
  -- every verdict was given in some complete state
  obtain ⟨hf, t, ⟨ht, hct⟩, rfl⟩ :=
    (hc.judgeAll (Embedder.follows_ofFunction g) hg hs htexts).2 f v hv
  cases hprepare : i.prepare w f.path f.id with
  -- every file could be read
  | error cause => exact absurd hprepare (hread f hf cause)
  | ok p =>
    cases p with
    | skipped reason =>
      -- a file that is passed over is no failure
      have hskipped := (i.isSkipped_judge (.ofFunction g) w (listedAt s) t f).2 ⟨reason, hprepare⟩
      exact Verdict.failure?_of_isSkipped hskipped f.id
    | ready d =>
      cases hu : i.isUnchanged (listedAt s) f.id d with
      | true =>
        -- neither is one that is unchanged
        rw [i.judge_of_unchanged _ w _ hprepare hu]
        rfl
      | false =>
        -- nothing stands in the way of the writing
        rw [(i.judge_of_ready _ w _ ht hprepare hu).1]
        rw [progress_ofFunction hg hct (hfits f hf d hprepare)]
        rfl

/-- **So it settles the index**, which is empty at first. -/
theorem settled_of_first_run (hg : ∀ t, (g t).length = n) (hinj : Set.InjOn Digest.ofText texts)
    (htexts : i.textsOf w (i.filesOf w root) ⊆ texts)
    (hread : ∀ f ∈ i.filesOf w root, ∀ cause, i.prepare w f.path f.id ≠ .error cause)
    (hfits : ∀ f ∈ i.filesOf w root, ∀ d, i.prepare w f.path f.id = .ok (.ready d) → fits σ n = true) :
    ∃ o s₀, (i.indexProject (.ofFunction g) w root none).run (VectorStore.empty : σ) = .ok o s₀ ∧
      o.report.cancelled = false ∧ o.report.failures = [] ∧
        i.Complete g (kept σ) texts n (holdings s₀) ∧ i.Settled g (kept σ) w root (holdings s₀) := by
  have hvalid : Valid (VectorStore.empty : σ) := valid_empty
  have hfollows := Embedder.follows_ofFunction g
  have hempty : i.Complete g (kept σ) texts n (holdings (VectorStore.empty : σ)) := complete_of_empty
  -- the run comes to an end, without being stopped and without a failure
  obtain ⟨o, s₀, hrun, hcourse⟩ := indexProject_spec (hempty.sound hvalid) i (.ofFunction g) w root none
  have hcancelled := hcourse.cancelled_eq_false
  have hfailures := failures_of_first_run hg htexts hread hfits hvalid hempty hcourse
  exact ⟨o, s₀, hrun, hcancelled, hfailures, (hempty.indexProject hfollows hg hvalid htexts hrun).2,
    settled_of_run hfollows hg htexts hinj hvalid hempty hrun hcancelled hfailures⟩

/-- **Convergence.** All embedders of a history take their vectors from one function and all vectors have
one length, but any of them may fail for any text, and runs may be stopped. After a run that is not stopped
and reports no failure the documents are those of the files that the walk comes to, selected, neither binary nor
too large. A document is the one that a first run over the same files makes, with the same chunks, wherever the
files leave one text under its id (`Leaves`). So the index is the one that a first run makes if every file is
written, or if files of one id are read as one text, as they are where no two names look the same. -/
theorem indexProject_converges (hg : ∀ t, (g t).length = n) {events : List Event}
    (hfollows : ∀ ev ∈ events, ev.Follows g) (he : e.Follows g)
    (hinj : Set.InjOn Digest.ofText (textsRead i root events ∪ i.textsOf w (i.filesOf w root)))
    {o : IndexOutcome} (hrun : (i.indexProject e w root allowed).run
      (events.foldl (Event.after i root) (VectorStore.empty : σ)) = .ok o s')
    (hcancelled : o.report.cancelled = false) (hfailures : o.report.failures = []) :
    (∃ ids, IndexStore.documentIds s' = .ok ids ∧ ∀ id, id ∈ ids ↔
        ∃ f ∈ i.filesOf w root, f.id = id ∧ ∃ d, i.prepare w f.path f.id = .ok (.ready d)) ∧
      ∃ o₀ s₀, (i.indexProject (.ofFunction g) w root none).run (VectorStore.empty : σ) = .ok o₀ s₀ ∧
        o₀.report.cancelled = false ∧ o₀.report.failures = [] ∧
          (∀ id content, i.Leaves w (i.filesOf w root) id content →
            SameDocument (holdings s') (holdings s₀) id) ∧
          (i.index.skipUnchanged = false ∨ i.Agree w (i.filesOf w root) →
            SameIndex (holdings s') (holdings s₀)) := by
  have htexts : i.textsOf w (i.filesOf w root) ⊆
      textsRead i root events ∪ i.textsOf w (i.filesOf w root) := Set.subset_union_right
  -- the index is complete before the run and after it, and the run has settled it
  obtain ⟨hs, hc⟩ := complete_of_events (σ := σ) hfollows hg Set.subset_union_left valid_empty complete_of_empty
  obtain ⟨hs', hc'⟩ := hc.indexProject he hg hs htexts hrun
  have hsettled := settled_of_run he hg htexts hinj hs hc hrun hcancelled hfailures
  constructor
  · -- the ids
    obtain ⟨ids, hids, hmem⟩ := IndexStore.documentIds_spec (hc'.sound hs')
    exact ⟨ids, hids, fun id => (hmem id).trans (hsettled.listed id)⟩
  · -- the first run goes through the same files, which can be read and stored
    have hcourse := IsRun.of_run (hc.sound hs) hrun
    have htaken := taken_of_not_stops (hcourse.cancelled.symm.trans hcancelled)
    have hread : ∀ f ∈ i.filesOf w root, ∀ cause, i.prepare w f.path f.id ≠ .error cause := by
      intro f hf cause
      rw [← htaken] at hf
      exact prepare_ne_error hcourse hfailures hf cause
    obtain ⟨o₀, s₀, hrun₀, hcancelled₀, hfailures₀, hc₀, hsettled₀⟩ :=
      settled_of_first_run (σ := σ) hg hinj htexts hread fun f hf d hready =>
        hc'.fits_of_isSome hs' ((hsettled.listed f.id).2 ⟨f, hf, rfl, d, hready⟩)
    have hkept := LawfulVectorStore.str?_kept (σ := σ)
    exact ⟨o₀, s₀, hrun₀, hcancelled₀, hfailures₀,
      fun _ _ hleaves => hsettled.sameDocument hkept hc' hc₀ hsettled₀ hleaves,
      hsettled.sameIndex hkept hc' hc₀ hsettled₀⟩

end Events

/-! ### A history -/

section History

open IndexStore (failingEmbedder)

/-- Whether a run is neither refused nor stopped, and reports no failure. -/
def goesThrough (run : IndexAction Memory IndexOutcome) (s : Memory) : Bool :=
  match run.run s with
  | .ok o _ => !o.report.cancelled && o.report.failures.isEmpty
  | .error _ _ => false

theorem exists_outcome_of_goesThrough {run : IndexAction Memory IndexOutcome} {s : Memory}
    (h : goesThrough run s = true) :
    ∃ o, run.run s = .ok o (stateAfter run s) ∧ o.report.cancelled = false ∧ o.report.failures = [] := by
  unfold goesThrough at h
  unfold stateAfter
  cases hrun : run.run s with
  | error cause t =>
    -- what is refused does not go through
    rw [hrun] at h
    cases h
  | ok o t =>
    rw [hrun, Bool.and_eq_true, Bool.not_eq_true', List.isEmpty_iff] at h
    exact ⟨o, rfl, h.1, h.2⟩

/-- Every text has the same vector of length one. -/
def sameVector : String → Embedding := fun _ => [0]

/-- A directory with one file. -/
def projectWorkspace (bytes : List UInt8) : Workspace :=
  { entry? := fun path =>
      if path = ⟨"/p"⟩ then some (.directory (some [("b", .file)])) else some .file
    facts := fun _ => .ok { size := bytes.length, modified := none }
    read := fun _ => .ok bytes }

/-- The file is stored; a run over a new text of it fails; it is dropped, and stored with the old text. -/
def projectHistory : List Event :=
  [.run (projectWorkspace [120]) (.ofFunction sameVector) none,
    .run (projectWorkspace [120, 10, 121]) (failingEmbedder "timeout") none,
    .remove ⟨"/p/b"⟩,
    .reindex (projectWorkspace [120]) (.ofFunction sameVector) ⟨"/p/b"⟩]

/-- The index after the history. -/
def projectIndex : Memory := projectHistory.foldl (Event.after pairIndexer ⟨"/p"⟩) VectorStore.empty

/-- A run over the new text. -/
def projectRun : IndexAction Memory IndexOutcome :=
  pairIndexer.indexProject (.ofFunction sameVector) (projectWorkspace [120, 10, 121]) ⟨"/p"⟩ none

theorem projectRun_projectIndex : ∃ o, projectRun.run projectIndex =
    .ok o (stateAfter projectRun projectIndex) ∧
      o.report.cancelled = false ∧ o.report.failures = [] :=
  exists_outcome_of_goesThrough (by decide +kernel)

theorem wellNamed_project (bytes : List UInt8) : (projectWorkspace bytes).WellNamed ⟨"/p"⟩ :=
  Workspace.wellNamed_of_flat rfl (List.forall_mem_singleton.2 ⟨by decide, nofun⟩)

theorem distinct_project (bytes : List UInt8) : (projectWorkspace bytes).Distinct ⟨"/p"⟩ := by
  intro e he
  obtain rfl := Option.some.inj he
  refine Entry.distinct_directory (by decide) fun x hx => ?_
  obtain rfl := List.mem_singleton.1 hx
  exact Entry.distinct_leaf nofun

theorem content_project {bytes : List UInt8} {path : Path} {id : String} {d : Document}
    (h : pairIndexer.prepare (projectWorkspace bytes) path id = .ok (.ready d)) :
    d.content = Text.decodeLossy bytes := by
  obtain ⟨bytes', facts, hread, rfl⟩ := pairIndexer.prepare_ready h
  obtain rfl := Except.ok.inj hread
  rw [Document.content_withFacts, content_textDocument]

/-- Three short texts have different digests. -/
theorem injOn_digests : Set.InjOn Digest.ofText {c | c ∈ ["x", "y", "x\ny"]} := by
  have hdistinct : (["x", "y", "x\ny"].map Digest.ofText).Nodup := by decide +kernel
  exact fun _ ha _ hb h => List.inj_on_of_nodup_map hdistinct ha hb h

/-- The file has one of two of them. -/
theorem injOn_project : Set.InjOn Digest.ofText
    {Text.decodeLossy [120], Text.decodeLossy [120, 10, 121]} := by
  refine injOn_digests.mono ?_
  rintro _ (rfl | rfl)
  · exact (by decide : Text.decodeLossy [120] ∈ ["x", "y", "x\ny"])
  · exact (by decide : Text.decodeLossy [120, 10, 121] ∈ ["x", "y", "x\ny"])

/-- The run over the new text leaves the index that a first run would have made. -/
theorem converges_project : ∃ o₀ s₀, projectRun.run VectorStore.empty = .ok o₀ s₀ ∧
    SameIndex (holdings (stateAfter projectRun projectIndex)) (holdings s₀) := by
  obtain ⟨o, hrun, hcancelled, hfailures⟩ := projectRun_projectIndex
  have hfollows : ∀ ev ∈ projectHistory, ev.Follows sameVector := by
    simp only [projectHistory, List.forall_mem_cons]
    exact ⟨Embedder.follows_ofFunction _, nofun, trivial, Embedder.follows_ofFunction _, nofun⟩
  have htexts : textsRead pairIndexer ⟨"/p"⟩ projectHistory ∪
      pairIndexer.textsOf (projectWorkspace [120, 10, 121])
        (pairIndexer.filesOf (projectWorkspace [120, 10, 121]) ⟨"/p"⟩) ⊆
      {Text.decodeLossy [120], Text.decodeLossy [120, 10, 121]} := by
    rintro c (⟨ev, hev, hc⟩ | ⟨f, -, d, hready, rfl⟩)
    · -- each event of the history reads one of the two texts
      simp only [projectHistory, List.mem_cons, List.not_mem_nil, or_false] at hev
      rcases hev with rfl | rfl | rfl | rfl
      · -- the first run reads the first text
        obtain ⟨f, -, d, hready, rfl⟩ := hc
        exact Or.inl (content_project hready)
      · -- the second run reads the second one
        obtain ⟨f, -, d, hready, rfl⟩ := hc
        exact Or.inr (content_project hready)
      · -- a file that is taken out is not read
        cases hc
      · -- the last event reads the first text again
        obtain ⟨id, d, hready, rfl⟩ := hc
        exact Or.inl (content_project hready)
    · exact Or.inr (content_project hready)
  obtain ⟨-, o₀, s₀, hrun₀, -, -, -, hsame⟩ := indexProject_converges (σ := Memory) (n := 1)
    (fun _ => rfl) hfollows (Embedder.follows_ofFunction sameVector)
    (injOn_project.mono htexts) hrun hcancelled hfailures
  exact ⟨o₀, s₀, hrun₀, hsame (Or.inr (agree_of_distinct (wellNamed_project _) (distinct_project _)))⟩

end History

/-! ### Names that look the same -/

section Lookalikes

/-- The two files, with different texts. -/
def lookalikeTexts (path : Path) : Except FileError (List UInt8) :=
  .ok [if path = lookalikeFile.path then 120 else 121]

/-- A run over the two files. -/
def lookalikeRun : IndexAction Memory IndexOutcome :=
  pairIndexer.indexProject (.ofFunction sameVector) (lookalikeWorkspace lookalikeTexts) ⟨"/p"⟩ none

/-- A first run leaves the text of the second file. Then the first one is written, and the second one left alone,
without a failure. -/
theorem outcome_lookalikes :
    (holdings (stateAfter lookalikeRun VectorStore.empty)).content? "a\uFFFD" = some "y" ∧
      (holdings (stateAfter lookalikeRun (stateAfter lookalikeRun VectorStore.empty))).content? "a\uFFFD" =
        some "x" ∧ goesThrough lookalikeRun (stateAfter lookalikeRun VectorStore.empty) = true := by
  rw [lookalikeRun, indexProject, filesOf_lookalikes rfl]
  decide +kernel

theorem injOn_lookalikes : Set.InjOn Digest.ofText
    (pairIndexer.textsOf (lookalikeWorkspace lookalikeTexts)
      (pairIndexer.filesOf (lookalikeWorkspace lookalikeTexts) ⟨"/p"⟩)) := by
  -- each of the two files is read as one of two texts
  refine injOn_digests.mono ?_
  rintro c ⟨f, -, d, hready, rfl⟩
  obtain ⟨bytes, facts, hread, rfl⟩ := pairIndexer.prepare_ready hready
  obtain rfl := Except.ok.inj hread
  rw [Document.content_withFacts, content_textDocument]
  split
  · exact (by decide : Text.decodeLossy [120] ∈ ["x", "y", "x\ny"])
  · exact (by decide : Text.decodeLossy [121] ∈ ["x", "y", "x\ny"])

end Lookalikes

/-! ### A file behind a link -/

section Linked

/-- A directory with a link to another directory in it, and one file below that one once it is written. -/
def linkedWorkspace (written : Bool) : Workspace :=
  { entry? := fun path => if path = ⟨"/p"⟩ then some (.directory (some [("link", .other)])) else none
    facts := fun path =>
      if written ∧ path = ⟨"/p/link/x"⟩ then .ok { size := 1, modified := none } else .error .notFound
    read := fun path => if written ∧ path = ⟨"/p/link/x"⟩ then .ok [120] else .error .notFound }

/-- A run over the directory. -/
def linkedRun (written : Bool) : IndexAction Memory IndexOutcome :=
  pairIndexer.indexProject (.ofFunction sameVector) (linkedWorkspace written) ⟨"/p"⟩ none

theorem wellNamed_linked (written : Bool) : (linkedWorkspace written).WellNamed ⟨"/p"⟩ :=
  Workspace.wellNamed_of_flat rfl (List.forall_mem_singleton.2 ⟨by decide, nofun⟩)

end Linked

/-- **Ids and selectors do not see all that a walk does.** Two files whose names look the same take turns under their
one id, so that a second run over the same files leaves another text than the first one. And a file behind a link to a
directory is accepted by its path, but a run does not come to it. -/
theorem indexProject_not_converges :
    (¬∀ (i : Indexer) (g : String → Embedding) (n : ℕ) (w : Workspace) (root : Path) (o : IndexOutcome) (s : Memory),
      (∀ t, (g t).length = n) → w.WellNamed root → w.isDirectory root = true →
      Set.InjOn Digest.ofText (i.textsOf w (i.filesOf w root)) →
      (i.indexProject (.ofFunction g) w root none).run
        ((Event.run w (.ofFunction g) none).after i root VectorStore.empty) = .ok o s →
      o.report.cancelled = false → o.report.failures = [] →
      SameIndex (holdings s)
        (holdings (stateAfter (i.indexProject (.ofFunction g) w root none) (VectorStore.empty : Memory)))) ∧
    ¬∀ (i : Indexer) (g : String → Embedding) (w : Workspace) (root : Path) (o : IndexOutcome) (s : Memory)
      (id : String) (d : Document), w.WellNamed root → w.isDirectory root = true →
      (i.indexProject (.ofFunction g) w root none).run VectorStore.empty = .ok o s →
      o.report.cancelled = false → o.report.failures = [] →
      i.selector.accepts root (root.join ⟨id⟩) = true → i.prepare w (root.join ⟨id⟩) id = .ok (.ready d) →
      ∃ ids, IndexStore.documentIds s = .ok ids ∧ id ∈ ids := by
  constructor
  · intro h
    obtain ⟨hfirst, hsecond, hgoes⟩ := outcome_lookalikes
    -- the second run over the two files goes through
    obtain ⟨o, hrun, hcancelled, hfailures⟩ := exists_outcome_of_goesThrough hgoes
    have hsame : SameIndex (holdings (stateAfter lookalikeRun (stateAfter lookalikeRun VectorStore.empty)))
        (holdings (stateAfter lookalikeRun VectorStore.empty)) :=
      h pairIndexer sameVector 1 (lookalikeWorkspace lookalikeTexts) ⟨"/p"⟩ o _ (fun _ => rfl)
        wellNamed_lookalikes rfl injOn_lookalikes hrun hcancelled hfailures
    -- but the texts under their id are different
    rw [hsame.content?_eq, hfirst] at hsecond
    exact absurd hsecond (by decide)
  · intro h
    have hgoes : goesThrough (linkedRun true) VectorStore.empty = true := by decide +kernel
    have hnone : (IndexStore.documentIds (stateAfter (linkedRun true) VectorStore.empty)).toOption = some [] := by
      decide +kernel
    obtain ⟨o, hrun, hcancelled, hfailures⟩ := exists_outcome_of_goesThrough hgoes
    obtain ⟨ids, hids, hmem⟩ := h pairIndexer sameVector (linkedWorkspace true) ⟨"/p"⟩ o _ "link/x" _
      (wellNamed_linked true) rfl hrun hcancelled hfailures (by decide) rfl
    -- the walk passes the link over, so there is no document at all
    rw [hids] at hnone
    obtain rfl : ids = [] := Option.some.inj hnone
    cases hmem

end Indexer

end CodeSearch
