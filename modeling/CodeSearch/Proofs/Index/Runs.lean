import CodeSearch.Index.Run
import CodeSearch.Proofs.Index.Documents

/-!
# Indexing runs, file by file

A run gives every file that it goes through a `Verdict`. The verdicts and the states between them do not
depend on what the run has counted (`Indexer.indexFile_eq`), so a run is its *chronicle*, the list of its
files with their verdicts, and the report is read off that (`Indexer.IsRun`).

A verdict changes the store only if the file is written (`Indexer.judge_cases`), and then only what is
stored under its id and under the ids of its chunks. Lengths of collections never change once they are
there (`grows_judge`).

What a run leaves behind is what its files left behind without the documents that it drops, those with ids
that it has not seen (`mem_dropped_iff`).
-/

namespace CodeSearch

/-- What becomes of a file in a run. -/
inductive Verdict where
  /-- It cannot be read. -/
  | unread (cause : FileError)
  /-- It is passed over. -/
  | skipped
  /-- It is left alone, as its text is the stored one. -/
  | unchanged (m : Metadata)
  /-- It is stored anew. -/
  | indexed (m : Metadata) (chunks : Nat)
  /-- It cannot be stored. -/
  | failed (cause : IndexError)

namespace Verdict

/-- What a verdict reports as failed. -/
def failure? (id : String) : Verdict → Option RunFailure
  | unread cause => some { id, cause := .file cause }
  | failed cause => some { id, cause }
  | skipped | unchanged _ | indexed .. => none

/-- Why the file cannot be stored. -/
def cause? : Verdict → Option IndexError
  | failed cause => some cause
  | unread _ | skipped | unchanged _ | indexed .. => none

theorem cause?_eq_some_iff {v : Verdict} {cause : IndexError} :
    v.cause? = some cause ↔ v = failed cause := by
  cases v with
  | failed c => exact ⟨fun h => congrArg failed (Option.some.inj h), fun h => by cases h; rfl⟩
  | unread _ => exact ⟨nofun, nofun⟩
  | skipped => exact ⟨nofun, nofun⟩
  | unchanged _ => exact ⟨nofun, nofun⟩
  | indexed _ _ => exact ⟨nofun, nofun⟩

/-- The facts about the document that is stored after it. -/
def document? : Verdict → Option Metadata
  | unchanged m | indexed m _ => some m
  | unread _ | skipped | failed _ => none

/-- Whether the file was passed over. -/
def isSkipped : Verdict → Bool
  | skipped => true
  | unread _ | unchanged _ | indexed .. | failed _ => false

/-- A file that is passed over is not reported as failed. -/
theorem failure?_of_isSkipped {v : Verdict} (h : v.isSkipped = true) (id : String) :
    v.failure? id = none := by
  cases v with
  | skipped => rfl
  | unread _ => cases h
  | unchanged _ => cases h
  | indexed _ _ => cases h
  | failed _ => cases h

/-- Whether the document of a file was stored. -/
def isIndexed : Verdict → Bool
  | indexed .. => true
  | unread _ | skipped | unchanged _ | failed _ => false

/-- Whether the file was left alone. -/
def isUnchanged : Verdict → Bool
  | unchanged _ => true
  | unread _ | skipped | indexed .. | failed _ => false

end Verdict

/-- The verdict on a document whose writing comes so far. -/
def IndexStore.Progress.verdict (m : Metadata) : IndexStore.Progress → Verdict
  | .unembedded cause | .refused cause | .halved _ cause => .failed cause
  | .stored _ ps => .indexed m ps.length

/-- The files of a run with their verdicts. -/
abbrev Chronicle := List (IndexedFile × Verdict)

namespace IndexOutcome

/-- The outcome with a verdict noted. -/
def note (o : IndexOutcome) (e : IndexedFile × Verdict) : IndexOutcome :=
  match e.2 with
  | .unread cause => (o.scan.see e.1.id).fail e.1.id (.file cause)
  | .skipped => o.scan.skip
  | .unchanged m => (o.scan.see e.1.id).leave m
  | .indexed m chunks => (o.scan.see e.1.id).store m chunks
  | .failed cause => (o.scan.see e.1.id).fail e.1.id cause

section Note

variable (o : IndexOutcome) (c : Chronicle)

/-- The failures are those that the verdicts report. -/
theorem failures_foldl_note :
    (c.foldl note o).report.failures =
      o.report.failures ++ c.filterMap fun e => e.2.failure? e.1.id := by
  induction c generalizing o with
  | nil => rw [List.foldl_nil, List.filterMap_nil, List.append_nil]
  | cons e c ih =>
    rw [List.foldl_cons, ih]
    obtain ⟨f, v⟩ := e
    -- only failures are added
    cases v with
    | unread cause => exact List.append_assoc _ [_] _
    | failed cause => exact List.append_assoc _ [_] _
    | skipped => rfl
    | unchanged m => rfl
    | indexed m n => rfl

/-- Seen are the ids of all files that were not passed over. -/
theorem seen_foldl_note :
    (c.foldl note o).seen = o.seen ++ (c.filter (!·.2.isSkipped)).map (·.1.id) := by
  induction c generalizing o with
  | nil => rw [List.foldl_nil, List.filter_nil, List.map_nil, List.append_nil]
  | cons e c ih =>
    rw [List.foldl_cons, ih]
    obtain ⟨f, v⟩ := e
    cases v with
    -- only a file that was passed over is not seen
    | skipped => rfl
    | unread cause => exact List.append_assoc _ [_] _
    | failed cause => exact List.append_assoc _ [_] _
    | unchanged m => exact List.append_assoc _ [_] _
    | indexed m n => exact List.append_assoc _ [_] _

/-- The files that were left alone are counted. -/
theorem unchanged_foldl_note :
    (c.foldl note o).report.unchanged = o.report.unchanged + c.countP (·.2.isUnchanged) := by
  induction c generalizing o with
  | nil => rfl
  | cons e c ih =>
    rw [List.foldl_cons, ih, List.countP_cons]
    obtain ⟨f, v⟩ := e
    cases v with
    -- only such a file is counted
    | unchanged m => exact (Nat.add_assoc _ 1 _).trans (congrArg _ (Nat.add_comm 1 _))
    | skipped => rfl
    | unread cause => rfl
    | failed cause => rfl
    | indexed m n => rfl

/-- The documents are those that the verdicts tell. -/
theorem documents_foldl_note :
    (c.foldl note o).documents = o.documents ++ c.filterMap (·.2.document?) := by
  induction c generalizing o with
  | nil => rw [List.foldl_nil, List.filterMap_nil, List.append_nil]
  | cons e c ih =>
    rw [List.foldl_cons, ih]
    obtain ⟨f, v⟩ := e
    cases v with
    -- only files that are up to date or were stored tell of a document
    | unchanged m => exact List.append_assoc _ [_] _
    | indexed m n => exact List.append_assoc _ [_] _
    | skipped => rfl
    | unread cause => rfl
    | failed cause => rfl

/-- Verdicts do not stop a run. -/
theorem cancelled_foldl_note : (c.foldl note o).report.cancelled = o.report.cancelled := by
  induction c generalizing o with
  | nil => rfl
  | cons e c ih =>
    rw [List.foldl_cons, ih]
    obtain ⟨f, v⟩ := e
    cases v <;> rfl

/-- Verdicts drop no documents. -/
theorem removed_foldl_note : (c.foldl note o).report.removed = o.report.removed := by
  induction c generalizing o with
  | nil => rfl
  | cons e c ih =>
    rw [List.foldl_cons, ih]
    obtain ⟨f, v⟩ := e
    cases v <;> rfl

end Note

end IndexOutcome

namespace Indexer

open IndexStore (Reachable Sound progress listedText)

variable {σ : Type} [VectorStore σ]

section Chronicles

variable (i : Indexer) (e : Embedder) (w : Workspace) (existing : Table String)

/-- The verdict on a file, and the state after it. -/
def judge (s : σ) (f : IndexedFile) : Verdict × σ :=
  match i.prepare w f.path f.id with
  | .error cause => (.unread cause, s)
  | .ok (.skipped _) => (.skipped, s)
  | .ok (.ready d) =>
    if i.isUnchanged existing f.id d then (.unchanged d.metadata, s)
    else match (IndexStore.writeDocument e f.id d).run s with
      | .ok chunks s => (.indexed d.metadata chunks, s)
      | .error cause s => (.failed cause, s)

/-- A file with the stored text is left alone. -/
theorem judge_of_unchanged {f : IndexedFile} {d : Document}
    (hready : i.prepare w f.path f.id = .ok (.ready d))
    (hu : i.isUnchanged existing f.id d = true) (s : σ) :
    i.judge e w existing s f = (.unchanged d.metadata, s) := by
  unfold judge
  rw [hready]
  dsimp only
  rw [if_pos hu]

/-- A document is told of by its own facts. -/
theorem exists_document_judge {s : σ} {f : IndexedFile} {m : Metadata}
    (h : (i.judge e w existing s f).1.document? = some m) :
    ∃ d, i.prepare w f.path f.id = .ok (.ready d) ∧ d.metadata = m := by
  unfold judge at h
  cases hprepare : i.prepare w f.path f.id with
  | error cause =>
    -- a file that was not read has no document
    rw [hprepare] at h
    cases h
  | ok p =>
    rw [hprepare] at h
    cases p with
    | skipped reason => cases h
    | ready d =>
      refine ⟨d, rfl, ?_⟩
      dsimp only at h
      -- the document is unchanged, or it was stored
      split at h
      · exact Option.some.inj h
      · split at h
        · exact Option.some.inj h
        · cases h

/-- Whether a file is passed over is seen from the file alone. -/
theorem isSkipped_judge (s : σ) (f : IndexedFile) :
    (i.judge e w existing s f).1.isSkipped = true ↔
      ∃ reason, i.prepare w f.path f.id = .ok (.skipped reason) := by
  unfold judge
  cases i.prepare w f.path f.id with
  | error cause => exact ⟨nofun, nofun⟩
  | ok p =>
    cases p with
    | skipped reason => exact ⟨fun _ => ⟨reason, rfl⟩, fun _ => rfl⟩
    | ready d =>
      dsimp only
      -- a file that is ready is not passed over, whatever becomes of it
      split
      · exact ⟨nofun, nofun⟩
      · cases (IndexStore.writeDocument e f.id d).run s with
        | ok n s' => exact ⟨nofun, nofun⟩
        | error cause s' => exact ⟨nofun, nofun⟩

/-- The verdicts on files in turn, and the state after them. -/
def judgeAll : List IndexedFile → σ → Chronicle × σ
  | [], s => ([], s)
  | f :: fs, s =>
    let v := i.judge e w existing s f
    let r := judgeAll fs v.2
    ((f, v.1) :: r.1, r.2)

/-- **Going through a file is giving it a verdict and noting it.** -/
theorem indexFile_eq (o : IndexOutcome) (s : σ) (f : IndexedFile) :
    i.indexFile e w existing (o, s) f =
      (o.note (f, (i.judge e w existing s f).1), (i.judge e w existing s f).2) := by
  unfold indexFile judge
  -- both go the same way
  cases i.prepare w f.path f.id with
  | error cause => rfl
  | ok p =>
    cases p with
    | skipped reason => rfl
    | ready d =>
      dsimp only
      split
      · rfl
      · cases (IndexStore.writeDocument e f.id d).run s <;> rfl

/-- Going through files is noting the verdicts on them. -/
theorem foldl_indexFile (fs : List IndexedFile) (o : IndexOutcome) (s : σ) :
    fs.foldl (i.indexFile e w existing) (o, s) =
      ((i.judgeAll e w existing fs s).1.foldl IndexOutcome.note o,
        (i.judgeAll e w existing fs s).2) := by
  induction fs generalizing o s with
  | nil => rfl
  | cons f fs ih =>
    rw [List.foldl_cons, indexFile_eq, ih]
    rfl

/-- Every file has its verdict. -/
theorem map_fst_judgeAll (fs : List IndexedFile) (s : σ) :
    (i.judgeAll e w existing fs s).1.map Prod.fst = fs := by
  induction fs generalizing s with
  | nil => rfl
  | cons f fs ih => exact congrArg (f :: ·) (ih _)

/-- **What every verdict preserves holds after a run**, and every verdict is given in a state in which
it holds. -/
theorem judgeAll_invariant {P : σ → Prop} {fs : List IndexedFile}
    (hstep : ∀ f ∈ fs, ∀ s, P s → P (i.judge e w existing s f).2) {s : σ} (hs : P s) :
    P (i.judgeAll e w existing fs s).2 ∧
      ∀ f v, (f, v) ∈ (i.judgeAll e w existing fs s).1 →
        f ∈ fs ∧ ∃ s', P s' ∧ v = (i.judge e w existing s' f).1 := by
  induction fs generalizing s with
  | nil => exact ⟨hs, fun f v h => by cases h⟩
  | cons f fs ih =>
    obtain ⟨hend, hall⟩ := ih (fun f' hf' => hstep f' (List.mem_cons_of_mem _ hf'))
      (hstep f List.mem_cons_self s hs)
    refine ⟨hend, fun f' v h => ?_⟩
    rcases List.mem_cons.1 h with h | h
    · -- the first verdict is given in the state at the start
      obtain ⟨rfl, rfl⟩ := Prod.mk.inj h
      exact ⟨List.mem_cons_self, s, hs, rfl⟩
    · -- the later ones are given in states that come after it
      obtain ⟨hf', hv⟩ := hall f' v h
      exact ⟨List.mem_cons_of_mem _ hf', hv⟩

/-- The state in which a file is judged divides a run. -/
theorem exists_split_of_mem_judgeAll {fs : List IndexedFile} {s : σ} {f : IndexedFile} {v : Verdict}
    (h : (f, v) ∈ (i.judgeAll e w existing fs s).1) :
    ∃ as bs, fs = as ++ f :: bs ∧
      v = (i.judge e w existing (i.judgeAll e w existing as s).2 f).1 ∧
      (i.judgeAll e w existing fs s).2 = (i.judgeAll e w existing bs
        (i.judge e w existing (i.judgeAll e w existing as s).2 f).2).2 := by
  induction fs generalizing s with
  | nil => cases h
  | cons g fs ih =>
    -- the file is the first one, or the run is divided after it
    rcases List.mem_cons.1 h with h | h
    · obtain ⟨rfl, rfl⟩ := Prod.mk.inj h
      exact ⟨[], fs, rfl, rfl, rfl⟩
    · obtain ⟨as, bs, rfl, hv, hend⟩ := ih h
      exact ⟨g :: as, bs, rfl, hv, hend⟩

end Chronicles

/-! ### The course of a run -/

section Course

variable (i : Indexer) (e : Embedder) (w : Workspace) (root : Path) (allowed : Option Nat)

/-- The digests that a run finds listed at its start. -/
def listedAt (s : σ) : Table String := (IndexStore.documentFields s contentHashField).toOption.getD []

/-- The files that a run goes through. -/
def taken : List IndexedFile := allowed.elim (i.filesOf w root) (i.filesOf w root).take

/-- Whether a run stops before its end. -/
def stops : Bool := decide ((i.taken w root allowed).length < (i.filesOf w root).length)

/-- What becomes of the files of a run. -/
def chronicle (s : σ) : Chronicle := (i.judgeAll e w (listedAt s) (i.taken w root allowed) s).1

/-- The state in which a run has gone through its files. -/
def midway (s : σ) : σ := (i.judgeAll e w (listedAt s) (i.taken w root allowed) s).2

/-- The outcome of a run, and the state in which it ends. -/
def ending (s : σ) : IndexOutcome × σ :=
  finish (listedAt s) (i.stops w root allowed)
    ((i.chronicle e w root allowed s).foldl IndexOutcome.note {}, i.midway e w root allowed s)

/-- The documents that a run drops at its end. -/
def dropped (s : σ) : List String :=
  if i.stops w root allowed then []
  else staleIds (listedAt s) ((i.chronicle e w root allowed s).foldl IndexOutcome.note {})

end Course

/-! ### Runs and reachable states -/

section Reachable

variable {s : σ}

theorem writeDocument_run (e : Embedder) (id : String) (d : Document) (s : σ) :
    (IndexStore.writeDocument e id d).run s =
      match d.records e id with
      | .error cause => .error cause s
      | .ok (whole, parts) => (IndexStore.replaceDocument e whole parts).run s := by
  unfold IndexStore.writeDocument
  cases d.records e id <;> rfl

/-- Writing a document is an operation on the index, or nothing. -/
theorem reachable_writeDocument (hs : Reachable s) (e : Embedder) (id : String) (d : Document) :
    Reachable (stateAfter (IndexStore.writeDocument e id d) s) := by
  have hrun := writeDocument_run e id d s
  unfold stateAfter
  rw [hrun]
  cases d.records e id with
  | error cause => exact hs
  | ok r => exact hs.after (.replaceDocument e r.1 r.2)

/-- Judging a file leads from reachable states to reachable ones. -/
theorem reachable_judge (hs : Reachable s) (i : Indexer) (e : Embedder) (w : Workspace)
    (existing : Table String) (f : IndexedFile) :
    Reachable (i.judge e w existing s f).2 := by
  unfold judge
  -- only a file that is ready and changed is written
  cases i.prepare w f.path f.id with
  | error cause => exact hs
  | ok p =>
    cases p with
    | skipped reason => exact hs
    | ready d =>
      dsimp only
      split
      · exact hs
      · -- whether the writing succeeds or fails, it leads on
        have hwrite := reachable_writeDocument hs e f.id d
        unfold stateAfter at hwrite
        cases hrun : (IndexStore.writeDocument e f.id d).run s with
        | ok n s' =>
          rw [hrun] at hwrite
          exact hwrite
        | error cause s' =>
          rw [hrun] at hwrite
          exact hwrite

theorem reachable_judgeAll (hs : Reachable s) (i : Indexer) (e : Embedder) (w : Workspace)
    (existing : Table String) (fs : List IndexedFile) :
    Reachable (i.judgeAll e w existing fs s).2 := by
  induction fs generalizing s with
  | nil => exact hs
  | cons f fs ih => exact ih (reachable_judge hs i e w existing f)

/-- Dropping documents leads from reachable states to reachable ones. -/
theorem reachable_foldl_dropStale (hs : Reachable s) (o : IndexOutcome) (ids : List String) :
    Reachable (ids.foldl dropStale (o, s)).2 := by
  induction ids generalizing o s with
  | nil => exact hs
  | cons id ids ih =>
    -- whether the deletion succeeds or fails, it leads on
    have hdel := hs.after (.deleteDocument id)
    change Reachable (stateAfter (IndexStore.deleteDocument id) s) at hdel
    unfold stateAfter at hdel
    rw [List.foldl_cons, dropStale]
    dsimp only
    cases hrun : (IndexStore.deleteDocument id).run s with
    | ok n s' =>
      rw [hrun] at hdel
      exact ih hdel _
    | error cause s' =>
      rw [hrun] at hdel
      exact ih hdel _

/-- **A run leads from reachable states to reachable ones.** -/
theorem reachable_indexProject (hs : Reachable s) (i : Indexer) (e : Embedder) (w : Workspace)
    (root : Path) (allowed : Option Nat) :
    Reachable (stateAfter (i.indexProject e w root allowed) s) := by
  unfold stateAfter
  simp only [indexProject, EStateM.run, bind, EStateM.bind, get, getThe, MonadStateOf.get,
    get_apply]
  -- a run that cannot list the digests does nothing
  cases IndexStore.documentFields s contentHashField with
  | error cause => exact hs
  | ok t =>
    -- otherwise it goes through its files, and drops documents if it was not stopped
    change Reachable (finish t (i.stops w root allowed)
      ((i.taken w root allowed).foldl (i.indexFile e w t) ({}, s))).2
    rw [foldl_indexFile, finish]
    have hmid := reachable_judgeAll hs i e w t (i.taken w root allowed)
    split
    · exact hmid
    · exact reachable_foldl_dropStale hmid _ _

end Reachable

/-! ### How files are judged -/

variable [LawfulVectorStore σ] {s s' : σ}

open LawfulVectorStore (fits kept)

section Judge

variable (i : Indexer) (e : Embedder) (w : Workspace) (existing : Table String)

/-- **How a file is judged.** Nothing is written unless the file is read, is not passed over and has
another text than the stored one. -/
theorem judge_cases (hs : Valid s) (f : IndexedFile) :
    Valid (i.judge e w existing s f).2 ∧
    ((∃ cause, i.prepare w f.path f.id = .error cause ∧
        i.judge e w existing s f = (.unread cause, s)) ∨
      (∃ reason, i.prepare w f.path f.id = .ok (.skipped reason) ∧
        i.judge e w existing s f = (.skipped, s)) ∨
      ∃ d, i.prepare w f.path f.id = .ok (.ready d) ∧
        ((i.isUnchanged existing f.id d = true ∧
            i.judge e w existing s f = (.unchanged d.metadata, s)) ∨
          i.isUnchanged existing f.id d = false ∧
            (i.judge e w existing s f).1 =
              (progress (fits σ) (holdings s) e f.id d).verdict d.metadata ∧
            holdings (i.judge e w existing s f).2 =
              (progress (fits σ) (holdings s) e f.id d).after (kept σ) f.id (holdings s))) := by
  unfold judge
  -- the first two ways leave the state as it is
  cases i.prepare w f.path f.id with
  | error cause => exact ⟨hs, Or.inl ⟨cause, rfl, rfl⟩⟩
  | ok p =>
    cases p with
    | skipped reason => exact ⟨hs, Or.inr (Or.inl ⟨reason, rfl, rfl⟩)⟩
    | ready d =>
      dsimp only
      cases hu : i.isUnchanged existing f.id d with
      | true => exact ⟨hs, Or.inr (Or.inr ⟨d, rfl, Or.inl ⟨hu, rfl⟩⟩)⟩
      | false =>
        -- the file is written, and its verdict is how far this comes
        obtain ⟨s₁, hv, hh, hrun⟩ := IndexStore.writeDocument_spec hs e f.id d
        rw [if_neg Bool.false_ne_true, hrun]
        refine ⟨?_, Or.inr (Or.inr ⟨d, rfl, Or.inr ⟨hu, ?_, ?_⟩⟩)⟩
        · cases (progress (fits σ) (holdings s) e f.id d).result <;> exact hv
        · cases progress (fits σ) (holdings s) e f.id d <;> rfl
        · rw [← hh]
          cases (progress (fits σ) (holdings s) e f.id d).result <;> rfl

/-- **Judging a file changes nothing, or its document is written.** -/
theorem holdings_judge_cases (hs : Valid s) (f : IndexedFile) :
    holdings (i.judge e w existing s f).2 = holdings s ∨
      ∃ d, i.prepare w f.path f.id = .ok (.ready d) ∧ i.isUnchanged existing f.id d = false ∧
        holdings (i.judge e w existing s f).2 =
          (progress (fits σ) (holdings s) e f.id d).after (kept σ) f.id (holdings s) := by
  -- three of the four ways leave the state as it is
  obtain ⟨-, ⟨cause, -, hj⟩ | ⟨r, -, hj⟩ | ⟨d, hready, ⟨-, hj⟩ | ⟨hu, -, hh⟩⟩⟩ :=
    i.judge_cases e w existing hs f
  · exact Or.inl (by rw [hj])
  · exact Or.inl (by rw [hj])
  · exact Or.inl (by rw [hj])
  · exact Or.inr ⟨d, hready, hu, hh⟩

/-- Judging a file keeps a store in good order. -/
theorem valid_judge (hs : Valid s) (f : IndexedFile) : Valid (i.judge e w existing s f).2 :=
  (i.judge_cases e w existing hs f).1

/-- A file that is stored anew has the verdict that its writing comes to. -/
theorem judge_of_ready (hs : Valid s) {f : IndexedFile} {d : Document}
    (hready : i.prepare w f.path f.id = .ok (.ready d))
    (hu : i.isUnchanged existing f.id d = false) :
    (i.judge e w existing s f).1 =
        (progress (fits σ) (holdings s) e f.id d).verdict d.metadata ∧
      holdings (i.judge e w existing s f).2 =
        (progress (fits σ) (holdings s) e f.id d).after (kept σ) f.id (holdings s) := by
  obtain ⟨-, ⟨cause, hj, -⟩ | ⟨r, hj, -⟩ | ⟨d', hj, ⟨hu', -⟩ | ⟨-, hv, hh⟩⟩⟩ :=
    i.judge_cases e w existing hs f
  -- the first three ways are not those of a file that is ready and changed
  · rw [hready] at hj
    cases hj
  · rw [hready] at hj
    cases hj
  · rw [hready] at hj
    cases hj
    rw [hu] at hu'
    cases hu'
  · rw [hready] at hj
    obtain rfl : d = d' := by cases hj; rfl
    exact ⟨hv, hh⟩

/-- A verdict keeps the lengths of the vectors of collections. -/
theorem grows_judge (hs : Valid s) (f : IndexedFile) :
    (holdings s).Grows (holdings (i.judge e w existing s f).2) := by
  rcases i.holdings_judge_cases e w existing hs f with hh | ⟨d, -, -, hh⟩
  · rw [hh]
    exact Holdings.Grows.refl _
  · rw [hh]
    exact IndexStore.grows_progress

/-- **Documents that no file is ready for stay as they are.** -/
theorem held?_judge (hs : Valid s) {f : IndexedFile} {id : String}
    (hf : f.id = id → ∀ d, i.prepare w f.path f.id ≠ .ok (.ready d)) :
    (holdings (i.judge e w existing s f).2).held? documentsCollection id =
      (holdings s).held? documentsCollection id := by
  rcases i.holdings_judge_cases e w existing hs f with hh | ⟨d, hready, -, hh⟩
  · rw [hh]
  · rw [hh]
    exact IndexStore.held?_after_of_ne fun hid => hf hid.symm d hready

/-- A document stays if no file with its id is ready. -/
theorem held?_judgeAll {fs : List IndexedFile} (hs : Valid s) {id : String}
    (hfs : ∀ f ∈ fs, f.id = id → ∀ d, i.prepare w f.path f.id ≠ .ok (.ready d)) :
    (holdings (i.judgeAll e w existing fs s).2).held? documentsCollection id =
      (holdings s).held? documentsCollection id := by
  let P : σ → Prop := fun t => Valid t ∧
    (holdings t).held? documentsCollection id = (holdings s).held? documentsCollection id
  refine (i.judgeAll_invariant (P := P) e w existing (fun f hf t ht => ?_) ⟨hs, rfl⟩).1.2
  exact ⟨valid_judge i e w existing ht.1 f, (held?_judge i e w existing ht.1 (hfs f hf)).trans ht.2⟩

end Judge

/-! ### The end of a run -/

/-- Dropping a document takes it out with its chunks, and is counted. -/
theorem dropStale_spec (hs : Valid s) (o : IndexOutcome) (id : String) :
    ∃ s', dropStale (o, s) id =
        ({ o with report := { o.report with removed := o.report.removed + 1 } }, s') ∧
      Valid s' ∧ holdings s' = (holdings s).cleared id := by
  obtain ⟨n, s', hv, hh, hrun⟩ := IndexStore.deleteDocument_spec hs id
  refine ⟨s', ?_, hv, hh⟩
  simp only [dropStale, hrun]

/-- Dropping documents succeeds, counts them, and leaves the store without them. -/
theorem foldl_dropStale (hs : Valid s) (o : IndexOutcome) (ids : List String) :
    ∃ s', ids.foldl dropStale (o, s) =
        ({ o with report := { o.report with removed := o.report.removed + ids.length } }, s') ∧
      Valid s' ∧ holdings s' = ids.foldl Holdings.cleared (holdings s) := by
  induction ids generalizing o s with
  | nil => exact ⟨s, rfl, hs, rfl⟩
  | cons id ids ih =>
    -- the first document is dropped, and the count is one more
    obtain ⟨s₁, hdrop, hv, hh⟩ := dropStale_spec hs o id
    obtain ⟨s₂, hrest, hv₂, hh₂⟩ :=
      ih hv { o with report := { o.report with removed := o.report.removed + 1 } }
    refine ⟨s₂, ?_, hv₂, ?_⟩
    · rw [List.foldl_cons, hdrop, hrest, List.length_cons]
      simp only [Nat.add_assoc, Nat.add_comm 1]
    · rw [hh₂, hh, List.foldl_cons]

section Course

variable (i : Indexer) (e : Embedder) (w : Workspace) (root : Path) (allowed : Option Nat)

/-- A run has the outcome that its chronicle tells, and leaves a store in good order without the
documents that it drops. -/
structure IsRun (s : σ) (o : IndexOutcome) (s' : σ) : Prop where
  valid : Valid s'
  cancelled : o.report.cancelled = i.stops w root allowed
  failures : o.report.failures =
    (i.chronicle e w root allowed s).filterMap fun f => f.2.failure? f.1.id
  unchanged : o.report.unchanged = (i.chronicle e w root allowed s).countP (·.2.isUnchanged)
  removed : o.report.removed = (i.dropped e w root allowed s).length
  holdings_eq : holdings s' = (i.dropped e w root allowed s).foldl Holdings.cleared
    (holdings (i.midway e w root allowed s))

end Course

section Runs

variable {i : Indexer} {e : Embedder} {w : Workspace} {root : Path} {allowed : Option Nat}

/-- The digests that are listed are those of the stored documents. -/
theorem get?_listedAt (hs : Sound s) (id : String) :
    Table.get? (listedAt s) id =
      ((holdings s).held? documentsCollection id).map (listedText contentHashField) := by
  obtain ⟨t, ht, hget⟩ := IndexStore.documentFields_spec hs contentHashField
  rw [listedAt, ht]
  exact hget id

/-- When a run has gone through its files, the store is in good order. -/
theorem valid_midway (hs : Valid s) : Valid (i.midway e w root allowed s) :=
  (i.judgeAll_invariant (P := Valid) e w (listedAt s) (fun f _ _ hv => valid_judge i e w _ hv f)
    hs).1

/-- A run has its ending: the listing succeeds, so it comes down to going through files and dropping documents. -/
theorem indexProject_run (hs : Sound s) (i : Indexer) (e : Embedder) (w : Workspace) (root : Path)
    (allowed : Option Nat) : (i.indexProject e w root allowed).run s =
      .ok (i.ending e w root allowed s).1 (i.ending e w root allowed s).2 := by
  -- a sound store can list its digests
  obtain ⟨t, ht, -⟩ := IndexStore.documentFields_spec hs contentHashField
  have hlisted : listedAt s = t := by rw [listedAt, ht]; rfl
  have hrun : (i.indexProject e w root allowed).run s =
      .ok (finish t (i.stops w root allowed)
        ((i.taken w root allowed).foldl (i.indexFile e w t) ({}, s))).1
        (finish t (i.stops w root allowed)
          ((i.taken w root allowed).foldl (i.indexFile e w t) ({}, s))).2 := by
    simp only [indexProject, EStateM.run, bind, EStateM.bind, get, getThe, MonadStateOf.get,
      get_apply, ht]
    rfl
  rw [foldl_indexFile, ← hlisted] at hrun
  exact hrun

/-- **A run succeeds**, and goes as its chronicle tells. -/
theorem indexProject_spec (hs : Sound s) (i : Indexer) (e : Embedder) (w : Workspace) (root : Path)
    (allowed : Option Nat) :
    ∃ o s', (i.indexProject e w root allowed).run s = .ok o s' ∧
      IsRun i e w root allowed s o s' := by
  refine ⟨_, _, indexProject_run hs i e w root allowed, ?_⟩
  have hmid : Valid (i.midway e w root allowed s) := valid_midway hs.valid
  cases hstop : i.stops w root allowed with
  | true =>
    -- a stopped run drops nothing and removes nothing
    have hdropped : i.dropped e w root allowed s = [] := by rw [dropped, hstop, if_pos rfl]
    have hremoved : ∀ c : Chronicle, (c.foldl IndexOutcome.note {}).report.removed = 0 :=
      fun c => IndexOutcome.removed_foldl_note {} c
    rw [ending, hstop, finish, if_pos rfl]
    refine ⟨hmid, hstop.symm, ?_, ?_, ?_, ?_⟩
    · exact IndexOutcome.failures_foldl_note {} _
    · exact (IndexOutcome.unchanged_foldl_note {} _).trans (Nat.zero_add _)
    · rw [hdropped]
      exact hremoved _
    · rw [hdropped]
      rfl
  | false =>
    have hdropped : i.dropped e w root allowed s =
        staleIds (listedAt s) ((i.chronicle e w root allowed s).foldl IndexOutcome.note {}) := by
      rw [dropped, hstop]
      rfl
    -- documents are dropped one after another, and every time it succeeds
    obtain ⟨s₁, hfin, hv, hh⟩ := foldl_dropStale hmid
      ((i.chronicle e w root allowed s).foldl IndexOutcome.note {}) (i.dropped e w root allowed s)
    rw [ending, hstop, finish, if_neg Bool.false_ne_true, ← hdropped, hfin]
    refine ⟨hv, ?_, ?_, ?_, ?_, hh⟩
    · rw [hstop]
      exact IndexOutcome.cancelled_foldl_note {} _
    · exact IndexOutcome.failures_foldl_note {} _
    · exact (IndexOutcome.unchanged_foldl_note {} _).trans (Nat.zero_add _)
    · exact (congrArg (· + _) (IndexOutcome.removed_foldl_note {} _)).trans (Nat.zero_add _)

/-- What a run gives and leaves is told by its chronicle. -/
theorem IsRun.of_run (hs : Sound s) {o : IndexOutcome}
    (hrun : (i.indexProject e w root allowed).run s = .ok o s') : IsRun i e w root allowed s o s' := by
  obtain ⟨o₁, s₁, hrun₁, h⟩ := indexProject_spec hs i e w root allowed
  rw [hrun] at hrun₁
  cases hrun₁
  exact h

omit [LawfulVectorStore σ] in
theorem documents_foldl_dropStale (run : IndexOutcome × σ) (ids : List String) :
    (ids.foldl dropStale run).1.documents = run.1.documents := by
  induction ids generalizing run with
  | nil => rfl
  | cons id ids ih =>
    rw [List.foldl_cons, ih]
    obtain ⟨o, s⟩ := run
    unfold dropStale
    dsimp only
    split <;> rfl

/-- **The documents of a run** are those of its verdicts. -/
theorem documents_of_run (hs : Sound s) {o : IndexOutcome}
    (hrun : (i.indexProject e w root allowed).run s = .ok o s') :
    o.documents = (i.chronicle e w root allowed s).filterMap (·.2.document?) := by
  rw [indexProject_run hs i e w root allowed] at hrun
  cases hrun
  have hnoted := IndexOutcome.documents_foldl_note {} (i.chronicle e w root allowed s)
  rw [ending, finish]
  split
  · exact hnoted
  · exact (documents_foldl_dropStale _ _).trans hnoted

omit [LawfulVectorStore σ] in
/-- The files of a chronicle are those that the run goes through. -/
theorem mem_taken_of_mem_chronicle {f : IndexedFile} {v : Verdict}
    (h : (f, v) ∈ i.chronicle e w root allowed s) : f ∈ i.taken w root allowed := by
  have hmap := i.map_fst_judgeAll e w (listedAt s) (i.taken w root allowed) s
  rw [← hmap]
  exact List.mem_map_of_mem h

omit [LawfulVectorStore σ] in
/-- Every file of a run has a verdict. -/
theorem exists_mem_chronicle {f : IndexedFile} (h : f ∈ i.taken w root allowed) (e : Embedder)
    (s : σ) : ∃ v, (f, v) ∈ i.chronicle e w root allowed s := by
  rw [← i.map_fst_judgeAll e w (listedAt s) (i.taken w root allowed) s] at h
  obtain ⟨⟨f', v⟩, hv, rfl⟩ := List.mem_map.1 h
  exact ⟨v, hv⟩

omit [LawfulVectorStore σ] in
/-- A file of a run is passed over if its preparation says so. -/
theorem isSkipped_of_mem_chronicle {s : σ} {f : IndexedFile} {v : Verdict}
    (h : (f, v) ∈ i.chronicle e w root allowed s) :
    v.isSkipped = true ↔ ∃ reason, i.prepare w f.path f.id = .ok (.skipped reason) := by
  obtain ⟨as, bs, -, rfl, -⟩ := i.exists_split_of_mem_judgeAll e w (listedAt s) h
  exact i.isSkipped_judge e w _ _ f

theorem mem_filesOf_of_mem_taken {f : IndexedFile} (h : f ∈ i.taken w root allowed) :
    f ∈ i.filesOf w root := by
  cases allowed with
  | none => exact h
  | some n => exact List.mem_of_mem_take h

/-- A run that is not stopped goes through all files. -/
theorem taken_of_not_stops (h : i.stops w root allowed = false) :
    i.taken w root allowed = i.filesOf w root := by
  cases allowed with
  | none => rfl
  | some n =>
    -- as many files as there are have been taken
    have hlen : (i.filesOf w root).length ≤ ((i.filesOf w root).take n).length :=
      Nat.le_of_not_lt (of_decide_eq_false h)
    rw [List.length_take] at hlen
    exact List.take_of_length_le (Nat.le_trans hlen (Nat.min_le_left _ _))

/-- A run that nothing stops is not stopped, -/
theorem stops_none : i.stops w root none = false := decide_eq_false (Nat.lt_irrefl _)

/-- and does not report that it was. -/
theorem IsRun.cancelled_eq_false {o : IndexOutcome} (h : i.IsRun e w root none s o s') :
    o.report.cancelled = false := h.cancelled.trans stops_none

omit [LawfulVectorStore σ] in
/-- A run has seen the files that it did not pass over. -/
theorem mem_seen_iff {id : String} :
    id ∈ ((i.chronicle e w root allowed s).foldl IndexOutcome.note {}).seen ↔
      ∃ f v, (f, v) ∈ i.chronicle e w root allowed s ∧ f.id = id ∧ v.isSkipped = false := by
  rw [IndexOutcome.seen_foldl_note]
  change id ∈ ([] : List String) ++ _ ↔ _
  rw [List.nil_append, List.mem_map]
  constructor
  · rintro ⟨⟨f, v⟩, hf, hid⟩
    obtain ⟨hmem, hv⟩ := List.mem_filter.1 hf
    exact ⟨f, v, hmem, hid, by simpa using hv⟩
  · rintro ⟨f, v, hmem, hid, hv⟩
    exact ⟨(f, v), List.mem_filter.2 ⟨hmem, by simpa using hv⟩, hid⟩

/-- **What is dropped.** A run that is not stopped drops the documents with ids that no file has which
was not passed over. -/
theorem mem_dropped_iff (hs : Sound s) {id : String} :
    id ∈ i.dropped e w root allowed s ↔
      i.stops w root allowed = false ∧
        ((holdings s).held? documentsCollection id).isSome ∧
        ∀ f v, (f, v) ∈ i.chronicle e w root allowed s → f.id = id → v.isSkipped = true := by
  unfold dropped
  cases i.stops w root allowed with
  -- a run that is stopped drops nothing
  | true => simp
  | false =>
    rw [if_neg Bool.false_ne_true, staleIds, List.mem_filter, Table.mem_keys_iff, get?_listedAt hs,
      Option.isSome_map, Bool.not_eq_true', Bool.eq_false_iff, ne_eq, List.contains_iff_mem,
      mem_seen_iff]
    constructor
    · -- a listed document whose id was not seen
      rintro ⟨hheld, hnot⟩
      refine ⟨rfl, hheld, fun f v hmem hid => ?_⟩
      by_contra hv
      exact hnot ⟨f, v, hmem, hid, by simpa using hv⟩
    · -- a document whose files were all passed over has not been seen
      rintro ⟨-, hheld, hall⟩
      refine ⟨hheld, ?_⟩
      rintro ⟨f, v, hmem, hid, hv⟩
      rw [hall f v hmem hid] at hv
      cases hv

/-- The document of a file that is not passed over is not dropped. -/
theorem not_mem_dropped_of_ready (hs : Sound s) {f : IndexedFile} (hf : f ∈ i.taken w root allowed)
    {d : Document} (hready : i.prepare w f.path f.id = .ok (.ready d)) :
    f.id ∉ i.dropped e w root allowed s := by
  intro hdropped
  obtain ⟨v, hv⟩ := exists_mem_chronicle hf e s
  have hskipped := ((mem_dropped_iff hs).1 hdropped).2.2 f v hv rfl
  obtain ⟨reason, hreason⟩ := (isSkipped_of_mem_chronicle hv).1 hskipped
  rw [hready] at hreason
  cases hreason

/-- Documents that are dropped are gone, and others stay. -/
theorem held?_foldl_cleared_documents (h : Holdings) (ids : List String) (id : String) :
    (ids.foldl Holdings.cleared h).held? documentsCollection id =
      if id ∈ ids then none else h.held? documentsCollection id := by
  induction ids generalizing h with
  | nil => simp
  | cons i ids ih =>
    rw [List.foldl_cons, ih, Holdings.held?_cleared_documents]
    -- an id that is dropped later is gone in any case
    by_cases hid : id ∈ ids
    · simp [hid]
    · by_cases hi : id = i
      · simp [hi]
      · simp [hid, hi]

/-- Of the chunks those are left that belong to no dropped document. -/
theorem held?_foldl_cleared_chunks (h : Holdings) (ids : List String) {id : String} {b : PointBody} :
    (ids.foldl Holdings.cleared h).held? chunksCollection id = some b ↔
      h.held? chunksCollection id = some b ∧ ∀ i ∈ ids, Holdings.isPartOf i b = false := by
  induction ids generalizing h with
  | nil => simp
  | cons i ids ih =>
    rw [List.foldl_cons, ih, Holdings.held?_cleared_chunks_eq_some_iff, List.forall_mem_cons,
      and_assoc]

theorem size?_foldl_cleared (h : Holdings) (ids : List String) :
    (ids.foldl Holdings.cleared h).size? = h.size? := by
  induction ids generalizing h with
  | nil => rfl
  | cons i ids ih => rw [List.foldl_cons, ih, Holdings.size?_cleared]

end Runs

/-! ### Single files -/

section Single

variable (i : Indexer) (e : Embedder) (w : Workspace) (root path : Path)

/-- Deleting a document, for what it leaves behind. -/
theorem ends_delete (hs : Valid s) (id : String) :
    Ends (do let _ ← IndexStore.deleteDocument id; return 0 : IndexAction σ Nat) s (.ok 0)
      ((holdings s).cleared id) := by
  obtain ⟨n, hdelete⟩ := IndexStore.deleteDocument_spec hs id
  exact Ends.bind hdelete fun s' hv hh => Ends.pure hv hh 0

/-- **What indexing a file anew leaves behind**: nothing changes, the document is dropped, or it is
written. -/
theorem reindexFile_cases (hs : Valid s) :
    ∃ r h, Ends (i.reindexFile e w root path) s r h ∧
      (h = holdings s ∨ (∃ id, h = (holdings s).cleared id) ∨
        ∃ id d, i.prepare w path id = .ok (.ready d) ∧
          h = (progress (fits σ) (holdings s) e id d).after (kept σ) id (holdings s)) := by
  unfold reindexFile
  cases fileId root path with
  -- a path outside the root has no id
  | error cause => exact ⟨_, _, Ends.stop (Ends.ofExcept hs _), Or.inl rfl⟩
  | ok id =>
    rw [ofExcept_ok_bind]
    cases w.contains path with
    -- the file is gone
    | false => exact ⟨_, _, ends_delete hs id, Or.inr (Or.inl ⟨id, rfl⟩)⟩
    | true =>
      -- the file is there: what is read of it decides
      cases hprepare : i.prepare w path id with
      | error cause => exact ⟨_, _, Ends.stop (Ends.ofExcept hs _), Or.inl rfl⟩
      | ok p =>
        cases p with
        | ready d =>
          exact ⟨_, _, IndexStore.writeDocument_spec hs e id d, Or.inr (Or.inr ⟨id, d, hprepare, rfl⟩)⟩
        | skipped reason => exact ⟨_, _, ends_delete hs id, Or.inr (Or.inl ⟨id, rfl⟩)⟩

/-- What dropping a file leaves behind. -/
theorem removeFile_cases (hs : Valid s) :
    ∃ r h, Ends (removeFile root path : IndexAction σ Nat) s r h ∧
      (h = holdings s ∨ ∃ id, h = (holdings s).cleared id) := by
  unfold removeFile
  cases fileId root path with
  | error cause => exact ⟨_, _, Ends.stop (Ends.ofExcept hs _), Or.inl rfl⟩
  | ok id =>
    obtain ⟨n, hdelete⟩ := IndexStore.deleteDocument_spec hs id
    exact ⟨_, _, hdelete, Or.inr ⟨id, rfl⟩⟩

end Single

end Indexer

end CodeSearch
