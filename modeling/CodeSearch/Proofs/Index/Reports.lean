import CodeSearch.Proofs.Index.Containment

/-!
# Reports add up

A run counts its files in one place and what becomes of them in others, and notes failures of files and of dropped
documents in one list. All of this is told by the chronicle of the run and by the number of documents that it tried
to drop (`IndexOutcome.Tells`): noting a verdict adds an entry to the chronicle (`IndexOutcome.Tells.note`), and
trying to drop a document adds one to the number (`IndexOutcome.Tells.dropStale`). Every verdict is counted in
exactly one place (`Chronicle.length_eq`), so the report adds up.

No law of a store is needed for that: a verdict says what was found out about its file, however the store behaves
(`Indexer.Judged`), and chunks are counted before they are stored.

The chronicle of a run that is stopped is one of the first files only, and nothing is dropped. What the run has
touched is then what its files touch (`Holdings.Untouched`): other documents stay, and so do their chunks, other than
those that stand under an id of a chunk of one of its files. If all chunks stand where their documents put them
there are no such chunks.
-/

namespace CodeSearch

/-! ### Counting verdicts -/

/-- How many chunks were stored. -/
def Verdict.chunkCount : Verdict → Nat
  | indexed _ n => n
  | unread _ | skipped | unchanged _ | failed _ => 0

/-- **Every verdict is counted once**: the file was stored anew, left alone or passed over, or has failed. -/
theorem Chronicle.length_eq (c : Chronicle) : c.length = c.countP (·.2.isIndexed) + c.countP (·.2.isUnchanged) +
    c.countP (·.2.isSkipped) + (c.filterMap fun x => x.2.failure? x.1.id).length := by
  induction c with
  | nil => rfl
  | cons x c ih =>
    -- one verdict more is one more in one of the four counts
    obtain ⟨f, v⟩ := x
    rw [List.length_cons, List.countP_cons, List.countP_cons, List.countP_cons, List.filterMap_cons, ih]
    cases v with
    | unread cause => exact Nat.add_assoc _ _ 1
    | failed cause => exact Nat.add_assoc _ _ 1
    | skipped => exact Nat.add_right_comm _ _ 1
    | unchanged m =>
      simp only [Verdict.isIndexed, Verdict.isUnchanged, Verdict.isSkipped, Verdict.failure?, if_true,
        Bool.false_eq_true, if_false]
      omega
    | indexed m n =>
      simp only [Verdict.isIndexed, Verdict.isUnchanged, Verdict.isSkipped, Verdict.failure?, if_true,
        Bool.false_eq_true, if_false]
      omega

namespace IndexOutcome

/-- Whether an outcome tells a chronicle and the number of documents that were to be dropped after it. -/
structure Tells (o : IndexOutcome) (c : Chronicle) (tried : Nat) (stopped : Bool) : Prop where
  scanned : o.report.scanned = c.length
  indexed : o.report.indexed = c.countP (·.2.isIndexed)
  unchanged : o.report.unchanged = c.countP (·.2.isUnchanged)
  skipped : o.report.skipped = c.countP (·.2.isSkipped)
  chunks : o.report.chunks = (c.map (·.2.chunkCount)).sum
  /-- The failures of files are those of the chronicle. -/
  failures : o.report.failures.filter (!·.cleanup) = c.filterMap fun x => x.2.failure? x.1.id
  documents : o.documents = c.filterMap (·.2.document?)
  /-- A document that was to be dropped was, or is told of as a failure. -/
  removed : o.report.removed + o.report.failures.countP (·.cleanup) = tried
  cancelled : o.report.cancelled = stopped

variable {o : IndexOutcome} {c : Chronicle} {tried : Nat} {stopped : Bool}

/-- Nothing is told of no files. -/
theorem tells_nil : Tells {} [] 0 false := by constructor <;> rfl

/-- **Noting a verdict tells one more file.** -/
theorem Tells.note (h : o.Tells c tried stopped) (x : IndexedFile × Verdict) :
    (o.note x).Tells (c ++ [x]) tried stopped := by
  obtain ⟨f, v⟩ := x
  -- what is told about each part is told of the files so far and of this one
  constructor
  case scanned =>
    -- every verdict counts as one file
    rw [List.length_append, ← h.scanned]
    cases v <;> rfl
  case indexed =>
    rw [List.countP_append, ← h.indexed]
    cases v <;> rfl
  case unchanged =>
    rw [List.countP_append, ← h.unchanged]
    cases v <;> rfl
  case skipped =>
    rw [List.countP_append, ← h.skipped]
    cases v <;> rfl
  case chunks =>
    rw [List.map_append, List.sum_append, ← h.chunks]
    cases v <;> rfl
  case failures =>
    rw [List.filterMap_append, ← h.failures]
    cases v with
    -- a file that failed is one more failure
    | unread cause => exact List.filter_append ..
    | failed cause => exact List.filter_append ..
    -- any other verdict is none
    | skipped => exact (List.append_nil _).symm
    | unchanged m => exact (List.append_nil _).symm
    | indexed m n => exact (List.append_nil _).symm
  case documents =>
    rw [List.filterMap_append, ← h.documents]
    cases v with
    -- only a file that is there in the end has a document
    | unchanged m => rfl
    | indexed m n => rfl
    | unread cause => exact (List.append_nil _).symm
    | failed cause => exact (List.append_nil _).symm
    | skipped => exact (List.append_nil _).symm
  case removed =>
    rw [← h.removed]
    cases v with
    -- failures of files are not those of dropping documents
    | unread cause => exact congrArg (_ + ·) (List.countP_append ..)
    | failed cause => exact congrArg (_ + ·) (List.countP_append ..)
    | skipped => rfl
    | unchanged m => rfl
    | indexed m n => rfl
  case cancelled =>
    rw [← h.cancelled]
    cases v <;> rfl

/-- **Noting a chronicle tells it.** -/
theorem Tells.foldl_note (h : o.Tells c tried stopped) (c' : Chronicle) :
    (c'.foldl IndexOutcome.note o).Tells (c ++ c') tried stopped := by
  induction c' generalizing o c with
  | nil =>
    rw [List.append_nil]
    exact h
  | cons x c' ih =>
    rw [List.append_cons]
    exact ih (h.note x)

variable {σ : Type} [VectorStore σ]

/-- **Trying to drop a document tells one more of them**, whether it is dropped or not. -/
theorem Tells.dropStale (h : o.Tells c tried stopped) (s : σ) (id : String) :
    (Indexer.dropStale (o, s) id).1.Tells c (tried + 1) stopped := by
  unfold Indexer.dropStale
  dsimp only
  cases (IndexStore.deleteDocument id).run s with
  | ok n s' =>
    -- the document is counted as removed
    refine { h with removed := ?_ }
    rw [← h.removed]
    exact Nat.add_right_comm _ _ _
  | error cause s' =>
    -- the failure is told apart from those of files
    refine { h with failures := ?_, removed := ?_ }
    · rw [← h.failures]
      exact (List.filter_append ..).trans (List.append_nil _)
    · rw [← h.removed]
      exact congrArg (_ + ·) (List.countP_append ..)

/-- Trying to drop documents tells as many more of them. -/
theorem Tells.foldl_dropStale (h : o.Tells c tried stopped) (s : σ) (ids : List String) :
    (ids.foldl Indexer.dropStale (o, s)).1.Tells c (tried + ids.length) stopped := by
  induction ids generalizing o s tried with
  | nil => exact h
  | cons id ids ih =>
    have hrest := ih (h.dropStale s id) (Indexer.dropStale (o, s) id).2
    rw [Nat.add_right_comm] at hrest
    exact hrest

end IndexOutcome

/-! ### What verdicts say -/

namespace IndexStore

variable {σ : Type} [VectorStore σ] {s s' : σ}

/-- Chunks are stored all together. -/
theorem length_of_addChunks {e : Embedder} {rs : List TextRecord} {ids : List String}
    (h : (addChunks e rs).run s = .ok ids s') : ids.length = rs.length := by
  unfold addChunks at h
  cases hp : rs.mapM (·.point e) with
  | error cause =>
    rw [hp] at h
    cases h
  | ok ps =>
    rw [hp, ofExcept_ok_bind] at h
    -- a record makes one point
    have hlength : ps.length = rs.length := length_of_mapM hp
    cases ps with
    | nil =>
      cases h
      exact hlength
    | cons first rest =>
      dsimp only at h
      split at h
      · -- chunks with different lengths would be refused
        cases h
      · -- all points are put into the collection
        obtain ⟨-, s₁, -, h⟩ := exists_of_run_bind h
        obtain ⟨-, s₂, -, h⟩ := exists_of_run_bind h
        cases h
        rw [List.length_map, hlength]

/-- **A document that is stored is stored with all its chunks.** -/
theorem count_of_writeDocument {e : Embedder} {id : String} {d : Document} {n : Nat}
    (h : (writeDocument e id d).run s = .ok n s') : n = d.chunks.length := by
  rw [Indexer.writeDocument_run] at h
  cases hr : d.records e id with
  | error cause =>
    -- without records nothing is stored
    rw [hr] at h
    cases h
  | ok r =>
    rw [hr] at h
    -- every chunk has a record, and every record is stored
    rw [Document.records_eq_bind] at hr
    obtain ⟨whole, -, hr⟩ := exists_of_bind_eq_ok hr
    obtain ⟨parts, hparts, hr⟩ := exists_of_bind_eq_ok hr
    obtain rfl := Except.ok.inj hr
    -- what is stored comes after the deletion and the document
    obtain ⟨-, s₁, -, h⟩ := exists_of_run_bind h
    obtain ⟨-, s₂, -, h⟩ := exists_of_run_bind h
    obtain ⟨ids, s₃, hids, h⟩ := exists_of_run_bind h
    cases h
    rw [length_of_addChunks hids, length_of_mapM hparts, List.length_zipIdx]

end IndexStore

namespace Indexer

/-- What a verdict says of its file. -/
inductive Judged {σ : Type} [VectorStore σ] (i : Indexer) (e : Embedder) (w : Workspace) (existing : Table String)
    (f : IndexedFile) : Verdict → Prop where
  /-- The file could not be read. -/
  | unread {cause : FileError} (h : i.prepare w f.path f.id = .error cause) : Judged i e w existing f (.unread cause)
  /-- The file is too large or binary. -/
  | skipped {reason : SkipReason} (h : i.prepare w f.path f.id = .ok (.skipped reason)) :
    Judged i e w existing f .skipped
  /-- The file has the stored text. -/
  | unchanged {d : Document} (h : i.prepare w f.path f.id = .ok (.ready d))
      (hu : i.isUnchanged existing f.id d = true) : Judged i e w existing f (.unchanged d.metadata)
  /-- The file has another text, and was stored with all its chunks. -/
  | indexed {d : Document} {s s' : σ} (h : i.prepare w f.path f.id = .ok (.ready d))
      (hu : i.isUnchanged existing f.id d = false)
      (hrun : (IndexStore.writeDocument e f.id d).run s = .ok d.chunks.length s') :
    Judged i e w existing f (.indexed d.metadata d.chunks.length)
  /-- The file has another text, and could not be stored. -/
  | failed {d : Document} {s s' : σ} {cause : IndexError} (h : i.prepare w f.path f.id = .ok (.ready d))
      (hu : i.isUnchanged existing f.id d = false)
      (hrun : (IndexStore.writeDocument e f.id d).run s = .error cause s') :
    Judged i e w existing f (.failed cause)

section Accounts

variable {σ : Type} [VectorStore σ] {s s' : σ} {i : Indexer} {e : Embedder} {w : Workspace} {root : Path}
  {allowed : Option Nat} {o : IndexOutcome}

/-- **A verdict says what was found out about its file.** -/
theorem judged_judge (i : Indexer) (e : Embedder) (w : Workspace) (existing : Table String) (s : σ)
    (f : IndexedFile) : Judged (σ := σ) i e w existing f (i.judge e w existing s f).1 := by
  unfold judge
  cases hprepare : i.prepare w f.path f.id with
  -- the file was not read, was passed over, is unchanged, or was written
  | error cause => exact .unread hprepare
  | ok p =>
    cases p with
    | skipped reason => exact .skipped hprepare
    | ready d =>
      dsimp only
      cases hu : i.isUnchanged existing f.id d with
      | true => exact .unchanged hprepare hu
      | false =>
        rw [if_neg Bool.false_ne_true]
        cases hrun : (IndexStore.writeDocument e f.id d).run s with
        | ok n s' =>
          obtain rfl := IndexStore.count_of_writeDocument hrun
          exact .indexed hprepare hu hrun
        | error cause s' => exact .failed hprepare hu hrun

/-- A run that returns has listed the digests, and ends as its chronicle tells. -/
theorem ending_of_run (hrun : (i.indexProject e w root allowed).run s = .ok o s') :
    i.ending e w root allowed s = (o, s') := by
  rw [indexProject_eq_projectBy, projectBy_run] at hrun
  cases ht : IndexStore.documentFields s contentHashField with
  | error cause =>
    -- without digests a run does not return
    rw [ht] at hrun
    cases hrun
  | ok t =>
    have hlisted : listedAt s = t := by
      rw [listedAt, ht]
      rfl
    rw [ht] at hrun
    dsimp only at hrun
    rw [foldl_indexFile, ← hlisted] at hrun
    -- the ending is what is left when all files were judged
    change EStateM.Result.ok (i.ending e w root allowed s).1 (i.ending e w root allowed s).2 = _ at hrun
    obtain ⟨ho, hs'⟩ := EStateM.Result.ok.inj hrun
    exact Prod.ext ho hs'

/-- **A run tells its chronicle**, and the documents that it tried to drop. -/
theorem tells_ending (i : Indexer) (e : Embedder) (w : Workspace) (root : Path) (allowed : Option Nat) (s : σ) :
    (i.ending e w root allowed s).1.Tells (i.chronicle e w root allowed s) (i.dropped e w root allowed s).length
      (i.stops w root allowed) := by
  -- what was told in the beginning is nothing
  have hnoted := IndexOutcome.tells_nil.foldl_note (i.chronicle e w root allowed s)
  rw [List.nil_append] at hnoted
  rw [ending, finish, dropped]
  cases i.stops w root allowed with
  -- a run that stops drops nothing
  | true => exact { hnoted with cancelled := rfl }
  | false =>
    -- any other run drops the stale documents after its files
    have hdropped := hnoted.foldl_dropStale (i.midway e w root allowed s)
      (staleIds (listedAt s) ((i.chronicle e w root allowed s).foldl IndexOutcome.note {}))
    rw [Nat.zero_add] at hdropped
    exact hdropped

/-- What a run accounts for. -/
structure Accounts (i : Indexer) (e : Embedder) (w : Workspace) (root : Path) (allowed : Option Nat) (s : σ)
    (o : IndexOutcome) : Prop where
  /-- Every file is counted where it belongs. -/
  balance : o.report.scanned = o.report.indexed + o.report.unchanged + o.report.skipped +
    (o.report.failures.filter (!·.cleanup)).length
  /-- The chronicle goes through the files of the run in their order. -/
  files : (i.chronicle e w root allowed s).map Prod.fst = i.taken w root allowed
  /-- Its verdicts are right. -/
  judged : ∀ f v, (f, v) ∈ i.chronicle e w root allowed s → Judged (σ := σ) i e w (listedAt s) f v
  /-- It is what the outcome tells. -/
  tells : o.Tells (i.chronicle e w root allowed s) (i.dropped e w root allowed s).length (i.stops w root allowed)
  /-- A run is stopped if it is allowed fewer files than there are. -/
  cancelled : o.report.cancelled = true ↔ ∃ n, allowed = some n ∧ n < (i.filesOf w root).length
  /-- A run that is not stopped goes through all selected files that have an id. -/
  whole : o.report.cancelled = false → i.taken w root allowed = i.filesOf w root ∧
    o.report.scanned = (i.selector.collect root (w.entry? root)).files.countP fun path =>
      (documentId? (idRoot w root) path).isSome
  /-- A run that is stopped has gone through the first of them, as many as it was allowed, and drops nothing. -/
  stopped : ∀ n, allowed = some n → o.report.cancelled = true →
    i.taken w root allowed = (i.filesOf w root).take n ∧ o.report.scanned = n ∧ o.report.removed = 0 ∧
      ∀ x ∈ o.report.failures, x.cleanup = false

theorem stops_eq_true_iff :
    i.stops w root allowed = true ↔ ∃ n, allowed = some n ∧ n < (i.filesOf w root).length := by
  rw [stops, decide_eq_true_iff, taken]
  cases allowed with
  | none => simp
  | some n =>
    change ((i.filesOf w root).take n).length < _ ↔ _
    rw [List.length_take]
    simp

theorem length_filesOf : (i.filesOf w root).length =
    (i.selector.collect root (w.entry? root)).files.countP fun path =>
      (documentId? (idRoot w root) path).isSome := by
  rw [filesOf, List.length_filterMap_eq_countP]
  simp only [Option.isSome_map]

/-- **A run accounts for its files.** -/
theorem accounts_ending (i : Indexer) (e : Embedder) (w : Workspace) (root : Path) (allowed : Option Nat) (s : σ) :
    Accounts i e w root allowed s (i.ending e w root allowed s).1 := by
  have htells := tells_ending i e w root allowed s
  have hfiles := i.map_fst_judgeAll e w (listedAt s) (i.taken w root allowed) s
  have hscanned : (i.ending e w root allowed s).1.report.scanned = (i.taken w root allowed).length := by
    rw [htells.scanned, ← hfiles, List.length_map]
    rfl
  constructor
  case files => exact hfiles
  case tells => exact htells
  case balance =>
    -- the counts are those of the verdicts
    rw [htells.scanned, htells.indexed, htells.unchanged, htells.skipped, htells.failures]
    exact Chronicle.length_eq _
  case judged =>
    -- every verdict was given in some state
    intro f v h
    obtain ⟨as, bs, -, rfl, -⟩ := i.exists_split_of_mem_judgeAll e w (listedAt s) h
    exact judged_judge i e w _ _ f
  case cancelled => rw [htells.cancelled, stops_eq_true_iff]
  case whole =>
    -- a run that is not stopped goes through all files
    intro h
    rw [htells.cancelled] at h
    have htaken := taken_of_not_stops h
    exact ⟨htaken, by rw [hscanned, htaken, length_filesOf]⟩
  case stopped =>
    -- a run that is stopped goes through as many files as it is allowed
    rintro n rfl h
    rw [htells.cancelled] at h
    have hlt : n < (i.filesOf w root).length := by
      obtain ⟨n', hn', hlt⟩ := stops_eq_true_iff.1 h
      obtain rfl := Option.some.inj hn'
      exact hlt
    -- and it drops nothing, so nothing was counted
    have hnone := htells.removed
    rw [dropped, h, if_pos rfl, List.length_nil] at hnone
    obtain ⟨hremoved, hcleanup⟩ := Nat.add_eq_zero_iff.1 hnone
    refine ⟨rfl, ?_, hremoved, ?_⟩
    · rw [hscanned]
      exact (List.length_take ..).trans (Nat.min_eq_left (Nat.le_of_lt hlt))
    · intro x hx
      simpa using List.countP_eq_zero.1 hcleanup x hx

end Accounts

end Indexer

/-! ### What is not touched -/

namespace Holdings

/-- Whether a document is as it was before others were gone through, and its chunks too, other than those that stand
under an id of a chunk of the others. -/
structure Untouched (others : List String) (id : String) (h h' : Holdings) : Prop where
  document : h'.held? documentsCollection id = h.held? documentsCollection id
  /-- No chunk of the document is new. -/
  old : ∀ k b, isPartOf id b = true → h'.held? chunksCollection k = some b → h.held? chunksCollection k = some b
  /-- No chunk of the document is gone, unless another one gave its id to one of its own. -/
  stays : ∀ k b, isPartOf id b = true → (∀ other ∈ others, ∀ n, k ≠ chunkId other n) →
    h.held? chunksCollection k = some b → h'.held? chunksCollection k = some b

variable {others : List String} {id other : String} {h h' h'' : Holdings}

theorem Untouched.refl (others : List String) (id : String) (h : Holdings) : Untouched others id h h :=
  ⟨rfl, fun _ _ _ hb => hb, fun _ _ _ _ hb => hb⟩

theorem Untouched.trans (hab : Untouched others id h h') (hbc : Untouched others id h' h'') :
    Untouched others id h h'' where
  document := hbc.document.trans hab.document
  old k b hpart hb := hab.old k b hpart (hbc.old k b hpart hb)
  stays k b hpart hk hb := hbc.stays k b hpart hk (hab.stays k b hpart hk hb)

/-- **Writing another document leaves a document**, and its chunks as far as they are not overwritten. -/
theorem Untouched.after {fits : Nat → Bool} {kept : Json → Json} {e : Embedder} {d : Document}
    (hkept : ∀ j, (kept j).str? = j.str?) (hother : other ∈ others) (hne : id ≠ other) :
    Untouched others id h ((IndexStore.progress fits h e other d).after kept other h) where
  document := IndexStore.held?_after_of_ne hne
  -- a chunk of the document that is there now was there before, because what is written carries another id
  old k b hpart hb := by
    rcases IndexStore.held?_after_chunks hkept hb with hb | hpart'
    · exact hb
    · rw [isPartOf_of_ne hne hpart] at hpart'
      cases hpart'
  stays k b hpart hk hb := by
    have hnot : isPartOf other b = false := isPartOf_of_ne hne hpart
    rcases @IndexStore.after_cases fits h e other d kept with hafter | hafter | ⟨ps, hps, hafter⟩
    · -- nothing was written
      rw [hafter]
      exact hb
    · -- the other document was cleared, and its chunks only
      rw [hafter]
      exact (held?_cleared_chunks_eq_some_iff h).2 ⟨hb, hnot⟩
    · -- what is written stands under ids of chunks of the other document
      have hids : ∀ q ∈ ps, q.id ≠ k := by
        intro q hq he
        obtain ⟨n, hn⟩ := exists_id_of_mem_chunkPointsBy (hps q hq)
        exact hk other hother n (he.symm.trans hn)
      rw [hafter, held?_replaced_chunks_of_forall_ne h kept hids, hb, Option.filter_some, hnot]
      rfl

end Holdings

namespace Indexer

section Cancelled

variable {σ : Type} [VectorStore σ] {s s' : σ} {o : IndexOutcome}

open Holdings (Untouched SameUnder)

/-- Files with other ids leave a document. -/
theorem untouched_judgeAll [LawfulVectorStore σ] (i : Indexer) (e : Embedder) (w : Workspace)
    (existing : Table String) {fs : List IndexedFile} (hs : Valid s) {id : String} (hid : ∀ f ∈ fs, f.id ≠ id) :
    Untouched (fs.map (·.id)) id (holdings s) (holdings (i.judgeAll e w existing fs s).2) := by
  let P : σ → Prop := fun t => Valid t ∧ Untouched (fs.map (·.id)) id (holdings s) (holdings t)
  have hstep : ∀ f ∈ fs, ∀ t, P t → P (i.judge e w existing t f).2 := by
    rintro f hf t ⟨hv, ht⟩
    refine ⟨valid_judge i e w existing hv f, ht.trans ?_⟩
    -- a file changes nothing, or its document is written
    rcases i.holdings_judge_cases e w existing hv f with hh | ⟨d, -, -, hh⟩
    · rw [hh]
      exact Untouched.refl _ _ _
    · rw [hh]
      exact Untouched.after LawfulVectorStore.str?_kept (List.mem_map_of_mem hf) (hid f hf).symm
  exact (i.judgeAll_invariant (P := P) e w existing hstep ⟨hs, Untouched.refl _ _ _⟩).1.2

/-- **A run that is stopped touches the documents of its files only.** -/
theorem untouched_of_stops [LawfulVectorStore σ] {i : Indexer} {e : Embedder} {w : Workspace} {root : Path}
    {allowed : Option Nat} (hs : Valid s) (hstops : i.stops w root allowed = true) {id : String}
    (hid : ∀ f ∈ i.taken w root allowed, f.id ≠ id) :
    Untouched ((i.taken w root allowed).map (·.id)) id (holdings s) (holdings (i.ending e w root allowed s).2) ∧
      (Placed (holdings s) → SameUnder id (holdings s) (holdings (i.ending e w root allowed s).2)) := by
  -- a run that is stopped ends when it has gone through its files
  have hend : (i.ending e w root allowed s).2 = i.midway e w root allowed s := by
    rw [ending, finish, if_pos hstops]
  rw [hend, midway]
  refine ⟨untouched_judgeAll i e w (listedAt s) hs hid, fun hp => ?_⟩
  -- no file has the id
  have hagrees : Holdings.Agrees id (holdings s)
      (holdings (i.judgeAll e w (listedAt s) (i.taken w root allowed) s).2) :=
    agrees_judgeAll (listedAt s) hs hp fun f hf he => absurd he.symm (hid f hf)
  exact hagrees.sameUnder hp (placed_judgeAll i e w (listedAt s) _ hs hp)

/-- **The report of a run adds up.** A run that returns accounts for its files, whatever its store is like. If it was
stopped, and its store does what it is asked to, then documents with other ids than those of the files that it has
gone through are as they were, with all their chunks if chunks stand where their documents put them. -/
theorem indexProject_accounts (i : Indexer) (e : Embedder) (w : Workspace) (root : Path) (allowed : Option Nat)
    (hrun : (i.indexProject e w root allowed).run s = .ok o s') :
    Accounts i e w root allowed s o ∧
      ∀ [LawfulVectorStore σ], Valid s → o.report.cancelled = true → ∀ id,
        (∀ f ∈ i.taken w root allowed, f.id ≠ id) →
        Untouched ((i.taken w root allowed).map (·.id)) id (holdings s) (holdings s') ∧
          (Placed (holdings s) → SameUnder id (holdings s) (holdings s')) := by
  have hend := ending_of_run hrun
  have haccounts := accounts_ending i e w root allowed s
  rw [hend] at haccounts
  refine ⟨haccounts, fun {_} hs hcancelled id hid => ?_⟩
  -- the report tells whether the run was stopped
  have hstops : i.stops w root allowed = true := by rw [← haccounts.tells.cancelled, hcancelled]
  have huntouched := untouched_of_stops (e := e) hs hstops hid
  rw [hend] at huntouched
  exact huntouched

end Cancelled

/-- A run over two files of two lines counts both, although one of them fails. A run over them that is allowed one
file has gone through one, and leaves the document of the other as it was stored when the files had one line. -/
theorem indexProject_accounts_siblings :
    (∃ (o : IndexOutcome) (s' : Memory),
      (pairIndexer.indexProject waryEmbedder (siblingsWorkspace [120, 10, 121]) ⟨"/p"⟩ none).run
        VectorStore.empty = .ok o s' ∧
      o.report.cancelled = false ∧ o.report.scanned = 2 ∧
      o.report.indexed + o.report.unchanged + o.report.skipped + (o.report.failures.filter (!·.cleanup)).length = 2) ∧
    ((holdings siblingsIndex).held? documentsCollection "b").isSome ∧
    ∃ (o : IndexOutcome) (s' : Memory),
      (pairIndexer.indexProject IndexStore.emptyEmbedder (siblingsWorkspace [120, 10, 121]) ⟨"/p"⟩ (some 1)).run
        siblingsIndex = .ok o s' ∧
      o.report.cancelled = true ∧ o.report.scanned = 1 ∧ o.report.removed = 0 ∧
      Holdings.SameUnder "b" (holdings siblingsIndex) (holdings s') := by
  have hfiles := filesOf_siblings [120, 10, 121]
  refine ⟨?_, ?_, ?_⟩
  · obtain ⟨o, s', hrun, -⟩ := indexProject_spec (σ := Memory) IndexStore.sound_empty pairIndexer waryEmbedder
      (siblingsWorkspace [120, 10, 121]) ⟨"/p"⟩ none
    have haccounts := (indexProject_accounts pairIndexer waryEmbedder (siblingsWorkspace [120, 10, 121]) ⟨"/p"⟩ none
      hrun).1
    -- both files are gone through
    have hscanned : o.report.scanned = 2 := by
      rw [haccounts.tells.scanned, ← List.length_map, haccounts.files, taken_siblings]
      rfl
    -- a run that is allowed everything is not stopped
    have hwhole : o.report.cancelled = false := by
      rw [Bool.eq_false_iff, ne_eq, haccounts.cancelled]
      rintro ⟨n, hn, -⟩
      cases hn
    exact ⟨o, s', hrun, hwhole, hscanned, haccounts.balance.symm.trans hscanned⟩
  · -- the second file has a document in the beginning
    rw [siblingsIndex, indexProject, filesOf_siblings]
    decide +kernel
  · have hsound : IndexStore.Sound siblingsIndex :=
      (reachable_indexProject .empty pairIndexer waryEmbedder (siblingsWorkspace [120]) ⟨"/p"⟩ none).sound
    obtain ⟨o, s', hrun, -⟩ := indexProject_spec hsound pairIndexer IndexStore.emptyEmbedder
      (siblingsWorkspace [120, 10, 121]) ⟨"/p"⟩ (some 1)
    obtain ⟨haccounts, huntouched⟩ := indexProject_accounts pairIndexer IndexStore.emptyEmbedder
      (siblingsWorkspace [120, 10, 121]) ⟨"/p"⟩ (some 1) hrun
    -- there are more files than the run is allowed
    have hstopped : o.report.cancelled = true := by
      rw [haccounts.cancelled, hfiles]
      exact ⟨1, rfl, by decide⟩
    obtain ⟨htaken, hscanned, hremoved, -⟩ := haccounts.stopped 1 rfl hstopped
    -- the first file is the other one
    have hother : ∀ f ∈ pairIndexer.taken (siblingsWorkspace [120, 10, 121]) ⟨"/p"⟩ (some 1), f.id ≠ "b" := by
      rw [htaken, hfiles]
      decide
    obtain ⟨hvalid, hplaced⟩ := valid_placed_of_first_run (σ := Memory) pairIndexer waryEmbedder
      (siblingsWorkspace [120]) ⟨"/p"⟩
    exact ⟨o, s', hrun, hstopped, hscanned, hremoved, (huntouched hvalid hstopped "b" hother).2 hplaced⟩

end Indexer

end CodeSearch
