import CodeSearch.Index.Indexer
import CodeSearch.Selection.Walk

/-!
# Indexing runs

A run goes through the selected files of a root in order. A file whose text is the stored one is left
alone, any other is stored anew. What fails for one file is noted and does not stop the run. At the end
the documents go whose files the run has not seen; a run that was stopped before its end leaves them.
-/

namespace CodeSearch

/-- What failed for a document. -/
structure RunFailure where
  /-- The id of the document. -/
  id : String
  /-- Why. -/
  cause : IndexError
  /-- Whether the document was to be dropped. -/
  cleanup : Bool := false

/-- What is said about a failure. -/
def RunFailure.message (f : RunFailure) : String :=
  (if f.cleanup then "cleanup: " else "") ++ f.cause.message

/-- What is counted in a run. -/
structure IndexReport where
  /-- The files that were gone through. -/
  scanned : Nat := 0
  /-- The files that were stored. -/
  indexed : Nat := 0
  /-- The files that were left alone. -/
  unchanged : Nat := 0
  /-- The files that were passed over. -/
  skipped : Nat := 0
  /-- The chunks that were stored. -/
  chunks : Nat := 0
  /-- The documents that were dropped. -/
  removed : Nat := 0
  /-- What failed, in its order. -/
  failures : List RunFailure := []
  /-- Whether the run was stopped. -/
  cancelled : Bool := false

/-- The result of a run. -/
structure IndexOutcome where
  /-- What was counted. -/
  report : IndexReport := {}
  /-- The facts about the documents that were stored or left alone. -/
  documents : List Metadata := []
  /-- The ids of the files that the run has seen and not passed over. -/
  seen : List String := []

/-- A file to be indexed. -/
structure IndexedFile where
  /-- Where it lies. -/
  path : Path
  /-- Its id. -/
  id : String
  deriving DecidableEq, Repr

namespace IndexOutcome

/-- The outcome with a failure noted. -/
def fail (o : IndexOutcome) (id : String) (cause : IndexError) : IndexOutcome :=
  { o with report := { o.report with failures := o.report.failures ++ [{ id, cause }] } }

/-- The outcome with one more file gone through. -/
def scan (o : IndexOutcome) : IndexOutcome :=
  { o with report := { o.report with scanned := o.report.scanned + 1 } }

/-- The outcome with a file passed over. -/
def skip (o : IndexOutcome) : IndexOutcome :=
  { o with report := { o.report with skipped := o.report.skipped + 1 } }

/-- The outcome with a file seen. -/
def see (o : IndexOutcome) (id : String) : IndexOutcome := { o with seen := o.seen ++ [id] }

/-- The outcome with a document left alone. -/
def leave (o : IndexOutcome) (m : Metadata) : IndexOutcome :=
  { o with
    report := { o.report with unchanged := o.report.unchanged + 1 }
    documents := o.documents ++ [m] }

/-- The outcome with a document stored. -/
def store (o : IndexOutcome) (m : Metadata) (chunks : Nat) : IndexOutcome :=
  { o with
    report :=
      { o.report with indexed := o.report.indexed + 1, chunks := o.report.chunks + chunks }
    documents := o.documents ++ [m] }

end IndexOutcome

namespace Indexer

variable {σ : Type} [VectorStore σ]

/-- The directory below which the files of a root are named: the root, or where it lies if it is a
file. -/
def idRoot (w : Workspace) (root : Path) : Path :=
  if w.isFile root then (root.parent?.map Path.ofComponents).getD root else root

/-- The selected files of a root with their ids. -/
def filesOf (i : Indexer) (w : Workspace) (root : Path) : List IndexedFile :=
  (i.selector.collect root (w.entry? root)).files.filterMap fun path =>
    (documentId? (idRoot w root) path).map fun id => { path, id }

/-- Whether a document is left alone, as its text is the stored one. -/
def isUnchanged (i : Indexer) (existing : Table String) (id : String) (d : Document) : Bool :=
  i.index.skipUnchanged && existing.get? id == some d.metadata.contentHash

/-- Goes through one file. -/
def indexFile (i : Indexer) (e : Embedder) (w : Workspace) (existing : Table String)
    (run : IndexOutcome × σ) (f : IndexedFile) : IndexOutcome × σ :=
  let (o, s) := run
  let o := o.scan
  match i.prepare w f.path f.id with
  | .error cause => ((o.see f.id).fail f.id (.file cause), s)
  -- a file that is passed over is not seen, so what is stored of it goes at the end
  | .ok (.skipped _) => (o.skip, s)
  | .ok (.ready d) =>
    let o := o.see f.id
    if i.isUnchanged existing f.id d then (o.leave d.metadata, s)
    else match (IndexStore.writeDocument e f.id d).run s with
      | .ok chunks s => (o.store d.metadata chunks, s)
      | .error cause s => (o.fail f.id cause, s)

/-- Drops a document whose file is gone. -/
def dropStale (run : IndexOutcome × σ) (id : String) : IndexOutcome × σ :=
  let (o, s) := run
  match (IndexStore.deleteDocument id).run s with
  | .ok _ s => ({ o with report := { o.report with removed := o.report.removed + 1 } }, s)
  | .error cause s =>
    let failure := { id, cause, cleanup := true }
    ({ o with report := { o.report with failures := o.report.failures ++ [failure] } }, s)

/-- The ids of the stored documents that a run has not seen. -/
def staleIds (existing : Table String) (o : IndexOutcome) : List String :=
  existing.keys.filter (!o.seen.contains ·)

/-- The end of a run: documents whose files are gone are dropped, unless the run was stopped. -/
def finish (existing : Table String) (stopped : Bool) (run : IndexOutcome × σ) :
    IndexOutcome × σ :=
  if stopped then
    ({ run.1 with report := { run.1.report with cancelled := true } }, run.2)
  else (staleIds existing run.1).foldl dropStale run

/-- Indexes the selected files of a root. A run that is to be stopped goes through no more files than
it is allowed to. -/
def indexProject (i : Indexer) (e : Embedder) (w : Workspace) (root : Path) (allowed : Option Nat) :
    IndexAction σ IndexOutcome := do
  let existing ← MonadExcept.ofExcept
    ((IndexStore.documentFields (← get) contentHashField).mapError .storage)
  let files := i.filesOf w root
  let taken := allowed.elim files files.take
  let run := taken.foldl (i.indexFile e w existing) ({}, ← get)
  let (outcome, s) := finish existing (taken.length < files.length) run
  set s
  return outcome

/-- The id of a file below a root. -/
def fileId (root path : Path) : Except IndexError String :=
  match documentId? root path with
  | some id => .ok id
  | none => .error (.outside path root)

/-- Indexes one file anew and counts its chunks. A file that is gone or passed over is dropped. -/
def reindexFile (i : Indexer) (e : Embedder) (w : Workspace) (root path : Path) :
    IndexAction σ Nat := do
  let id ← MonadExcept.ofExcept (fileId root path)
  if !w.contains path then
    let _ ← IndexStore.deleteDocument id
    return 0
  match ← MonadExcept.ofExcept ((i.prepare w path id).mapError .file) with
  | .ready d => IndexStore.writeDocument e id d
  | .skipped _ =>
    let _ ← IndexStore.deleteDocument id
    return 0

/-- Drops a file and counts its chunks. -/
def removeFile (root path : Path) : IndexAction σ Nat := do
  IndexStore.deleteDocument (← MonadExcept.ofExcept (fileId root path))

end Indexer

end CodeSearch
