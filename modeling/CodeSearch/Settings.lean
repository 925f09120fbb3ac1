import CodeSearch.Decimal.Shortest
import CodeSearch.Json.Value
import CodeSearch.Text.Blank
import CodeSearch.Text.Lines

/-!
# Settings

The settings of a run, in four sections, with a default for every value. They are read from a record,
changed by environment variables and then checked.

* `check_eq_ok_iff` — settings pass the check exactly if every one of its four conditions holds.
-/

namespace CodeSearch

/-- Which files are selected. Directories and files are excluded by ignore rules. -/
structure SelectionSettings where
  /-- The directories that a walk is restricted to; with none it is not restricted. -/
  includeDirs : List String := []
  /-- Rules for directories that are not entered. -/
  excludeDirs : List String
  /-- Rules for files that are left out. -/
  excludeFiles : List String
  /-- The file name extensions that are taken; with none all are. -/
  extensions : List String
  /-- Selecting fewer files than this is worth a warning. -/
  minFilesWarning : Nat := 1
  /-- One directory with more than this share of the files is worth a warning. -/
  dominantDirRatio : Float := 0.6
  /-- Below this many files no directory counts as dominant. -/
  dominantDirMinFiles : Nat := 50
  deriving Inhabited

/-- How documents are cut into chunks. -/
structure ChunkSettings where
  /-- Chunks of more bytes than this are split; 0 turns splitting off. -/
  maxChunkSize : Nat := 4000
  /-- A last fragment of fewer bytes takes lines back from the one before it. -/
  minFragmentSize : Nat := 200
  deriving DecidableEq, Inhabited, Repr

/-- How queries are answered. -/
structure RetrievalSettings where
  /-- How many results a search gives if it is not told. -/
  maxResults : Nat := 10
  /-- Whether related files are consulted. -/
  useStructuralContext : Bool := true
  /-- What the score of a match is multiplied with for its related files. -/
  structuralDiscount : Float32 := 0.8
  /-- How many related files of one match are consulted. -/
  relatedPerCandidate : Nat := 3
  /-- How many candidates are fetched for one result. -/
  candidateMultiplier : Nat := 2
  deriving Inhabited

/-- How an index is kept up to date. -/
structure IndexSettings where
  /-- How many workers parse at a time; 0 leaves it to the machine. -/
  workers : Nat := 0
  /-- Whether files with an unchanged text are passed over. -/
  skipUnchanged : Bool := true
  /-- Files of more bytes than this are left out; 0 sets no limit. -/
  maxFileSize : Nat := 1048576
  deriving DecidableEq, Inhabited, Repr

/-- Directories that hardly ever hold sources of a project's own. -/
def conventionalIgnores : List String :=
  [".git", ".hg", ".svn", "node_modules", "__pycache__", ".venv", "venv", "target", "dist", "build",
    ".tox", ".mypy_cache", ".pytest_cache", ".idea", ".vscode", ".cache", ".repomind"]

namespace SelectionSettings

/-- The settings of a selection that nothing is said about. -/
def default : SelectionSettings :=
  { excludeDirs := conventionalIgnores.map (· ++ "/")
    excludeFiles := ["*.pyc", "*.pyo", "*.so", "*.o", "*.a", "*.min.js", "*.lock"]
    extensions := ["rs", "py", "pyi", "js", "jsx", "mjs", "cjs", "ts", "mts", "cts", "tsx", "go"] }

end SelectionSettings

/-- All settings. -/
structure Settings where
  /-- Which files are selected. -/
  selection : SelectionSettings := SelectionSettings.default
  /-- How documents are cut into chunks. -/
  chunks : ChunkSettings := {}
  /-- How queries are answered. -/
  retrieval : RetrievalSettings := {}
  /-- How an index is kept up to date. -/
  index : IndexSettings := {}
  deriving Inhabited

/-! ### Reading -/

namespace Json

/-- The fields of a record, which may also be a list of the values of its first fields in order. -/
def record? (names : List String) : Json → Option (Table Json)
  | .obj fields => some fields
  | .arr items => if items.length ≤ names.length then some (Table.ofList (names.zip items)) else none
  | _ => none

/-- The value of a field that may be missing. -/
def fieldOr {α : Type} (fields : Table Json) (name : String) (read : Json → Option α) (default : α) :
    Option α :=
  match Table.get? fields name with
  | some v => read v
  | none => some default

/-- A number in double precision. -/
def float? : Json → Option Float
  | .int n => some (Float.ofInt n)
  | .float x => some x
  | _ => none

/-- A number in single precision. -/
def float32? : Json → Option Float32
  | .int n => some (Float32.ofInt n)
  | .float x => some x.toFloat32
  | _ => none

end Json

namespace Settings

/-- The settings of a selection that a record holds. -/
def selection? (j : Json) : Option SelectionSettings := do
  let fields ← j.record? ["include_dirs", "exclude_dirs", "exclude_files", "extensions",
    "min_files_warning", "dominant_dir_ratio", "dominant_dir_min_files"]
  let d := SelectionSettings.default
  return {
    includeDirs := ← Json.fieldOr fields "include_dirs" Json.strings? d.includeDirs
    excludeDirs := ← Json.fieldOr fields "exclude_dirs" Json.strings? d.excludeDirs
    excludeFiles := ← Json.fieldOr fields "exclude_files" Json.strings? d.excludeFiles
    extensions := ← Json.fieldOr fields "extensions" Json.strings? d.extensions
    minFilesWarning := ← Json.fieldOr fields "min_files_warning" Json.count? d.minFilesWarning
    dominantDirRatio := ← Json.fieldOr fields "dominant_dir_ratio" Json.float? d.dominantDirRatio
    dominantDirMinFiles :=
      ← Json.fieldOr fields "dominant_dir_min_files" Json.count? d.dominantDirMinFiles }

/-- The chunk settings that a record holds. -/
def chunks? (j : Json) : Option ChunkSettings := do
  let fields ← j.record? ["max_chunk_size", "min_fragment_size"]
  let d : ChunkSettings := {}
  return {
    maxChunkSize := ← Json.fieldOr fields "max_chunk_size" Json.count? d.maxChunkSize
    minFragmentSize := ← Json.fieldOr fields "min_fragment_size" Json.count? d.minFragmentSize }

/-- The retrieval settings that a record holds. -/
def retrieval? (j : Json) : Option RetrievalSettings := do
  let fields ← j.record? ["max_results", "use_structural_context", "structural_discount",
    "related_per_candidate", "candidate_multiplier"]
  let d : RetrievalSettings := {}
  return {
    maxResults := ← Json.fieldOr fields "max_results" Json.count? d.maxResults
    useStructuralContext :=
      ← Json.fieldOr fields "use_structural_context" Json.bool? d.useStructuralContext
    structuralDiscount :=
      ← Json.fieldOr fields "structural_discount" Json.float32? d.structuralDiscount
    relatedPerCandidate :=
      ← Json.fieldOr fields "related_per_candidate" Json.count? d.relatedPerCandidate
    candidateMultiplier :=
      ← Json.fieldOr fields "candidate_multiplier" Json.count? d.candidateMultiplier }

/-- The index settings that a record holds. -/
def index? (j : Json) : Option IndexSettings := do
  let fields ← j.record? ["workers", "skip_unchanged", "max_file_size"]
  let d : IndexSettings := {}
  return {
    workers := ← Json.fieldOr fields "workers" Json.count? d.workers
    skipUnchanged := ← Json.fieldOr fields "skip_unchanged" Json.bool? d.skipUnchanged
    maxFileSize := ← Json.fieldOr fields "max_file_size" Json.count? d.maxFileSize }

/-- The settings that a record holds. Names that no setting has are passed over; a value of the wrong
kind spoils the whole record. -/
def ofJson? (j : Json) : Option Settings := do
  let fields ← j.record? ["selector", "chunker", "retrieval", "index"]
  return {
    selection := ← Json.fieldOr fields "selector" selection? SelectionSettings.default
    chunks := ← Json.fieldOr fields "chunker" chunks? {}
    retrieval := ← Json.fieldOr fields "retrieval" retrieval? {}
    index := ← Json.fieldOr fields "index" index? {} }

/-! ### Environment variables -/

/-- The items of a list written with commas, without blanks at their ends and without empty ones. -/
def splitList (s : String) : List String :=
  ((Text.pieces ',' s).map Text.trim).filter (· ≠ "")

/-- The count that a text is: decimal digits, with a plus sign before them or not. -/
def parseCount? (s : String) : Option Nat :=
  let cs := s.toList
  let digits := if cs.head? = some '+' then cs.drop 1 else cs
  let n := Nat.ofDigitChars 10 digits 0
  if digits.isEmpty ∨ !digits.all Char.isDigit ∨ Json.greatestCount < n then none else some n

/-- The truth value that a text is. -/
def parseBool? (s : String) : Option Bool :=
  if s = "true" then some true else if s = "false" then some false else none

/-- Variables with their values. -/
abbrev Environment := Table String

/-- The variables that have a say. -/
def variableNames : List String :=
  ["REPOMIND_INCLUDE_DIRS", "REPOMIND_EXCLUDE_DIRS", "REPOMIND_EXCLUDE_FILES", "REPOMIND_EXTENSIONS",
    "REPOMIND_MAX_CHUNK_SIZE", "REPOMIND_MAX_RESULTS", "REPOMIND_STRUCTURAL_CONTEXT",
    "REPOMIND_WORKERS"]

/-- Puts the values of environment variables in place. A value that cannot be read is passed over. -/
def override (env : Environment) (s : Settings) : Settings :=
  let list (name : String) (old : List String) := ((Table.get? env name).map splitList).getD old
  let count (name : String) (old : Nat) := ((Table.get? env name).bind parseCount?).getD old
  { s with
    selection := { s.selection with
      includeDirs := list "REPOMIND_INCLUDE_DIRS" s.selection.includeDirs
      excludeDirs := list "REPOMIND_EXCLUDE_DIRS" s.selection.excludeDirs
      excludeFiles := list "REPOMIND_EXCLUDE_FILES" s.selection.excludeFiles
      extensions := list "REPOMIND_EXTENSIONS" s.selection.extensions }
    chunks := { s.chunks with
      maxChunkSize := count "REPOMIND_MAX_CHUNK_SIZE" s.chunks.maxChunkSize }
    retrieval := { s.retrieval with
      maxResults := count "REPOMIND_MAX_RESULTS" s.retrieval.maxResults
      useStructuralContext := ((Table.get? env "REPOMIND_STRUCTURAL_CONTEXT").bind parseBool?).getD
        s.retrieval.useStructuralContext }
    index := { s.index with workers := count "REPOMIND_WORKERS" s.index.workers } }

/-! ### Checking -/

/-- What can be wrong with settings. -/
inductive Problem where
  /-- The text is no record of settings. -/
  | unreadable (file : String)
  /-- The discount is not a proper share. -/
  | discount (value : Float32)
  /-- No candidate would be fetched. -/
  | multiplier
  /-- The ratio is not a proper share. -/
  | ratio (value : Float)
  /-- The least fragment is not smaller than the greatest chunk. -/
  | fragmentSize

/-- What is said about a problem. -/
def Problem.message : Problem → String
  | unreadable file => file ++ ": not a settings file"
  | discount d =>
    "retrieval.structural_discount must be in (0, 1], got " ++ Decimal.showFloat32 d
  | multiplier => "retrieval.candidate_multiplier must be at least 1"
  | ratio r => "selector.dominant_dir_ratio must be in (0, 1], got " ++ Decimal.showFloat r
  | fragmentSize => "chunker.min_fragment_size must be smaller than chunker.max_chunk_size"

/-- Whether a discount takes away some of a score but not all. -/
def properDiscount (d : Float32) : Bool := 0 < d && d ≤ 1

/-- Whether a ratio is a share of something. -/
def properRatio (r : Float) : Bool := 0 < r && r ≤ 1

/-- Whether the sizes of chunks and fragments go together. -/
def properSizes (c : ChunkSettings) : Bool := c.maxChunkSize = 0 || c.minFragmentSize < c.maxChunkSize

/-- Checks settings; the first thing that is wrong is reported. -/
def check (s : Settings) : Except Problem Unit :=
  if !properDiscount s.retrieval.structuralDiscount then
    .error (.discount s.retrieval.structuralDiscount)
  else if s.retrieval.candidateMultiplier = 0 then .error .multiplier
  else if !properRatio s.selection.dominantDirRatio then .error (.ratio s.selection.dominantDirRatio)
  else if !properSizes s.chunks then .error .fragmentSize
  else .ok ()

/-- **What the check asks for.** -/
theorem check_eq_ok_iff (s : Settings) :
    s.check = .ok () ↔ properDiscount s.retrieval.structuralDiscount = true ∧
      s.retrieval.candidateMultiplier ≠ 0 ∧ properRatio s.selection.dominantDirRatio = true ∧
      properSizes s.chunks = true := by
  unfold check
  repeat' split
  all_goals simp_all

end Settings

end CodeSearch
