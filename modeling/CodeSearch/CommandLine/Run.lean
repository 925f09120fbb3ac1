import CodeSearch.CodeMap.Overview
import CodeSearch.CodeMap.Resolver
import CodeSearch.CommandLine.Command
import CodeSearch.CommandLine.Response
import CodeSearch.Embedding.Hashing
import CodeSearch.FileSystem.Change
import CodeSearch.Retrieval.Retriever
import CodeSearch.Toml.Reader

/-!
# Carrying out commands

A command is carried out on a file system and leaves one behind: the commands that need an index make
its file if there is none yet, and an indexing run writes to it. Commands embed texts by hashing.
-/

namespace CodeSearch.CommandLine

/-- What a command is carried out with. -/
structure Surroundings where
  /-- What parses sources. -/
  grammars : Grammars
  /-- The environment variables. -/
  environment : Settings.Environment

/-- The embedder of the commands. -/
def embedder : Embedder := Hashing.embedder Hashing.defaultDimensions

/-- A text that bytes are, if they are one. -/
def textOf? (bytes : List UInt8) : Option String := String.fromUTF8? ⟨bytes.toArray⟩

/-- The settings in a file. -/
def loadSettings (env : Surroundings) (fs : FileSystem) (file : Path) : Except Response Settings :=
  let problem := "loading " ++ file.text
  let load (text : Option String) : Except Response Settings :=
    (Settings.load file.text text env.environment).mapError fun p =>
      .failed problem (some ("invalid configuration: " ++ p.message))
  if fs.workspace.contains file then
    match fs.read file with
    | .error e => .error (.failed problem (some e.message))
    | .ok bytes =>
      match textOf? bytes with
      | none => .error (.failed problem (some "stream did not contain valid UTF-8"))
      | some text => load (some text)
  else load none

/-- The documents of the selected files below a path, parsed; files that cannot be read are passed
over. -/
def parsedDocuments (env : Surroundings) (s : Settings) (w : Workspace) (path : Path) :
    List Metadata :=
  ((Selector.ofSettings s.selection).collect path (w.entry? path)).files.filterMap fun file =>
    (w.document file).toOption.map fun d => (d.parse env.grammars).1.metadata

/-- The map of the selected files below a path. -/
def mapOf (env : Surroundings) (s : Settings) (w : Workspace) (path : Path) : CodeMap :=
  CodeMap.ofDocuments path (parsedDocuments env s w path)

/-- What a file declares. -/
def declarations (env : Surroundings) (s : Settings) (w : Workspace) (file : Path) : Response :=
  match w.document file with
  | .error e => .failed ("reading " ++ file.text) (some e.message)
  | .ok d =>
    match d.metadata.language with
    | none => .failed ("unrecognized language for " ++ file.text) none
    | some l =>
      let (d, outline) := d.parse env.grammars
      let chunks := chunksWith s.chunks d.content (outline.getD {}).definitions
      .declared file l { d with chunks } outline.isSome

/-! ### Index files -/

/-- The number that a digit in base 16 stands for. -/
def hexDigit? (b : UInt8) : Option UInt8 :=
  if 48 ≤ b ∧ b ≤ 57 then some (b - 48)
  else if 97 ≤ b ∧ b ≤ 102 then some (b - 87)
  else if 65 ≤ b ∧ b ≤ 70 then some (b - 55)
  else none

/-- Bytes with those put in place that are written as a percent sign and two digits. -/
def unescape : List UInt8 → List UInt8
  | [] => []
  | 37 :: a :: b :: r =>
    match hexDigit? a, hexDigit? b with
    | some x, some y => (16 * x + y) :: unescape r
    | _, _ => 37 :: unescape (a :: b :: r)
  | c :: r => c :: unescape r

/-- The file that the name of an index stands for. A percent sign starts an escaped byte, and a
question mark has no place in a name. -/
def indexFile? (name : Path) : Option Path :=
  if name.text.toList.contains '?' then none
  else (textOf? (unescape name.text.toUTF8.toList)).map Path.mk

/-- The name of an index that is never written to a file. -/
def unwrittenIndex : String := ":memory:"

/-- An index that is open. -/
structure OpenIndex where
  /-- What it holds. -/
  database : Database
  /-- The file it is written to. -/
  file : Option Path

/-- The index in a file. An empty file and one that is missing hold an empty index. -/
def readIndex? (fs : FileSystem) (file : Path) : Option Database :=
  match fs.node file with
  | .ok (.index d) => some d
  | .ok (.file [] _) | .error .notFound => some VectorStore.empty
  | _ => none

/-- The file system with an index written to its file. -/
def writeIndex (fs : FileSystem) (i : OpenIndex) : Except FileError FileSystem :=
  i.file.elim (.ok fs) fun file => fs.writeNode file (.index i.database)

/-- Opens the index of a name, in the file system where its file is then there. -/
def openNamed (fs : FileSystem) (name : Path) : Except Response (OpenIndex × FileSystem) :=
  let problem : Response := .failed ("opening " ++ name.text) (some "unable to open the index")
  if name.text = unwrittenIndex then
    .ok ({ database := VectorStore.empty, file := none }, fs)
  else match indexFile? name with
    | none => .error problem
    | some file =>
      match readIndex? fs file with
      | none => .error problem
      | some database =>
        let i : OpenIndex := { database, file := some file }
        match writeIndex fs i with
        | .ok fs => .ok (i, fs)
        | .error _ => .error problem

/-- The name of the index of a directory. -/
def indexName (root : Path) (name : Option Path) : Path :=
  name.getD ((root.join ⟨".repomind"⟩).join ⟨"index.db"⟩)

/-- Carries out what needs the index of a directory. Directories missing on the way to its file are
made. -/
def withIndex (fs : FileSystem) (root : Path) (name : Option Path)
    (act : OpenIndex → FileSystem → Response × FileSystem) : Response × FileSystem :=
  let name := indexName root name
  match fs.makeParents name with
  | .error e =>
    let above := ((FileSystem.directoryOf? name).map Path.text).getD ""
    (.failed ("creating " ++ above) (some e.message), fs)
  | .ok fs =>
    match openNamed fs name with
    | .error r => (r, fs)
    | .ok (i, fs) => act i fs

/-- Indexes a directory. -/
def indexDirectory (env : Surroundings) (s : Settings) (path : Path) (i : OpenIndex)
    (fs : FileSystem) : Response × FileSystem :=
  let indexer := Indexer.ofSettings s env.grammars
  let save (d : Database) : FileSystem :=
    (writeIndex fs { i with database := d }).toOption.getD fs
  match (indexer.indexProject embedder fs.workspace path none).run i.database with
  | .ok outcome d => (.indexed outcome.report, save d)
  | .error e d => (.failed e.message none, save d)

/-- Searches an index. -/
def searchIndex (env : Surroundings) (s : Settings) (query : String) (path : Path)
    (count : Option Nat) (useStructure asContext : Bool) (i : OpenIndex) (w : Workspace) : Response :=
  let useStructure := useStructure && s.retrieval.useStructuralContext
  let structure? := if useStructure then
      let map := mapOf env s w path
      some { map, resolver := map.resolver }
    else none
  let k := count.getD s.retrieval.maxResults
  match Retrieval.retrieve i.database embedder structure? s.retrieval query k useStructure with
  | .ok rs => .found asContext rs
  | .error e => .failed (IndexError.retrieval e).message none

/-! ### Commands -/

/-- Carries out a command. -/
def carryOut (env : Surroundings) (s : Settings) (fs : FileSystem) : Command → Response × FileSystem
  | .scan path =>
    (.selected ((Selector.ofSettings s.selection).collect path (fs.entry? path)), fs)
  | .map path tokens => (.overview ((mapOf env s fs.workspace path).overview tokens), fs)
  | .symbols file => (declarations env s fs.workspace file, fs)
  | .index path name _ => withIndex fs path name (indexDirectory env s path)
  | .search query path name count useStructure asContext =>
    withIndex fs path name fun i fs =>
      (searchIndex env s query path count useStructure asContext i fs.workspace, fs)

/-- The answer to the words of a command line. -/
def run (env : Surroundings) (fs : FileSystem) (words : List String) : Response × FileSystem :=
  match Invocation.ofWords words with
  | .error .help => (.help, fs)
  | .error .version => (.version, fs)
  | .error .refused => (.refused, fs)
  | .ok i =>
    match loadSettings env fs i.settingsFile with
    | .error r => (r, fs)
    | .ok s => carryOut env s fs i.command

end CodeSearch.CommandLine
