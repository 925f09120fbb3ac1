import CodeSearch.CommandLine.Run
import CodeSearch.VectorStore.Record

/-!
# The program

The words of the command line are carried out on a picture of the disk, and what has changed in the
picture is then changed on the disk: directories that are new are made, and indexes are written. The
picture shows the places that the words name; of a directory that is searched it shows what the
selector lets through. No grammars are built in, so every file is one chunk.
-/

namespace CodeSearch.Program

open CommandLine

/-- The path on the disk to which names lead. -/
def diskPath (names : List String) : String := "/" ++ Text.join "/" names

/-- What a file on the disk holds. An index is known by its mark. -/
def loadFile (names : List String) : IO FileNode := do
  let path := System.mkFilePath [diskPath names]
  let bytes ← IO.FS.readBinFile path
  let modified := (← path.metadata).modified
  match (String.fromUTF8? bytes).bind fun s => Database.ofFileText? s.toList with
  | some d => return .index d
  | none =>
    return .file bytes.toList (some ⟨modified.sec.toNat, modified.nsec.toNat⟩)

/-- What the disk has at a place, or something that can only be passed over. -/
def orOther (node : IO FileNode) : IO FileNode := try node catch _ => return .other

/-- The node of a directory with all below it that a selector lets through; `place` is where it lies
below the base of the selector. A link to a file is taken for the file. -/
partial def loadTree (s : Selector) (names : List String) (place : String) : IO FileNode := do
  let listing ← (System.mkFilePath [diskPath names]).readDir.toBaseIO
  match listing with
  | .error _ => return .directory none
  | .ok entries =>
    -- what cannot be inspected is passed over, and the run goes on
    let nodes ← entries.toList.mapM fun e => do
      let name := e.fileName
      let inner := Selector.child place name
      let node ← orOther do
        match (← e.path.symlinkMetadata).type, (← e.path.metadata).type with
        | .dir, _ =>
          if s.directoryExcluded inner then return .empty
          else loadTree s (names ++ [name]) inner
        | _, .file =>
          if s.fileIncluded inner then loadFile (names ++ [name]) else return .file [] none
        | _, _ => return .other
      return (name, node)
    return .directory (some (Table.ofList nodes))

/-- Adds a node to a picture, unless the picture shows the place already. -/
def addNode (fs : FileSystem) (names : List String) (node : IO FileNode) : IO FileSystem := do
  if (fs.root.at? names).isSome then return fs
  else return fs.put names (some (← node))

/-- Adds the way along some steps to a picture, and gives the names that lead to its end if there is
something. -/
partial def addWay (fs : FileSystem) (names : List String) :
    List String → IO (FileSystem × Option (List String))
  | [] => return (fs, some names)
  | "." :: rest => addWay fs names rest
  | ".." :: rest => addWay fs names.dropLast rest
  | step :: rest => do
    let next := names ++ [step]
    let path := System.mkFilePath [diskPath next]
    match ← path.symlinkMetadata.toBaseIO with
    | .error _ => return (fs, none)
    | .ok m =>
      match m.type with
      | .dir => addWay (← addNode fs next (return .empty)) next rest
      | .file => addWay (← addNode fs next (orOther (loadFile next))) next rest
      | .symlink =>
        match ← (IO.FS.realPath path).toBaseIO with
        | .error _ => return (← addNode fs next (return .other), none)
        | .ok target =>
          let fs ← addNode fs next (return .link target.toString)
          match ← addWay fs [] (FileSystem.stepsOf target.toString) with
          | (fs, none) => return (fs, none)
          | (fs, some there) => addWay fs there rest
      | .other => addWay (← addNode fs next (return .other)) next rest

/-- Adds a path to a picture. -/
def addPath (fs : FileSystem) (path : Path) : IO (FileSystem × Option (List String)) :=
  addWay fs (FileSystem.startOf fs.here path.text) (FileSystem.stepsOf path.text)

/-- Adds a directory to a picture with all below it that a selector lets through. -/
def addTree (s : Selector) (fs : FileSystem) (path : Path) : IO FileSystem := do
  match ← addPath fs path with
  | (fs, none) => return fs
  | (fs, some names) =>
    match fs.root.at? names with
    | some (.directory _) => return fs.put names (some (← loadTree s names ""))
    | _ => return fs

/-- The directory that a command goes through, and the other files that it names. -/
def placesOf : Command → Option Path × List Path
  | .scan path | .map path _ => (some path, [])
  | .symbols file => (none, [file])
  | .index path name _ | .search _ path name .. =>
    let name := indexName path name
    (some path, name :: (indexFile? name).toList)

/-- A picture of what some words name. -/
def picture (env : Surroundings) (words : List String) : IO FileSystem := do
  let here := FileSystem.stepsOf (← IO.currentDir).toString
  let (fs, _) ← addWay { root := .empty, here } [] here
  match Invocation.ofWords words with
  | .error _ => return fs
  | .ok i =>
    let (fs, _) ← addPath fs i.settingsFile
    match loadSettings env fs i.settingsFile with
    | .error _ => return fs
    | .ok s =>
      let (directory, files) := placesOf i.command
      let fs ← directory.elim (return fs) (addTree (.ofSettings s.selection) fs)
      files.foldlM (fun fs file => return (← addPath fs file).1) fs

/-- Makes the directories of a picture on the disk and writes its indexes. -/
partial def save (names : List String) : FileNode → IO Unit
  | .directory (some entries) => do
    IO.FS.createDirAll (diskPath names)
    entries.forM fun (name, node) => save (names ++ [name]) node
  | .index d => IO.FS.writeFile (diskPath names) (String.ofList d.fileText)
  | .file .. | .directory none | .link _ | .other => return

/-- The environment variables that settings are taken from. -/
def environment : IO Settings.Environment := do
  let found ← Settings.variableNames.filterMapM fun name =>
    return (← IO.getEnv name).map (name, ·)
  return .ofList found

end CodeSearch.Program

/-- Carries out the words of the command line. -/
def main (words : List String) : IO UInt32 := do
  let start ← IO.monoMsNow
  let env : CodeSearch.CommandLine.Surroundings :=
    { grammars := .empty, environment := ← CodeSearch.Program.environment }
  let (response, fs) :=
    CodeSearch.CommandLine.run env (← CodeSearch.Program.picture env words) words
  CodeSearch.Program.save [] fs.root
  IO.print (response.output (toString ((← IO.monoMsNow) - start)))
  IO.eprint response.diagnostics
  return response.code.toUInt32
