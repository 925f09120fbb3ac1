import CodeSearch.Index.Run
import CodeSearch.Retrieval.Context

/-!
# Answers of the program

What the program found, and how it is printed: what was asked for goes to the output, notes go to the
diagnostics, and the code tells whether the command could be carried out.
-/

namespace CodeSearch.CommandLine

/-- What a command comes to. -/
inductive Response where
  /-- The files that would be indexed. -/
  | selected (s : Selection)
  /-- An overview. -/
  | overview (text : String)
  /-- What a file declares; `parsed` says whether there was a tree to go by. -/
  | declared (file : Path) (language : Language) (d : Document) (parsed : Bool)
  /-- The counts of an indexing run. -/
  | indexed (r : IndexReport)
  /-- The results of a search. -/
  | found (asContext : Bool) (rs : List RetrievalResult)
  /-- The version of the program. -/
  | version
  /-- How the program is used. -/
  | help
  /-- The words of the command line make no sense. -/
  | refused
  /-- The command could not be carried out. -/
  | failed (problem : String) (cause : Option String)

/-- The version of the program. -/
def versionText : String := "repomind 0.3.0"

/-- How the program is used. -/
def usageText : String :=
  Text.join "\n" [
    "Usage: repomind [--config FILE] COMMAND",
    "",
    "  scan [PATH]                      list the files that would be indexed",
    "  map [PATH] [--tokens N]          print an overview of the code",
    "  symbols FILE                     print what a file declares",
    "  index [PATH] [--db FILE]         index a directory",
    "  search QUERY [--path PATH] [--db FILE] [-k N] [--no-structural] [--xml]",
    "                                   print the chunks that answer a query"]

/-- Lines, each with its end. -/
def linesText (lines : List String) : String := String.join (lines.map lineOf)

/-- The lines about what a file declares. -/
def declaredLines (file : Path) (language : Language) (d : Document) : List String :=
  let m := d.metadata
  ["language: " ++ language.id] ++ (m.docComment.map ("doc: " ++ ·)).toList ++
    m.imports.map ("import: " ++ ·) ++
    m.symbols.map (fun (name, lines) =>
      "symbol: " ++ name ++ " @ " ++ Text.join ", " (lines.map toString)) ++
    d.chunks.map fun c => "chunk: " ++ c.header file.text

/-- The line about a result. -/
def resultLine (r : RetrievalResult) : String :=
  Decimal.showFixed 3 r.score.value ++ "  " ++ r.documentId ++ ":" ++ toString r.startLine ++ "-" ++
    toString r.endLine ++ "  " ++ r.name.getD "-"

/-- The line about a run that took some milliseconds. -/
def reportLine (r : IndexReport) (milliseconds : String) : String :=
  "scanned " ++ toString r.scanned ++ " files: " ++ toString r.indexed ++ " indexed, " ++
    toString r.unchanged ++ " unchanged, " ++ toString r.skipped ++ " skipped, " ++
    toString r.removed ++ " removed, " ++ toString r.chunks ++ " chunks in " ++ milliseconds ++ " ms"

/-- The line about the counts of a selection. -/
def selectionLine (s : SelectionStatistics) : String :=
  toString s.filesIncluded ++ " of " ++ toString s.filesVisited ++ " files selected, " ++
    toString s.dirsVisited ++ " directories visited, " ++ toString s.dirsExcluded ++ " pruned"

namespace Response

/-- The code that the program ends with. -/
def code : Response → Nat
  | failed .. => 1
  | refused => 2
  | _ => 0

/-- What is printed to the output, for a command that took some milliseconds. -/
def output (milliseconds : String) : Response → String
  | selected s => linesText (s.files.map Path.text)
  | overview text => lineOf text
  | declared file language d _ => linesText (declaredLines file language d)
  | indexed r => lineOf (reportLine r milliseconds)
  | found asContext rs =>
    if rs.isEmpty then ""
    else if asContext then lineOf (RetrievalResult.context rs)
    else linesText (rs.map resultLine)
  | version => lineOf versionText
  | help => lineOf usageText
  | refused | failed .. => ""

/-- What is printed to the diagnostics. -/
def diagnostics : Response → String
  | selected s =>
    linesText (selectionLine s.statistics ::
      s.warnings.map fun w => "warning: " ++ w.message)
  | declared _ language _ parsed =>
    if parsed then ""
    else lineOf ("no " ++ language.id ++ " grammar compiled in; showing a single module chunk")
  | indexed r => linesText (r.failures.map fun f => "failed: " ++ f.id ++ ": " ++ f.message)
  | found _ rs => if rs.isEmpty then lineOf "no matches; has `repomind index` been run?" else ""
  | refused => lineOf usageText
  | failed problem cause =>
    lineOf ("Error: " ++ problem) ++ cause.elim "" fun c => "\nCaused by:\n" ++ lineOf ("    " ++ c)
  | overview _ | version | help => ""

end Response

end CodeSearch.CommandLine
