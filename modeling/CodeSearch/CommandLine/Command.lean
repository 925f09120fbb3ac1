import CodeSearch.CommandLine.Arguments

/-!
# Commands

A command line is a command with its own options and plain words, and the settings file, which may be
named in front of the command or after it; what stands after it counts.
-/

namespace CodeSearch.CommandLine

/-- What the program is asked to do. -/
inductive Command where
  /-- List the files that would be indexed. -/
  | scan (path : Path)
  /-- Show an overview within some tokens. -/
  | map (path : Path) (tokens : Nat)
  /-- Show what one file declares. -/
  | symbols (file : Path)
  /-- Index a directory. -/
  | index (path : Path) (database : Option Path) (watch : Bool)
  /-- Search an index. -/
  | search (query : String) (path : Path) (database : Option Path) (count : Option Nat)
      (useStructure asContext : Bool)
  deriving DecidableEq, Repr

/-- A command with the settings file it is to go by. -/
structure Invocation where
  /-- The settings file. -/
  settingsFile : Path
  /-- The command. -/
  command : Command
  deriving DecidableEq, Repr

/-- The option that names the settings file. -/
def settingsSwitch : Switch := { name := "config", value := some .path }

/-- The options in front of a command. -/
def leadingSwitches : List Switch := [settingsSwitch, { name := "version", letter := some 'V' }]

/-- The settings file if none is named. -/
def defaultSettingsFile : Path := ⟨"repomind.toml"⟩

/-- The directory that a command is about if none is named. -/
def defaultDirectory : Path := ⟨"."⟩

/-- How many tokens an overview may have if nothing is said about it. -/
def defaultTokens : Nat := 1024

/-- The names of the commands. -/
def commandNames : List String := ["scan", "map", "symbols", "index", "search"]

/-- The options of a command, and what its plain words are read as. -/
def switchesOf (command : String) : List Switch × List ValueKind :=
  let own : List Switch × List ValueKind := match command with
    | "map" => ([{ name := "tokens", value := some .count }], [.path])
    | "index" => ([{ name := "db", value := some .path }, { name := "watch" }], [.path])
    | "search" =>
      ([{ name := "path", value := some .path }, { name := "db", value := some .path },
        { name := "k", letter := some 'k', value := some .count }, { name := "no-structural" },
        { name := "xml" }], [.text])
    | _ => ([], [.path])
  (settingsSwitch :: own.1, own.2)

/-- Whether words that come after a demand for help name at most one command. -/
def asksForHelp : List String → Bool
  | [] => true
  | [word] => word == "help" || commandNames.contains word
  | _ => false

/-- Reads the words in front of a command, and gives the name of the command and the words after it. -/
def readLeading (w : Words) : List String → Except Halt (Words × String × List String)
  | [] => .error .refused
  | word :: r =>
    -- the value of an option and what stands after two dashes is no command
    if w.pending.isNone && !w.escaped && (word == "help" || commandNames.contains word) then
      if word ≠ "help" then .ok (w, word, r)
      else .error (if asksForHelp r then .help else .refused)
    else (readWord leadingSwitches [] w word).bind fun w => readLeading w r

/-- The path that an option has as its value. -/
def Words.path? (w : Words) (name : String) : Option Path := (w.values.get? name).map Path.mk

/-- The count that an option has as its value. -/
def Words.count? (w : Words) (name : String) : Option Nat :=
  (w.values.get? name).bind Settings.parseCount?

/-- The first plain word, which has to be there. -/
def Words.first (w : Words) : Except Halt String :=
  match w.plain with
  | [] => .error .refused
  | word :: _ => .ok word

/-- The first plain word as a directory, or the one that the program runs in. -/
def Words.directory (w : Words) : Path := (w.plain.head?.map Path.mk).getD defaultDirectory

/-- The command of a name with its words. -/
def commandOf (name : String) (w : Words) : Except Halt Command :=
  match name with
  | "scan" => .ok (.scan w.directory)
  | "map" => .ok (.map w.directory ((w.count? "tokens").getD defaultTokens))
  | "symbols" => w.first.map fun file => .symbols ⟨file⟩
  | "index" => .ok (.index w.directory (w.path? "db") (w.has "watch"))
  | "search" =>
    w.first.map fun query =>
      .search query ((w.path? "path").getD defaultDirectory) (w.path? "db") (w.count? "k")
        (!w.has "no-structural") (w.has "xml")
  | _ => .error .refused

/-- What the words after the name of the program ask for. -/
def Invocation.ofWords (words : List String) : Except Halt Invocation := do
  let (leading, name, rest) ← readLeading {} words
  let (switches, room) := switchesOf name
  let own ← finish (← rest.foldlM (readWord switches room) {})
  let command ← commandOf name own
  let settingsFile := (own.path? "config" <|> leading.path? "config").getD defaultSettingsFile
  return { settingsFile, command }

end CodeSearch.CommandLine
