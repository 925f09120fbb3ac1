import CodeSearch.Glob.Rule
import CodeSearch.Path
import CodeSearch.Settings

/-!
# Selectors

A selector decides about the places below a base, given by the names on the way to them with slashes
between: whether a file is taken and whether a directory is passed over. What lies below a directory
that is passed over is not taken, whatever its own name.

* `directoryExcluded_of_isWithin` — nothing at or below an included directory is passed over.
-/

namespace CodeSearch

/-- What decides about files and directories. -/
structure Selector where
  /-- The directories that a walk is restricted to; with none it is not restricted. -/
  includeDirs : List String
  /-- The rules for directories. -/
  directoryRules : Glob.RuleSet
  /-- The rules for files. -/
  fileRules : Glob.RuleSet
  /-- The extensions of files that are taken; with none all are. -/
  extensions : List String
  /-- Selecting fewer files than this is worth a warning. -/
  minFilesWarning : Nat
  /-- One directory with more than this share of the files is worth a warning. -/
  dominantDirRatio : Float
  /-- Below this many files no directory counts as dominant. -/
  dominantDirMinFiles : Nat

namespace Selector

/-- The selector of some settings. -/
def ofSettings (s : SelectionSettings) : Selector :=
  { includeDirs := (s.includeDirs.map Text.bareRelative).filter (· ≠ "")
    directoryRules := Glob.RuleSet.ofLines s.excludeDirs
    fileRules := Glob.RuleSet.ofLines s.excludeFiles
    extensions := (s.extensions.map fun e => String.ofList (e.toList.dropWhile (· = '.'))).filter
      (· ≠ "")
    minFilesWarning := s.minFilesWarning
    dominantDirRatio := s.dominantDirRatio
    dominantDirMinFiles := s.dominantDirMinFiles }

/-- The place of a name in a directory; the base itself is the empty text. -/
def child (parent name : String) : String := if parent = "" then name else parent ++ "/" ++ name

/-- Whether a place is a directory or lies below it. -/
def isWithin (place directory : String) : Bool :=
  place = directory || Chars.startsWith place.toList (directory.toList ++ ['/'])

/-- Whether a file is taken. -/
def fileIncluded (s : Selector) (place : String) : Bool :=
  (s.extensions.isEmpty || ((Path.mk place).extension?.any fun e => s.extensions.contains e)) &&
    !s.fileRules.excluded place false

/-- Whether a directory is passed over. If the walk is restricted to some directories, everything at or
below one of them is entered, and what does not lead to one is not. -/
def directoryExcluded (s : Selector) (place : String) : Bool :=
  let place := Text.bareRelative place
  if s.includeDirs.any (isWithin place ·) then false
  else if !s.includeDirs.isEmpty && !s.includeDirs.any (isWithin · place) then true
  else s.directoryRules.excluded place true

theorem directoryExcluded_of_isWithin {s : Selector} {place directory : String}
    (hd : directory ∈ s.includeDirs) (h : isWithin (Text.bareRelative place) directory = true) :
    s.directoryExcluded place = false := by
  have : s.includeDirs.any (isWithin (Text.bareRelative place) ·) = true :=
    List.any_eq_true.2 ⟨directory, hd, h⟩
  simp [directoryExcluded, this]

/-- The places of the directories on the way to a file, the outermost first. -/
def ancestors (parent : String) : List String → List String
  | [] => []
  | d :: ds => child parent d :: ancestors (child parent d) ds

/-- Whether a walk from a base would come to a path and take it. -/
def accepts (s : Selector) (base path : Path) : Bool :=
  match base.relativeTo? path with
  | none => false
  | some cs =>
    let names := cs.map Path.Component.text
    match names.getLast? with
    | none => false
    | some _ =>
      (ancestors "" names.dropLast).all (fun d => !s.directoryExcluded d) &&
        s.fileIncluded (Text.join "/" names)

end Selector

end CodeSearch
