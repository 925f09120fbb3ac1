import CodeSearch.Selection.Entry
import CodeSearch.Selection.Selector

/-!
# Walks

A walk starts at a base and keeps a list of the directories it has yet to visit. A visit takes the
files of a directory that the selector takes, by name, and puts the directories that are not passed
over in front of the list, by name too. So a directory is visited before what lies in it, and all that
lies in it before its next sibling.

A walk ends, since every visit takes one directory off the finite tree (`pendingWeight_visit_lt`).

Warnings tell of selections that are likely to be mistakes. They change nothing.
-/

namespace CodeSearch

/-- What is counted on a walk. -/
structure SelectionStatistics where
  /-- The directories whose listing was asked for. -/
  dirsVisited : Nat := 0
  /-- The directories that were passed over. -/
  dirsExcluded : Nat := 0
  /-- The files that were seen. -/
  filesVisited : Nat := 0
  /-- The files that were taken. -/
  filesIncluded : Nat := 0
  /-- The files that were left out. -/
  filesExcluded : Nat := 0
  /-- The directories that could not be read. -/
  dirErrors : Nat := 0
  /-- How many files were taken from each directory that gave any; `.` is the base. -/
  includedPerDir : Table Nat := []
  deriving DecidableEq, Inhabited, Repr

/-- A likely mistake in a selection. -/
inductive SelectionWarning where
  /-- Fewer files than expected. -/
  | fewFiles (included threshold : Nat)
  /-- Most of the files come from one directory. -/
  | dominantDirectory (directory : String) (count total : Nat)
  /-- A file lies below a directory that hardly ever holds sources. -/
  | conventionallyIgnored (place : String)
  deriving DecidableEq, Repr

/-- What a warning says. -/
def SelectionWarning.message : SelectionWarning → String
  | fewFiles included threshold =>
    "only " ++ toString included ++ " file(s) selected (expected at least " ++ toString threshold ++
      "); check include/exclude rules"
  | dominantDirectory directory count total =>
    "directory " ++ directory ++ " contributes " ++ toString count ++ " of " ++ toString total ++
      " selected files"
  | conventionallyIgnored place => place ++ " lies under a directory that is usually ignored"

/-- The result of a walk. -/
structure Selection where
  /-- The files that were taken, in the order of the walk. -/
  files : List Path := []
  /-- What was counted. -/
  statistics : SelectionStatistics := {}
  /-- What is likely to be a mistake. -/
  warnings : List SelectionWarning := []
  /-- The directories whose listings were asked for, in the order of the walk. -/
  listed : List Path := []
  deriving Inhabited

namespace Selector

/-- A directory that a walk has yet to visit. -/
structure Pending where
  /-- Where the directory lies. -/
  path : Path
  /-- Its place below the base. -/
  place : String
  /-- Its entries, if it can be read. -/
  listing : Option (List (RawText × Entry))

/-- A directory in another one. -/
def Pending.child (p : Pending) (name : RawText) (listing : Option (List (RawText × Entry))) : Pending :=
  { path := p.path.join (.ofRaw name), place := Selector.child p.place name.text, listing }

/-- The entries of a directory by name; an unreadable one counts as empty. -/
def Pending.entries (p : Pending) : List (RawText × Entry) := Entry.byName (p.listing.getD [])

/-- The places of the files in a directory, with their names. -/
def Pending.files (p : Pending) : List (RawText × String) :=
  (Entry.files p.entries).map fun n => (n, Selector.child p.place n.text)

/-- The directories in a directory. -/
def Pending.directories (p : Pending) : List Pending :=
  (Entry.directories p.entries).map fun (n, l) => p.child n l

/-- The files of a directory that are taken. -/
def taken (s : Selector) (p : Pending) : List Path :=
  (p.files.filter fun f => s.fileIncluded f.2).map fun f => p.path.join (.ofRaw f.1)

/-- The directories in a directory that are entered. -/
def entered (s : Selector) (p : Pending) : List Pending :=
  p.directories.filter fun d => !s.directoryExcluded d.place

/-- Adds what a visit finds to what was found before. -/
def visit (s : Selector) (p : Pending) (found : Selection) : Selection :=
  let taken := s.taken p
  let st := found.statistics
  { found with
    files := found.files ++ taken
    listed := found.listed ++ [p.path]
    statistics :=
      { dirsVisited := st.dirsVisited + 1
        dirsExcluded := st.dirsExcluded + (p.directories.length - (s.entered p).length)
        filesVisited := st.filesVisited + p.files.length
        filesIncluded := st.filesIncluded + taken.length
        filesExcluded := st.filesExcluded + (p.files.length - taken.length)
        dirErrors := st.dirErrors + if p.listing.isNone then 1 else 0
        includedPerDir :=
          if taken.isEmpty then st.includedPerDir
          else Table.insert st.includedPerDir (if p.place = "" then "." else p.place) taken.length } }

/-- A pending directory as an entry. -/
def Pending.entry (p : Pending) : RawText × Entry := (p.place, .directory p.listing)

/-- How many directories are yet to visit, those below the pending ones included. -/
def pendingWeight (ps : List Pending) : Nat := Entry.listingWeight (ps.map Pending.entry)

theorem pendingWeight_directories_lt (p : Pending) :
    pendingWeight p.directories < (Entry.directory p.listing).weight := by
  have h := Entry.weight_directories_le p.entries
  have hmap : pendingWeight p.directories =
      Entry.listingWeight ((Entry.directories p.entries).map fun d => (d.1, .directory d.2)) := by
    rw [pendingWeight, Pending.directories, List.map_map]
    exact Entry.listingWeight_congr (by simp [Function.comp_def, Pending.entry, Pending.child])
  rw [hmap]
  cases hl : p.listing with
  | none =>
    have he : p.entries = [] := by simp [Pending.entries, hl, Entry.byName]
    rw [he, Entry.weight_directory_none]
    exact Nat.zero_lt_one
  | some es =>
    have he : p.entries = Entry.byName es := by simp [Pending.entries, hl]
    rw [he, Entry.listingWeight_byName] at h
    rw [he, Entry.weight_directory_some]
    exact Nat.lt_succ_of_le h

theorem pendingWeight_filter_le (f : Pending → Bool) (ps : List Pending) :
    pendingWeight (ps.filter f) ≤ pendingWeight ps := by
  induction ps with
  | nil => exact Nat.le_refl 0
  | cons p r ih =>
    rw [List.filter_cons]
    split
    · exact Nat.add_le_add_left ih _
    · exact Nat.le_trans ih (Nat.le_add_left _ _)

/-- **Every visit brings a walk closer to its end.** -/
theorem pendingWeight_visit_lt (s : Selector) (p : Pending) (ps : List Pending) :
    pendingWeight (s.entered p ++ ps) < pendingWeight (p :: ps) := by
  have h : pendingWeight (s.entered p) < p.entry.2.weight :=
    Nat.lt_of_le_of_lt (pendingWeight_filter_le _ _) (pendingWeight_directories_lt p)
  simp only [pendingWeight, List.map_append, List.map_cons, Entry.listingWeight_append,
    Entry.listingWeight] at h ⊢
  exact Nat.add_lt_add_right h _

/-- Visits the pending directories in turn, and those that are found on the way. -/
def walk (s : Selector) (pending : List Pending) (found : Selection) : Selection :=
  match pending with
  | [] => found
  -- what was found last is visited first
  | p :: ps => walk s (s.entered p ++ ps) (s.visit p found)
termination_by pendingWeight pending
decreasing_by exact pendingWeight_visit_lt s p ps

/-! ### Warnings -/

/-- The directory with the most files; of several the first by name. -/
def fullest (counts : Table Nat) : Option (String × Nat) :=
  counts.foldl (fun best e => match best with
    | none => some e
    | some b => if b.2 < e.2 then some e else some b) none

/-- Whether a place lies below a directory that hardly ever holds sources. -/
def underIgnored (names : List String) : Bool := names.dropLast.any conventionalIgnores.contains

/-- What is likely to be a mistake in a selection from a base. -/
def diagnose (s : Selector) (base : Path) (found : Selection) : List SelectionWarning :=
  let st := found.statistics
  let total := st.filesIncluded
  let few := if total < s.minFilesWarning then [.fewFiles total s.minFilesWarning] else []
  let dominant :=
    if s.dominantDirMinFiles ≤ total ∧ 1 < st.includedPerDir.length then
      match fullest st.includedPerDir with
      | some (d, n) =>
        if s.dominantDirRatio < n.toFloat / total.toFloat then [.dominantDirectory d n total] else []
      | none => []
    else []
  let ignored := found.files.filterMap fun f =>
    (base.relativeTo? f).bind fun cs =>
      let names := cs.map Path.Component.text
      if underIgnored names then
        some (.conventionallyIgnored (String.ofList
          ((Text.join "/" names).toList.map fun c => if c = '\\' then '/' else c)))
      else none
  few ++ dominant ++ ignored

/-- What is selected from a base. A base that is a file is judged by its name alone; one that cannot be
looked at counts as an unreadable directory. -/
def collect (s : Selector) (base : Path) (entry : Option Entry) : Selection :=
  match entry with
  | some .file | some .fileLink =>
    if s.fileIncluded ((base.fileName?.map RawText.text).getD "") then
      { files := [base], statistics := { filesVisited := 1, filesIncluded := 1 } }
    else { statistics := { filesVisited := 1, filesExcluded := 1 } }
  | some (.directory listing) =>
    let found := s.walk [{ path := base, place := "", listing }] {}
    { found with warnings := s.diagnose base found }
  | some .other => {}
  | none => { statistics := { dirErrors := 1 } }

end Selector

end CodeSearch
