import CodeSearch.CodeMap.Basic
import CodeSearch.Settings
import CodeSearch.Workspace

/-!
# Maps of directory trees

The map of a directory has all its directories, unless they hardly ever hold sources, and all its
files; links are left out.
-/

namespace CodeSearch

mutual

/-- What a map takes of an entry at a place: the places of its directories and files, directories
marked, each in front of what lies in it. -/
def Entry.mapped (place : List RawText) : Entry → List (List RawText × Bool)
  | .file => [(place, false)]
  | .directory none => [(place, true)]
  | .directory (some es) => (place, true) :: mappedOf place es
  | .fileLink | .other => []

/-- What a map takes of the entries of a directory. -/
def Entry.mappedOf (place : List RawText) : List (RawText × Entry) → List (List RawText × Bool)
  | [] => []
  | (name, e) :: r =>
    (if e.listing?.isSome && conventionalIgnores.contains name.text then []
      else e.mapped (place ++ [name])) ++ mappedOf place r

end

namespace CodeMap

/-- The map with a directory or file at a place. -/
def addPlace (w : Workspace) (m : CodeMap) (place : List RawText × Bool) : CodeMap :=
  let below := Path.ofRaw (RawText.join place.1)
  if place.2 then (m.makeDirectory below).1
  else
    let path := m.root.join below
    (m.insert path ((w.facts path).toOption.elim 0 FileFacts.size)).1

/-- The map of a directory. -/
def ofWorkspace (w : Workspace) (root : Path) : Except IndexError CodeMap :=
  match w.facts root, w.entry? root with
  | .error cause, _ => .error (.file cause)
  | .ok _, some (.directory listing) =>
    .ok ((Entry.mappedOf [] (listing.getD [])).foldl (addPlace w) { root })
  | .ok _, _ => .error (.notDirectory root)

end CodeMap

end CodeSearch
