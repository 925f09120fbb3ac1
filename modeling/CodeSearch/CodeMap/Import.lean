import CodeSearch.Path
import CodeSearch.Text.Blank
import CodeSearch.Text.Search

/-!
# What an import statement may refer to

An import names modules; a module is sought under a path of names with slashes between them. A
statement gives groups of such paths: of each group the first path that some file has counts, and
what the groups find is put together.

A statement is told by how it begins:

* `use` — the path of an item, longest first, since the item may live in a module of its own;
* `from … import` — the names first as modules of the package, then the package;
* quoted texts — the ends of the quoted path, longest first, without and with its extension;
* `import` — the dotted names.
-/

namespace CodeSearch.Import

/-- The words of a text: the stretches without blanks. -/
def firstWord? (s : List Char) : Option (List Char) :=
  match (Chars.trimStart s).takeWhile (!isBlank ·) with
  | [] => none
  | w => some w

/-- Dots written as slashes. -/
def slashed (s : List Char) : List Char := s.map fun c => if c = '.' then '/' else c

/-- A dotted name without the dots at its start, written with slashes. -/
def dotted (s : List Char) : List Char := slashed (s.dropWhile (· = '.'))

/-- The ends of a list, from the whole of it to its last item. -/
def ends {α : Type} : List α → List (List α)
  | [] => []
  | a :: r => (a :: r) :: ends r

/-- Names with slashes between them. -/
def pathOf (names : List (List Char)) : List Char := Chars.joinPieces '/' names

/-! ### `use` -/

/-- The stretches between double colons. -/
def colonPieces : List Char → List (List Char)
  | [] => [[]]
  | ':' :: ':' :: r => [] :: colonPieces r
  | c :: r =>
    match colonPieces r with
    | [] => [[c]]
    | p :: ps => (c :: p) :: ps

/-- A text read backwards, without the double colons at its start. -/
def dropColons : List Char → List Char
  | ':' :: ':' :: r => dropColons r
  | s => s

/-- The names that say where a path starts, and name no module. -/
def anchors : List (List Char) := ["crate".toList, "self".toList, "super".toList]

/-- The libraries that are never part of what is mapped. -/
def externals : List (List Char) := ["std".toList, "core".toList, "alloc".toList]

/-- The names of the path in a `use` statement, without those that say where it starts. -/
def usedNames (s : List Char) : List (List Char) :=
  let path := Chars.trim (Chars.dropEndWhile (· = ';') s)
  let path := path.takeWhile (· ≠ '\x7b')
  let path := (dropColons path.reverse).reverse
  let path := ((Chars.cutAt? " as ".toList path).map Prod.fst).getD path
  (((colonPieces path).map Chars.trim).filter (!·.isEmpty)).dropWhile (anchors.contains ·)

/-- What a `use` statement may refer to. -/
def useGroups (s : List Char) : List (List (List Char)) :=
  let names := usedNames s
  if names.isEmpty || names.head?.any externals.contains then []
  else [(ends names.reverse).map fun n => pathOf n.reverse]

/-! ### `from … import` -/

/-- What a `from` statement may refer to. -/
def fromGroups (s : List Char) : List (List (List Char)) :=
  match Chars.cutAt? " import ".toList s with
  | none => []
  | some (package, names) =>
    let package := dotted (Chars.trim package)
    let names := Chars.stripBoth (fun c => c = '(' ∨ c = ')') (Chars.trim names)
    let words := ((Chars.pieces ',' names).filterMap firstWord?).filter (· ≠ ['*'])
    if words.isEmpty then if package.isEmpty then [] else [[package]]
    else words.map fun w => if package.isEmpty then [w] else [package ++ '/' :: w, package]

/-! ### Quoted texts -/

/-- The characters that stand around a quoted text. -/
def isQuote (c : Char) : Bool := c = '\x22' || c = '\x27' || c = '\x60'

/-- The quoted texts of a statement: they are not empty and hold neither quotes nor blanks. The text
read since the last quote is kept backwards, if it may still become one. -/
def quotedFrom : Option (List Char) → List Char → List (List Char)
  | _, [] => []
  | open?, c :: r =>
    if isQuote c then
      match open? with
      | some (a :: b) => (a :: b).reverse :: quotedFrom none r
      | _ => quotedFrom (some []) r
    else if isBlank c then quotedFrom none r
    else quotedFrom (open?.map (c :: ·)) r

/-- The quoted texts of a statement. -/
def quoted (s : List Char) : List (List Char) := quotedFrom none s

/-- The names of a path without the extension of the last one. -/
def withoutExtension (names : List String) : List String :=
  match names.getLast? with
  | none => []
  | some last =>
    let stem := (Path.splitName last).1
    names.dropLast ++ if stem = "." ∨ stem = ".." then [] else [stem]

/-- What a quoted text may refer to. -/
def quotedGroup (s : List Char) : List (List Char) :=
  let names := (Chars.pieces '/' s).filter fun p => !p.isEmpty && p ≠ ['.'] && p ≠ ['.', '.']
  let bare := (withoutExtension (names.map String.ofList)).map String.toList
  ((ends bare ++ ends names).map pathOf).eraseDups

/-! ### Statements -/

/-- What an import statement may refer to. -/
def groups (statement : String) : List (List (List Char)) :=
  let s := Chars.trim statement.toList
  match Chars.after? "use ".toList (Chars.dropStart "pub ".toList s) with
  | some r => useGroups r
  | none =>
    -- a library of its own is not part of what is mapped
    if Chars.startsWith s "extern crate".toList then []
    else match Chars.after? "from ".toList s with
      | some r => fromGroups r
      | none =>
        match quoted s with
        | [] =>
          match Chars.after? "import ".toList s with
          | some r => ((Chars.pieces ',' r).filterMap firstWord?).map fun m => [dotted m]
          | none => []
        | q :: qs => (q :: qs).map quotedGroup

/-- **The longest end comes first and the last item alone comes last.** -/
theorem mem_ends_iff {α : Type} {l e : List α} : e ∈ ends l ↔ e ≠ [] ∧ e <:+ l := by
  induction l with
  | nil =>
    simp only [ends, List.not_mem_nil, List.suffix_nil, false_iff, not_and]
    exact fun h => h
  | cons a r ih =>
    rw [ends, List.mem_cons, ih, List.suffix_cons_iff]
    constructor
    · rintro (h | ⟨h, hs⟩)
      · exact ⟨h ▸ List.cons_ne_nil _ _, Or.inl h⟩
      · exact ⟨h, Or.inr hs⟩
    · rintro ⟨h, hs | hs⟩
      · exact Or.inl hs
      · exact Or.inr ⟨h, hs⟩

end CodeSearch.Import
