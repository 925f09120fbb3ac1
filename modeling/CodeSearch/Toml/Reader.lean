import CodeSearch.Settings
import CodeSearch.Toml.Scalar

/-!
# Reading TOML

A document is a list of settings under headers. It is read line by line into a tree of tables, and every
table remembers how it came about, since that decides what may still be added to it: a table under a
header is opened once, a table made by a dotted key grows by dotted keys only, and a table written in one
line is closed.

* `parse?` gives the record that a document is, or nothing if any of it is wrong.
-/

namespace CodeSearch.Toml

/-- What a key leads to. -/
inductive Item where
  /-- A value, a list or a table in one line. -/
  | value (v : Json)
  /-- A table; `opened` by a header of its own, or `dotted` by the keys in it. -/
  | table (opened dotted : Bool) (entries : List (String × Item))
  /-- Tables under repeated headers, the last one first. -/
  | tables (rows : List (List (String × Item)))
  deriving Inhabited

/-- The entries of a table. -/
abbrev Entries := List (String × Item)

mutual

/-- The value that an item stands for. -/
def Item.toJson : Item → Json
  | .value v => v
  | .table _ _ es => .obj (entriesToJson es)
  | .tables rows => .arr (rowsToJson rows).reverse

/-- The values of some entries. -/
def entriesToJson : List (String × Item) → List (String × Json)
  | [] => []
  | (k, i) :: r => (k, i.toJson) :: entriesToJson r

/-- The tables of a list. -/
def rowsToJson : List (List (String × Item)) → List Json
  | [] => []
  | es :: r => .obj (entriesToJson es) :: rowsToJson r

end

/-- Gives a dotted key a value. -/
def set? (key : List String) (v : Json) (es : Entries) : Option Entries :=
  match key with
  | [] => none
  | [k] => if Table.contains es k then none else some (Table.insert es k (.value v))
  | k :: ks =>
    match Table.get? es k with
    | none => (set? ks v []).map fun inner => Table.insert es k (.table false true inner)
    | some (.table opened dotted inner) =>
      -- a table under a header is not for dotted keys, and one that only headers below it have made
      -- may be passed through but not be filled
      if opened ∨ (ks.length = 1 ∧ !dotted) then none
      else (set? ks v inner).map fun inner => Table.insert es k (.table opened dotted inner)
    | some (.tables (row :: rows)) =>
      if ks.length = 1 then none
      else (set? ks v row).map fun row => Table.insert es k (.tables (row :: rows))
    | some (.tables []) | some (.value _) => none

/-- Changes the table that a path leads to, the last one where there are several. Missing tables on the
way are made. -/
def within? (path : List String) (change : Entries → Option Entries) (es : Entries) : Option Entries :=
  match path with
  | [] => change es
  | k :: ks =>
    match Table.get? es k with
    | none => (within? ks change []).map fun inner => Table.insert es k (.table false false inner)
    | some (.table opened dotted inner) =>
      (within? ks change inner).map fun inner => Table.insert es k (.table opened dotted inner)
    | some (.tables (row :: rows)) =>
      (within? ks change row).map fun row => Table.insert es k (.tables (row :: rows))
    | some (.tables []) | some (.value _) => none

/-- Opens the table with a name. -/
def openTable? (k : String) (es : Entries) : Option Entries :=
  match Table.get? es k with
  | none => some (Table.insert es k (.table true false []))
  | some (.table false false inner) => some (Table.insert es k (.table true false inner))
  | _ => none

/-- Adds a table to the list of tables with a name. -/
def addTable? (k : String) (es : Entries) : Option Entries :=
  match Table.get? es k with
  | none => some (Table.insert es k (.tables [[]]))
  | some (.tables rows) => some (Table.insert es k (.tables ([] :: rows)))
  | _ => none

mutual

/-- The value in front of a text. -/
def value? : (fuel : Nat) → List Char → Option (Json × List Char)
  | 0, _ => none
  | fuel + 1, s =>
    match s with
    | '[' :: r =>
      match skipLines fuel r with
      | ']' :: r => some (.arr [], r)
      | r => (items? fuel r).map fun (vs, r) => (.arr vs, r)
    | '\x7b' :: r =>
      match skipLines fuel r with
      | '\x7d' :: r => some (.obj [], r)
      | r => (fields? fuel [] r).map fun (es, r) => (.obj (entriesToJson es), r)
    | _ =>
      match s.head? with
      | some c =>
        if c = '\x22' ∨ c = '\x27' then (text? s).map fun (t, r) => (.str (String.ofList t), r)
        else
          let (w, r) := takeWord s
          (word? w).map (·, r)
      | none => none

/-- The items of a list, up to its end. -/
def items? : (fuel : Nat) → List Char → Option (List Json × List Char)
  | 0, _ => none
  | fuel + 1, s =>
    (value? fuel s).bind fun (v, r) =>
      match skipLines fuel r with
      | ']' :: r => some ([v], r)
      | ',' :: r =>
        match skipLines fuel r with
        | ']' :: r => some ([v], r)
        | r => (items? fuel r).map fun (vs, r) => (v :: vs, r)
      | _ => none

/-- The entries of a table in one line, up to its end. -/
def fields? : (fuel : Nat) → Entries → List Char → Option (Entries × List Char)
  | 0, _, _ => none
  | fuel + 1, es, s =>
    (key? fuel s).bind fun (k, r) =>
      match r with
      | '=' :: r =>
        (value? fuel (skipSpace r)).bind fun (v, r) =>
          (set? k v es).bind fun es =>
            match skipLines fuel r with
            | '\x7d' :: r => some (es, r)
            | ',' :: r =>
              match skipLines fuel r with
              | '\x7d' :: r => some (es, r)
              | r => fields? fuel es r
            | _ => none
      | _ => none

end

/-- The text after the end of a line, before which only blanks and a comment may stand. -/
def lineEnd? (s : List Char) : Option (List Char) :=
  match skipComment (skipSpace s) with
  | [] => some []
  | s => newline? s

/-- A header after its first bracket: its key and the rest of the line. -/
def header? (fuel : Nat) (repeated : Bool) (s : List Char) : Option (List String × List Char) :=
  (key? fuel s).bind fun (k, r) =>
    (Chars.after? (if repeated then [']', ']'] else [']']) r).bind fun r =>
      (lineEnd? r).map (k, ·)

/-- Reads the lines of a document; `path` leads to the table of the last header. -/
def lines? : (fuel : Nat) → (path : List String) → Entries → List Char → Option Entries
  | 0, _, _, _ => none
  | fuel + 1, path, es, s =>
    match skipLines (fuel + 1) s with
    | [] => some es
    | '[' :: '[' :: r =>
      (header? fuel true r).bind fun (k, r) =>
        match k.getLast? with
        | none => none
        | some last => (within? k.dropLast (addTable? last) es).bind fun es => lines? fuel k es r
    | '[' :: r =>
      (header? fuel false r).bind fun (k, r) =>
        match k.getLast? with
        | none => none
        | some last => (within? k.dropLast (openTable? last) es).bind fun es => lines? fuel k es r
    | s =>
      (key? fuel s).bind fun (k, r) =>
        match r with
        | '=' :: r =>
          (value? fuel (skipSpace r)).bind fun (v, r) =>
            (lineEnd? r).bind fun r => (within? path (set? k v) es).bind fun es => lines? fuel path es r
        | _ => none

/-- The record that a document is. A mark of the byte order at the start is passed over. -/
def parse? (text : String) : Option Json :=
  let s := Chars.dropStart [Char.ofNat 0xFEFF] text.toList
  (lines? (2 * s.length + 2) [] [] s).map fun es => .obj (entriesToJson es)

end CodeSearch.Toml

namespace CodeSearch

/-- The settings that a file holds, with environment variables put in place, if they pass the check.
Without a file the defaults are taken. -/
def Settings.load (file : String) (text : Option String) (env : Settings.Environment) :
    Except Settings.Problem Settings := do
  let s ← match text with
    | none => pure {}
    | some t =>
      match (Toml.parse? t).bind Settings.ofJson? with
      | some s => pure s
      | none => throw (.unreadable file)
  let s := s.override env
  s.check
  return s

end CodeSearch
