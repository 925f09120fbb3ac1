import CodeSearch.Settings
import CodeSearch.Path

/-!
# The words of a command line

The words after the name of the program are read from left to right. A word that starts with two
dashes names an option, one that starts with a single dash names options by one letter, and two dashes
alone make all later words plain. The value of an option is joined to it by `=` or is the next word, if
that does not look like an option. Values are checked as they are met, and nothing may be given twice.

* `readWord_plain` — a plain word is taken as it is while there is room for one.
-/

namespace CodeSearch.CommandLine

/-- What a value is read as. -/
inductive ValueKind where
  /-- Any text. -/
  | text
  /-- A path. -/
  | path
  /-- A count. -/
  | count
  deriving DecidableEq, Repr

/-- Whether a text can be read as a value of a kind: a path is not empty, and a count is written with
digits. -/
def ValueKind.admits : ValueKind → String → Bool
  | text, _ => true
  | path, s => s ≠ ""
  | count, s => (Settings.parseCount? s).isSome

/-- An option. -/
structure Switch where
  /-- Its name. -/
  name : String
  /-- The letter that stands for it. -/
  letter : Option Char := none
  /-- What its value is read as, if it has one. -/
  value : Option ValueKind := none
  deriving DecidableEq, Repr

/-- Why no command is read. -/
inductive Halt where
  /-- Help is asked for. -/
  | help
  /-- The version is asked for. -/
  | version
  /-- The words make no sense. -/
  | refused
  deriving DecidableEq, Repr

/-- What has been read of the words. -/
structure Words where
  /-- The values of options. -/
  values : Table String := []
  /-- The options without a value. -/
  flags : List String := []
  /-- The plain words. -/
  plain : List String := []
  /-- Whether all later words are plain. -/
  escaped : Bool := false
  /-- The option that waits for its value, and what that is read as. -/
  pending : Option (String × ValueKind) := none
  deriving DecidableEq, Repr

namespace Words

/-- Whether an option was given. -/
def has (w : Words) (name : String) : Bool := w.values.contains name || w.flags.contains name

/-- The words with the value of an option. -/
def give (w : Words) (name : String) (kind : ValueKind) (value : String) : Except Halt Words :=
  if w.has name || !kind.admits value then .error .refused
  else .ok { w with values := w.values.insert name value, pending := none }

/-- The words with an option that has no value. -/
def set (w : Words) (name : String) : Except Halt Words :=
  if w.has name then .error .refused else .ok { w with flags := name :: w.flags }

/-- The words with one that is plain, if there is room for it; `room` has the kind of each. -/
def take (w : Words) (room : List ValueKind) (word : String) : Except Halt Words :=
  if room[w.plain.length]?.any (·.admits word) then .ok { w with plain := w.plain ++ [word] }
  else .error .refused

end Words

/-- The options that end the reading at once. -/
def halting (switches : List Switch) (name : String) : Option Halt :=
  if name = "help" then some .help
  else if name = "version" ∧ switches.any (·.name = "version") then some .version
  else none

/-- Reads an option by its name, with the value that is joined to it. -/
def readNamed (switches : List Switch) (w : Words) (name : String) (value : Option String) :
    Except Halt Words :=
  match halting switches name, switches.find? (·.name = name), value with
  | some h, _, none => .error h
  | some _, _, some _ | none, none, _ => .error .refused
  | none, some s, some v => s.value.elim (.error .refused) (w.give name · v)
  | none, some s, none =>
    s.value.elim (w.set name) fun kind => .ok { w with pending := some (name, kind) }

/-- Reads options by their letters. -/
def readLetters (switches : List Switch) (w : Words) : List Char → Except Halt Words
  | [] => .ok w
  | c :: r =>
    if c = 'h' then .error .help
    else match switches.find? (·.letter = some c) with
      | none => .error .refused
      | some s =>
        match s.value, r with
        | some kind, [] => .ok { w with pending := some (s.name, kind) }
        | some kind, '=' :: v => w.give s.name kind (String.ofList v)
        | some kind, v => w.give s.name kind (String.ofList v)
        | none, r =>
          match halting switches s.name with
          | some h => .error h
          | none => (w.set s.name).bind fun w => readLetters switches w r

/-- A word that may name options. -/
inductive Shape where
  /-- Two dashes alone. -/
  | escape
  /-- A name, and the value joined to it. -/
  | named (name : String) (value : Option String)
  /-- Letters. -/
  | letters (cs : List Char)
  /-- A word of another kind. -/
  | plain
  deriving DecidableEq, Repr

/-- What a word looks like. -/
def shapeOf (word : String) : Shape :=
  match word.toList with
  | ['-', '-'] => .escape
  | '-' :: '-' :: r =>
    let name := String.ofList (r.takeWhile (· ≠ '='))
    match r.dropWhile (· ≠ '=') with
    | [] => .named name none
    | _ :: v => .named name (some (String.ofList v))
  | '-' :: c :: r => .letters (c :: r)
  | _ => .plain

/-- Reads one word. -/
def readWord (switches : List Switch) (room : List ValueKind) (w : Words) (word : String) :
    Except Halt Words :=
  if w.escaped then w.take room word
  else match w.pending, shapeOf word with
    | some (name, kind), .plain => w.give name kind word
    | some _, _ => .error .refused
    | none, .escape => .ok { w with escaped := true }
    | none, .named name value => readNamed switches w name value
    | none, .letters cs => readLetters switches w cs
    | none, .plain => w.take room word

/-- The words, unless one of them waits for its value. -/
def finish (w : Words) : Except Halt Words := if w.pending.isSome then .error .refused else .ok w

theorem readWord_plain (switches : List Switch) {room : List ValueKind} {w : Words} {word : String}
    (hp : w.pending = none) (hs : shapeOf word = .plain) :
    readWord switches room w word = w.take room word := by
  unfold readWord
  split
  · rfl
  · rw [hp, hs]

end CodeSearch.CommandLine
