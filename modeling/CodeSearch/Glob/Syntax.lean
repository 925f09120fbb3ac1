import CodeSearch.Glob.Expression

/-!
# The text of expressions

An expression is written as a regular expression that is bound at both ends, `^` to `$`, and so holds of
whole texts. In between a character stands for itself, a point for any character but a newline, brackets
hold a class, and a backslash makes a plain character of one that means something. Behind any of these `*`
asks for any number of characters, as `*?` does: which of the ways to describe a text is tried first makes no
difference. A group `(?:…)?` may be missing.

These are the forms that globs are translated into. The readers below give nothing for a text of another
form, such as one with alternatives, counted repetitions or classes in classes, and for a class with a range
whose ends are in the wrong order. A reader of a part of an expression also gives the text behind the part.
-/

namespace CodeSearch.Glob

/-- Whether a character means something in an expression. Behind a backslash it is plain. -/
def isMeta (c : Char) : Bool :=
  ['\\', '.', '+', '*', '?', '(', ')', '|', '[', ']', '{', '}', '^', '$', '#', '&', '-', '~'].contains c

/-- Whether a character stands for itself outside of classes. Some do that only have a meaning in them. -/
def isPlain (c : Char) : Bool := !isMeta c || [']', '}', '#', '&', '-', '~'].contains c

/-! ### Classes -/

/-- Reads the characters of a class up to its closing bracket. -/
def readClassText? : List Char → Option (List Char × List Char)
  | [] => none
  | ']' :: r => some ([], r)
  | '\\' :: c :: r =>
    if isMeta c && c != '-' then (readClassText? r).map fun (text, rest) => (c :: text, rest) else none
  | c :: r =>
    if ['\\', '[', '&', '~'].contains c then none
    else (readClassText? r).map fun (text, rest) => (c :: text, rest)

/-- Reads a class whose opening bracket has been passed. A caret negates it; hyphens at the start stand for
themselves, or else a closing bracket does so. -/
def readClass? (s : List Char) : Option (CharSet × List Char) :=
  let negated := s.head? = some '^'
  let s := if negated then s.drop 1 else s
  let empty : CharSet := ⟨negated, [], []⟩
  let hyphens := s.takeWhile (· = '-')
  let (start, s) :=
    if !hyphens.isEmpty then (empty.add false ⟨'-', '-'⟩, s.drop hyphens.length)
    else if s.head? = some ']' then (empty.add false ⟨']', ']'⟩, s.drop 1)
    else (empty, s)
  (readClassText? s).bind fun (text, rest) => (start.readMembers? false text).map fun set => (set, rest)

/-! ### Pieces, items and expressions -/

/-- Reads what describes one character. -/
def readSet? : List Char → Option (CharSet × List Char)
  | [] => none
  | '.' :: r => some (.allBut '\n', r)
  | '[' :: r => readClass? r
  | '\\' :: c :: r => if isMeta c then some (.single c, r) else none
  | c :: r => if isPlain c then some (.single c, r) else none

/-- Reads the sign of a repetition, if there is one. -/
def readRepeated (set : CharSet) : List Char → Piece × List Char
  | '*' :: '?' :: r => (.many set, r)
  | '*' :: r => (.many set, r)
  | r => (.one set, r)

/-- Reads a piece. -/
def readPiece? (s : List Char) : Option (Piece × List Char) :=
  (readSet? s).map fun (set, r) => readRepeated set r

/-- Reads the pieces of a group whose start has been passed. Every piece takes at least one character, so
the length of the text is fuel enough. -/
def readGroup? : (fuel : Nat) → List Char → Option (List Piece × List Char)
  | _, ')' :: '?' :: r => some ([], r)
  | 0, _ => none
  | fuel + 1, s =>
    (readPiece? s).bind fun (p, r) => (readGroup? fuel r).map fun (ps, rest) => (p :: ps, rest)

/-- Reads an item. -/
def readItem? : List Char → Option (Item × List Char)
  | '(' :: '?' :: ':' :: r => (readGroup? r.length r).map fun (ps, rest) => (.optional ps, rest)
  | s => (readPiece? s).map fun (p, r) => (.piece p, r)

/-- Reads the items of an expression up to the sign of its end, with fuel as for a group. -/
def readItems? : (fuel : Nat) → List Char → Option (List Item)
  | _, ['$'] => some []
  | 0, _ => none
  | fuel + 1, s => (readItem? s).bind fun (i, r) => (readItems? fuel r).map (i :: ·)

/-- Reads an expression. -/
def readExpression? : List Char → Option (List Item)
  | '^' :: r => readItems? r.length r
  | _ => none

end CodeSearch.Glob
