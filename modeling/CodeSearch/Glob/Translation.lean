import CodeSearch.Glob.Syntax

/-!
# Translating globs

A glob is translated into the text of an expression, sign by sign from the left. `**/` becomes a group that
may be missing, `**`, `*` and `?` become repeated and single classes, and a class stays one, with an
exclamation mark at its start turned into a caret. All other characters stand for themselves, those behind a
backslash too, and get a backslash where they mean something in an expression. A bracket that is not closed
is such a character, and so is a backslash at the end.
-/

namespace CodeSearch.Glob

/-- A character that stands for itself, as an expression. -/
def escape (c : Char) : List Char := if isMeta c then ['\\', c] else [c]

/-- A member of a class of a glob, as a member of a class of an expression. -/
def escapeMember (c : Char) : List Char := if ['\\', '[', '&', '~'].contains c then ['\\', c] else [c]

/-- The body of a bracket class whose opening bracket has been passed, and the text after its closing
bracket. A mark of negation and a closing bracket at the start of the body do not end it. -/
def classBody? (s : List Char) : Option (List Char × List Char) :=
  let negation := if s.head? = some '!' ∨ s.head? = some '^' then 1 else 0
  let opening := negation + if (s.drop negation).head? = some ']' then 1 else 0
  let body := s.take opening ++ (s.drop opening).takeWhile (· ≠ ']')
  match s.drop body.length with
  | _ :: rest => some (body, rest)
  | [] => none

/-- A class with the given body. -/
def translateClass (body : List Char) : List Char :=
  let negated := body.head? = some '!' ∨ body.head? = some '^'
  let members := if negated then body.drop 1 else body
  '[' :: (if negated then ['^'] else []) ++ members.flatMap escapeMember ++ [']']

/-- Translates a glob. Every sign takes at least one character, so the length of the glob is fuel enough. -/
def translateSigns : (fuel : Nat) → List Char → List Char
  | _, [] => []
  | 0, _ :: _ => []
  | fuel + 1, '*' :: '*' :: '/' :: r => ['(', '?', ':', '.', '*', '?', '/', ')', '?'] ++ translateSigns fuel r
  | fuel + 1, '*' :: '*' :: r => ['.', '*'] ++ translateSigns fuel r
  | fuel + 1, '*' :: r => ['[', '^', '/', ']', '*'] ++ translateSigns fuel r
  | fuel + 1, '?' :: r => ['[', '^', '/', ']'] ++ translateSigns fuel r
  | fuel + 1, '\\' :: c :: r => escape c ++ translateSigns fuel r
  | fuel + 1, '[' :: r =>
    match classBody? r with
    | some (body, rest) => translateClass body ++ translateSigns fuel rest
    | none => escape '[' ++ translateSigns fuel r
  | fuel + 1, c :: r => escape c ++ translateSigns fuel r

/-- The text of the expression that describes what a glob does. -/
def translate (glob : List Char) : List Char := translateSigns glob.length glob

end CodeSearch.Glob
