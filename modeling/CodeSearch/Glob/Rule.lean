import CodeSearch.Glob.Translation
import CodeSearch.Text.Lines
import CodeSearch.Text.Search

/-!
# Ignore rules

A rule is one line of an ignore list. An exclamation mark turns it into a rule that takes files back, a
slash at the end restricts it to directories, and a slash anywhere else ties it to the directory that
the list belongs to; all other rules hold at any depth. What remains is a glob, which is translated into an
expression. If that cannot be read, because of a class that is no class, the glob is taken literally.

In a list of rules the last one that matches a path decides about it.

* `excluded_append_singleton` — the last rule decides if it matches, and otherwise the rules before it.
-/

namespace CodeSearch

namespace Chars

/-- Drops every `./` at the start. -/
def dropHere : List Char → List Char
  | '.' :: '/' :: r => dropHere r
  | s => s

/-- A relative path without `./` at the start and without slashes at its ends. -/
def bareRelative (s : List Char) : List Char := stripBoth (· = '/') (dropHere s)

end Chars

namespace Text

/-- A relative path without `./` at the start and without slashes at its ends. -/
def bareRelative (s : String) : String := String.ofList (Chars.bareRelative s.toList)

end Text

namespace Glob

/-- What the body of a rule is matched as. -/
inductive Matcher where
  /-- An expression, which has to describe the whole path. -/
  | expression (items : List Item)
  /-- A text, compared with the path; unless the rule is anchored, also with the end of a path that
  has a slash before it. -/
  | literal (text : List Char)
  deriving DecidableEq, Repr

/-- One line of an ignore list. -/
structure Rule where
  /-- The rule as it was written. -/
  raw : String
  /-- Whether the rule takes files back. -/
  negated : Bool
  /-- Whether the rule holds for directories only. -/
  directoryOnly : Bool
  /-- Whether the rule is tied to the directory that its list belongs to. -/
  anchored : Bool
  /-- What the body of the rule is matched as. -/
  matcher : Matcher
  deriving DecidableEq, Repr

namespace Rule

/-- The parts of a rule. -/
structure Shape where
  /-- Whether the rule starts with an exclamation mark. -/
  negated : Bool
  /-- Whether the rule ends with a slash and is not one. -/
  directoryOnly : Bool
  /-- Whether there is a slash before the end. -/
  anchored : Bool
  /-- The glob. -/
  body : List Char
  deriving DecidableEq, Repr

/-- The parts of a rule whose mark has been taken off. -/
def Shape.ofUnmarked (negated : Bool) (text : List Char) : Shape :=
  let directoryOnly := 1 < text.length && text.getLast? = some '/'
  let text := if directoryOnly then text.dropLast else text
  let slash := text.head? = some '/'
  let body := if slash then text.drop 1 else text
  { negated, directoryOnly, anchored := slash || body.contains '/', body }

/-- A rule without the end of its line. -/
def lineOf (raw : List Char) : List Char := (raw.reverse.dropWhile fun c => c = '\r' || c = '\n').reverse

/-- The parts of a rule. A backslash before an exclamation mark at the start makes that a plain
character. -/
def shape (raw : List Char) : Shape :=
  let line := lineOf raw
  if line.head? = some '!' then .ofUnmarked true (line.drop 1)
  else .ofUnmarked false (if Chars.startsWith line ['\\', '!'] then line.drop 1 else line)

/-- The text of the expression of a rule: that of its glob, behind any directories if the rule is not tied to
one. -/
def Shape.expression (s : Shape) : List Char :=
  let directories := if s.anchored then [] else ['(', '?', ':', '.', '*', '/', ')', '?']
  '^' :: directories ++ translate s.body ++ ['$']

/-- Reads a rule. -/
def compile (raw : String) : Rule :=
  let s := shape raw.toList
  let matcher := match readExpression? s.expression with
    | some is => .expression is
    | none => .literal s.body
  { raw, negated := s.negated, directoryOnly := s.directoryOnly, anchored := s.anchored, matcher }

/-- Whether a rule matches a path, given with slashes between the names. -/
def isMatch (r : Rule) (path : String) (isDirectory : Bool) : Bool :=
  (!r.directoryOnly || isDirectory) &&
    let p := Chars.bareRelative path.toList
    match r.matcher with
    | .expression is => accepts is p
    | .literal t => p == t || (!r.anchored && Chars.endsWith p ('/' :: t))

end Rule

/-! ### Lists of rules -/

/-- Rules in order. -/
abbrev RuleSet := List Rule

namespace RuleSet

/-- The blanks that end a rule. -/
def isRuleBlank (c : Char) : Bool :=
  c = ' ' || c = '\t' || c = '\n' || c = '\r' || c = '\x0c'

/-- Drops blanks from the front of a reversed rule, up to one that an odd number of backslashes keeps. -/
def dropBlanks : List Char → List Char
  | [] => []
  | c :: r =>
    if isRuleBlank c ∧ (r.takeWhile (· = '\\')).length % 2 = 0 then dropBlanks r else c :: r

/-- A rule without the blanks at its end; a blank behind a backslash stays. -/
def trimRule (s : List Char) : List Char := (dropBlanks s.reverse).reverse

/-- The rules among some lines: those that are neither empty nor comments. -/
def ofLines (lines : List String) : RuleSet :=
  lines.filterMap fun l =>
    let r := trimRule l.toList
    if r.isEmpty ∨ r.head? = some '#' then none else some (Rule.compile (String.ofList r))

/-- The rules of a text, one a line. -/
def parse (text : String) : RuleSet := ofLines (Text.lines text)

/-- Whether the rules exclude a path: the last rule that matches it decides. -/
def excluded (rules : RuleSet) (path : String) (isDirectory : Bool) : Bool :=
  rules.foldl (fun e r => if r.isMatch path isDirectory then !r.negated else e) false

/-- **The last rule decides if it matches.** -/
theorem excluded_append_singleton (rules : RuleSet) (r : Rule) (path : String) (d : Bool) :
    excluded (rules ++ [r]) path d =
      if r.isMatch path d then !r.negated else excluded rules path d := by
  simp [excluded]

end RuleSet

end Glob

end CodeSearch
