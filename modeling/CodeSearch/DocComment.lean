import CodeSearch.Document
import CodeSearch.Text.Blank
import CodeSearch.Text.Lines
import CodeSearch.Text.Search

/-!
# The comment that describes a file

Many files start with a comment about themselves. Where it stands, and what marks it, depends on the
language: a text in triple quotes, lines behind a mark, or a block between two marks. Blank lines,
interpreter lines and coding lines before it are passed over; where the comment is a block, it has to
stand at the very start.

* `docComment?` gives the comment, without blanks at its ends; a comment of blanks only is none.
-/

namespace CodeSearch.DocComment

/-- Whether a line before the comment is passed over. -/
def isPassedOver (line : List Char) : Bool :=
  line.isEmpty || Chars.startsWith line ['#', '!'] || Chars.startsWith line ['#', ' ', '-', '*', '-']

/-- The lines of a text without blanks at their ends, from the first one on that is not passed over. -/
def significantLines (source : List Char) : List (List Char) :=
  ((Chars.lines source).map Chars.trim).dropWhile isPassedOver

/-- The marks that can precede a text in quotes. -/
def isQuoteMark (c : Char) : Bool := c = 'r' || c = 'R' || c = 'u' || c = 'U'

/-- The text between triple quotes at the start of the significant lines. -/
def quoted? (source : List Char) : Option (List Char) :=
  let rest := (Chars.joinLines (significantLines source)).dropWhile isQuoteMark
  let double := List.replicate 3 '\x22'
  let single := List.replicate 3 '\x27'
  match Chars.after? double rest with
  | some body => (Chars.cutAt? double body).map Prod.fst
  | none => ((Chars.after? single rest).bind (Chars.cutAt? single)).map Prod.fst

/-- The significant lines as long as they start with a mark, without it and one space after it. -/
def markedLines? (mark : List Char) (source : List Char) : Option (List Char) :=
  let marked := (significantLines source).map (Chars.after? mark)
  let lines := (marked.takeWhile Option.isSome).filterMap id
  if lines.isEmpty then none else some (Chars.joinLines (lines.map (Chars.dropStart [' '])))

/-- The text of a block at the start, without the stars and spaces that begin its lines. -/
def block? (source : List Char) : Option (List Char) :=
  (Chars.after? ['/', '*'] (Chars.trimStart source)).bind fun body =>
    (Chars.cutAt? ['*', '/'] body).map fun (text, _) =>
      Chars.joinLines ((Chars.lines text).map fun l =>
        Chars.dropStart [' '] (Chars.dropStart ['*'] (Chars.trim l)))

/-- The comment as it stands in a file of a language. -/
def raw? (l : Language) (source : List Char) : Option (List Char) :=
  match l with
  | .python => quoted? source
  | .rust => markedLines? ['/', '/', '!'] source
  | .javascript | .typescript | .tsx | .go => (block? source).or (markedLines? ['/', '/'] source)
  | .bash | .toml => markedLines? ['#'] source
  | .json | .markdown => none

end DocComment

/-- The comment that describes a file of a language. -/
def docComment? (l : Language) (source : String) : Option String :=
  (DocComment.raw? l source.toList).bind fun c =>
    let c := Chars.trim c
    if c.isEmpty then none else some (String.ofList c)

end CodeSearch
