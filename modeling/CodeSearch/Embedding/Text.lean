import CodeSearch.Document

/-!
# Texts for embedding and for display

A chunk is embedded together with lines that say where it lives, so that a query can match what its code
alone does not mention. A document is embedded with what is declared in it and a first part of its text.

* `estimateTokens_append_le` — the estimate of a text is at least the sum of those of its parts.
-/

namespace CodeSearch

/-- A rough count of the tokens of a text: one for four characters. -/
def estimateTokens (s : String) : Nat := s.length / 4

theorem estimateTokens_append_le (a b : String) :
    estimateTokens a + estimateTokens b ≤ estimateTokens (a ++ b) := by
  simp only [estimateTokens, String.length_append]
  omega

/-- How many imports the text of a chunk shows. -/
def shownImports : Nat := 5

/-- How many bytes of its body the text of a document shows. -/
def shownBody : Nat := 8000

/-- A text and the end of the line. -/
def lineOf (s : String) : String := s ++ "\n"

/-- The line that names a language. -/
def languageLine (l : Option Language) : String :=
  l.elim "" fun l => lineOf ("# Language: " ++ l.id)

/-- The line that names what is around and in a chunk. -/
def scopeLine (c : Chunk) : String :=
  if c.parents.isEmpty ∧ c.symbols.isEmpty then ""
  else lineOf ("# Scope: " ++ Text.join " > " (c.parents ++ c.name?.toList))

/-- The line that lists some names. -/
def namesLine (label : String) (names : List String) : String :=
  if names.isEmpty then "" else lineOf ("# " ++ label ++ ": " ++ Text.join ", " names)

/-- The text by which a chunk is embedded. -/
def Chunk.embeddingText (c : Chunk) (m : Metadata) : String :=
  lineOf ("# " ++ m.path.text) ++ scopeLine c ++ languageLine m.language ++
    String.join ((m.imports.take shownImports).map lineOf) ++ c.content

/-- The text by which a document is embedded. -/
def Metadata.embeddingText (m : Metadata) (content : String) : String :=
  lineOf ("# " ++ m.path.text) ++ languageLine m.language ++ m.docComment.elim "" lineOf ++
    namesLine "Classes" m.classes ++ namesLine "Functions" m.functions ++
    Text.truncate shownBody content

/-- The line under which a chunk is shown. -/
def Chunk.header (c : Chunk) (path : String) : String :=
  path ++ " :: " ++ c.name?.getD c.kind.name ++ " (lines " ++ toString c.startLine ++ "-" ++
    toString c.endLine ++ ")"

end CodeSearch
