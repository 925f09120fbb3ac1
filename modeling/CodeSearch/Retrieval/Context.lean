import CodeSearch.Decimal.Fixed
import CodeSearch.Embedding.Text
import CodeSearch.Retrieval.Result

/-!
# Results as context

Results are written one after the other between tags, for a reader that is to answer with them in
view.
-/

namespace CodeSearch.RetrievalResult

/-- What a result is called. -/
def label (r : RetrievalResult) : String :=
  (r.name <|> r.kind.map ChunkKind.name).getD "chunk"

/-- The line in front of the text of a result. -/
def openingTag (r : RetrievalResult) : String :=
  "  <chunk file=\"" ++ r.documentId ++ "\" lines=\"" ++ toString r.startLine ++ "-" ++
    toString r.endLine ++ "\" name=\"" ++ r.label ++ "\" score=\"" ++
    Decimal.showFixed 2 r.score.value ++ "\">\n"

/-- A result with its tags. -/
def tagged (r : RetrievalResult) : String := r.openingTag ++ r.content ++ "\n  </chunk>\n"

/-- The context that results make; without results it is empty. -/
def context (rs : List RetrievalResult) : String :=
  if rs.isEmpty then ""
  else "<code_context>\n" ++ String.join (rs.map tagged) ++ "</code_context>"

/-- A rough count of the tokens of the texts of results. -/
def totalTokens (rs : List RetrievalResult) : Nat :=
  rs.foldl (fun n r => n + estimateTokens r.content) 0

end CodeSearch.RetrievalResult
