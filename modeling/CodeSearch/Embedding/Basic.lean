import CodeSearch.Embedding.Single

/-!
# Embeddings

An embedder turns a text into a vector of single precision numbers, or fails. Nothing else is known about
it. Two vectors are compared by the cosine of the angle between them.
-/

namespace CodeSearch

/-- A vector. -/
abbrev Embedding := List Single

/-- Why a text could not be embedded. -/
structure EmbeddingFailure where
  /-- What the embedder says. -/
  reason : String
  deriving DecidableEq, Repr

/-- What turns texts into vectors. -/
structure Embedder where
  /-- The vector of a text. -/
  embed : String → Except EmbeddingFailure Embedding

namespace Embedding

/-- The sum of some numbers, from left to right. -/
def sum (xs : List Single) : Single := xs.foldl (· + ·) (-0)

/-- The sum of the products of the components. -/
def dot (a b : Embedding) : Single := sum (List.zipWith (· * ·) a b)

/-- The length of a vector. -/
def norm (a : Embedding) : Single := (dot a a).sqrt

/-- The cosine of the angle between two vectors; 0 if one of them has no direction. -/
def cosine (a b : Embedding) : Single :=
  if (norm a).value == 0 || (norm b).value == 0 then 0 else dot a b / (norm a * norm b)

end Embedding

end CodeSearch
