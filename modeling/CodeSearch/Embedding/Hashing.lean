import CodeSearch.Digest
import CodeSearch.Embedding.Basic
import CodeSearch.Text.Bytes
import CodeSearch.Text.Letters

/-!
# The hashing embedder

An embedder that needs no model: a text is taken apart into words, every word counts with the sign that
its digest gives in the component that its digest gives, and the vector of the counts is brought to
length 1. Texts with similar words get similar vectors, whatever the order of the words.

A name in camel case is several words, and words of a single byte do not count.

A component counts within the range in which single precision holds every whole number, and stays at its
end beyond.

* `length_counts`, `length_vector` — a vector has as many components as it was asked to have, at least
  one.
-/

namespace CodeSearch.Hashing

/-- A word that has been read, given in reverse, unless it is empty. -/
def finish (word : List Char) : List (List Char) := if word.isEmpty then [] else [word.reverse]

/-- The words of a text, in small letters. `word` is what has been read of a word, in reverse, and
`wasSmall` says that its last character was a small letter or a digit; a capital letter after it begins
another word. -/
def wordsFrom (word : List Char) (wasSmall : Bool) : List Char → List (List Char)
  | [] => finish word
  | c :: r =>
    if isAlphanumeric c then
      -- one capital letter may become several small ones
      let small := isSmall c || c.isDigit
      let added := (lowercase c).reverse
      if isCapital c && wasSmall && !word.isEmpty then word.reverse :: wordsFrom added small r
      else wordsFrom (added ++ word) small r
    else finish word ++ wordsFrom [] false r

/-- The words of a text that count. -/
def words (s : List Char) : List (List Char) :=
  (wordsFrom [] false s).filter fun w => 1 < Chars.byteSize w

/-- Where and how a word counts. -/
structure Vote where
  /-- The component. -/
  bucket : Nat
  /-- Whether it counts positively. -/
  positive : Bool
  deriving DecidableEq, Repr

/-- The vote of a word among a number of components. -/
def vote (dimensions : Nat) (word : List Char) : Vote :=
  let d := Digest.ofBytes (String.ofList word).toUTF8
  { bucket := Digest.leadingNumber d % dimensions, positive := Digest.thirdIsEven d }

/-- The greatest count that a component holds. -/
def greatest : Int := 0x1000000

/-- A count after one more vote. -/
def tally (n : Int) (positive : Bool) : Int :=
  if positive then min (n + 1) greatest else max (n - 1) (-greatest)

/-- The count of one component. -/
def count (votes : List Vote) (bucket : Nat) : Int :=
  ((votes.filter fun v => v.bucket == bucket).map Vote.positive).foldl tally 0

/-- The counts of all components. -/
def counts (dimensions : Nat) (text : String) : List Int :=
  let votes := (words text.toList).map (vote dimensions)
  (List.range dimensions).map (count votes)

/-- The vector of the counts, brought to length 1 unless it is zero. -/
def normalize (counts : List Int) : List Float32 :=
  let v := counts.map Float32.ofInt
  let n := (Embedding.norm v).value
  if 0 < n then v.map (· / n) else v

/-- The number of components that is used for a number asked for. -/
def components (dimensions : Nat) : Nat := max dimensions 1

/-- The vector of a text. -/
def vector (dimensions : Nat) (text : String) : List Float32 :=
  normalize (counts (components dimensions) text)

/-- The embedder with a number of components. -/
def embedder (dimensions : Nat) : Embedder := ⟨fun text => .ok (vector dimensions text)⟩

/-- The number of components that is used where none is asked for. -/
def defaultDimensions : Nat := 256

@[simp] theorem length_counts (dimensions : Nat) (text : String) :
    (counts dimensions text).length = dimensions := by
  simp [counts]

@[simp] theorem length_vector (dimensions : Nat) (text : String) :
    (vector dimensions text).length = components dimensions := by
  simp only [vector, normalize]
  split <;> simp

end CodeSearch.Hashing
