import CodeSearch.Document
import CodeSearch.Text.Blank
import CodeSearch.Text.Lines

/-!
# Numbered lines

Chunks are made of lines that keep their numbers, so that a chunk knows its place in the document
whatever cuts have led to it.

* `texts_numbered` — numbering changes nothing about the lines;
* `trimBlank_append` — trimming only takes blank lines, and only from the end.
-/

namespace CodeSearch

/-- A line with its number. -/
structure Line where
  /-- The number, counted from 1 for the first line of a document. -/
  number : Nat
  /-- The text. -/
  text : List Char
  deriving DecidableEq, Inhabited, Repr

namespace Line

/-- Lines with numbers from `first` on. -/
def numbered (first : Nat) : List (List Char) → List Line
  | [] => []
  | t :: ts => ⟨first, t⟩ :: numbered (first + 1) ts

/-- Whether a line is blank. -/
def isBlank (l : Line) : Bool := Chars.isBlankLine l.text

/-- The texts of some lines. -/
def texts (ls : List Line) : List (List Char) := ls.map (·.text)

/-- Lines without the blank ones at their end. -/
def trimBlank (ls : List Line) : List Line := (ls.reverse.dropWhile isBlank).reverse

/-- The bytes of some lines with newlines between them. -/
def size (ls : List Line) : Nat := Chars.byteSize (Chars.joinLines (texts ls))

@[simp] theorem texts_numbered (first : Nat) (ts : List (List Char)) :
    texts (numbered first ts) = ts := by
  induction ts generalizing first with
  | nil => rfl
  | cons t ts ih => simpa [numbered, texts] using ih (first + 1)

theorem trimBlank_append (ls : List Line) :
    ∃ blank, ls = trimBlank ls ++ blank ∧ ∀ l ∈ blank, l.isBlank = true := by
  refine ⟨(ls.reverse.takeWhile isBlank).reverse, ?_, ?_⟩
  · rw [trimBlank, ← List.reverse_append, List.takeWhile_append_dropWhile, List.reverse_reverse]
  · intro l hl
    have hl := List.mem_reverse.1 hl
    have := List.all_takeWhile (p := isBlank) (l := ls.reverse)
    exact List.all_eq_true.1 this l hl

end Line

/-- The chunk of some lines, without the blank ones at their end; none if all are blank. -/
def Chunk.ofLines? (ls : List Line) (kind : ChunkKind) (symbols parents : List String) :
    Option Chunk :=
  let kept := Line.trimBlank ls
  match kept.head?, kept.getLast? with
  | some first, some last =>
    let content := String.ofList (Chars.joinLines (Line.texts kept))
    some { content, startLine := first.number, endLine := last.number, kind, symbols, parents,
           contentHash := Digest.ofText content }
  | _, _ => none

end CodeSearch
