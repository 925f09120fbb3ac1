/-!
# Lines of a text

A text falls into pieces at its newlines. A *line* is such a piece without the carriage return that may
stand before the newline; the piece after the last newline is a line only if it is not empty, and it
keeps a carriage return at its end, since no newline follows.

* `joinPieces_pieces` — nothing but the newlines is lost by cutting at them;
* `lines_nil`, `lines_of_pieces` — what counts as a line.
-/

namespace CodeSearch

namespace Chars

section Pieces

variable {α : Type} [DecidableEq α]

/-- The stretches between the occurrences of a character or a byte, at least one. -/
def pieces (sep : α) : List α → List (List α)
  | [] => [[]]
  | c :: r =>
    if c = sep then [] :: pieces sep r
    else match pieces sep r with
      | [] => [[c]]
      | p :: ps => (c :: p) :: ps

/-- Pieces put together again with a character or a byte between them. -/
def joinPieces (sep : α) : List (List α) → List α
  | [] => []
  | [p] => p
  | p :: ps => p ++ sep :: joinPieces sep ps

theorem pieces_ne_nil (sep : α) (s : List α) : pieces sep s ≠ [] := by
  cases s with
  | nil => simp [pieces]
  | cons c r =>
    simp only [pieces]
    split
    · simp
    · split <;> simp

/-- **Nothing is lost at the cuts.** -/
theorem joinPieces_pieces (sep : α) (s : List α) : joinPieces sep (pieces sep s) = s := by
  induction s with
  | nil => rfl
  | cons c r ih =>
    have hne := pieces_ne_nil sep r
    match hp : pieces sep r with
    | [] => exact absurd hp hne
    | p :: ps =>
      rw [hp] at ih
      by_cases h : c = sep
      · rw [pieces, if_pos h, hp, joinPieces, ih, h]
        · rfl
        · simp
      · rw [pieces, if_neg h, hp]
        cases ps with
        | nil => rw [← ih]; rfl
        | cons q qs => rw [← ih]; rfl

end Pieces

/-- A line that a newline ended, without the carriage return before that newline. -/
def dropReturn (s : List Char) : List Char :=
  if s.getLast? = some '\r' then s.dropLast else s

/-- The lines among the pieces between newlines: all but the last were ended by a newline. -/
def linesOfPieces : List (List Char) → List (List Char)
  | [] => []
  -- no newline follows the last piece
  | [p] => if p.isEmpty then [] else [p]
  | p :: ps => dropReturn p :: linesOfPieces ps

/-- The lines of a text. -/
def lines (s : List Char) : List (List Char) := linesOfPieces (pieces '\n' s)

/-- Lines put together with a newline between them. -/
def joinLines (ls : List (List Char)) : List Char := joinPieces '\n' ls

@[simp] theorem lines_nil : lines [] = [] := rfl

theorem lines_of_pieces (s : List Char) : lines s = linesOfPieces (pieces '\n' s) := rfl

@[simp] theorem joinLines_nil : joinLines [] = [] := rfl

/-- The lines `first` to `last`, counted from 1; the count is at least one, and a first line of 0
is read as 1. -/
def lineRange (ls : List (List Char)) (first last : Nat) : List (List Char) :=
  (ls.drop (first - 1)).take (last - first + 1)

end Chars

namespace Text

/-- The lines of a text. -/
def lines (s : String) : List String := (Chars.lines s.toList).map String.ofList

/-- How many lines a text has. -/
def lineCount (s : String) : Nat := (Chars.lines s.toList).length

/-- The text of the lines `first` to `last`, counted from 1. -/
def lineRange (s : String) (first last : Nat) : String :=
  String.ofList (Chars.joinLines (Chars.lineRange (Chars.lines s.toList) first last))

/-- The stretches between the occurrences of a character. -/
def pieces (sep : Char) (s : String) : List String := (Chars.pieces sep s.toList).map String.ofList

/-- Texts put together with a separator between them. -/
def join (sep : String) : List String → String
  | [] => ""
  | [s] => s
  | s :: r => s ++ sep ++ join sep r

end Text

end CodeSearch
