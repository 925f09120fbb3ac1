import CodeSearch.Chunks.Lines
import CodeSearch.Outline

/-!
# Chunks by declaration

Every line belongs to the innermost declaration that covers it, and each run of lines with one owner
becomes a chunk, less the blank lines at its end. Lines that no declaration covers are left out.

Declarations are put in the order of their first rows, of two that start together the longer one first;
then the last one that covers a line is the innermost.

A declaration whose last row lies above the row before its first one is no range of lines at all, and
then there are no chunks to speak of (`syntaxChunks? … = none`).
-/

namespace CodeSearch

namespace Definition

/-- Whether a declaration covers the line with a number. -/
def covers (d : Definition) (number : Nat) : Bool := d.startRow < number && number ≤ d.endRow + 1

/-- Whether a declaration comes first: by its first row, and of two that start together the one that
ends later. -/
def outerFirst (a b : Definition) : Bool :=
  a.startRow < b.startRow || (a.startRow == b.startRow && b.endRow ≤ a.endRow)

/-- Whether the rows of a declaration are no range in a document of some lines. -/
def isBackward (lineCount : Nat) (d : Definition) : Bool :=
  d.startRow < lineCount && d.endRow + 1 < d.startRow

end Definition

/-- Declarations in the order of `Definition.outerFirst`. -/
def outerToInner (ds : List Definition) : List Definition := ds.mergeSort Definition.outerFirst

/-- The place of the last declaration that covers a line, and the declaration. -/
def owner? (ordered : List Definition) (number : Nat) : Option (Nat × Definition) :=
  ordered.zipIdx.foldl (fun o (d, i) => if d.covers number then some (i, d) else o) none

/-- Items cut into runs of those that have one key. -/
def runs {α κ : Type} [DecidableEq κ] (key : α → κ) : List α → List (List α)
  | [] => []
  | a :: r =>
    match runs key r with
    | [] => [[a]]
    | [] :: gs => [a] :: gs
    | (b :: g) :: gs => if key a = key b then (a :: b :: g) :: gs else [a] :: (b :: g) :: gs

/-- **Runs lose nothing.** -/
theorem runs_flatten {α κ : Type} [DecidableEq κ] (key : α → κ) (l : List α) :
    (runs key l).flatten = l := by
  induction l with
  | nil => rfl
  | cons a r ih =>
    rw [runs]
    split
    · rename_i h
      rw [h] at ih
      simp [← ih]
    · rename_i gs h
      rw [h] at ih
      simp [← ih]
    · rename_i b g gs h
      rw [h] at ih
      split <;> simp [← ih]

/-- The chunks of a text with some declarations. -/
def syntaxChunks (content : String) (definitions : List Definition) : List Chunk :=
  let lines := Line.numbered 1 (Chars.lines content.toList)
  let ordered := outerToInner definitions
  let owned := lines.map fun l => (l, owner? ordered l.number)
  (runs (fun o => o.2.map Prod.fst) owned).filterMap fun run =>
    match run.head? with
    | some (_, some (_, d)) => Chunk.ofLines? (run.map Prod.fst) d.kind [d.name] d.parents
    | _ => none

/-- The chunks of a text with some declarations; none if one of them runs backwards. -/
def syntaxChunks? (content : String) (definitions : List Definition) : Option (List Chunk) :=
  if definitions.any (Definition.isBackward (Text.lineCount content)) then none
  else some (syntaxChunks content definitions)

end CodeSearch
