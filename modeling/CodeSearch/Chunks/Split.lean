import CodeSearch.Chunks.Lines
import CodeSearch.Settings

/-!
# Splitting long chunks

A chunk that is too long is split between paragraphs. A paragraph ends with a blank line before one that
is not blank. Paragraphs are packed into fragments as long as they fit; one that does not fit even alone
is taken apart into its lines. If the last fragment is small, units of the one before it move over to it
while they fit.

* `paragraphs_flatten`, `units_flatten`, `pack_flatten`, `rebalance_flatten` — no step loses a line or
  changes their order.
-/

namespace CodeSearch

namespace Fragment

/-- The paragraphs of some lines. -/
def paragraphs : List Line → List (List Line)
  | [] => []
  | [l] => [[l]]
  | a :: b :: r =>
    if a.isBlank && !b.isBlank then [a] :: paragraphs (b :: r)
    else match paragraphs (b :: r) with
      | [] => [[a]]
      | p :: ps => (a :: p) :: ps

/-- What fragments are packed from: the paragraphs that fit, and the lines of those that do not. -/
def units (limit : Nat) (ps : List (List Line)) : List (List Line) :=
  ps.flatMap fun p => if limit < Line.size p then p.map fun l => [l] else [p]

/-- Packs units after those that are already in a fragment. -/
def packAfter (limit : Nat) (fragment : List (List Line)) : List (List Line) → List (List (List Line))
  | [] => [fragment]
  | u :: us =>
    if Line.size (fragment ++ [u]).flatten ≤ limit then packAfter limit (fragment ++ [u]) us
    else fragment :: packAfter limit [u] us

/-- Packs units into fragments, each as full as it can be. -/
def pack (limit : Nat) : List (List Line) → List (List (List Line))
  | [] => []
  | u :: us => packAfter limit [u] us

/-- Moves units from the end of one fragment, given in reverse, to the front of the next, while that is
smaller than `least`, the unit fits and is not the only one. -/
def rebalance (limit least : Nat) :
    List (List Line) → List (List Line) → List (List Line) × List (List Line)
  | u :: v :: before, last =>
    -- `u` is the last unit of the fragment, and `v` stays behind
    if least ≤ Line.size last.flatten ∨ limit < Line.size (u ++ last.flatten) then
      (u :: v :: before, last)
    else rebalance limit least (v :: before) (u :: last)
  | before, last => (before, last)

/-- Fragments with the last two rebalanced. -/
def topUp (limit least : Nat) : List (List (List Line)) → List (List (List Line))
  | [] => []
  | [g] => [g]
  | [g, last] =>
    let (before, last) := rebalance limit least g.reverse last
    [before.reverse, last]
  | g :: gs => g :: topUp limit least gs

/-- The fragments that some lines are split into. -/
def split (limit least : Nat) (ls : List Line) : List (List Line) :=
  (topUp limit least (pack limit (units limit (paragraphs ls)))).map List.flatten

theorem paragraphs_flatten (ls : List Line) : (paragraphs ls).flatten = ls := by
  fun_induction paragraphs ls with
  | case1 => rfl
  | case2 l => rfl
  | case3 a b r h ih => simp [ih]
  | case4 a b r h hp ih => simp [hp] at ih
  | case5 a b r h p ps hp ih =>
    rw [hp] at ih
    simp only [List.flatten_cons, List.cons_append]
    rw [← ih]
    simp

theorem units_flatten (limit : Nat) (ps : List (List Line)) :
    (units limit ps).flatten = ps.flatten := by
  have hsingle : ∀ p : List Line, (p.map fun l => [l]).flatten = p := by
    intro p
    induction p with
    | nil => rfl
    | cons l p ih => simp [ih]
  induction ps with
  | nil => rfl
  | cons p ps ih =>
    unfold units at ih ⊢
    rw [List.flatMap_cons, List.flatten_append, ih]
    split
    · rw [hsingle]
      rfl
    · simp

theorem packAfter_flatten (limit : Nat) (fragment us : List (List Line)) :
    (packAfter limit fragment us).flatten = fragment ++ us := by
  induction us generalizing fragment with
  | nil => simp [packAfter]
  | cons u us ih =>
    rw [packAfter]
    split
    · rw [ih]
      simp
    · simp [ih]

theorem pack_flatten (limit : Nat) (us : List (List Line)) : (pack limit us).flatten = us := by
  cases us with
  | nil => rfl
  | cons u us => simp [pack, packAfter_flatten]

theorem rebalance_flatten (limit least : Nat) (before last : List (List Line)) :
    (rebalance limit least before last).1.reverse ++ (rebalance limit least before last).2 =
      before.reverse ++ last := by
  fun_induction rebalance limit least before last with
  | case1 => rfl
  | case2 u v before last h ih => simp [ih]
  | case3 => rfl

theorem topUp_flatten (limit least : Nat) (gs : List (List (List Line))) :
    (topUp limit least gs).flatten = gs.flatten := by
  fun_induction topUp limit least gs with
  | case1 => rfl
  | case2 => rfl
  | case3 g last before' last' h =>
    have := rebalance_flatten limit least g.reverse last
    rw [h] at this
    simpa using this
  | case4 g gs h h' ih => simp [ih]

/-- **Splitting loses no line.** -/
theorem split_flatten (limit least : Nat) (ls : List Line) : (split limit least ls).flatten = ls := by
  have hmap : ∀ gs : List (List (List Line)), (gs.map List.flatten).flatten = gs.flatten.flatten := by
    intro gs
    induction gs with
    | nil => rfl
    | cons g gs ih => simp [ih]
  rw [split, hmap, topUp_flatten, pack_flatten, units_flatten, paragraphs_flatten]

end Fragment

/-- A chunk, split if it is longer than the settings allow. The fragments keep what the chunk says of
itself. -/
def Chunk.split (s : ChunkSettings) (c : Chunk) : List Chunk :=
  if s.maxChunkSize = 0 ∨ Text.byteSize c.content ≤ s.maxChunkSize then [c]
  else
    let lines := Line.numbered c.startLine (Chars.lines c.content.toList)
    (Fragment.split s.maxChunkSize s.minFragmentSize lines).filterMap fun ls =>
      Chunk.ofLines? ls c.kind c.symbols c.parents

end CodeSearch
