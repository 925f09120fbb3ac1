import CodeSearch.Glob.CharSet

/-!
# Expressions and their language

An expression is a sequence of items: one character of a class, any number of characters of a class, or a
group of such pieces that may be missing. `Spells is s` says what texts an expression describes;
`accepts is s` decides it.

The decision is made for a text and all its ends at once. `answers i s as` turns the list `as` of the
answers of the later items, one for every end of `s`, into the answers of `i` and the later items, so
that an expression of `m` pieces is decided on a text of `n` characters in `m · n` steps.
-/

namespace CodeSearch.Glob

/-- A piece of an expression. -/
inductive Piece where
  /-- One character of a class. -/
  | one (set : CharSet)
  /-- Any number of characters of a class. -/
  | many (set : CharSet)
  deriving DecidableEq, Repr

/-- An item of an expression. -/
inductive Item where
  /-- A piece. -/
  | piece (p : Piece)
  /-- A group of pieces, all of them or none. -/
  | optional (ps : List Piece)
  deriving DecidableEq, Repr

/-- The texts that an expression describes. -/
inductive Spells : List Item → List Char → Prop where
  /-- No item, no text. -/
  | nil : Spells [] []
  /-- One character of the class, then what the later items describe. -/
  | one {set : CharSet} {is : List Item} {c : Char} {s : List Char} (hc : set.mem c = true)
      (hs : Spells is s) : Spells (.piece (.one set) :: is) (c :: s)
  /-- Characters of the class, then what the later items describe. -/
  | many {set : CharSet} {is : List Item} {u s : List Char} (hu : ∀ c ∈ u, set.mem c = true)
      (hs : Spells is s) : Spells (.piece (.many set) :: is) (u ++ s)
  /-- A group that is missing. -/
  | skip {ps : List Piece} {is : List Item} {s : List Char} (hs : Spells is s) :
      Spells (.optional ps :: is) s
  /-- A group that is there: its pieces come before the later items. -/
  | take {ps : List Piece} {is : List Item} {s : List Char} (hs : Spells (ps.map .piece ++ is) s) :
      Spells (.optional ps :: is) s

/-! ### Deciding -/

/-- The first answer of a list. -/
def firstAnswer : List Bool → Bool
  | [] => false
  | a :: _ => a

/-- The answers of a class. -/
def oneAnswers (set : CharSet) : List Char → List Bool → List Bool
  | [], _ => [false]
  | c :: s, as => (set.mem c && firstAnswer as.tail) :: oneAnswers set s as.tail

/-- The answers of a repeated class. -/
def manyAnswers (set : CharSet) : List Char → List Bool → List Bool
  | [], as => [firstAnswer as]
  | c :: s, as =>
    let later := manyAnswers set s as.tail
    (firstAnswer as || (set.mem c && firstAnswer later)) :: later

/-- The answers of a piece and what is after it, for a text and all its ends. -/
def Piece.answers : Piece → List Char → List Bool → List Bool
  | .one set, s, as => oneAnswers set s as
  | .many set, s, as => manyAnswers set s as

/-- The answers of some pieces and what is after them. -/
def pieceAnswers (s : List Char) (as : List Bool) : List Piece → List Bool
  | [] => as
  | p :: ps => p.answers s (pieceAnswers s as ps)

/-- The answers of an item and those after it. -/
def Item.answers : Item → List Char → List Bool → List Bool
  | .piece p, s, as => p.answers s as
  | .optional ps, s, as => List.zipWith (· || ·) as (pieceAnswers s as ps)

/-- The answers of no item: only the empty end is described. -/
def doneAnswers : List Char → List Bool
  | [] => [true]
  | _ :: s => false :: doneAnswers s

/-- The answers of an expression for a text and all its ends. -/
def answers : List Item → List Char → List Bool
  | [], s => doneAnswers s
  | i :: is, s => i.answers s (answers is s)

/-- Whether an expression describes a text. -/
def accepts (is : List Item) (s : List Char) : Bool := firstAnswer (answers is s)

end CodeSearch.Glob
