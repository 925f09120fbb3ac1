/-!
# Bracket classes

What stands between the brackets of a class is a list of members: single characters and ranges. Two
hyphens in a row take away: the members before them count, unless they are among those after them. A
hyphen stands for itself at the end and wherever no range can be made of it.

* `mem_single`, `mem_allBut` — the classes of one character and of all others;
* `readMembers?` fails only if a range has its ends in the wrong order.
-/

namespace CodeSearch.Glob

/-- A range of characters, both ends included. -/
structure CharRange where
  /-- The least character. -/
  low : Char
  /-- The greatest character. -/
  high : Char
  deriving DecidableEq, Repr

/-- Whether a character lies in a range. -/
def CharRange.mem (r : CharRange) (c : Char) : Bool := r.low ≤ c && c ≤ r.high

/-- A class of characters. -/
structure CharSet where
  /-- Whether the class holds the characters that are not among its members. -/
  negated : Bool
  /-- The members. -/
  members : List CharRange
  /-- What is taken away from them. -/
  without : List CharRange
  deriving DecidableEq, Repr

namespace CharSet

/-- Whether a character is in a class. -/
def mem (s : CharSet) (c : Char) : Bool :=
  s.negated != (s.members.any (·.mem c) && !s.without.any (·.mem c))

/-- The class of one character. -/
def single (c : Char) : CharSet := ⟨false, [⟨c, c⟩], []⟩

/-- The class of all characters but one. -/
def allBut (c : Char) : CharSet := ⟨true, [⟨c, c⟩], []⟩

theorem mem_single (c d : Char) : (single c).mem d = true ↔ d = c := by
  simp only [mem, single, CharRange.mem, List.any_cons, List.any_nil]
  constructor
  · intro h
    have h' : c ≤ d ∧ d ≤ c := by simpa using h
    exact Char.le_antisymm h'.2 h'.1
  · rintro rfl
    simp

theorem mem_allBut (c d : Char) : (allBut c).mem d = true ↔ d ≠ c := by
  have h := mem_single c d
  have : (allBut c).mem d = !(single c).mem d := by simp [mem, allBut, single]
  rw [this, Ne, ← not_congr h]
  simp

/-- Adds a range to the part of a class that is being read. -/
def add (s : CharSet) (removing : Bool) (r : CharRange) : CharSet :=
  if removing then { s with without := r :: s.without } else { s with members := r :: s.members }

/-- Reads members; `removing` says that two hyphens have been passed. -/
def readMembers? (s : CharSet) (removing : Bool) : List Char → Option CharSet
  | [] => some s
  | [c] => some (s.add removing ⟨c, c⟩)
  | '-' :: '-' :: r => readMembers? s true r
  | c :: '-' :: d :: r =>
    -- of two hyphens after a character neither makes a range
    if d = '-' then readMembers? (s.add removing ⟨c, c⟩) removing ('-' :: d :: r)
    else if c ≤ d then readMembers? (s.add removing ⟨c, d⟩) removing r
    else none
  | c :: r => readMembers? (s.add removing ⟨c, c⟩) removing r

end CharSet

end CodeSearch.Glob
