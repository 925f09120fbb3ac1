import CodeSearch.Table

/-!
# JSON values

A number is a whole number or a binary one; the two are told apart by how they are written. The fields
of an object are a table, so their order is that of their names.
-/

namespace CodeSearch

/-- A JSON value. -/
inductive Json where
  /-- No value. -/
  | null
  /-- A truth value. -/
  | bool (b : Bool)
  /-- A number written without point and exponent. -/
  | int (n : Int)
  /-- A number written with a point or an exponent. -/
  | float (x : Float)
  /-- A text. -/
  | str (s : String)
  /-- A list of values. -/
  | arr (items : List Json)
  /-- Values under names. -/
  | obj (fields : List (String × Json))
  deriving Inhabited

namespace Json

/-- A list of texts. -/
def strings (ss : List String) : Json := .arr (ss.map .str)

/-- A natural number. -/
def nat (n : Nat) : Json := .int n

/-- A text, or null if there is none. -/
def ofOption (s : Option String) : Json := s.elim .null .str

/-- An object with the given fields. -/
def object (fields : List (String × Json)) : Json := .obj (Table.ofList fields)

/-- The field of an object. -/
def field? : Json → String → Option Json
  | .obj fields, k => Table.get? fields k
  | _, _ => none

/-- The text that a value is. -/
def str? : Json → Option String
  | .str s => some s
  | _ => none

/-- The whole number that a value is. -/
def int? : Json → Option Int
  | .int n => some n
  | _ => none

/-- The truth value that a value is. -/
def bool? : Json → Option Bool
  | .bool b => some b
  | _ => none

/-- The items of the list that a value is. -/
def arr? : Json → Option (List Json)
  | .arr items => some items
  | _ => none

/-- The fields of the object that a value is. -/
def obj? : Json → Option (Table Json)
  | .obj fields => some fields
  | _ => none

/-- The greatest count that a number can hold. -/
def greatestCount : Nat := 0xffffffffffffffff

/-- The count that a value is: a whole number from 0 to 2⁶⁴ − 1. -/
def count? : Json → Option Nat
  | .int n => if 0 ≤ n ∧ n ≤ greatestCount then some n.toNat else none
  | _ => none

/-- The texts of a list that holds only texts. -/
def strings? (j : Json) : Option (List String) := j.arr?.bind fun items => items.mapM str?

end Json

end CodeSearch
