import CodeSearch.Decimal.Shortest
import CodeSearch.Json.Printer
import CodeSearch.Text.Lines
import CodeSearch.VectorStore.Point

/-!
# Attributes

Callers describe documents and chunks by attributes: scalars, lists of scalars, and attributes under
names. A payload holds scalars only, so a list is stored as the text of its items with commas between
them and named attributes as the text of a JSON object; an attribute without a value is left out.
-/

namespace CodeSearch

/-- A single value. -/
inductive Scalar where
  /-- A text. -/
  | text (s : String)
  /-- A whole number. -/
  | integer (n : Int)
  /-- A floating point number. -/
  | float (x : Float)
  /-- A truth value. -/
  | truth (b : Bool)

namespace Scalar

/-- The stored form of a value. A number that JSON cannot hold is stored as its text. -/
def toJson : Scalar → Json
  | text s => .str s
  | integer n => .int n
  | float x => if x.isFinite then .float x else .str (Decimal.showFloat x)
  | truth b => .bool b

/-- The text of a value in a list. -/
def toText : Scalar → String
  | text s => s
  | integer n => toString n
  | float x => Decimal.showFloat x
  | truth b => if b then "true" else "false"

end Scalar

/-- What is said about a document or chunk under one name. -/
inductive Attribute where
  /-- A single value. -/
  | scalar (s : Scalar)
  /-- A list of values. -/
  | list (items : List Scalar)
  /-- Attributes under names. -/
  | named (fields : List (String × Attribute))
  /-- No value. -/
  | absent

/-- Attributes by name. -/
abbrev Attributes := Table Attribute

namespace Attribute

/-- The greatest whole number that is stored as a number. -/
def greatestInteger : Nat := 0x7fffffffffffffff

/-- A text. -/
def ofText (s : String) : Attribute := .scalar (.text s)

/-- A count; one that is too large is stored as a text. -/
def ofCount (n : Nat) : Attribute :=
  if n ≤ greatestInteger then .scalar (.integer n) else .scalar (.text (toString n))

/-- Texts. -/
def ofTexts (ss : List String) : Attribute := .list (ss.map .text)

/-- A text, if there is one. -/
def ofText? (s : Option String) : Attribute := s.elim .absent ofText

mutual

/-- The JSON value of an attribute inside another one. -/
def toJson : Attribute → Json
  | .scalar s => s.toJson
  | .list items => .arr (items.map Scalar.toJson)
  | .named fields => .obj (fieldsToJson fields)
  | .absent => .null

/-- The JSON values of attributes under names. -/
def fieldsToJson : List (String × Attribute) → List (String × Json)
  | [] => []
  | (k, a) :: r => (k, a.toJson) :: fieldsToJson r

end

/-- The stored form of an attribute, if it has a value. -/
def stored? : Attribute → Option Json
  | .scalar s => some s.toJson
  | .list items => some (.str (Text.join "," (items.map Scalar.toText)))
  | .named fields => some (.str (toJson (.named fields)).write)
  | .absent => none

end Attribute

/-- The payload that attributes are stored as. -/
def Attributes.payload (as : Attributes) : Payload :=
  as.filterMap fun (k, a) => a.stored?.map (k, ·)

end CodeSearch
