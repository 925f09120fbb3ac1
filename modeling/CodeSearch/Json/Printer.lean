import CodeSearch.Decimal.Shortest
import CodeSearch.Json.Value

/-!
# Writing JSON

A value is written without spaces, the fields of an object in the order of their names. Quotes,
backslashes and control characters are escaped, and nothing else is. Numbers that are no numbers of
JSON are written as null.
-/

namespace CodeSearch.Json

/-- Floating point numbers: plain while the first digit stands between the fifth place after the point
and the sixteenth before it, with a fractional digit always. -/
def floatLayout : Decimal.Layout :=
  { leastPlain := -5, greatestPlain := 15, wholeHasFraction := true, nan := "null",
    infinite := "null" }

/-- Single precision numbers keep to other bounds. -/
def float32Layout : Decimal.Layout :=
  { floatLayout with leastPlain := -6, greatestPlain := 12 }

/-- The text of a number taken apart. -/
def writeParts (l : Decimal.Layout) (p : Decimal.Parts) : List Char :=
  match p with
  | .finite .. => p.write l
  | .nan | .infinite _ => ['n', 'u', 'l', 'l']

/-- The text of a double precision number. -/
def writeFloat (x : Float) : List Char := writeParts floatLayout (.ofFloat x)

/-- The text of a single precision number. -/
def writeFloat32 (x : Float32) : List Char := writeParts float32Layout (.ofFloat32 x)

/-- A character inside quotes. -/
def escape (c : Char) : List Char :=
  match c with
  | '\x22' => ['\\', '\x22']
  | '\\' => ['\\', '\\']
  | '\x08' => ['\\', 'b']
  | '\x0c' => ['\\', 'f']
  | '\n' => ['\\', 'n']
  | '\r' => ['\\', 'r']
  | '\t' => ['\\', 't']
  | c =>
    if c.toNat < 0x20 then
      ['\\', 'u', '0', '0', Nat.digitChar (c.toNat / 16), Nat.digitChar (c.toNat % 16)]
    else [c]

/-- A text between quotes. -/
def quote (s : String) : List Char := '\x22' :: s.toList.flatMap escape ++ ['\x22']

/-- A whole number. -/
def writeInt (n : Int) : List Char :=
  (if n < 0 then ['-'] else []) ++ Decimal.digitsOf n.natAbs

mutual

/-- The text of a value. -/
def writeChars : Json → List Char
  | .null => ['n', 'u', 'l', 'l']
  | .bool b => if b then ['t', 'r', 'u', 'e'] else ['f', 'a', 'l', 's', 'e']
  | .int n => writeInt n
  | .float x => writeFloat x
  | .str s => quote s
  | .arr items => '[' :: writeItems items ++ [']']
  | .obj fields => '\x7b' :: writeFields fields ++ ['\x7d']

/-- The items of a list, separated by commas. -/
def writeItems : List Json → List Char
  | [] => []
  | [v] => writeChars v
  | v :: r => writeChars v ++ ',' :: writeItems r

/-- The fields of an object, separated by commas. -/
def writeFields : List (String × Json) → List Char
  | [] => []
  | [(k, v)] => quote k ++ ':' :: writeChars v
  | (k, v) :: r => quote k ++ ':' :: writeChars v ++ ',' :: writeFields r

end

/-- The text of a value. -/
def write (j : Json) : String := String.ofList j.writeChars

end CodeSearch.Json
