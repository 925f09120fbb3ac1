import CodeSearch.Json.Printer
import CodeSearch.Text.Bytes

/-!
# Reading JSON

A value is read from the front of a text, and the rest is given back. The reader is driven by a fuel
that the length of the text provides: of two calls on the way to a value at least one takes a
character.

A store reads its texts with another reader, which takes fewer nested lists and objects (`tooDeep?`).

A number with a point or an exponent is read as a significand and a power of ten, and the one is scaled
by the other in a single rounded step. The result is the nearest binary number as long as both parts
are exact, and may be its neighbour otherwise.
-/

namespace CodeSearch

namespace Decimal

/-- `10 ^ n` in double precision. -/
def powerOfTen (n : Nat) : Float := Float.ofScientific 1 false n

/-- Scales a number by a power of ten in steps that a double precision number can hold; none if the
result is too large. -/
def scale? (x : Float) (e : Int) : Nat → Option Float
  | 0 => some x
  | fuel + 1 =>
    if x == 0 then some x
    else if 308 < e then none
    else if 0 ≤ e then
      let y := x * powerOfTen e.toNat
      if y.isInf then none else some y
    else if -308 ≤ e then some (x / powerOfTen (-e).toNat)
    else scale? (x / powerOfTen 308) (e + 308) fuel

/-- Digits taken in front of what is already read while the number stays below 2⁶⁴; the count of
those not taken is given back. -/
def significand : Nat → List Char → Nat × Nat
  | n, [] => (n, 0)
  | n, c :: r =>
    let n' := n * 10 + (c.toNat - '0'.toNat)
    if n' ≤ 0xffffffffffffffff then significand n' r else (n, r.length + 1)

/-- The number with the given digits before and after the point and the given exponent. -/
def readFloat? (negative : Bool) (whole fraction : List Char) (exponent : Int) : Option Float :=
  -- digits beyond the significand only count with their places
  let (n, dropped) := significand 0 whole
  let (n, skipped) := if dropped = 0 then significand n fraction else (n, fraction.length)
  let e := exponent + dropped - (fraction.length - skipped : Nat)
  (scale? n.toFloat e 1000).map fun x => if negative then -x else x

/-- What becomes of a finite number that is written and read again. -/
def reread (x : Float) : Float :=
  match Parts.ofFloat x with
  | .finite negative mantissa exponent close =>
    let d := shortest mantissa exponent close
    ((scale? d.coefficient.toFloat d.exponent 1000).map fun y => if negative then -y else y).getD x
  | _ => x

end Decimal

namespace Json

/-- The blanks between the parts of a value. -/
def isSpace (c : Char) : Bool := c = ' ' || c = '\n' || c = '\r' || c = '\t'

/-- The text after its blanks. -/
def skip (s : List Char) : List Char := s.dropWhile isSpace

/-- The value of a digit in base 16. -/
def hexDigit? (c : Char) : Option Nat :=
  if '0' ≤ c ∧ c ≤ '9' then some (c.toNat - '0'.toNat)
  else if 'a' ≤ c ∧ c ≤ 'f' then some (c.toNat - 'a'.toNat + 10)
  else if 'A' ≤ c ∧ c ≤ 'F' then some (c.toNat - 'A'.toNat + 10)
  else none

/-- Four digits in base 16. -/
def hex4? : List Char → Option (Nat × List Char)
  | a :: b :: c :: d :: r => do
    let a ← hexDigit? a
    let b ← hexDigit? b
    let c ← hexDigit? c
    let d ← hexDigit? d
    some (((a * 16 + b) * 16 + c) * 16 + d, r)
  | _ => none

/-- The character that an escape with a letter stands for. -/
def unescape? : Char → Option Char
  | '\x22' => some '\x22'
  | '\\' => some '\\'
  | '/' => some '/'
  | 'b' => some '\x08'
  | 'f' => some '\x0c'
  | 'n' => some '\n'
  | 'r' => some '\r'
  | 't' => some '\t'
  | _ => none

/-- The rest of a text between quotes. -/
def readText? : (fuel : Nat) → List Char → Option (List Char × List Char)
  | 0, _ => none
  | _ + 1, [] => none
  | fuel + 1, c :: r =>
    if c = '\x22' then some ([], r)
    else if c = '\\' then
      match r with
      | 'u' :: r =>
        (hex4? r).bind fun (n, r) =>
          if 0xD800 ≤ n ∧ n < 0xDC00 then
            match r with
            | '\\' :: 'u' :: r =>
              (hex4? r).bind fun (m, r) =>
                if 0xDC00 ≤ m ∧ m < 0xE000 then
                  (readText? fuel r).map fun (s, r) =>
                    (Char.ofNat (0x10000 + (n - 0xD800) * 0x400 + (m - 0xDC00)) :: s, r)
                else none
            | _ => none
          else if 0xDC00 ≤ n ∧ n < 0xE000 then none
          else (readText? fuel r).map fun (s, r) => (Char.ofNat n :: s, r)
      | e :: r => (unescape? e).bind fun d => (readText? fuel r).map fun (s, r) => (d :: s, r)
      | [] => none
    else if c.toNat < 0x20 then none
    else (readText? fuel r).map fun (s, r) => (c :: s, r)

/-- The number in front of a text. -/
def readNumber? (s : List Char) : Option (Json × List Char) :=
  let negative := s.head? = some '-'
  let s := if negative then s.drop 1 else s
  let whole := s.takeWhile Char.isDigit
  let s := s.drop whole.length
  if whole.isEmpty ∨ (whole.head? = some '0' ∧ 1 < whole.length) then none
  else
    let pointed := s.head? = some '.'
    let fraction := if pointed then (s.drop 1).takeWhile Char.isDigit else []
    let s := if pointed then s.drop (1 + fraction.length) else s
    if pointed ∧ fraction.isEmpty then none
    else
      let scaled := s.head? = some 'e' ∨ s.head? = some 'E'
      let s := if scaled then s.drop 1 else s
      let sign := s.head?
      let s := if scaled ∧ (sign = some '-' ∨ sign = some '+') then s.drop 1 else s
      let exponent := if scaled then s.takeWhile Char.isDigit else []
      if scaled ∧ exponent.isEmpty then none
      else
        let s := s.drop exponent.length
        let n := Nat.ofDigitChars 10 whole 0
        let value : Option Json :=
          if pointed ∨ scaled ∨ greatestCount < n ∨ (negative ∧ (n = 0 ∨ 0x8000000000000000 < n)) then
            let e : Int := Nat.ofDigitChars 10 exponent 0
            (Decimal.readFloat? negative whole fraction (if sign = some '-' then -e else e)).map
              Json.float
          else some (.int (if negative then -n else n))
        value.map fun v => (v, s)

mutual

/-- The value in front of a text. -/
def readValue? : (fuel : Nat) → List Char → Option (Json × List Char)
  | 0, _ => none
  | fuel + 1, s =>
    match skip s with
    | 'n' :: 'u' :: 'l' :: 'l' :: r => some (.null, r)
    | 't' :: 'r' :: 'u' :: 'e' :: r => some (.bool true, r)
    | 'f' :: 'a' :: 'l' :: 's' :: 'e' :: r => some (.bool false, r)
    | '\x22' :: r => (readText? (fuel + 1) r).map fun (s, r) => (.str (String.ofList s), r)
    | '[' :: r =>
      match skip r with
      | ']' :: r => some (.arr [], r)
      | r => (readItems? fuel r).map fun (items, r) => (.arr items, r)
    | '\x7b' :: r =>
      match skip r with
      | '\x7d' :: r => some (.obj [], r)
      | r => (readFields? fuel r).map fun (fields, r) => (object fields, r)
    | s => readNumber? s

/-- The items of a list, up to its end. -/
def readItems? : (fuel : Nat) → List Char → Option (List Json × List Char)
  | 0, _ => none
  | fuel + 1, s =>
    (readValue? fuel s).bind fun (v, r) =>
      match skip r with
      | ',' :: r => (readItems? fuel r).map fun (vs, r) => (v :: vs, r)
      | ']' :: r => some ([v], r)
      | _ => none

/-- The fields of an object, up to its end. -/
def readFields? : (fuel : Nat) → List Char → Option (List (String × Json) × List Char)
  | 0, _ => none
  | fuel + 1, s =>
    match skip s with
    | '\x22' :: r =>
      (readText? (fuel + 1) r).bind fun (k, r) =>
        match skip r with
        | ':' :: r =>
          (readValue? fuel r).bind fun (v, r) =>
            match skip r with
            | ',' :: r => (readFields? fuel r).map fun (fs, r) => ((String.ofList k, v) :: fs, r)
            | '\x7d' :: r => some ([(String.ofList k, v)], r)
            | _ => none
        | _ => none
    | _ => none

end

/-- The value that a text is. -/
def parse? (s : String) : Option Json :=
  let cs := s.toList
  (readValue? (2 * cs.length + 2) cs).bind fun (v, r) => if (skip r).isEmpty then some v else none

/-! ### Nesting -/

/-- How many lists and objects may be open at once in a text that a store reads. -/
def greatestDepth : Nat := 127

mutual

/-- The column at which a list or an object begins that is nested too deeply, if there is one. So many
levels are left, and so many bytes stand before the text of the value. -/
def tooDeep? (levels before : Nat) : Json → Option Nat
  | .arr items =>
    match levels with
    | 0 => some (before + 1)
    | levels + 1 => itemsTooDeep? levels (before + 1) items
  | .obj fields =>
    match levels with
    | 0 => some (before + 1)
    | levels + 1 => fieldsTooDeep? levels (before + 1) fields
  | _ => none

/-- The same for the items of a list. -/
def itemsTooDeep? (levels before : Nat) : List Json → Option Nat
  | [] => none
  | v :: r =>
    (v.tooDeep? levels before).or
      (itemsTooDeep? levels (before + Chars.byteSize v.writeChars + 1) r)

/-- The same for the fields of an object. -/
def fieldsTooDeep? (levels before : Nat) : List (String × Json) → Option Nat
  | [] => none
  | (k, v) :: r =>
    let before := before + Chars.byteSize (quote k) + 1
    (v.tooDeep? levels before).or
      (fieldsTooDeep? levels (before + Chars.byteSize v.writeChars + 1) r)

end

/-! ### Writing and reading again -/

mutual

/-- What becomes of a value that is written and read again. -/
def reread : Json → Json
  | .float x => .float (Decimal.reread x)
  | .arr items => .arr (rereadItems items)
  | .obj fields => .obj (rereadFields fields)
  | v => v

/-- What becomes of the items of a list. -/
def rereadItems : List Json → List Json
  | [] => []
  | v :: r => reread v :: rereadItems r

/-- What becomes of the fields of an object. -/
def rereadFields : List (String × Json) → List (String × Json)
  | [] => []
  | (k, v) :: r => (k, reread v) :: rereadFields r

end

end Json

end CodeSearch
