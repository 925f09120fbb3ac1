import CodeSearch.Decimal.Binary

/-!
# The shortest decimal that reads back

Among the decimals that round to a binary number, the one with the fewest digits is taken, and of
those the nearest. A decimal with `n` digits lies on a grid; if any point of that grid lies in the
interval of the number, so does one of the number's two neighbours on the grid, so only those two
are tried, for `n` = 1, 2, … up to 17.

The text of such a decimal follows a `Layout`: from which size on it is written with an exponent, and
whether a whole number gets a fractional digit.
-/

namespace CodeSearch

/-- The decimal `coefficient · 10 ^ exponent`. -/
structure Decimal where
  /-- The digits, read as one number. -/
  coefficient : Nat
  /-- The power of ten that they are multiplied with. -/
  exponent : Int
  deriving DecidableEq, Repr

namespace Decimal

/-- The digits of a number, in base 10. -/
def digitsOf (n : Nat) : List Char := Nat.toDigits 10 n

/-- The least `k`, counted from `start`, for which `10 ^ k · numerator` is at least the denominator. -/
def leadingZeros (numerator denominator : Nat) : Nat → Nat → Nat
  | 0, k => k
  | fuel + 1, k =>
    if denominator ≤ numerator then k else leadingZeros (numerator * 10) denominator fuel (k + 1)

/-- The power of ten of the first digit of a positive fraction. -/
def leadingExponent (numerator denominator : Nat) : Int :=
  if denominator ≤ numerator then (digitsOf (numerator / denominator)).length - 1
  else -(leadingZeros numerator denominator 400 0 : Int)

/-- The neighbour of the interval's number on the grid `10 ^ e` that lies in the interval, if any; of
two the nearer, and the even one of two equally near. -/
def onGrid? (i : Interval) (e : Int) : Option Decimal :=
  let numerator := i.value * Nat.pow 10 (-e).toNat
  let denominator := i.denominator * Nat.pow 10 e.toNat
  let below := numerator / denominator
  let rest := numerator % denominator
  let above := below + 1
  let belowFits := i.contains below e
  let aboveFits := i.contains above e
  let belowNearer := 2 * rest < denominator || (2 * rest == denominator && below % 2 == 0)
  if belowFits && (belowNearer || !aboveFits) then some ⟨below, e⟩
  else if aboveFits then some ⟨above, e⟩
  else none

/-- The decimal without zeros at the end of its coefficient. -/
def normalize : Nat → Decimal → Decimal
  | 0, d => d
  | fuel + 1, d =>
    if d.coefficient ≠ 0 ∧ d.coefficient % 10 = 0 then
      normalize fuel ⟨d.coefficient / 10, d.exponent + 1⟩
    else d

/-- The first grid with a point in the interval, from `n` digits on. -/
def shortestFrom (i : Interval) (lead : Int) : (fuel : Nat) → (n : Nat) → Decimal
  | 0, n => ⟨i.value * Nat.pow 10 (n - lead).toNat / i.denominator, lead - n⟩
  | fuel + 1, n =>
    match onGrid? i (lead - n) with
    | some d => normalize 20 d
    | none => shortestFrom i lead fuel (n + 1)

/-- The shortest decimal that reads back as `mantissa · 2 ^ exponent`. -/
def shortest (mantissa : Nat) (exponent : Int) (close : Bool) : Decimal :=
  if mantissa = 0 then ⟨0, 0⟩
  else
    let i := Interval.around mantissa exponent close
    shortestFrom i (leadingExponent i.value i.denominator) 17 0

/-- How a decimal is laid out as text. -/
structure Layout where
  /-- The least power of ten of a first digit that is written without an exponent. -/
  leastPlain : Int
  /-- The greatest power of ten of a first digit that is written without an exponent. -/
  greatestPlain : Int
  /-- Whether a whole number written without exponent ends in a point and a zero. -/
  wholeHasFraction : Bool
  /-- What stands for a number that is none. -/
  nan : String
  /-- What stands for the positive infinity; the negative one has a minus sign before it. -/
  infinite : String

/-- The power of ten of the first digit. -/
def lead (d : Decimal) : Int := (digitsOf d.coefficient).length - 1 + d.exponent

/-- The text without an exponent. -/
def plain (d : Decimal) (wholeHasFraction : Bool) : List Char :=
  let ds := digitsOf d.coefficient
  if 0 ≤ d.exponent then
    ds ++ (if d.coefficient = 0 then [] else List.replicate d.exponent.toNat '0') ++
      if wholeHasFraction then ['.', '0'] else []
  else
    let places := (-d.exponent).toNat
    if places < ds.length then ds.take (ds.length - places) ++ '.' :: ds.drop (ds.length - places)
    else ['0', '.'] ++ List.replicate (places - ds.length) '0' ++ ds

/-- The text with an exponent, whose sign is always written. -/
def scientific (d : Decimal) : List Char :=
  let fraction := (digitsOf d.coefficient).tail
  let mantissa := (digitsOf d.coefficient).take 1 ++ if fraction.isEmpty then [] else '.' :: fraction
  let e := d.lead
  mantissa ++ ['e', if e < 0 then '-' else '+'] ++ digitsOf e.natAbs

/-- The text of a decimal in a layout. -/
def write (l : Layout) (d : Decimal) : List Char :=
  if d.coefficient = 0 ∨ (l.leastPlain ≤ d.lead ∧ d.lead ≤ l.greatestPlain) then
    d.plain l.wholeHasFraction
  else d.scientific

/-- The text of a binary number: its shortest decimal, laid out. -/
def Parts.write (l : Layout) : Parts → List Char
  | .nan => l.nan.toList
  | .infinite negative => (if negative then ['-'] else []) ++ l.infinite.toList
  | .finite negative mantissa exponent close =>
    (if negative then ['-'] else []) ++ (shortest mantissa exponent close).write l

/-- Numbers shown to a reader: never an exponent, and a whole number is written as one. -/
def shown : Layout :=
  { leastPlain := -400, greatestPlain := 400, wholeHasFraction := false, nan := "NaN",
    infinite := "inf" }

/-- The text of a double precision number for a reader. -/
def showFloat (x : Float) : String := String.ofList ((Parts.ofFloat x).write shown)

/-- The text of a single precision number for a reader. -/
def showFloat32 (x : Float32) : String := String.ofList ((Parts.ofFloat32 x).write shown)

end Decimal

end CodeSearch
