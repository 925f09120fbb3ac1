/-!
# Binary floating point numbers taken apart

A finite binary number is a sign and `mantissa · 2 ^ exponent`. The numbers that round to it form an
interval; `Interval` gives that interval and the number itself in one unit, so that all later
arithmetic is on naturals.
-/

namespace CodeSearch.Decimal

/-- A binary number taken apart. -/
inductive Parts where
  /-- Not a number. -/
  | nan
  /-- An infinity of a given sign. -/
  | infinite (negative : Bool)
  /-- `mantissa · 2 ^ exponent` with a sign; `close` says that the next number towards zero is only
  half as far away as the next one away from it. -/
  | finite (negative : Bool) (mantissa : Nat) (exponent : Int) (close : Bool)
  deriving DecidableEq, Repr

/-- Takes a bit pattern apart: `digits` bits of fraction below `width` bits of exponent. -/
def Parts.ofBits (digits width bits : Nat) : Parts :=
  let unit := Nat.pow 2 digits
  let fraction := bits % unit
  let biased := bits / unit % Nat.pow 2 width
  let negative := bits / Nat.pow 2 (digits + width) % 2 == 1
  let least : Int := 2 - (Nat.pow 2 (width - 1) : Nat) - digits
  if biased = Nat.pow 2 width - 1 then
    if fraction = 0 then .infinite negative else .nan
  else if biased = 0 then .finite negative fraction least false
  else .finite negative (unit + fraction) (least + (biased - 1)) (fraction == 0 && biased > 1)

/-- The parts of a double precision number. -/
def Parts.ofFloat (x : Float) : Parts := .ofBits 52 11 x.toBits.toNat

/-- The parts of a single precision number. -/
def Parts.ofFloat32 (x : Float32) : Parts := .ofBits 23 8 x.toBits.toNat

/-- A positive number and the ends of the interval of numbers that round to it, all as numerators over
one denominator. -/
structure Interval where
  /-- The lower end. -/
  low : Nat
  /-- The number. -/
  value : Nat
  /-- The upper end. -/
  high : Nat
  /-- What the three are divided by. -/
  denominator : Nat
  /-- Whether the ends round to the number as well. -/
  closed : Bool
  deriving Repr

/-- The interval around `mantissa · 2 ^ exponent`. The ends lie half way to the next numbers, and the
ends belong to it if the mantissa is even. -/
def Interval.around (mantissa : Nat) (exponent : Int) (close : Bool) : Interval :=
  let low := 4 * mantissa - if close then 1 else 2
  let shift := exponent - 2
  let up := Nat.pow 2 shift.toNat
  { low := low * up, value := 4 * mantissa * up, high := (4 * mantissa + 2) * up,
    denominator := Nat.pow 2 (-shift).toNat, closed := mantissa % 2 == 0 }

/-- Whether `n · 10 ^ e` lies in the interval. -/
def Interval.contains (i : Interval) (n : Nat) (e : Int) : Bool :=
  let x := n * Nat.pow 10 e.toNat * i.denominator
  let scale := Nat.pow 10 (-e).toNat
  if i.closed then i.low * scale ≤ x && x ≤ i.high * scale
  else i.low * scale < x && x < i.high * scale

end CodeSearch.Decimal
