/-!
# Single precision numbers as they are stored

A single precision number is stored in 32 bits. A number that is defined is stored in one way, but there are
many ways to store that a number is not defined: with either sign, quiet or not, and with bits that say
nothing else. `Float32` does not tell them apart. The total order of single precision numbers does, and so a
stored number is kept by its bits.

What is computed from a number that is not defined is not defined either: the first such operand is handed
on, quiet. What is not defined although all operands are, such as the difference of two infinities, has the
sign set and no other bits.
-/

namespace CodeSearch

/-- The payload in which nothing is said. -/
def Undefined.blank : Fin 0x400000 := 0

/-- How it is stored that a number is not defined, once that is quiet. -/
structure Undefined where
  /-- Whether the sign is set. -/
  negative : Bool := false
  /-- The bits that say nothing else. -/
  payload : Fin 0x400000 := Undefined.blank
  deriving DecidableEq, Repr

namespace Undefined

/-- The bits. -/
def bits (u : Undefined) : Nat := (if u.negative then 0xffc00000 else 0x7fc00000) + u.payload

/-- What comes of an operation that gives no number. -/
def ofOperation : Undefined := { negative := true }

/-- A sign alone says how it is stored that a number is not defined. -/
instance : Coe Bool Undefined := ⟨fun negative => { negative }⟩

end Undefined

/-- A stored single precision number. -/
@[ext] structure Single where
  /-- The bits. -/
  bits : UInt32
  deriving DecidableEq, Repr

namespace Single

/-- The number that is stored. -/
def value (x : Single) : Float32 := .ofBits x.bits

/-- A number as it is stored. -/
def ofNumber (v : Float32) : Single := ⟨v.toBits⟩

/-- A number that is not defined as it is stored. -/
def ofUndefined (u : Undefined) : Single := ⟨.ofNat u.bits⟩

/-- How it is stored that a number is not defined. -/
def undefined (x : Single) : Undefined :=
  { negative := 0x80000000 ≤ x.bits.toNat, payload := .ofNat _ x.bits.toNat }

/-- Whether the number is finite. -/
def isFinite (x : Single) : Bool := x.value.isFinite

/-- What is stored of a number that is computed from two stored ones. -/
def result (x y : Single) (v : Float32) : Single :=
  if x.value.isNaN then ofUndefined x.undefined
  else if y.value.isNaN then ofUndefined y.undefined
  else if v.isNaN then ofUndefined .ofOperation
  else ofNumber v

/-- The square root of a stored number. -/
def sqrt (x : Single) : Single := result x x x.value.sqrt

instance : Add Single := ⟨fun x y => result x y (x.value + y.value)⟩

instance : Mul Single := ⟨fun x y => result x y (x.value * y.value)⟩

instance : Div Single := ⟨fun x y => result x y (x.value / y.value)⟩

/-- The sign is a bit of its own. -/
instance : Neg Single := ⟨fun x => ⟨x.bits ^^^ 0x80000000⟩⟩

instance {n : Nat} : OfNat Single n := ⟨ofNumber (.ofNat n)⟩

/-! ### Numbers and stored numbers

Numbers may stand where stored numbers are asked for, and a list of stored ones where their values are. -/

instance {α : Type} : Coe (α → Float32) (α → Single) := ⟨fun f a => ofNumber (f a)⟩

instance : Coe (List Float32) (List Single) := ⟨List.map ofNumber⟩

instance : Coe (List Single) (List Float32) := ⟨List.map value⟩

end Single

end CodeSearch
