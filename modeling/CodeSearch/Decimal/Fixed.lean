import CodeSearch.Decimal.Shortest

/-!
# Fixed places after the point

A number is rounded to the nearest multiple of a power of ten; a number half way between two of them
goes to the even one.

* `roundDiv_mul` — a multiple of the divisor is divided exactly;
* `two_mul_roundDiv_le` and `le_two_mul_roundDiv` — the rounded quotient is never more than half a unit
  off.
-/

namespace CodeSearch.Decimal

/-- The quotient rounded to the nearest whole number, a half to the even neighbour. -/
def roundDiv (n d : Nat) : Nat :=
  let q := n / d
  let r := n % d
  if 2 * r < d ∨ (2 * r = d ∧ q % 2 = 0) then q else q + 1

theorem roundDiv_mul (q : Nat) {d : Nat} (hd : 0 < d) : roundDiv (q * d) d = q := by
  simp [roundDiv, Nat.mul_div_cancel _ hd, hd]

theorem two_mul_roundDiv_le (n : Nat) {d : Nat} (hd : 0 < d) : 2 * (d * roundDiv n d) ≤ 2 * n + d := by
  have h := Nat.div_add_mod n d
  have hr := Nat.mod_lt n hd
  simp only [roundDiv]
  split
  · omega
  · rw [Nat.mul_add]
    omega

theorem le_two_mul_roundDiv (n : Nat) {d : Nat} (hd : 0 < d) : 2 * n ≤ 2 * (d * roundDiv n d) + d := by
  have h := Nat.div_add_mod n d
  have hr := Nat.mod_lt n hd
  simp only [roundDiv]
  split
  · omega
  · rw [Nat.mul_add]
    omega

/-- The digits of a count of `10 ^ -places`, with the point put in. -/
def withPlaces (places n : Nat) : List Char :=
  let ds := digitsOf n
  let ds := List.replicate (places + 1 - ds.length) '0' ++ ds
  if places = 0 then ds else ds.take (ds.length - places) ++ '.' :: ds.drop (ds.length - places)

/-- The text of a binary number with a given count of places after the point. -/
def Parts.writeFixed (places : Nat) : Parts → List Char
  | .nan => ['N', 'a', 'N']
  | .infinite negative => (if negative then ['-'] else []) ++ ['i', 'n', 'f']
  | .finite negative mantissa exponent _ =>
    let numerator := mantissa * Nat.pow 10 places * Nat.pow 2 exponent.toNat
    let denominator := Nat.pow 2 (-exponent).toNat
    (if negative then ['-'] else []) ++ withPlaces places (roundDiv numerator denominator)

/-- The text of a single precision number with a given count of places after the point. -/
def showFixed (places : Nat) (x : Float32) : String :=
  String.ofList ((Parts.ofFloat32 x).writeFixed places)

end CodeSearch.Decimal
