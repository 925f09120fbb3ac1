import Mathlib.Algebra.Order.Ring.Int
import Mathlib.Data.Prod.Lex

/-!
# The order of single precision numbers

Numbers that are defined are compared by sign, by exponent and by mantissa. So each has a *place* in a linear
order, and numbers compare as their places do (`compare_eq_compare_place`). Only the two zeros have the same
place.
-/

namespace CodeSearch

namespace FloatOrder

open Float.Model (UnpackedFloat)

/-- Natural numbers compare as integers do. -/
theorem compare_natCast (m n : ℕ) : compare (m : ℤ) (n : ℤ) = compare m n := by
  rcases Nat.lt_trichotomy m n with h | rfl | h
  · rw [compare_lt_iff_lt.2 h, compare_lt_iff_lt.2 (Int.ofNat_lt.2 h)]
  · rw [compare_eq_iff_eq.2 rfl, compare_eq_iff_eq.2 rfl]
  · rw [compare_gt_iff_gt.2 h, compare_gt_iff_gt.2 (Int.ofNat_lt.2 h)]

/-- The order of numbers is turned around by their signs. -/
theorem compare_neg (a b : ℤ) : compare (-a) (-b) = (compare a b).swap := by
  rcases Int.lt_trichotomy a b with h | rfl | h
  · rw [compare_lt_iff_lt.2 h, compare_gt_iff_gt.2 (Int.neg_lt_neg h)]
    rfl
  · rw [compare_eq_iff_eq.2 rfl, compare_eq_iff_eq.2 rfl]
    rfl
  · rw [compare_gt_iff_gt.2 h, compare_lt_iff_lt.2 (Int.neg_lt_neg h)]
    rfl

/-- The place of a number among all numbers. -/
def place : UnpackedFloat → ℤ ×ₗ ℤ ×ₗ ℤ
  | .infinity .negative => toLex (-2, toLex (0, 0))
  | .finite .negative mantissa exponent _ => toLex (-1, toLex (-exponent, -mantissa))
  | .zero _ | .notANumber => toLex (0, toLex (0, 0))
  | .finite .positive mantissa exponent _ => toLex (1, toLex (exponent, mantissa))
  | .infinity .positive => toLex (2, toLex (0, 0))

/-- **Numbers compare as their places do.** -/
theorem compare_eq_compare_place {a b : UnpackedFloat} (ha : a.isNaN = false) (hb : b.isNaN = false) :
    a.compare b = some (compare (place a) (place b)) := by
  cases a with
  | notANumber => cases ha
  | infinity s =>
    -- what is infinite is told apart by its sign alone
    cases b with
    | notANumber => cases hb
    | infinity t => cases s <;> cases t <;> rfl
    | zero t => cases s <;> rfl
    | finite t m e hm => cases s <;> cases t <;> rfl
  | zero s =>
    cases b with
    -- zero has no sign in the order of numbers
    | notANumber => cases hb
    | infinity t => cases t <;> rfl
    | zero t => rfl
    | finite t m e hm => cases t <;> rfl
  | finite s m e hm =>
    cases b with
    | notANumber => cases hb
    | infinity t => cases s <;> cases t <;> rfl
    | zero t => cases s <;> rfl
    | finite t m' e' hm' =>
      -- of negative numbers the one with the smaller exponent or mantissa is the greater one
      cases s <;> cases t
      · change some ((compare e e').then (compare m m')).swap =
          some ((compare (-e) (-e')).then (compare (-(m : ℤ)) (-(m' : ℤ))))
        rw [compare_neg, compare_neg, compare_natCast, Ordering.swap_then]
      · rfl
      · rfl
      · change some ((compare e e').then (compare m m')) =
          some ((compare e e').then (compare (m : ℤ) (m' : ℤ)))
        rw [compare_natCast]

variable {a b c : Float32} (ha : a.isNaN = false) (hb : b.isNaN = false)

include ha hb

/-- A number is smaller if its place comes before. -/
theorem lt_iff_place_lt : a < b ↔ place a.toModel.unpack < place b.toModel.unpack := by
  have hcompare := compare_eq_compare_place ha hb
  rw [← compare_lt_iff_lt]
  change decide ((a.toModel.unpack.compare b.toModel.unpack == some .lt) = true) = true ↔ _
  rw [decide_eq_true_iff, hcompare, beq_iff_eq, Option.some.injEq]

/-- Numbers that are defined are in order if their places are. -/
theorem le_iff_place_le : a ≤ b ↔ place a.toModel.unpack ≤ place b.toModel.unpack := by
  have hcompare := compare_eq_compare_place ha hb
  rw [← compare_le_iff_le]
  change decide ((a.toModel.unpack.compare b.toModel.unpack).any (·.isLE) = true) = true ↔ _
  rw [decide_eq_true_iff, hcompare, Option.any_some, Ordering.isLE_iff_ne_gt]

/-- One of two numbers that are defined is not above the other. -/
theorem le_iff_not_lt : a ≤ b ↔ ¬ b < a := by
  rw [le_iff_place_le ha hb, lt_iff_place_lt hb ha, not_lt]

theorem le_of_lt (h : a < b) : a ≤ b := by
  rw [lt_iff_place_lt ha hb] at h
  exact (le_iff_place_le ha hb).2 h.le

/-- The order of numbers is transitive, if the last one is defined. -/
theorem le_trans (hc : c.isNaN = false) (hab : a ≤ b) (hbc : b ≤ c) : a ≤ c := by
  rw [le_iff_place_le ha hb] at hab
  rw [le_iff_place_le hb hc] at hbc
  exact (le_iff_place_le ha hc).2 (hab.trans hbc)

omit hb

theorem le_refl : a ≤ a := (le_iff_place_le ha ha).2 le_rfl

end FloatOrder

end CodeSearch
