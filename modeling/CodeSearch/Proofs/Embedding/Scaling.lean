import CodeSearch.Embedding.Score
import CodeSearch.Proofs.Embedding.Order
import CodeSearch.Proofs.Embedding.Rounding
import CodeSearch.Settings

/-!
# Scaled scores

A score that is scaled by a proper discount keeps its sign and comes no further away from zero
(`FloatOrder.signOf_mul`, `FloatOrder.code_mul_le`), and of two scores the one that was ranked higher still
is, or both are the same (`Score.rank_scale_mono`). So a discount lowers a score that is not negative
(`Score.rank_scale_le`) and raises one that is (`Score.le_rank_scale`).
-/

namespace CodeSearch

namespace FloatOrder

open Float.Model (Format UnpackedFloat)

open Float.Model.UnpackedFloat (Sign mul roundWithAccuracy)

/-! ### Products -/

/-- Whether a number is positive and at most one. -/
def IsShare (d : UnpackedFloat) : Prop :=
  Canonical d ∧ ∃ m e hm, d = .finite .positive m e hm ∧ value m e ≤ 1

/-- **A proper discount is a share.** -/
theorem isShare_of_properDiscount {d : Float32} (h : Settings.properDiscount d = true) :
    IsShare d.toModel.unpack := by
  obtain ⟨h0, h1⟩ := Bool.and_eq_true_iff.1 h
  have hpos : ((UnpackedFloat.zero .positive).compare d.toModel.unpack == some .lt) = true :=
    of_decide_eq_true (of_decide_eq_true h0)
  have hone : (d.toModel.unpack.compare (.finite .positive (2 ^ 23) (-23) (by decide))).any (·.isLE) = true :=
    of_decide_eq_true (of_decide_eq_true h1)
  have hcanonical : Canonical d.toModel.unpack := (unpack_spec d.toModel.valid).1
  refine ⟨hcanonical, ?_⟩
  cases hd : d.toModel.unpack with
  | notANumber =>
    -- what is not defined, zero or infinite is out of bounds
    rw [hd] at hpos
    cases hpos
  | zero s =>
    rw [hd] at hpos
    cases hpos
  | infinity s =>
    rw [hd] at hpos hone
    cases s with
    | negative => cases hpos
    | positive => cases hone
  | finite s m e hm =>
    rw [hd] at hpos hone hcanonical
    cases s with
    | negative => cases hpos
    | positive =>
      refine ⟨m, e, hm, rfl, ?_⟩
      have hlog : m.log2 < 24 := (Nat.log2_lt hm.ne').2 hcanonical.1
      have hle : ((compare e (-23)).then (compare m (2 ^ 23))).isLE = true := hone
      -- at most one is what has a smaller exponent than one, or the same exponent and no greater mantissa
      rcases lt_trichotomy e (-23) with he | rfl | he
      · have hlt := (value_lt m e).le.trans (zpow_le_zpow_right₀ one_le_two (by omega : _ ≤ (0 : ℤ)))
        rwa [zpow_zero] at hlt
      · rw [compare_eq_iff_eq.2 rfl] at hle
        have hm23 : m ≤ 2 ^ 23 := compare_le_iff_le.1 (Ordering.isLE_iff_ne_gt.1 hle)
        have hcast : (m : ℚ) ≤ 2 ^ (23 : ℤ) := by exact_mod_cast hm23
        rw [value, zpow_neg, ← div_eq_mul_inv, div_le_iff₀ (by positivity), one_mul]
        exact hcast
      · rw [compare_gt_iff_gt.2 he] at hle
        cases hle

section Products

variable {s s' : Sign} {m m' : ℕ} {e e' : ℤ} {hm : 0 < m} {hm' : 0 < m'}

/-- A product has digits enough to be rounded. -/
theorem le_unit_mul (hc : Canonical (.finite s m e hm)) (hc' : Canonical (.finite s' m' e' hm')) :
    e + e' ≤ unit (m * m') (e + e') := by
  have hunit := unit_eq (m * m') (e + e')
  have hlarge : 2 ^ 23 ≤ m * m' → 23 ≤ (m * m').log2 := (Nat.le_log2 (Nat.mul_pos hm hm').ne').2
  obtain ⟨-, -, hfull | rfl⟩ := hc
  · -- one of the numbers has all its digits, and so has the product
    have := hlarge (hfull.trans (Nat.le_mul_of_pos_right m hm'))
    omega
  · -- otherwise both have the smallest exponent there is
    obtain ⟨-, -, hfull' | rfl⟩ := hc'
    · have := hlarge (hfull'.trans (Nat.le_mul_of_pos_left m' hm))
      omega
    · omega

/-- Numbers are multiplied by their mantissas and exponents. -/
theorem value_mul (m m' : ℕ) (e e' : ℤ) : value (m * m') (e + e') = value m e * value m' e' := by
  rw [value, value, value, zpow_add₀ two_ne_zero, Nat.cast_mul]
  ring

/-- Only zero has the code zero. -/
theorem code_pos : 0 < code (.finite s m e hm) := by
  rw [code_finite]
  omega

/-- A finite number comes before what is infinite. -/
theorem code_lt (hc : Canonical (.finite s m e hm)) (hf : Fits (.finite s m e hm)) :
    code (.finite s m e hm) < 255 * 2 ^ 23 := by
  rw [code_of_fits hc hf]
  obtain ⟨hlt, hle, -⟩ := hc
  rw [fits_finite] at hf
  omega

end Products

/-- A number times a share is rounded from the product of both. -/
theorem mul_finite (s : Sign) {m m' : ℕ} {e e' : ℤ} (hm : 0 < m) (hm' : 0 < m') :
    mul Format.binary32 (.finite s m e hm) (.finite .positive m' e' hm') =
      roundWithAccuracy Format.binary32 s (m * m') (e + e') .exact := by
  cases s <;> rfl

section Shares

variable {d f g : UnpackedFloat} (hd : IsShare d) (hf : Canonical f)

include hd hf

/-- **A product with a share keeps the sign**, and is in the form that is stored. -/
theorem signOf_mul : signOf (mul Format.binary32 f d) = signOf f ∧ Canonical (mul Format.binary32 f d) := by
  obtain ⟨hcd, m', e', hm', rfl, -⟩ := hd
  cases f with
  | notANumber => exact ⟨rfl, trivial⟩
  | infinity s => cases s <;> exact ⟨rfl, trivial⟩
  | zero s => cases s <;> exact ⟨rfl, trivial⟩
  | finite s m e hm =>
    have hunit := le_unit_mul hf hcd
    rw [mul_finite]
    exact ⟨signOf_round s hunit, canonical_round s hunit (Nat.mul_pos hm hm')⟩

/-- **Products with a share are ordered as the numbers are.** -/
theorem code_mul_mono (hff : Fits f) (hg : Canonical g) (hgf : Fits g) (h : code f ≤ code g) :
    code (mul Format.binary32 f d) ≤ code (mul Format.binary32 g d) := by
  obtain ⟨hcd, m', e', hm', rfl, -⟩ := hd
  cases f with
  -- zero, and what is not defined or infinite, does not change
  | zero s => exact Nat.zero_le _
  | notANumber =>
    cases g with
    | notANumber => exact le_rfl
    | infinity t => exact absurd h (by decide : ¬ 0x7fc00000 ≤ 255 * 2 ^ 23)
    | zero t => exact absurd h (by decide : ¬ 0x7fc00000 ≤ 0)
    | finite t n k hn =>
      have hlt := h.trans_lt (code_lt hg hgf)
      exact absurd hlt (by decide : ¬ 0x7fc00000 < 255 * 2 ^ 23)
  | infinity s =>
    cases g with
    | notANumber => exact (by decide : 255 * 2 ^ 23 ≤ 0x7fc00000)
    | infinity t => exact le_rfl
    | zero t => exact absurd h (by decide : ¬ 255 * 2 ^ 23 ≤ 0)
    | finite t n k hn => exact absurd (code_lt hg hgf) (Nat.not_lt.2 h)
  | finite s m e hm =>
    -- a finite number stays below what is infinite, as it is rounded to no more than that
    have hunit := le_unit_mul hf hcd
    have hle : code (mul Format.binary32 (.finite s m e hm) (.finite .positive m' e' hm')) ≤ 255 * 2 ^ 23 := by
      rw [mul_finite, code_round s hunit (Nat.mul_pos hm hm')]
      exact min_le_right _ _
    cases g with
    | notANumber => exact hle.trans (by decide : 255 * 2 ^ 23 ≤ 0x7fc00000)
    | infinity t => exact hle
    | zero t => exact absurd h (Nat.not_le.2 code_pos)
    | finite t n k hn =>
      -- of two finite numbers the products are in order before they are rounded
      rw [mul_finite, mul_finite]
      refine code_round_mono s hunit (Nat.mul_pos hm hm') t (le_unit_mul hg hcd) (Nat.mul_pos hn hm') ?_
      rw [value_mul, value_mul]
      exact mul_le_mul_of_nonneg_right (value_le_of_code_le hf hff hg hgf h) (value_pos hm' e').le

/-- **A product with a share is no further away from zero.** -/
theorem code_mul_le : code (mul Format.binary32 f d) ≤ code f := by
  obtain ⟨hcd, m', e', hm', rfl, hone⟩ := hd
  cases f with
  | notANumber => exact le_rfl
  | infinity s => exact le_rfl
  | zero s => exact le_rfl
  | finite s m e hm =>
    -- a number is what it is rounded to itself, and the product is no greater
    obtain ⟨hself, hcode⟩ := code_round_of_canonical s hm hf
    rw [mul_finite, ← hcode]
    refine code_round_mono s (le_unit_mul hf hcd) (Nat.mul_pos hm hm') s hself.le hm ?_
    rw [value_mul]
    exact mul_le_of_le_one_right (value_pos hm e).le hone

end Shares

/-! ### Stored numbers -/

/-- The place of a number with a sign and a code among all numbers. -/
def signedRank (s : Sign) (c : ℕ) : ℤ :=
  match s with
  | .positive => c
  | .negative => -1 - c

/-- Everything that is defined comes before what is not. -/
theorem code_le_of_isNaN {f : UnpackedFloat} (hf : f.isNaN = false) : code f ≤ 255 * 2 ^ 23 := by
  cases f with
  | notANumber => cases hf
  | infinity s => exact le_rfl
  | zero s => exact Nat.zero_le _
  | finite s m e hm => exact min_le_right _ _

/-- A code leaves room for a sign. -/
theorem code_lt_two_pow (f : UnpackedFloat) : code f < 2 ^ 31 := by
  cases hf : f.isNaN with
  | false => exact (code_le_of_isNaN hf).trans_lt (by decide)
  | true =>
    cases f with
    | notANumber => exact (by decide : 0x7fc00000 < 2 ^ 31)
    | infinity s => cases hf
    | zero s => cases hf
    | finite s m e hm => cases hf

/-- What is not defined is told by its code. -/
theorem isNaN_iff {f : UnpackedFloat} : f.isNaN = true ↔ 255 * 2 ^ 23 < code f := by
  cases hf : f.isNaN with
  | false =>
    have hle := code_le_of_isNaN hf
    exact ⟨fun h => (nomatch h), fun h => absurd hle (Nat.not_le.2 h)⟩
  | true =>
    cases f with
    | notANumber => exact ⟨fun _ => (by decide : 255 * 2 ^ 23 < 0x7fc00000), fun _ => rfl⟩
    | infinity s => cases hf
    | zero s => cases hf
    | finite s m e hm => cases hf

/-- A positive number is stored as its code. -/
theorem signed_positive (c : ℕ) : signed .positive c = c := by
  have hbit : (Sign.positive.toBitVec).toNat = 0 := rfl
  rw [signed, hbit, Nat.zero_mul, Nat.zero_add]

/-- A negative one has the first bit set. -/
theorem signed_negative (c : ℕ) : signed .negative c = 2 ^ 31 + c := by
  have hbit : (Sign.negative.toBitVec).toNat = 1 := rfl
  rw [signed, hbit, Nat.one_mul]

/-- Signs and codes can be told from the bits. -/
theorem signed_inj {s s' : Sign} {c c' : ℕ} (hc : c < 2 ^ 31) (hc' : c' < 2 ^ 31)
    (h : signed s c = signed s' c') : s = s' ∧ c = c' := by
  cases s <;> cases s' <;> simp only [signed_positive, signed_negative] at h
  · exact ⟨rfl, by omega⟩
  · omega
  · omega
  · exact ⟨rfl, h⟩

/-- A number has the bits of its sign and its code. -/
theorem toNat_toBits (x : Float32) :
    x.toBits.toNat = signed (signOf x.toModel.unpack) (code x.toModel.unpack) :=
  (unpack_spec x.toModel.valid).2.2

/-- **What is stored of a product with a share.** -/
theorem unpack_mul {d : Float32} (hd : IsShare d.toModel.unpack) (x : Float32) :
    signOf (x * d).toModel.unpack = signOf x.toModel.unpack ∧
      code (x * d).toModel.unpack = code (mul Format.binary32 x.toModel.unpack d.toModel.unpack) := by
  have hx : Canonical x.toModel.unpack := (unpack_spec x.toModel.valid).1
  obtain ⟨hsign, hcanonical⟩ := signOf_mul hd hx
  rw [← hsign]
  refine signed_inj (code_lt_two_pow _) (code_lt_two_pow _) ?_
  rw [← toNat_toBits, ← toNat_pack hcanonical]
  rfl

/-- Every negative number comes before every positive one. -/
theorem signedRank_lt_signedRank (c c' : ℕ) : signedRank .negative c < signedRank .positive c' := by
  change -1 - (c : ℤ) < (c' : ℤ)
  omega

/-- Positive numbers come by their codes, -/
theorem signedRank_positive_lt {c c' : ℕ} (h : c < c') : signedRank .positive c < signedRank .positive c' :=
  Int.ofNat_lt.2 h

/-- and negative ones the other way round. -/
theorem signedRank_negative_lt {c c' : ℕ} (h : c' < c) : signedRank .negative c < signedRank .negative c' := by
  change -1 - (c : ℤ) < -1 - (c' : ℤ)
  omega

section Compare

variable {s t : Sign} {m n : ℕ} {e k : ℤ} {hm : 0 < m} {hn : 0 < n}

/-- **Numbers are told apart by their exponents and then by their mantissas**, and so are their codes. -/
theorem code_lt_code_of_compare (hf : Canonical (.finite s m e hm)) (hff : Fits (.finite s m e hm))
    (hg : Canonical (.finite t n k hn)) (hgf : Fits (.finite t n k hn))
    (h : (compare e k).then (compare m n) = .lt) : code (.finite s m e hm) < code (.finite t n k hn) := by
  by_contra hge
  rcases lex_of_code_le hg hgf hf hff (Nat.not_lt.1 hge) with hek | ⟨rfl, hmn⟩
  · rw [compare_gt_iff_gt.2 hek] at h
    cases h
  · rw [compare_eq_iff_eq.2 rfl, Ordering.then, compare_lt_iff_lt] at h
    exact absurd h (Nat.not_lt.2 hmn)

/-- A smaller number has a smaller rank, if both are finite and not zero. -/
theorem signedRank_lt_of_compare_finite (hf : Canonical (.finite s m e hm)) (hff : Fits (.finite s m e hm))
    (hg : Canonical (.finite t n k hn)) (hgf : Fits (.finite t n k hn))
    (h : (UnpackedFloat.finite s m e hm).compare (.finite t n k hn) = some .lt) :
    signedRank s (code (.finite s m e hm)) < signedRank t (code (.finite t n k hn)) := by
  cases s with
  | positive =>
    cases t with
    | positive => exact signedRank_positive_lt (code_lt_code_of_compare hf hff hg hgf (Option.some.inj h))
    | negative => cases h
  | negative =>
    cases t with
    | positive => exact signedRank_lt_signedRank _ _
    | negative =>
      -- among negative numbers the comparison is turned round
      have hswap : ((compare e k).then (compare m n)).swap = .lt := Option.some.inj h
      rw [Ordering.swap_then, Int.compare_swap, Nat.compare_swap] at hswap
      exact signedRank_negative_lt (code_lt_code_of_compare hg hgf hf hff hswap)

end Compare

/-- **A smaller number has a smaller rank.** -/
theorem signedRank_lt_of_compare {f g : UnpackedFloat} (hf : Canonical f) (hff : Fits f) (hg : Canonical g)
    (hgf : Fits g) (h : f.compare g = some .lt) :
    signedRank (signOf f) (code f) < signedRank (signOf g) (code g) := by
  cases f with
  | notANumber => cases h
  | infinity s =>
    -- nothing is greater than what is infinite and positive
    cases s with
    | positive =>
      cases g with
      | notANumber | zero t | finite t n k hn => cases h
      | infinity t => cases t <;> cases h
    | negative =>
      cases g with
      -- what is infinite and negative comes before all that is greater, by its sign or by its code
      | notANumber => cases h
      | infinity t =>
        cases t with
        | negative => cases h
        | positive => exact signedRank_lt_signedRank _ _
      | zero t => cases t <;> decide
      | finite t n k hn =>
        cases t with
        | positive => exact signedRank_lt_signedRank _ _
        | negative => exact signedRank_negative_lt (code_lt hg hgf)
  | zero s =>
    -- zero comes before the positive numbers, whatever its own sign is
    cases g with
    | notANumber | zero t => cases h
    | infinity t =>
      cases t with
      | negative => cases h
      | positive => cases s <;> decide
    | finite t n k hn =>
      cases t with
      | negative => cases h
      | positive =>
        cases s with
        | negative => exact signedRank_lt_signedRank _ _
        | positive => exact signedRank_positive_lt code_pos
  | finite s m e hm =>
    -- a finite number comes before what is infinite, and before zero if it is negative
    cases g with
    | notANumber => cases h
    | infinity t =>
      cases t with
      | negative => cases h
      | positive =>
        cases s with
        | negative => exact signedRank_lt_signedRank _ _
        | positive => exact signedRank_positive_lt (code_lt hf hff)
    | zero t =>
      cases s with
      | positive => cases h
      | negative =>
        cases t with
        | positive => exact signedRank_lt_signedRank _ _
        | negative => exact signedRank_negative_lt code_pos
    | finite t n k hn => exact signedRank_lt_of_compare_finite hf hff hg hgf h

end FloatOrder

namespace Score

open FloatOrder

open Float.Model (Format UnpackedFloat)

open Float.Model.UnpackedFloat (Sign mul)

/-- The sign that a score has in the order of scores. -/
def sign (s : Score) : Sign :=
  if s.value.isNaN then if s.undefined.negative then .negative else .positive
  else signOf s.value.toModel.unpack

/-- How far away from zero a score is, in steps between numbers. -/
def size (s : Score) : ℕ :=
  if s.value.isNaN then 0x7fc00000 + s.undefined.payload else code s.value.toModel.unpack

variable {s t : Score}

/-- A score that is not defined is further away from zero than infinity. -/
theorem size_of_isNaN (h : s.value.isNaN = true) :
    s.size = 0x7fc00000 + s.undefined.payload ∧ s.size < 2 ^ 31 := by
  have hlt := s.undefined.payload.isLt
  rw [size, if_pos h]
  exact ⟨rfl, by omega⟩

/-- A score that is defined has the size of its number, -/
theorem size_of_defined (h : s.value.isNaN = false) : s.size = code s.value.toModel.unpack :=
  if_neg (Bool.eq_false_iff.1 h)

/-- and its sign. -/
theorem sign_of_defined (h : s.value.isNaN = false) : s.sign = signOf s.value.toModel.unpack :=
  if_neg (Bool.eq_false_iff.1 h)

/-- A size leaves room for a sign. -/
theorem size_lt (s : Score) : s.size < 2 ^ 31 := by
  cases h : s.value.isNaN with
  | true => exact (size_of_isNaN h).2
  | false =>
    rw [size_of_defined h]
    exact code_lt_two_pow _

/-- **The bits of a score** are its sign and its size. -/
theorem bits_eq (s : Score) : s.bits = signed s.sign s.size := by
  unfold bits sign size
  split
  · -- what is not defined has its sign and its bits from how it is stored
    rw [Undefined.bits]
    cases s.undefined.negative with
    | true =>
      rw [if_pos rfl, if_pos rfl, signed_negative]
      omega
    | false => rw [if_neg Bool.false_ne_true, if_neg Bool.false_ne_true, signed_positive]
  · exact toNat_toBits s.value

/-- **The rank of a score** is told by its sign and its size. -/
theorem rank_eq (s : Score) : s.rank = signedRank s.sign s.size := by
  have hlt := s.size_lt
  rw [rank, bits_eq]
  cases s.sign with
  | positive =>
    rw [signed_positive]
    exact if_pos hlt
  | negative =>
    rw [signed_negative, if_neg (by omega), signedRank]
    omega

/-- Numbers that compare are defined. -/
theorem isNaN_eq_false_of_lt {x y : Float32} (h : x < y) : x.isNaN = false ∧ y.isNaN = false := by
  have hcompare : x.toModel.unpack.compare y.toModel.unpack = some .lt := beq_iff_eq.1 (of_decide_eq_true h)
  change x.toModel.unpack.isNaN = false ∧ y.toModel.unpack.isNaN = false
  -- what is not defined does not compare
  cases hx : x.toModel.unpack with
  | notANumber =>
    rw [hx] at hcompare
    cases hcompare
  | infinity _ | zero _ | finite _ _ _ _ =>
    cases hy : y.toModel.unpack with
    | notANumber =>
      rw [hx, hy] at hcompare
      cases hcompare
    | infinity _ | zero _ | finite _ _ _ _ => exact ⟨rfl, rfl⟩

/-- **A smaller number has a lower rank.** -/
theorem rank_lt_of_value_lt (h : s.value < t.value) : s.rank < t.rank := by
  have hcompare : s.value.toModel.unpack.compare t.value.toModel.unpack = some .lt :=
    beq_iff_eq.1 (of_decide_eq_true h)
  obtain ⟨hsn, htn⟩ := isNaN_eq_false_of_lt h
  obtain ⟨hc, hf, -⟩ := unpack_spec s.value.toModel.valid
  obtain ⟨hc', hf', -⟩ := unpack_spec t.value.toModel.valid
  rw [rank_eq, rank_eq, sign_of_defined hsn, sign_of_defined htn, size_of_defined hsn, size_of_defined htn]
  exact signedRank_lt_of_compare hc hf hc' hf' hcompare

/-- The score that is neither positive nor negative. -/
def zero : Score := { value := 0 }

/-- Zero is in the middle of all ranks. -/
theorem rank_zero : zero.rank = 0 := by
  have hbits : zero.bits = 0 := by decide +kernel
  rw [rank, hbits]
  rfl

/-- A score that is not defined is scaled to itself. -/
theorem undefined_scale (d : Float32) (h : s.value.isNaN = true) : (s.scale d).undefined = s.undefined :=
  if_pos h

section Scale

variable {d : Float32} (hd : Settings.properDiscount d = true)

include hd

/-- A discount leaves what is defined defined, and the rest not. -/
theorem isNaN_mul (x : Float32) : (x * d).isNaN = x.isNaN := by
  have hshare := isShare_of_properDiscount hd
  have hle := code_mul_le hshare (unpack_spec x.toModel.valid).1
  change (x * d).toModel.unpack.isNaN = x.toModel.unpack.isNaN
  rw [Bool.eq_iff_iff, isNaN_iff, isNaN_iff, (unpack_mul hshare x).2]
  refine ⟨fun h => h.trans_le hle, fun h => ?_⟩
  have hnan := isNaN_iff.2 h
  -- only what is not defined has such a code
  cases hu : x.toModel.unpack with
  | notANumber => exact (by decide : 255 * 2 ^ 23 < 0x7fc00000)
  | infinity _ | zero _ | finite _ _ _ _ =>
    rw [hu] at hnan
    cases hnan

theorem isNaN_scale (s : Score) : (s.scale d).value.isNaN = s.value.isNaN := isNaN_mul hd s.value

/-- A discount keeps the sign of a score. -/
theorem sign_scale (s : Score) : (s.scale d).sign = s.sign := by
  cases h : s.value.isNaN with
  | true => rw [sign, sign, isNaN_scale hd, if_pos h, if_pos h, undefined_scale d h]
  | false =>
    rw [sign_of_defined h, sign_of_defined ((isNaN_scale hd s).trans h)]
    exact (unpack_mul (isShare_of_properDiscount hd) s.value).1

/-- What is not defined keeps its size. -/
theorem size_scale_of_isNaN (h : s.value.isNaN = true) : (s.scale d).size = s.size := by
  rw [size, size, isNaN_scale hd, if_pos h, if_pos h, undefined_scale d h]

/-- What is defined has the size of the product. -/
theorem size_scale (h : s.value.isNaN = false) :
    (s.scale d).size = code (mul Format.binary32 s.value.toModel.unpack d.toModel.unpack) := by
  rw [size_of_defined ((isNaN_scale hd s).trans h)]
  exact (unpack_mul (isShare_of_properDiscount hd) s.value).2

/-- A discount makes no score larger. -/
theorem size_scale_le (s : Score) : (s.scale d).size ≤ s.size := by
  cases h : s.value.isNaN with
  | true => rw [size_scale_of_isNaN hd h]
  | false =>
    rw [size_scale hd h, size_of_defined h]
    exact code_mul_le (isShare_of_properDiscount hd) (unpack_spec s.value.toModel.valid).1

/-- Larger scores stay larger. -/
theorem size_scale_mono (h : s.size ≤ t.size) : (s.scale d).size ≤ (t.scale d).size := by
  cases ht : t.value.isNaN with
  | true =>
    -- nothing grows, and what is not defined does not shrink either
    rw [size_scale_of_isNaN hd ht]
    exact (size_scale_le hd s).trans h
  | false =>
    obtain ⟨hc, hf, -⟩ := unpack_spec s.value.toModel.valid
    obtain ⟨hc', hf', -⟩ := unpack_spec t.value.toModel.valid
    cases hs : s.value.isNaN with
    | true =>
      -- what is not defined is larger than all that is
      have hle := code_le_of_isNaN (f := t.value.toModel.unpack) ht
      rw [(size_of_isNaN hs).1, size_of_defined ht] at h
      omega
    | false =>
      rw [size_of_defined hs, size_of_defined ht] at h
      rw [size_scale hd hs, size_scale hd ht]
      exact code_mul_mono (isShare_of_properDiscount hd) hc hf hc' hf' h

/-- **A discount keeps the order of scores.** -/
theorem rank_scale_mono (h : s.rank ≤ t.rank) : (s.scale d).rank ≤ (t.scale d).rank := by
  rw [rank_eq, rank_eq] at h
  rw [rank_eq, rank_eq, sign_scale hd, sign_scale hd]
  cases hsign : s.sign <;> cases tsign : t.sign <;> rw [hsign, tsign] at h <;> simp only [signedRank] at h ⊢
  · have := size_scale_mono (s := t) (t := s) hd (by omega)
    omega
  · omega
  · omega
  · have := size_scale_mono (s := s) (t := t) hd (by omega)
    omega

/-- **A discount raises no score that is not negative.** -/
theorem rank_scale_le (h : ¬ s.value < 0) : (s.scale d).rank ≤ s.rank := by
  rw [rank_eq, rank_eq, sign_scale hd]
  have hle := size_scale_le hd s
  cases hsign : s.sign with
  | positive =>
    simp only [signedRank]
    omega
  | negative =>
    -- the negative zero and what is not defined stay as they are
    have hsame : (s.scale d).size = s.size := by
      cases hnan : s.value.isNaN with
      | true => exact size_scale_of_isNaN hd hnan
      | false =>
        obtain ⟨-, m, e, hm, hshare, -⟩ := isShare_of_properDiscount hd
        rw [size_scale hd hnan, size_of_defined hnan, hshare]
        cases hu : s.value.toModel.unpack with
        | notANumber | zero _ | infinity _ => rfl
        | finite sign n k hn =>
          -- any other negative number is negative
          rw [sign_of_defined hnan, hu] at hsign
          obtain rfl : sign = .negative := hsign
          have hneg : (s.value.toModel.unpack.compare (.zero .positive) == some .lt) = true := by
            rw [hu]
            rfl
          exact absurd (decide_eq_true hneg) h
    rw [hsame]

/-- **A discount lowers no score that is negative.** -/
theorem le_rank_scale (h : s.value < 0) : s.rank ≤ (s.scale d).rank := by
  rw [rank_eq, rank_eq, sign_scale hd]
  have hle := size_scale_le hd s
  cases hsign : s.sign with
  | negative =>
    -- a negative score that gets no larger gets no lower
    simp only [signedRank]
    omega
  | positive =>
    -- a positive score is not below zero
    have hlt : s.rank < zero.rank := rank_lt_of_value_lt h
    rw [rank_eq, hsign, rank_zero, signedRank] at hlt
    omega

end Scale

end Score

end CodeSearch
