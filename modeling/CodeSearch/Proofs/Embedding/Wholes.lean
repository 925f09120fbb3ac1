import CodeSearch.Proofs.Embedding.Scaling

/-!
# Whole numbers in single precision

A number that can be written in canonical form is rounded to that form (`roundWithAccuracy_of_value_eq`), so nothing
is lost of it. A whole number of at most 24 binary digits can be written so (`whole`), whatever product or sum it
comes from. Hence whole numbers within this range are stored exactly (`unpack_ofInt`), and as long as they stay
within it they are added exactly (`ofInt_add`).
-/

namespace CodeSearch

namespace FloatOrder

open Float.Model (Format UnpackedFloat)

open Float.Model.UnpackedFloat (Sign roundWithAccuracy decreaseExponent pack unpack add mul)

/-! ### What is not rounded -/

/-- Numbers that are the same have the same unit, however they are written. -/
theorem unit_of_value_eq {m m' : ℕ} {e e' : ℤ} (hm : 0 < m) (hm' : 0 < m') (h : value m e = value m' e') :
    unit m e = unit m' e' :=
  le_antisymm (unit_mono hm h.le) (unit_mono hm' h.ge)

/-- A number that is the same as a positive one is positive. -/
theorem pos_of_value_eq {m q : ℕ} {e t : ℤ} (hq : 0 < q) (h : value m e = value q t) : 0 < m := by
  have hpos := value_pos hq t
  by_contra hzero
  rw [← h, value, Nat.eq_zero_of_not_pos hzero, Nat.cast_zero, zero_mul] at hpos
  exact lt_irrefl 0 hpos

section Exact

variable {s : Sign} {m q : ℕ} {e t : ℤ} {hq : 0 < q} (hc : Canonical (.finite s q t hq)) (hm : 0 < m)
  (hvalue : value m e = value q t)

include hc hm hvalue

/-- The unit of a number that can be written in canonical form is the exponent of that form. -/
theorem unit_eq_exponent : unit m e = t := by
  rw [unit_of_value_eq hm hq hvalue]
  exact (code_round_of_canonical s hq hc).1.symm

/-- **A number that can be written in canonical form is rounded to that form.** -/
theorem roundWithAccuracy_of_value_eq (h : e ≤ unit m e) :
    roundWithAccuracy Format.binary32 s m e .exact = .finite s q t hq := by
  have hunit := unit_eq_exponent hc hm hvalue
  have hwhole : value m e / 2 ^ unit m e = q := by
    rw [hvalue, hunit, value]
    field_simp
  -- a whole number of units is its own nearest one
  have hnearest := isNearest_units h
  rw [hwhole] at hnearest
  have hunits : units m e = q :=
    le_antisymm (hnearest.mono (isNearest_natCast q) le_rfl) ((isNearest_natCast q).mono hnearest le_rfl)
  -- it is not too small to be seen, nor does it take another binary digit
  rcases round_cases s h with ⟨hzero, -⟩ | ⟨hpos, -, hround⟩ | ⟨hmany, -⟩
  · exact absurd (hunits.symm.trans hzero) hq.ne'
  · rw [hround]
    obtain rfl := hunit
    obtain rfl := hunits
    rfl
  · -- a power of two more would have a digit more than there is room for
    exact absurd (hunits.symm.trans hmany) hc.1.ne

end Exact

/-- A smaller exponent is made up for by a greater mantissa. -/
theorem value_decreaseExponent {m : ℕ} {e t : ℤ} (h : t ≤ e) :
    value (decreaseExponent m e t).1 t = value m e := by
  obtain ⟨k, rfl⟩ := Int.le.dest h
  have hshift : (t + k - t).toNat = k := by omega
  change ((m <<< (t + k - t).toNat : ℕ) : ℚ) * 2 ^ t = m * 2 ^ (t + k)
  rw [hshift, Nat.shiftLeft_eq, zpow_add₀ two_ne_zero, zpow_natCast]
  push_cast
  ring

/-- An exponent is decreased to what it should be, -/
theorem decreaseExponent_snd {m : ℕ} {e t : ℤ} (h : t ≤ e) : (decreaseExponent m e t).2 = t := by
  change e - ((e - t).toNat : ℤ) = t
  omega

/-- unless it is no greater. -/
theorem decreaseExponent_of_le {m : ℕ} {e t : ℤ} (h : e ≤ t) : decreaseExponent m e t = (m, e) := by
  have hshift : (e - t).toNat = 0 := by omega
  rw [decreaseExponent, hshift]
  simp

/-- So it is, whatever exponent it comes with. -/
theorem round_of_value_eq {s : Sign} {m q : ℕ} {e t : ℤ} {hq : 0 < q} (hc : Canonical (.finite s q t hq))
    (hvalue : value m e = value q t) : UnpackedFloat.round Format.binary32 s m e = .finite s q t hq := by
  have hunit := unit_eq_exponent hc (pos_of_value_eq hq hvalue) hvalue
  have hround : UnpackedFloat.round Format.binary32 s m e = roundWithAccuracy Format.binary32 s
      (decreaseExponent m e (unit m e)).1 (decreaseExponent m e (unit m e)).2 .exact := rfl
  rw [hround, hunit]
  -- only a greater exponent than that of the form is changed before rounding
  rcases le_total e t with hle | hge
  · rw [decreaseExponent_of_le hle]
    exact roundWithAccuracy_of_value_eq hc (pos_of_value_eq hq hvalue) hvalue (hle.trans hunit.ge)
  · have hsame := (value_decreaseExponent hge).trans hvalue
    have hpos := pos_of_value_eq hq hsame
    rw [decreaseExponent_snd hge]
    exact roundWithAccuracy_of_value_eq hc hpos hsame (unit_eq_exponent hc hpos hsame).ge

/-! ### Whole numbers -/

/-- A whole number in the form in which single precision numbers are unpacked, if it has at most 24 digits. -/
def whole (n : ℤ) : UnpackedFloat :=
  if h : n = 0 then .zero .positive
  else .finite (if n < 0 then .negative else .positive) (n.natAbs * 2 ^ (23 - n.natAbs.log2))
    (-(23 - n.natAbs.log2 : ℕ)) (Nat.mul_pos (Int.natAbs_pos.2 h) (by positivity))

/-- The number that an unpacked number stands for. -/
def amount? : UnpackedFloat → Option ℚ
  | .zero _ => some 0
  | .finite s m e _ => some (s.apply m * 2 ^ e)
  | .infinity _ | .notANumber => none

theorem amount?_finite (s : Sign) {m : ℕ} (e : ℤ) (hm : 0 < m) :
    amount? (.finite s m e hm) = some ((s.apply m : ℤ) * (2 : ℚ) ^ e) := rfl

theorem whole_zero : whole 0 = .zero .positive := rfl

/-- With the digits of a whole number brought to the front it is the same number. -/
theorem value_whole (a k : ℕ) : value (a * 2 ^ k) (-(k : ℤ)) = a := by
  rw [value, zpow_neg, zpow_natCast]
  push_cast
  field_simp

/-- A positive whole number has its first digit in the place of the greatest, -/
theorem whole_of_pos {n : ℤ} (h : 0 < n) : whole n = .finite .positive (n.natAbs * 2 ^ (23 - n.natAbs.log2))
    (-(23 - n.natAbs.log2 : ℕ)) (Nat.mul_pos (Int.natAbs_pos.2 (Int.ne_of_gt h)) (Nat.two_pow_pos _)) := by
  rw [whole, dif_neg (Int.ne_of_gt h), if_neg h.not_gt]

/-- and so has a negative one. -/
theorem whole_of_neg {n : ℤ} (h : n < 0) : whole n = .finite .negative (n.natAbs * 2 ^ (23 - n.natAbs.log2))
    (-(23 - n.natAbs.log2 : ℕ)) (Nat.mul_pos (Int.natAbs_pos.2 (Int.ne_of_lt h)) (Nat.two_pow_pos _)) := by
  rw [whole, dif_neg (Int.ne_of_lt h), if_pos h]

theorem cast_natAbs_of_pos {n : ℤ} (h : 0 < n) : (n.natAbs : ℚ) = n := by
  rw [Nat.cast_natAbs, abs_of_pos h]

theorem cast_natAbs_of_neg {n : ℤ} (h : n < 0) : (n.natAbs : ℚ) = -n := by
  rw [Nat.cast_natAbs, abs_of_neg h, Int.cast_neg]

/-- It stands for that whole number. -/
theorem amount?_whole (n : ℤ) : amount? (whole n) = some (n : ℚ) := by
  have hvalue : ∀ a k : ℕ, ((a * 2 ^ k : ℕ) : ℚ) * 2 ^ (-(k : ℤ)) = a := value_whole
  rcases lt_trichotomy n 0 with hneg | rfl | hpos
  · rw [whole_of_neg hneg, amount?_finite, Sign.apply, Int.cast_neg, Int.cast_natCast, neg_mul, hvalue,
      cast_natAbs_of_neg hneg, neg_neg]
  · rfl
  · rw [whole_of_pos hpos, amount?_finite, Sign.apply, Int.cast_natCast, hvalue, cast_natAbs_of_pos hpos]

section Whole

variable {n : ℤ} (hfew : n.natAbs < 2 ^ 24)

include hfew

/-- A whole number of few digits is in canonical form, and can be stored. -/
theorem canonical_whole : Canonical (whole n) ∧ Fits (whole n) := by
  unfold whole
  by_cases hne : n = 0
  · rw [dif_pos hne]
    exact ⟨trivial, trivial⟩
  · rw [dif_neg hne]
    have hne' : n.natAbs ≠ 0 := Int.natAbs_ne_zero.2 hne
    -- the first of its digits is brought to the place of the greatest
    have hlog : n.natAbs.log2 < 24 := (Nat.log2_lt hne').2 hfew
    have hlow : 2 ^ 23 ≤ n.natAbs * 2 ^ (23 - n.natAbs.log2) := by
      calc 2 ^ 23 = 2 ^ n.natAbs.log2 * 2 ^ (23 - n.natAbs.log2) := by
            rw [← pow_add]
            congr 1
            omega
        _ ≤ n.natAbs * 2 ^ (23 - n.natAbs.log2) := Nat.mul_le_mul_right _ (Nat.log2_self_le hne')
    have hhigh : n.natAbs * 2 ^ (23 - n.natAbs.log2) < 2 ^ 24 := by
      calc n.natAbs * 2 ^ (23 - n.natAbs.log2)
          < 2 ^ (n.natAbs.log2 + 1) * 2 ^ (23 - n.natAbs.log2) :=
            Nat.mul_lt_mul_of_pos_right Nat.lt_log2_self (by positivity)
        _ = 2 ^ 24 := by
            rw [← pow_add]
            congr 1
            omega
    exact ⟨⟨hhigh, by omega, Or.inl hlow⟩, by rw [fits_finite]; omega⟩

/-- **A whole number is normalized to its form**, whatever exponent it comes with. -/
theorem normalize_eq_whole {m e : ℤ} (h : (m : ℚ) * 2 ^ e = n) :
    UnpackedFloat.normalize Format.binary32 m e .positive = whole n := by
  have hpow : (0 : ℚ) < 2 ^ e := by positivity
  have hcanonical := (canonical_whole hfew).1
  unfold UnpackedFloat.normalize
  rcases lt_trichotomy m 0 with hneg | rfl | hpos
  · -- the sign goes to the front, and what is left is positive
    have hn : n < 0 := by
      have : (n : ℚ) < 0 := h ▸ mul_neg_of_neg_of_pos (by exact_mod_cast hneg) hpow
      exact_mod_cast this
    rw [whole_of_neg hn] at hcanonical ⊢
    rw [compare_lt_iff_lt.2 hneg]
    refine round_of_value_eq hcanonical ?_
    have hmantissa : (-m).toNat = m.natAbs := by omega
    rw [value_whole, value, hmantissa, cast_natAbs_of_neg hneg, cast_natAbs_of_neg hn, neg_mul, h]
  · have hn : n = 0 := by
      rw [Int.cast_zero, zero_mul] at h
      exact_mod_cast h.symm
    rw [hn]
    rfl
  · have hn : 0 < n := by
      have : (0 : ℚ) < n := h ▸ mul_pos (by exact_mod_cast hpos) hpow
      exact_mod_cast this
    rw [whole_of_pos hn] at hcanonical ⊢
    rw [compare_gt_iff_gt.2 hpos]
    refine round_of_value_eq hcanonical ?_
    have hmantissa : m.toNat = m.natAbs := by omega
    rw [value_whole, value, hmantissa, cast_natAbs_of_pos hpos, cast_natAbs_of_pos hn, h]

end Whole

/-! ### Sums and products of whole numbers -/

/-- Numbers that are the same are so with the same sign. -/
theorem apply_mul_eq {s : Sign} {m m' : ℕ} {e e' : ℤ} (h : value m e = value m' e') :
    (s.apply m : ℚ) * 2 ^ e = s.apply m' * 2 ^ e' := by
  unfold value at h
  cases s with
  | positive => exact_mod_cast h
  | negative =>
    simp only [Sign.apply, Int.cast_neg, Int.cast_natCast, neg_mul, h]

/-- **A sum that is a whole number is that number exactly.** -/
theorem add_finite {s s' : Sign} {m m' : ℕ} {e e' : ℤ} (hm : 0 < m) (hm' : 0 < m') {n : ℤ}
    (hfew : n.natAbs < 2 ^ 24) (h : (s.apply m : ℚ) * 2 ^ e + s'.apply m' * 2 ^ e' = n) :
    add Format.binary32 (.finite s m e hm) (.finite s' m' e' hm') = whole n := by
  -- both mantissas are written for the smaller exponent
  have hleft := apply_mul_eq (s := s) (value_decreaseExponent (m := m) (min_le_left e e'))
  have hright := apply_mul_eq (s := s') (value_decreaseExponent (m := m') (min_le_right e e'))
  have hsum : ((s.apply (decreaseExponent m e (min e e')).1 +
      s'.apply (decreaseExponent m' e' (min e e')).1 : ℤ) : ℚ) * 2 ^ min e e' = n := by
    rw [Int.cast_add, add_mul, hleft, hright, h]
  exact normalize_eq_whole hfew hsum

/-- **Whole numbers are added exactly**, as long as the sum has at most 24 digits. -/
theorem add_whole {a b : ℤ} (hfew : (a + b).natAbs < 2 ^ 24) :
    add Format.binary32 (whole a) (whole b) = whole (a + b) := by
  -- zero is a number of its own kind, which an addition passes over
  by_cases ha : a = 0
  · subst ha
    rw [zero_add, whole_zero]
    by_cases hb : b = 0
    · subst hb
      rfl
    · rw [whole, dif_neg hb]
      rfl
  · by_cases hb : b = 0
    · subst hb
      rw [add_zero, whole_zero, whole, dif_neg ha]
      rfl
    · -- both numbers are finite, and what they stand for is added before it is rounded
      have ha' := amount?_whole a
      have hb' := amount?_whole b
      unfold whole at ha' hb' ⊢
      rw [dif_neg ha] at ha' ⊢
      rw [dif_neg hb] at hb' ⊢
      refine add_finite _ _ hfew ?_
      rw [Option.some.inj ha', Option.some.inj hb', Int.cast_add]

/-- A number in canonical form times 1 stays as it is. -/
theorem mul_one_finite {s : Sign} {m : ℕ} {e : ℤ} {hm : 0 < m} (hc : Canonical (.finite s m e hm)) :
    mul Format.binary32 (.finite s m e hm) (.finite .positive (2 ^ 23) (-23) (by decide)) = .finite s m e hm := by
  -- the product is the number itself, written with more digits
  have hvalue : value (m * 2 ^ 23) (e + -23) = value m e := by
    have hone : value (2 ^ 23) (-23) = 1 := by
      rw [value]
      norm_num
    rw [value_mul, hone, mul_one]
  have hpos : 0 < m * 2 ^ 23 := Nat.mul_pos hm (by decide)
  have hunit := unit_eq_exponent hc hpos hvalue
  have hsign : s * Sign.positive = s := by cases s <;> rfl
  change roundWithAccuracy Format.binary32 (s * Sign.positive) (m * 2 ^ 23) (e + -23) .exact = _
  rw [hsign]
  exact roundWithAccuracy_of_value_eq hc hpos hvalue (by omega)

/-! ### Storing whole numbers -/

/-- **What is stored of a number in canonical form is that number**, if its exponent is not too large. -/
theorem unpack_pack_finite {s : Sign} {m : ℕ} {e : ℤ} {hm : 0 < m} (hc : Canonical (.finite s m e hm))
    (hf : Fits (.finite s m e hm)) :
    (Float32.Model.pack (.finite s m e hm)).unpack = .finite s m e hm := by
  obtain ⟨hcanonical, hfits, hbits⟩ := unpack_spec (Float32.Model.pack (.finite s m e hm)).valid
  have hpack : (Float32.Model.pack (.finite s m e hm)).toBits.toBitVec.toNat =
      signed s (code (.finite s m e hm)) := toNat_pack hc
  rw [hpack] at hbits
  obtain ⟨hsign, hcode⟩ := signed_inj (code_lt_two_pow _) (code_lt_two_pow _) hbits
  have hpos : 0 < code (.finite s m e hm) := code_pos
  have hlt := code_lt hc hf
  -- its code is greater than that of zero, and smaller than those of infinity and of what is no number
  change UnpackedFloat.unpack Format.binary32 _ = _
  cases hg : UnpackedFloat.unpack Format.binary32 (Float32.Model.pack (.finite s m e hm)).toBits.toBitVec with
  | notANumber =>
    rw [hg] at hcode
    rw [hcode] at hlt
    exact absurd hlt (by decide : ¬ 0x7fc00000 < 255 * 2 ^ 23)
  | infinity t =>
    rw [hg] at hcode
    exact absurd hcode hlt.ne
  | zero t =>
    rw [hg] at hcode
    exact absurd hcode hpos.ne'
  | finite t n k hn =>
    rw [hg] at hcode hcanonical hfits hsign
    obtain rfl : s = t := hsign
    -- of finite numbers the code orders first exponents and then mantissas, so both are the same
    have hle := lex_of_code_le hc hf hcanonical hfits hcode.le
    have hge := lex_of_code_le hcanonical hfits hc hf hcode.ge
    obtain ⟨rfl, rfl⟩ : e = k ∧ m = n := by omega
    rfl

section Stored

variable {n : ℤ} (hfew : n.natAbs < 2 ^ 24)

include hfew

/-- A whole number of few digits is stored as it is, -/
theorem unpack_pack_whole : (Float32.Model.pack (whole n)).unpack = whole n := by
  obtain ⟨hc, hf⟩ := canonical_whole hfew
  by_cases hn : n = 0
  · subst hn
    rfl
  · unfold whole at hc hf ⊢
    rw [dif_neg hn] at hc hf ⊢
    exact unpack_pack_finite hc hf

/-- A whole number times 1 stays as it is. -/
theorem mul_whole_one :
    mul Format.binary32 (whole n) (.finite .positive (2 ^ 23) (-23) (by decide)) = whole n := by
  have hc := (canonical_whole hfew).1
  by_cases hn : n = 0
  · subst hn
    rfl
  · unfold whole at hc ⊢
    rw [dif_neg hn] at hc ⊢
    exact mul_one_finite hc

/-- **A whole number is converted to its form.** -/
theorem ofInt_eq_whole : UnpackedFloat.ofInt Format.binary32 n = whole n := by
  refine normalize_eq_whole hfew ?_
  rw [zpow_zero, mul_one]

end Stored

/-- The first of the powers of ten is 1. -/
theorem unpack_one : (Float32.ofBits 0x3F800000).toModel.unpack =
    .finite .positive (2 ^ 23) (-23) (by decide) := rfl

/-- In decimal notation a whole number is what it says. -/
theorem ofScientific_eq_whole {a : ℕ} (hpos : 0 < a) (hfew : a < 2 ^ 24) :
    UnpackedFloat.ofScientific Format.binary32 a 0 = whole a := by
  have hc := (canonical_whole (n := (a : ℤ)) hfew).1
  rw [whole_of_pos (by exact_mod_cast hpos)] at hc ⊢
  have hexponent : (2 : ℤ) ^ Format.binary32.exponentBits = 256 := rfl
  have hbits : Format.binary32.mantissaBits = 24 := rfl
  -- the digits are shifted to have enough of them, which the exponent makes up for
  have hvalue : value (a <<< 24) (-24) = value (a * 2 ^ (23 - a.log2)) (-(23 - a.log2 : ℕ)) := by
    rw [value_whole, Nat.shiftLeft_eq]
    exact value_whole a 24
  have hshifted : 0 < a <<< 24 := pos_of_value_eq (by positivity) hvalue
  have hunit := unit_eq_exponent hc hshifted hvalue
  unfold UnpackedFloat.ofScientific
  rw [dif_neg hpos.ne', if_neg (by norm_num), if_neg (by omega), if_pos le_rfl, mul_finite]
  rw [Int.toNat_zero, pow_zero, mul_one, hbits, add_zero, Nat.cast_ofNat]
  exact roundWithAccuracy_of_value_eq hc hshifted hvalue (by omega)

/-- What a natural number of at most 24 digits is stored as. -/
theorem ofNat_eq {a : ℕ} (hfew : a < 2 ^ 24) : Float32.ofNat a = .ofModel (.pack (whole a)) := by
  have hfew' : (a : ℤ).natAbs < 2 ^ 24 := hfew
  change Float32.ofScientific a false 0 = _
  unfold Float32.ofScientific
  split
  · next hsmall =>
    -- a small number is converted and multiplied with a power of ten, which is 1
    have hnat : a.toUInt64.toNat = a := Nat.mod_eq_of_lt (by omega)
    have hconverted : a.toUInt64.toFloat32.toModel = .pack (whole a) := by
      change Float32.Model.pack (UnpackedFloat.ofInt Format.binary32 (a.toUInt64.toNat : ℤ)) = _
      rw [hnat, ofInt_eq_whole hfew']
    change Float32.ofModel (.pack (mul Format.binary32 a.toUInt64.toFloat32.toModel.unpack
      (Float32.ofBits 0x3F800000).toModel.unpack)) = _
    rw [hconverted, unpack_pack_whole hfew', unpack_one, mul_whole_one hfew']
  · next hlarge =>
    -- a larger one is read as it is written, without a power of ten
    change Float32.ofModel (.pack (UnpackedFloat.ofScientific Format.binary32 a 0)) = _
    rw [ofScientific_eq_whole (by omega) hfew]

/-- **Whole numbers of at most 24 digits are stored exactly.** -/
theorem ofInt_eq {n : ℤ} (hfew : n.natAbs < 2 ^ 24) : Float32.ofInt n = .ofModel (.pack (whole n)) := by
  cases n with
  | ofNat a => exact ofNat_eq hfew
  | negSucc a =>
    change Float32.ofModel (.pack (UnpackedFloat.neg (Float32.ofNat (a + 1)).toModel.unpack)) = _
    have hfew' : a + 1 < 2 ^ 24 := hfew
    rw [ofNat_eq hfew', unpack_pack_whole (n := ((a + 1 : ℕ) : ℤ)) hfew',
      whole_of_pos (n := ((a + 1 : ℕ) : ℤ)) (by omega), whole_of_neg (Int.negSucc_lt_zero a)]
    rfl

/-- and so it is found again. -/
theorem unpack_ofInt {n : ℤ} (hfew : n.natAbs < 2 ^ 24) : (Float32.ofInt n).toModel.unpack = whole n := by
  rw [ofInt_eq hfew]
  exact unpack_pack_whole hfew

/-- **Whole numbers are added exactly in single precision**, as long as they have at most 24 digits. -/
theorem ofInt_add {a b : ℤ} (ha : a.natAbs < 2 ^ 24) (hb : b.natAbs < 2 ^ 24) (hsum : (a + b).natAbs < 2 ^ 24) :
    Float32.ofInt a + Float32.ofInt b = Float32.ofInt (a + b) := by
  change Float32.ofModel (.pack (add Format.binary32 (Float32.ofInt a).toModel.unpack
    (Float32.ofInt b).toModel.unpack)) = _
  rw [unpack_ofInt ha, unpack_ofInt hb, add_whole hsum, ofInt_eq hsum]

end FloatOrder

end CodeSearch
