import Mathlib.Algebra.Order.Field.Power
import Mathlib.Tactic.FieldSimp
import Mathlib.Tactic.Linarith
import Mathlib.Tactic.Ring

/-!
# Rounding to single precision

A product is rounded to a whole number of *units*, where the unit is the power of two that leaves 24 binary
digits, or the smallest one that there is. The whole number is the nearest one, and of two that are equally
near the even one (`isNearest_units`).

A number without its sign has a *code*, which is what its other bits say: a number is stored as its sign and
its code (`toNat_pack`, `unpack_spec`). A greater number has a greater code, and rounding keeps the order of
codes (`code_round_mono`).
-/

namespace CodeSearch

namespace FloatOrder

open Float.Model (Format UnpackedFloat totalExponent)

open Float.Model.UnpackedFloat (ExtendedMantissa Sign roundWithAccuracy shiftToTargetExponent pack)

/-! ### The nearest whole number -/

/-- Whether a whole number is nearest to a number; of two that are equally near it is the even one. -/
structure IsNearest (q : ℕ) (x : ℚ) : Prop where
  le_add : (q : ℚ) ≤ x + 1 / 2
  le_half : x ≤ q + 1 / 2
  even_above : (q : ℚ) = x + 1 / 2 → Even q
  even_below : x = q + 1 / 2 → Even q

/-- **The nearest whole number grows with the number.** -/
theorem IsNearest.mono {q q' : ℕ} {x x' : ℚ} (h : IsNearest q x) (h' : IsNearest q' x') (hx : x ≤ x') :
    q ≤ q' := by
  by_contra hlt
  have hsucc : (q' : ℚ) + 1 ≤ q := by exact_mod_cast Nat.lt_of_not_le hlt
  have hle := h.le_add
  have hle' := h'.le_half
  -- both numbers are half way between the two whole numbers, of which only one is even
  have hq : Even q := h.even_above (by linarith)
  have hq' : Even q' := h'.even_below (by linarith)
  have hnext : q = q' + 1 := by
    have : (q : ℚ) = q' + 1 := by linarith
    exact_mod_cast this
  rw [hnext, Nat.even_add_one] at hq
  exact hq hq'

/-- A whole number is nearest to itself. -/
theorem isNearest_natCast (q : ℕ) : IsNearest q q where
  le_add := by linarith
  le_half := by linarith
  even_above h := by linarith
  even_below h := by linarith

/-- What the digit after the last one of a mantissa adds. -/
def half (b : Bool) : ℚ := if b then 1 / 2 else 0

/-- Whether a mantissa with the two bits that are kept of what was shifted out stands for a number. -/
structure StandsFor (m : ExtendedMantissa) (x : ℚ) : Prop where
  le : m.mantissa + half m.roundBit ≤ x
  lt : x < m.mantissa + half m.roundBit + 1 / 2
  sticky_iff : m.stickyBit = false ↔ x = m.mantissa + half m.roundBit

/-- A mantissa that is shifted by one digit stands for half of the number. -/
theorem StandsFor.shiftRightOne {m : ExtendedMantissa} {x : ℚ} (h : StandsFor m x) :
    StandsFor m.shiftRightOne (x / 2) := by
  obtain ⟨n, r, s⟩ := m
  obtain ⟨hle, hlt, hiff⟩ := h
  -- the last digit becomes the bit after the last one, and the bit that was there is remembered if it was set
  have hn : (n : ℚ) = 2 * (n / 2 : ℕ) + (n % 2 : ℕ) := by exact_mod_cast (Nat.div_add_mod n 2).symm
  have hhalf : half (n % 2 != 0) = (n % 2 : ℕ) / 2 := by
    rcases Nat.mod_two_eq_zero_or_one n with h0 | h1
    · rw [h0]
      norm_num [half]
    · rw [h1]
      norm_num [half]
  dsimp only at hle hlt hiff
  constructor
  case le =>
    dsimp only [ExtendedMantissa.shiftRightOne]
    rw [hhalf]
    have : 0 ≤ half r := by cases r <;> norm_num [half]
    linarith
  case lt =>
    dsimp only [ExtendedMantissa.shiftRightOne]
    rw [hhalf]
    have : half r ≤ 1 / 2 := by cases r <;> norm_num [half]
    linarith
  case sticky_iff =>
    dsimp only [ExtendedMantissa.shiftRightOne]
    rw [hhalf, Bool.or_eq_false_iff, hiff]
    -- nothing is lost only if both the last digit and what was behind it are zero
    cases r with
    | false =>
      rw [and_iff_right rfl]
      norm_num [half]
      constructor <;> intro h <;> linarith
    | true =>
      norm_num [half] at hle ⊢
      intro h
      linarith

/-- A mantissa that is shifted stands for the number over a power of two. -/
theorem StandsFor.shiftRight {m : ExtendedMantissa} {x : ℚ} (h : StandsFor m x) (k : ℕ) :
    StandsFor (m >>> k) (x / 2 ^ k) := by
  induction k with
  | zero =>
    rw [pow_zero, div_one]
    exact h
  | succ k ih =>
    rw [pow_succ, ← div_div]
    exact ih.shiftRightOne

/-- **What a mantissa is rounded to** is the nearest whole number. -/
theorem StandsFor.isNearest {m : ExtendedMantissa} {x : ℚ} (h : StandsFor m x) :
    IsNearest m.roundedMantissa x := by
  obtain ⟨n, r, s⟩ := m
  obtain ⟨hle, hlt, hiff⟩ := h
  dsimp only at hle hlt hiff
  cases r with
  | false =>
    -- less than half is left over, which is dropped
    have hround : (ExtendedMantissa.mk n false s).roundedMantissa = n := by cases s <;> rfl
    rw [hround]
    norm_num [half] at hle hlt
    constructor
    · linarith
    · linarith
    · intro h
      linarith
    · intro h
      linarith
  | true =>
    cases s with
    | false =>
      -- half way between two whole numbers
      have hx : x = n + 1 / 2 := by simpa [half] using hiff.1 rfl
      change IsNearest (n + n % 2) x
      -- the last digit is added, so that an odd number is rounded up and an even one down
      have heven : Even (n + n % 2) := by
        rw [Nat.even_iff]
        omega
      have hmod : ((n % 2 : ℕ) : ℚ) ≤ 1 := by exact_mod_cast Nat.le_of_lt_succ (Nat.mod_lt n two_pos)
      have hmod' : (0 : ℚ) ≤ ((n % 2 : ℕ) : ℚ) := Nat.cast_nonneg _
      refine ⟨?_, ?_, fun _ => heven, fun _ => heven⟩
      · push_cast
        linarith
      · push_cast
        linarith
    | true =>
      -- more than half is left over, which counts as one
      have hne : x ≠ n + 1 / 2 := by simpa [half] using hiff
      change IsNearest (n + 1) x
      norm_num [half] at hle hlt
      constructor
      · push_cast
        linarith
      · push_cast
        linarith
      · intro h
        push_cast at h
        exact absurd (by linarith) hne
      · intro h
        push_cast at h
        linarith

/-! ### Units -/

/-- The number that a mantissa and an exponent stand for. -/
def value (m : ℕ) (e : ℤ) : ℚ := m * 2 ^ e

/-- The exponent of the unit that a number is rounded to. -/
def unit (m : ℕ) (e : ℤ) : ℤ := Format.binary32.targetExponent (totalExponent m e)

/-- How many units a number is rounded to. -/
def units (m : ℕ) (e : ℤ) : ℕ := (shiftToTargetExponent Format.binary32 m e .exact).1.roundedMantissa

/-- The unit leaves 24 digits, but is not smaller than the smallest one that there is. -/
theorem unit_eq (m : ℕ) (e : ℤ) : unit m e = max (m.log2 + e - 23) (-149) := by
  have hbits : Format.binary32.mantissaBits = 24 := rfl
  have hmin : Format.binary32.minExponent = -149 := rfl
  rw [unit, Format.targetExponent, totalExponent, hbits, hmin]
  omega

theorem value_pos {m : ℕ} (hm : 0 < m) (e : ℤ) : 0 < value m e := by
  unfold value
  positivity

/-- The first digit of a number tells a bound below, -/
theorem le_value {m : ℕ} (hm : 0 < m) (e : ℤ) : (2 : ℚ) ^ ((m.log2 : ℤ) + e) ≤ value m e := by
  have hlog : (2 : ℚ) ^ (m.log2 : ℤ) ≤ m := by exact_mod_cast Nat.log2_self_le hm.ne'
  rw [zpow_add₀ two_ne_zero, value]
  gcongr

/-- and one above. -/
theorem value_lt (m : ℕ) (e : ℤ) : value m e < (2 : ℚ) ^ ((m.log2 : ℤ) + e + 1) := by
  have hlog : (m : ℚ) < (2 : ℚ) ^ ((m.log2 : ℤ) + 1) := by exact_mod_cast Nat.lt_log2_self
  rw [show (m.log2 : ℤ) + e + 1 = (m.log2 + 1) + e by ring, zpow_add₀ two_ne_zero, value]
  gcongr

/-- A greater number has no smaller unit. -/
theorem unit_mono {m m' : ℕ} {e e' : ℤ} (hm : 0 < m) (h : value m e ≤ value m' e') :
    unit m e ≤ unit m' e' := by
  have hpow : (2 : ℚ) ^ ((m.log2 : ℤ) + e) < 2 ^ ((m'.log2 : ℤ) + e' + 1) :=
    (le_value hm e).trans_lt (h.trans_lt (value_lt m' e'))
  have hlog := (zpow_lt_zpow_iff_right₀ (one_lt_two (α := ℚ))).1 hpow
  rw [unit_eq, unit_eq]
  omega

section Units

variable {m : ℕ} {e : ℤ} (h : e ≤ unit m e)

include h

/-- **A number is rounded to the nearest number of units.** -/
theorem isNearest_units : IsNearest (units m e) (value m e / 2 ^ unit m e) := by
  have hexact : StandsFor ⟨m, false, false⟩ (m : ℚ) := ⟨by simp [half], by simp [half], by simp [half]⟩
  have hshift : value m e / 2 ^ unit m e = m / 2 ^ (unit m e - e).toNat := by
    have hk : unit m e = e + ((unit m e - e).toNat : ℤ) := by omega
    rw [hk, zpow_add₀ two_ne_zero, zpow_natCast, value]
    rw [← hk]
    field_simp
  rw [hshift]
  exact (hexact.shiftRight _).isNearest

/-- A number is rounded to no more units than there are numbers with 24 digits. -/
theorem units_le : units m e ≤ 2 ^ 24 := by
  refine (isNearest_units h).mono (isNearest_natCast (2 ^ 24)) ?_
  have hunit := unit_eq m e
  have hmany : ((2 ^ 24 : ℕ) : ℚ) = 2 ^ (24 : ℤ) := by norm_num
  rw [div_le_iff₀ (by positivity), hmany, ← zpow_add₀ two_ne_zero]
  exact (value_lt m e).le.trans (zpow_le_zpow_right₀ one_le_two (by omega))

/-- Unless the unit is the smallest one, all 24 digits are needed. -/
theorem le_units (hm : 0 < m) (hlarge : -149 < unit m e) : 2 ^ 23 ≤ units m e := by
  refine (isNearest_natCast (2 ^ 23)).mono (isNearest_units h) ?_
  have hunit := unit_eq m e
  have hmany : ((2 ^ 23 : ℕ) : ℚ) = 2 ^ (23 : ℤ) := by norm_num
  rw [le_div_iff₀ (by positivity), hmany, ← zpow_add₀ two_ne_zero]
  exact (zpow_le_zpow_right₀ one_le_two (by omega)).trans (le_value hm e)

end Units

/-! ### Codes -/

/-- What the bits of a number without its sign say. -/
def code : UnpackedFloat → ℕ
  | .zero _ => 0
  | .finite _ m e _ => min ((e + 149).toNat * 2 ^ 23 + m) (255 * 2 ^ 23)
  | .infinity _ => 255 * 2 ^ 23
  | .notANumber => 0x7fc00000

/-- The sign of a number; what is not defined counts as positive. -/
def signOf : UnpackedFloat → Sign
  | .zero s | .finite s _ _ _ | .infinity s => s
  | .notANumber => .positive

/-- Whether a number is in the form in which single precision numbers are unpacked. -/
def Canonical : UnpackedFloat → Prop
  | .finite _ m e _ => m < 2 ^ 24 ∧ -149 ≤ e ∧ (2 ^ 23 ≤ m ∨ e = -149)
  | _ => True

/-- Whether the exponent of a number is not too large for it to be stored. -/
def Fits : UnpackedFloat → Prop
  | .finite _ _ e _ => e ≤ 104
  | _ => True

section Finite

variable (s : Sign) {m : ℕ} {e : ℤ} (hm : 0 < m)

theorem code_finite : code (.finite s m e hm) = min ((e + 149).toNat * 2 ^ 23 + m) (255 * 2 ^ 23) := rfl

theorem signOf_finite : signOf (.finite s m e hm) = s := rfl

theorem canonical_finite :
    Canonical (.finite s m e hm) ↔ m < 2 ^ 24 ∧ -149 ≤ e ∧ (2 ^ 23 ≤ m ∨ e = -149) := Iff.rfl

theorem fits_finite : Fits (.finite s m e hm) ↔ e ≤ 104 := Iff.rfl

end Finite

/-- The bits of a number with a sign. -/
def signed (s : Sign) (c : ℕ) : ℕ := s.toBitVec.toNat * 2 ^ 31 + c

/-- The bits that are put together one after the other are a sum. -/
theorem toNat_packComponents (s : Sign) (e : BitVec 8) (m : BitVec 23) :
    (UnpackedFloat.packComponents Format.binary32 s e m).toNat = signed s (e.toNat * 2 ^ 23 + m.toNat) := by
  have he := e.isLt
  have hm := m.isLt
  rw [UnpackedFloat.packComponents, BitVec.toNat_append, BitVec.toNat_append,
    ← Nat.shiftLeft_add_eq_or_of_lt hm, ← Nat.shiftLeft_add_eq_or_of_lt he, Nat.shiftLeft_eq,
    Nat.shiftLeft_eq, signed]
  omega

/-- How what is neither zero nor infinite is put together. -/
theorem pack_finite (s : Sign) (m : ℕ) (e : ℤ) (hm : 0 < m) : pack Format.binary32 (.finite s m e hm) =
    if 2 ^ 8 ≤ (e + 150).toNat + 1 then UnpackedFloat.packedInfinity Format.binary32 s
    else if m.log2 + 1 = 24 then
      UnpackedFloat.packComponents Format.binary32 s (.ofNat 8 (e + 150).toNat) (.ofNat 23 m)
    else UnpackedFloat.packComponents Format.binary32 s 0#8 (.ofNat 23 m) := by
  have hbias : e + 150 = e + Format.binary32.exponentBias + Format.binary32.mantissaBitsWithoutImplicit := by
    have : Format.binary32.exponentBias = 127 := rfl
    rw [this]
    push_cast
    ring
  rw [hbias]
  rfl

/-- **A number is stored as its sign and its code.** -/
theorem toNat_pack {f : UnpackedFloat} (hf : Canonical f) :
    (pack Format.binary32 f).toNat = signed (signOf f) (code f) := by
  cases f with
  | notANumber => rfl
  | infinity s =>
    change (UnpackedFloat.packedInfinity Format.binary32 s).toNat = _
    rw [UnpackedFloat.packedInfinity, toNat_packComponents]
    rfl
  | zero s =>
    change (UnpackedFloat.packedZero Format.binary32 s).toNat = _
    rw [UnpackedFloat.packedZero, toNat_packComponents]
    rfl
  | finite s m e hm =>
    obtain ⟨hlt, hle, hor⟩ := hf
    rw [pack_finite]
    by_cases hlarge : 2 ^ 8 ≤ (e + 150).toNat + 1
    · -- the exponent is too large, and so is the code
      rw [if_pos hlarge, UnpackedFloat.packedInfinity, toNat_packComponents, code_finite, Nat.min_eq_right]
      · rfl
      · omega
    · rw [if_neg hlarge]
      have hcode : code (.finite s m e hm) = (e + 149).toNat * 2 ^ 23 + m := by
        rw [code_finite, Nat.min_eq_left]
        omega
      by_cases hlog : m.log2 + 1 = 24
      · -- the first digit is not stored, which the exponent makes up for
        have hfirst : 2 ^ 23 ≤ m := (Nat.le_log2 hm.ne').1 (by omega)
        have hstored : (e + 150).toNat % 2 ^ 8 * 2 ^ 23 + m % 2 ^ 23 = (e + 149).toNat * 2 ^ 23 + m := by omega
        rw [if_pos hlog, toNat_packComponents, hcode, BitVec.toNat_ofNat, BitVec.toNat_ofNat, hstored,
          signOf_finite]
      · -- a number with fewer digits has the smallest exponent, so it is stored as it is
        have hsmall : m < 2 ^ 23 := by
          by_contra hge
          have h23 : 23 ≤ m.log2 := (Nat.le_log2 hm.ne').2 (by omega)
          have h24 : m.log2 < 24 := (Nat.log2_lt hm.ne').2 hlt
          omega
        have hstored : m % 2 ^ 23 = (e + 149).toNat * 2 ^ 23 + m := by omega
        rw [if_neg hlog, toNat_packComponents, hcode, BitVec.toNat_zero, BitVec.toNat_ofNat, Nat.zero_mul,
          Nat.zero_add, hstored, signOf_finite]

/-- The bits of a number are put together again from what they are unpacked to. -/
theorem toNat_eq_signed (b : BitVec 32) : b.toNat =
    signed (Sign.ofBitVec (@UnpackedFloat.unpackSign Format.binary32 b))
      ((@UnpackedFloat.unpackExponent Format.binary32 b).toNat * 2 ^ 23 +
        (@UnpackedFloat.unpackMantissa Format.binary32 b).toNat) := by
  have hb := b.isLt
  have hsign : ∀ s : BitVec 1, (Sign.ofBitVec s).toBitVec = s := by decide
  have hfirst : (@UnpackedFloat.unpackSign Format.binary32 b).toNat = b.toNat >>> 31 % 2 ^ (31 - 31 + 1) :=
    BitVec.extractLsb_toNat 31 31 b
  rw [signed, hsign, hfirst]
  simp only [UnpackedFloat.unpackExponent, UnpackedFloat.unpackMantissa, BitVec.toNat_cast,
    BitVec.extractLsb_toNat, Nat.shiftRight_eq_div_pow]
  omega

/-- **What is stored is unpacked in canonical form**, and is its sign and its code. -/
theorem unpack_spec {b : BitVec 32} (hb : Format.binary32.Valid b) :
    Canonical (UnpackedFloat.unpack Format.binary32 b) ∧ Fits (UnpackedFloat.unpack Format.binary32 b) ∧
      b.toNat = signed (signOf (UnpackedFloat.unpack Format.binary32 b))
        (code (UnpackedFloat.unpack Format.binary32 b)) := by
  have htoNat := toNat_eq_signed b
  have hbias : (Format.binary32.exponentBias : ℤ) + Format.binary32.mantissaBitsWithoutImplicit = 150 := rfl
  have hexp : (@UnpackedFloat.unpackExponent Format.binary32 b).toNat < 2 ^ 8 := BitVec.isLt _
  have hmantissa : (@UnpackedFloat.unpackMantissa Format.binary32 b).toNat < 2 ^ 23 := BitVec.isLt _
  unfold UnpackedFloat.unpack
  dsimp only
  rw [hbias]
  by_cases hones : @UnpackedFloat.unpackExponent Format.binary32 b = -1#_
  · rw [if_pos hones]
    by_cases hzero : @UnpackedFloat.unpackMantissa Format.binary32 b = 0#_
    · -- all ones in the exponent tell what is infinite from what is not defined by the mantissa
      rw [if_pos hzero]
      refine ⟨trivial, trivial, ?_⟩
      rw [htoNat, hones, hzero]
      rfl
    · -- of all that is not defined there is one that is stored
      rw [if_neg hzero, hb.eq_packedNaN hones hzero]
      exact ⟨trivial, trivial, rfl⟩
  · have hne : (@UnpackedFloat.unpackExponent Format.binary32 b).toNat ≠ 255 :=
      fun h => hones (BitVec.eq_of_toNat_eq h)
    rw [if_neg hones]
    by_cases hexpZero : @UnpackedFloat.unpackExponent Format.binary32 b = 0#_
    · rw [if_pos hexpZero]
      by_cases hzero : @UnpackedFloat.unpackMantissa Format.binary32 b = 0#_
      · -- all zeros in the exponent: a number that is its mantissa in the smallest unit, or zero
        rw [dif_pos hzero]
        refine ⟨trivial, trivial, ?_⟩
        rw [htoNat, hexpZero, hzero]
        rfl
      · rw [dif_neg hzero]
        refine ⟨⟨by omega, by rw [hexpZero]; decide, Or.inr (by rw [hexpZero]; rfl)⟩,
          by rw [hexpZero, fits_finite]; decide, ?_⟩
        rw [htoNat, code_finite, signOf_finite, hexpZero, Nat.min_eq_left]
        · rfl
        · have : ((0#8).toNat : ℤ) = 0 := rfl
          rw [this]
          omega
    · -- any other exponent stands for a first digit that is not stored
      have hpos : (@UnpackedFloat.unpackExponent Format.binary32 b).toNat ≠ 0 :=
        fun h => hexpZero (BitVec.eq_of_toNat_eq h)
      have hfirst : (1#1 ++ @UnpackedFloat.unpackMantissa Format.binary32 b).toNat =
          2 ^ 23 + (@UnpackedFloat.unpackMantissa Format.binary32 b).toNat := by
        rw [BitVec.toNat_append, ← Nat.shiftLeft_add_eq_or_of_lt hmantissa, Nat.shiftLeft_eq]
        rfl
      rw [if_neg hexpZero, canonical_finite, fits_finite, code_finite, signOf_finite, htoNat]
      -- so the mantissa has all its digits, and the code is what is stored
      rw [hfirst, Nat.min_eq_left (by omega)]
      exact ⟨⟨by omega, by omega, Or.inl (by omega)⟩, by omega, congrArg (signed _) (by omega)⟩

/-- The code of a number that can be stored is its exponent above its mantissa. -/
theorem code_of_fits {s : Sign} {m : ℕ} {e : ℤ} {hm : 0 < m} (hc : Canonical (.finite s m e hm))
    (hf : Fits (.finite s m e hm)) : code (.finite s m e hm) = (e + 149).toNat * 2 ^ 23 + m := by
  obtain ⟨hlt, hle, -⟩ := hc
  rw [fits_finite] at hf
  rw [code_finite, Nat.min_eq_left]
  omega

/-- **Codes of stored numbers are ordered as their exponents and mantissas are.** -/
theorem lex_of_code_le {s s' : Sign} {m m' : ℕ} {e e' : ℤ} {hm : 0 < m} {hm' : 0 < m'}
    (hc : Canonical (.finite s m e hm)) (hf : Fits (.finite s m e hm))
    (hc' : Canonical (.finite s' m' e' hm')) (hf' : Fits (.finite s' m' e' hm'))
    (h : code (.finite s m e hm) ≤ code (.finite s' m' e' hm')) : e < e' ∨ e = e' ∧ m ≤ m' := by
  rw [code_of_fits hc hf, code_of_fits hc' hf'] at h
  obtain ⟨hlt, hle, hor⟩ := hc
  obtain ⟨hlt', hle', -⟩ := hc'
  omega

/-- So they are ordered as the numbers are. -/
theorem value_le_of_code_le {s s' : Sign} {m m' : ℕ} {e e' : ℤ} {hm : 0 < m} {hm' : 0 < m'}
    (hc : Canonical (.finite s m e hm)) (hf : Fits (.finite s m e hm))
    (hc' : Canonical (.finite s' m' e' hm')) (hf' : Fits (.finite s' m' e' hm'))
    (h : code (.finite s m e hm) ≤ code (.finite s' m' e' hm')) : value m e ≤ value m' e' := by
  rcases lex_of_code_le hc hf hc' hf' h with hlt | ⟨rfl, hle⟩
  · -- a number of a greater unit has all digits, so it passes all numbers of the smaller one
    obtain ⟨hm24, he, -⟩ := hc
    obtain ⟨-, -, hor⟩ := hc'
    have hfull : 2 ^ 23 ≤ m' := hor.resolve_right (by omega)
    have hlog : m.log2 < 24 := (Nat.log2_lt hm.ne').2 hm24
    have hlog' : 23 ≤ m'.log2 := (Nat.le_log2 hm'.ne').2 hfull
    exact (value_lt m e).le.trans ((zpow_le_zpow_right₀ one_le_two (by omega)).trans (le_value hm' e'))
  · unfold value
    gcongr

/-! ### Rounding -/

/-- What has few enough digits is not shifted. -/
theorem shift_of_lt {q : ℕ} {t : ℤ} (hq : q < 2 ^ 24) (ht : -149 ≤ t) :
    shiftToTargetExponent Format.binary32 q t .exact = (⟨q, false, false⟩, t) := by
  have hlog : q.log2 < 24 := by
    -- zero has no first digit
    by_cases h : q = 0
    · rw [h, Nat.log2_zero]
      decide
    · exact (Nat.log2_lt h).2 hq
  have hunit := unit_eq q t
  have hshift : (unit q t - t).toNat = 0 := by omega
  unfold shiftToTargetExponent UnpackedFloat.shiftToExponent
  change ((⟨q, false, false⟩ : ExtendedMantissa) >>> (unit q t - t).toNat, t + (unit q t - t).toNat) = _
  rw [hshift, Int.natCast_zero, add_zero]
  rfl

/-- What has one digit too many is shifted once. -/
theorem shift_of_eq {t : ℤ} (ht : -149 ≤ t) :
    shiftToTargetExponent Format.binary32 (2 ^ 24) t .exact = (⟨2 ^ 23, false, false⟩, t + 1) := by
  have hunit := unit_eq (2 ^ 24) t
  rw [Nat.log2_two_pow] at hunit
  have hshift : (unit (2 ^ 24) t - t).toNat = 1 := by omega
  unfold shiftToTargetExponent UnpackedFloat.shiftToExponent
  change ((⟨2 ^ 24, false, false⟩ : ExtendedMantissa) >>> (unit (2 ^ 24) t - t).toNat,
    t + (unit (2 ^ 24) t - t).toNat) = _
  rw [hshift]
  rfl

section Round

variable {m : ℕ} {e : ℤ} (s : Sign) (h : e ≤ unit m e)

include h

/-- **What a number is rounded to.** -/
theorem round_cases :
    units m e = 0 ∧ roundWithAccuracy Format.binary32 s m e .exact = .zero s ∨
    (∃ hpos, units m e < 2 ^ 24 ∧
      roundWithAccuracy Format.binary32 s m e .exact = .finite s (units m e) (unit m e) hpos) ∨
    units m e = 2 ^ 24 ∧
      roundWithAccuracy Format.binary32 s m e .exact = .finite s (2 ^ 23) (unit m e + 1) (by decide) := by
  -- the units are shifted once more, as rounding up can have led to one digit too many
  have hunit : -149 ≤ unit m e := by
    rw [unit_eq]
    exact le_max_right _ _
  have hexp : (shiftToTargetExponent Format.binary32 m e .exact).2 = unit m e := by
    change e + ((unit m e - e).toNat : ℤ) = unit m e
    omega
  have hround : roundWithAccuracy Format.binary32 s m e .exact =
      if h : (shiftToTargetExponent Format.binary32 (units m e) (unit m e) .exact).1.mantissa = 0 then .zero s
      else .finite s (shiftToTargetExponent Format.binary32 (units m e) (unit m e) .exact).1.mantissa
        (shiftToTargetExponent Format.binary32 (units m e) (unit m e) .exact).2 (Nat.pos_of_ne_zero h) := by
    rw [← hexp]
    rfl
  rcases (units_le h).lt_or_eq with hlt | heq
  · -- no digit too many, so nothing is shifted
    rw [shift_of_lt hlt hunit] at hround
    by_cases hzero : units m e = 0
    · exact Or.inl ⟨hzero, hround.trans (dif_pos hzero)⟩
    · exact Or.inr (Or.inl ⟨Nat.pos_of_ne_zero hzero, hlt, hround.trans (dif_neg hzero)⟩)
  · -- the next power of two, of which the last zero is shifted out
    rw [heq, shift_of_eq hunit] at hround
    exact Or.inr (Or.inr ⟨heq, hround⟩)

/-- Rounding keeps the sign. -/
theorem signOf_round : signOf (roundWithAccuracy Format.binary32 s m e .exact) = s := by
  rcases round_cases s h with ⟨-, hr⟩ | ⟨hpos, -, hr⟩ | ⟨-, hr⟩ <;> rw [hr] <;> rfl

variable (hm : 0 < m)

include hm

/-- What a number is rounded to is in canonical form. -/
theorem canonical_round : Canonical (roundWithAccuracy Format.binary32 s m e .exact) := by
  have hunit := unit_eq m e
  have hle := le_units h hm
  rcases round_cases s h with ⟨-, hr⟩ | ⟨hpos, hlt, hr⟩ | ⟨-, hr⟩ <;> rw [hr]
  · trivial
  · exact ⟨hlt, by omega, by omega⟩
  · exact ⟨by decide, by omega, Or.inl le_rfl⟩

/-- **The code of what a number is rounded to.** -/
theorem code_round : code (roundWithAccuracy Format.binary32 s m e .exact) =
    min ((unit m e + 149).toNat * 2 ^ 23 + units m e) (255 * 2 ^ 23) := by
  have hunit := unit_eq m e
  rcases round_cases s h with ⟨hzero, hr⟩ | ⟨hpos, hlt, hr⟩ | ⟨hmany, hr⟩ <;> rw [hr]
  · -- only less than half of the smallest unit is rounded to nothing
    have hsmallest : ¬ -149 < unit m e := fun hlarge => by
      have := le_units h hm hlarge
      omega
    rw [hzero]
    change 0 = _
    omega
  · rw [code_finite]
  · -- one digit too many is carried over into the exponent
    rw [hmany, code_finite]
    exact congrArg (min · (255 * 2 ^ 23)) (by omega)

/-- **Rounding keeps the order of numbers.** -/
theorem code_round_mono (s' : Sign) {m' : ℕ} {e' : ℤ} (h' : e' ≤ unit m' e') (hm' : 0 < m')
    (hle : value m e ≤ value m' e') :
    code (roundWithAccuracy Format.binary32 s m e .exact) ≤
      code (roundWithAccuracy Format.binary32 s' m' e' .exact) := by
  have hunit := unit_eq m e
  have hmono := unit_mono hm hle
  rw [code_round s h hm, code_round s' h' hm']
  refine min_le_min_right _ ?_
  rcases hmono.lt_or_eq with hlt | heq
  · -- of a greater unit there are so many that all numbers of the smaller one are passed
    have hfew := units_le h
    have hmany := le_units h' hm' (by omega)
    omega
  · -- of one unit the greater number takes no fewer
    have hunits : units m e ≤ units m' e' := by
      refine (isNearest_units h).mono (isNearest_units h') ?_
      rw [heq]
      gcongr
    rw [heq]
    exact Nat.add_le_add_left hunits _

end Round

/-- A number in canonical form is rounded to itself. -/
theorem code_round_of_canonical (s : Sign) {m : ℕ} {e : ℤ} (hm : 0 < m) (hc : Canonical (.finite s m e hm)) :
    e = unit m e ∧ code (roundWithAccuracy Format.binary32 s m e .exact) = code (.finite s m e hm) := by
  obtain ⟨hlt, hle, hor⟩ := hc
  have hlog : m.log2 < 24 := (Nat.log2_lt hm.ne').2 hlt
  have hfull : 2 ^ 23 ≤ m → 23 ≤ m.log2 := (Nat.le_log2 hm.ne').2
  -- the number has no more digits than there is room for, so its unit is its own exponent
  have hunit := unit_eq m e
  have hself : e = unit m e := by omega
  have hunits : units m e = m := by
    rw [units, shift_of_lt hlt hle]
    rfl
  refine ⟨hself, ?_⟩
  rw [code_round s hself.le hm, ← hself, hunits, code_finite]

end FloatOrder

end CodeSearch
