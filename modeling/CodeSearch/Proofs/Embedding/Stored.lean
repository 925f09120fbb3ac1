import CodeSearch.Embedding.Score
import CodeSearch.Proofs.Embedding.Rounding

/-!
# A score has the bits of the cosine

Scores are put in order by their bits, and a score keeps less than all 32 bits of a stored number: the number, and
the bits of a quiet one where that is not defined. Nothing is lost by that. What is computed from stored numbers is
either defined or quiet (`Single.settled_result`), and either is found again in the score (`Score.bits_ofSingle`). So
the score of two vectors is written with the bits of their cosine (`Embedding.bits_similarity`).
-/

namespace CodeSearch

open Float.Model (Format UnpackedFloat)

namespace Undefined

/-- What is not defined fits into a word. -/
theorem bits_lt (u : Undefined) : u.bits < 2 ^ 32 := by
  have hlt := u.payload.isLt
  rw [bits]
  split <;> omega

/-- The bits of the exponent are all set, and so is the one that says that it is quiet. -/
theorem bits_div_mod (u : Undefined) : u.bits / 2 ^ 23 % 2 ^ 8 = 255 ∧ 2 ^ 22 ≤ u.bits % 2 ^ 23 := by
  have hlt := u.payload.isLt
  rw [bits]
  split <;> omega

/-- Its sign and its payload can be read off its bits. -/
theorem mod_bits (u : Undefined) : u.bits % 0x400000 = u.payload ∧ (0x80000000 ≤ u.bits ↔ u.negative = true) := by
  have hlt := u.payload.isLt
  rw [bits]
  cases u.negative with
  | true =>
    rw [if_pos rfl]
    exact ⟨by omega, iff_of_true (by omega) rfl⟩
  | false =>
    rw [if_neg Bool.false_ne_true]
    exact ⟨by omega, iff_of_false (by omega) Bool.false_ne_true⟩

end Undefined

namespace Single

/-! ### Storing and reading -/

/-- It is kept bit by bit. -/
theorem toNat_bits_ofUndefined (u : Undefined) : (ofUndefined u).bits.toNat = u.bits :=
  (UInt32.toNat_ofNat' ..).trans (Nat.mod_eq_of_lt u.bits_lt)

/-- How it is stored that a number is not defined is read off its bits. -/
theorem undefined_ofUndefined (u : Undefined) : (ofUndefined u).undefined = u := by
  obtain ⟨hpayload, hnegative⟩ := u.mod_bits
  rw [undefined, toNat_bits_ofUndefined]
  obtain ⟨negative, payload⟩ := u
  congr 1
  · rw [Bool.eq_iff_iff, decide_eq_true_iff, hnegative]
  · exact Fin.ext hpayload

/-- What is stored of it is not defined. -/
theorem isNaN_ofUndefined (u : Undefined) : (ofUndefined u).value.isNaN = true := by
  have hbits : (ofUndefined u).bits.toBitVec.toNat = u.bits := toNat_bits_ofUndefined u
  obtain ⟨hexponent, hmantissa⟩ := u.bits_div_mod
  -- the exponent is all ones
  have hones : @UnpackedFloat.unpackExponent Format.binary32 (ofUndefined u).bits.toBitVec = -1#8 := by
    refine BitVec.eq_of_toNat_eq ?_
    simp only [UnpackedFloat.unpackExponent, BitVec.toNat_cast, BitVec.extractLsb_toNat, hbits,
      Nat.shiftRight_eq_div_pow]
    exact hexponent
  -- the mantissa has its first bit set, so it is not what is infinite
  have hne : @UnpackedFloat.unpackMantissa Format.binary32 (ofUndefined u).bits.toBitVec ≠ 0#23 := by
    intro hzero
    have hnat := congrArg BitVec.toNat hzero
    simp only [UnpackedFloat.unpackMantissa, BitVec.toNat_cast, BitVec.extractLsb_toNat, hbits,
      Nat.shiftRight_eq_div_pow] at hnat
    change u.bits / 2 ^ 0 % 2 ^ 23 = 0 at hnat
    omega
  have hunpack : UnpackedFloat.unpack Format.binary32 (ofUndefined u).bits.toBitVec = .notANumber := by
    unfold UnpackedFloat.unpack
    exact (if_pos hones).trans (if_neg hne)
  change (Float32.Model.pack (UnpackedFloat.unpack Format.binary32 (ofUndefined u).bits.toBitVec)).isNaN = true
  rw [hunpack]
  rfl

/-- A number that is unpacked and packed again is the same. -/
theorem pack_unpack (m : Float32.Model) : Float32.Model.pack m.unpack = m := by
  obtain ⟨hcanonical, -, hbits⟩ := FloatOrder.unpack_spec m.valid
  have hpack : UnpackedFloat.pack Format.binary32 m.unpack = m.toBits.toBitVec :=
    BitVec.eq_of_toNat_eq ((FloatOrder.toNat_pack hcanonical).trans hbits.symm)
  cases m
  rw [Float32.Model.pack, Float32.Model.mk.injEq]
  exact congrArg UInt32.ofBitVec hpack

/-- What is stored of a number is that number. -/
theorem value_ofNumber (v : Float32) : (ofNumber v).value = v :=
  congrArg Float32.ofModel (pack_unpack v.toModel)

/-! ### Results -/

/-- Whether what is stored is a number that is defined, or quiet. -/
inductive Settled : Single → Prop
  | number {v : Float32} (h : v.isNaN = false) : Settled (ofNumber v)
  | undefined (u : Undefined) : Settled (ofUndefined u)

/-- **What is computed is settled.** -/
theorem settled_result (x y : Single) (v : Float32) : Settled (result x y v) := by
  unfold result
  split
  · exact .undefined _
  · split
    · exact .undefined _
    · split
      · exact .undefined _
      · next hv => exact .number (Bool.eq_false_iff.2 hv)

end Single

/-- **A score forgets nothing of what was computed.** -/
theorem Score.bits_ofSingle {x : Single} (h : x.Settled) : (ofSingle x).bits = x.bits.toNat := by
  rw [bits, ofSingle]
  cases h with
  | number hv =>
    rw [Single.value_ofNumber, if_neg (Bool.eq_false_iff.1 hv)]
    rfl
  | undefined u =>
    rw [if_pos (Single.isNaN_ofUndefined u), if_pos (Single.isNaN_ofUndefined u), Single.undefined_ofUndefined,
      Single.toNat_bits_ofUndefined]

namespace Embedding

/-- A cosine is defined, or comes from an operation that is not. -/
theorem settled_cosine (a b : Embedding) : (cosine a b).Settled := by
  unfold cosine
  split
  · exact .number (by decide +kernel)
  · exact Single.settled_result _ _ _

/-- **The score of two vectors has the bits of their cosine.** -/
theorem bits_similarity (a b : Embedding) : (similarity a b).bits = (cosine a b).bits.toNat :=
  Score.bits_ofSingle (settled_cosine a b)

end Embedding

end CodeSearch
