import CodeSearch.Text.Bytes

/-!
# Reading UTF-8

Bytes are read as text one by one (`decodeLossyFrom`), and what is no UTF-8 among them becomes U+FFFD. This
module says what reading does to texts that were written, and what it does to any bytes:

* `decodeLossy_encode` — the UTF-8 form of a text is read as that text;
* `mem_bytes_of_mem_decodeLossy`, `mem_decodeLossy_of_mem_bytes` — one of the first 128 characters is read from
  the byte of that number, wherever it stands, and from nothing else;
* `encode_decodeLossy` — so a text of these characters alone is read from no bytes but its UTF-8 form.

The latter rest on what a first byte promises (`Midway`): whatever bytes may follow it, the character that
they make is none of the first 128 ones.
-/

namespace CodeSearch

namespace Text

/-- The UTF-8 form of a text. -/
def encode (s : String) : List UInt8 := s.toList.flatMap String.utf8EncodeChar

variable {n least greatest following bits : Nat} {b : UInt8} {r bytes : List UInt8} {c : Char}

/-! ### One byte read -/

theorem decodeLossyFrom_ascii (h : b.toNat < 0x80) :
    decodeLossyFrom none (b :: r) = Char.ofNat b.toNat :: decodeLossyFrom none r := if_pos h

theorem decodeLossyFrom_lead (h : leadByte? b.toNat = some (least, greatest, following)) :
    decodeLossyFrom none (b :: r) =
      decodeLossyFrom (some (leadBits following b.toNat, least, greatest, following)) r := by
  have hn : ¬b.toNat < 0x80 := by
    intro hn
    unfold leadByte? at h
    repeat' split at h
    all_goals first | omega | cases h
  rw [decodeLossyFrom, if_neg hn, h]

theorem decodeLossyFrom_last (h : least ≤ b.toNat ∧ b.toNat ≤ greatest) :
    decodeLossyFrom (some (bits, least, greatest, 1)) (b :: r) =
      Char.ofNat (bits * 64 + b.toNat % 64) :: decodeLossyFrom none r := by
  rw [decodeLossyFrom]
  dsimp only
  rw [if_pos h, if_pos (Nat.le_refl 1)]

theorem decodeLossyFrom_more (hf : 1 < following) (h : least ≤ b.toNat ∧ b.toNat ≤ greatest) :
    decodeLossyFrom (some (bits, least, greatest, following)) (b :: r) =
      decodeLossyFrom (some (bits * 64 + b.toNat % 64, 0x80, 0xBF, following - 1)) r := by
  rw [decodeLossyFrom]
  dsimp only
  rw [if_pos h, if_neg (Nat.not_le_of_lt hf)]

theorem toNat_ofNat_byte (h : n < 256) : (UInt8.ofNat n).toNat = n := by
  rw [UInt8.toNat_ofNat', Nat.mod_eq_of_lt h]

/-- A byte inside a character. -/
theorem tail_byte (v : Nat) : (0x80 ≤ (UInt8.ofNat (v % 64 + 128)).toNat ∧
    (UInt8.ofNat (v % 64 + 128)).toNat ≤ 0xBF) ∧ (UInt8.ofNat (v % 64 + 128)).toNat % 64 = v % 64 := by
  rw [toNat_ofNat_byte (by omega)]
  omega

/-- The first of three bytes, as far as the second one tells it. -/
theorem leadByte?_three {a b : Nat} (ha : a < 16) (hb : 0x80 ≤ b ∧ b ≤ 0xBF) (hlow : a = 0 → 0xA0 ≤ b)
    (hhigh : a = 13 → b ≤ 0x9F) : ∃ least greatest, leadByte? (a + 224) = some (least, greatest, 2) ∧
      least ≤ b ∧ b ≤ greatest := by
  have htwo : ¬(0xC2 ≤ a + 224 ∧ a + 224 ≤ 0xDF) := by omega
  by_cases h0 : a = 0
  · subst h0
    exact ⟨0xA0, 0xBF, rfl, hlow rfl, hb.2⟩
  · by_cases h13 : a = 13
    · subst h13
      exact ⟨0x80, 0x9F, rfl, hb.1, hhigh rfl⟩
    · refine ⟨0x80, 0xBF, ?_, hb⟩
      rw [leadByte?, if_neg htwo, if_neg (by omega), if_neg (by omega), if_pos (by omega)]

/-- The first of four bytes, as far as the second one tells it. -/
theorem leadByte?_four {a b : Nat} (ha : a ≤ 4) (hb : 0x80 ≤ b ∧ b ≤ 0xBF) (hlow : a = 0 → 0x90 ≤ b)
    (hhigh : a = 4 → b ≤ 0x8F) : ∃ least greatest, leadByte? (a + 240) = some (least, greatest, 3) ∧
      least ≤ b ∧ b ≤ greatest := by
  match a, ha with
  | 0, _ => exact ⟨0x90, 0xBF, rfl, hlow rfl, hb.2⟩
  | 1, _ | 2, _ | 3, _ => exact ⟨0x80, 0xBF, rfl, hb⟩
  | 4, _ => exact ⟨0x80, 0x8F, rfl, hb.1, hhigh rfl⟩

/-- **The bytes of a character are read as this character**, whatever comes after them. -/
theorem decodeLossyFrom_utf8EncodeChar (c : Char) (r : List UInt8) :
    decodeLossyFrom none (String.utf8EncodeChar c ++ r) = c :: decodeLossyFrom none r := by
  have hc : Char.ofNat c.toNat = c := Char.ofNat_toNat c
  have hvalid : c.toNat < 0xD800 ∨ 0xDFFF < c.toNat ∧ c.toNat < 0x110000 := c.valid
  have hv : c.val.toNat = c.toNat := rfl
  rw [String.utf8EncodeChar, hv]
  generalize c.toNat = v at hc hvalid
  obtain ⟨hin, hmod⟩ := tail_byte v
  obtain ⟨hin₁, hmod₁⟩ := tail_byte (v / 64)
  obtain ⟨hin₂, hmod₂⟩ := tail_byte (v / 4096)
  split
  · -- one byte
    have hb : (UInt8.ofNat v).toNat = v := toNat_ofNat_byte (by omega)
    rw [List.singleton_append, decodeLossyFrom_ascii (by omega), hb, hc]
  · split
    · -- two bytes
      have hb : (UInt8.ofNat (v / 64 % 32 + 192)).toNat = v / 64 % 32 + 192 := toNat_ofNat_byte (by omega)
      have hlead : leadByte? (v / 64 % 32 + 192) = some (0x80, 0xBF, 1) := if_pos (by omega)
      have hbits : leadBits 1 (v / 64 % 32 + 192) * 64 + v % 64 = v := by
        simp only [leadBits, Nat.reduceSub, Nat.reducePow, Nat.pow_eq]
        omega
      rw [List.cons_append, List.singleton_append, decodeLossyFrom_lead (hb.symm ▸ hlead),
        decodeLossyFrom_last hin, hb, hmod, hbits, hc]
    · split
      · -- three bytes; the second one tells what the first one may be
        have hb : (UInt8.ofNat (v / 4096 % 16 + 224)).toNat = v / 4096 % 16 + 224 :=
          toNat_ofNat_byte (by omega)
        obtain ⟨least, greatest, hlead, hin₁⟩ := leadByte?_three (a := v / 4096 % 16) (by omega) hin₁
          (by omega) (by omega)
        have hbits : (leadBits 2 (v / 4096 % 16 + 224) * 64 + v / 64 % 64) * 64 + v % 64 = v := by
          simp only [leadBits, Nat.reduceSub, Nat.reducePow, Nat.pow_eq]
          omega
        rw [List.cons_append, List.cons_append, List.singleton_append,
          decodeLossyFrom_lead (hb.symm ▸ hlead), decodeLossyFrom_more (by decide) hin₁,
          decodeLossyFrom_last hin, hb, hmod₁, hmod, hbits, hc]
      · -- four bytes, likewise
        have hb : (UInt8.ofNat (v / 262144 % 8 + 240)).toNat = v / 262144 % 8 + 240 :=
          toNat_ofNat_byte (by omega)
        obtain ⟨least, greatest, hlead, hin₂⟩ := leadByte?_four (a := v / 262144 % 8) (by omega) hin₂
          (by omega) (by omega)
        have hbits : ((leadBits 3 (v / 262144 % 8 + 240) * 64 + v / 4096 % 64) * 64 + v / 64 % 64) * 64 +
            v % 64 = v := by
          simp only [leadBits, Nat.reduceSub, Nat.reducePow, Nat.pow_eq]
          omega
        rw [List.cons_append, List.cons_append, List.cons_append, List.singleton_append,
          decodeLossyFrom_lead (hb.symm ▸ hlead), decodeLossyFrom_more (by decide) hin₂,
          decodeLossyFrom_more (by decide) hin₁, decodeLossyFrom_last hin, hb, hmod₂, hmod₁, hmod, hbits, hc]

/-! ### What a first byte promises -/

/-- Whether the bits read so far, with those of any next byte that is possible, make a number in a range. -/
def Spans (bits least greatest from_ below : Nat) : Prop :=
  0x80 ≤ least ∧ greatest ≤ 0xBF ∧ from_ + 0x80 ≤ bits * 64 + least ∧ bits * 64 + greatest < below + 0x80

/-- Whether the middle of a character can only lead to a character beyond the first 128 ones, by the number
of bytes that it lacks. -/
def Midway (bits least greatest : Nat) : Nat → Prop
  | 1 => Spans bits least greatest 0x80 0xD800 ∨ Spans bits least greatest 0xE000 0x110000
  | 2 => Spans bits least greatest 0x20 0x360 ∨ Spans bits least greatest 0x380 0x4400
  | 3 => Spans bits least greatest 0x10 0x110
  | _ => False

theorem Spans.value {from_ below : Nat} (h : Spans bits least greatest from_ below)
    (hn : least ≤ n ∧ n ≤ greatest) :
    from_ ≤ bits * 64 + n % 64 ∧ bits * 64 + n % 64 < below := by
  unfold Spans at h
  omega

theorem spans_of_bits {from_ below : Nat} (h : from_ ≤ bits * 64 ∧ bits * 64 + 64 ≤ below) :
    Spans bits 0x80 0xBF from_ below := by
  unfold Spans
  omega

theorem midway_of_leadByte? (h : leadByte? n = some (least, greatest, following)) :
    Midway (leadBits following n) least greatest following := by
  unfold leadByte? at h
  repeat' split at h
  all_goals cases h
  all_goals
    simp only [Midway, Spans, leadBits, Nat.reduceSub, Nat.pow_eq, Nat.reducePow]
    omega

theorem toNat_ofNat_of_valid (h : n.isValidChar) : (Char.ofNat n).toNat = n := by
  rw [Char.ofNat, dif_pos h]
  rfl

theorem Midway.more (h : Midway bits least greatest following) (hf : 1 < following)
    (hn : least ≤ n ∧ n ≤ greatest) : Midway (bits * 64 + n % 64) 0x80 0xBF (following - 1) := by
  match following, hf with
  | 2, _ =>
    rcases h with h | h
    · have := h.value hn
      exact Or.inl (spans_of_bits (by omega))
    · have := h.value hn
      exact Or.inr (spans_of_bits (by omega))
  | 3, _ =>
    have := h.value hn
    exact Or.inr (spans_of_bits (by omega))

theorem Midway.last (h : Midway bits least greatest following) (hf : following ≤ 1)
    (hn : least ≤ n ∧ n ≤ greatest) : 0x80 ≤ (Char.ofNat (bits * 64 + n % 64)).toNat := by
  match following, hf with
  | 1, _ =>
    rcases h with h | h
    · have hbits := h.value hn
      rw [toNat_ofNat_of_valid (Or.inl hbits.2)]
      exact hbits.1
    · have hbits := h.value hn
      rw [toNat_ofNat_of_valid (Or.inr ⟨by omega, hbits.2⟩)]
      omega

/-- Whether a state is between two characters or in the middle of one. -/
def Ready : Option (Nat × Nat × Nat × Nat) → Prop
  | none => True
  | some (bits, least, greatest, following) => Midway bits least greatest following

theorem toNat_ofNat_ascii (h : n < 0x80) : (Char.ofNat n).toNat = n :=
  toNat_ofNat_of_valid (Or.inl (Nat.lt_trans h (by decide)))

theorem not_ascii_replacement : ¬replacement.toNat < 0x80 := by decide

/-- One of the first 128 characters in a text that was read stands for a byte of that number. -/
theorem exists_byte_of_mem_decodeLossyFrom {st : Option (Nat × Nat × Nat × Nat)}
    (hst : Ready st) (hc : c ∈ decodeLossyFrom st bytes) (hascii : c.toNat < 0x80) :
    ∃ b ∈ bytes, b.toNat = c.toNat := by
  have hreplacement : c ≠ replacement := fun h => not_ascii_replacement (h ▸ hascii)
  -- what a byte adds, and what is read behind it
  have hbehind : ∀ {b : UInt8} {r : List UInt8}, (∃ b' ∈ r, b'.toNat = c.toNat) →
      ∃ b' ∈ b :: r, b'.toNat = c.toNat := fun ⟨b', hb', h⟩ => ⟨b', List.mem_cons_of_mem _ hb', h⟩
  have hbyte : ∀ {b : UInt8} {r : List UInt8} {cs : List Char}, b.toNat < 0x80 →
      c ∈ Char.ofNat b.toNat :: cs → (c ∈ cs → ∃ b' ∈ r, b'.toNat = c.toNat) →
        ∃ b' ∈ b :: r, b'.toNat = c.toNat := by
    intro b r cs hb hc ih
    rcases List.mem_cons.1 hc with rfl | hc
    · exact ⟨b, List.mem_cons_self, (toNat_ofNat_ascii hb).symm⟩
    · exact hbehind (ih hc)
  fun_induction decodeLossyFrom st bytes with
  | case1 => cases hc
  | case2 => exact absurd (List.mem_singleton.1 hc) hreplacement
  | case3 b r n hn ih => exact hbyte hn hc (ih trivial)
  | case4 b r n hn hlead ih => exact hbehind (ih trivial ((List.mem_cons.1 hc).resolve_left hreplacement))
  | case5 b r n hn least greatest following hlead ih => exact hbehind (ih (midway_of_leadByte? hlead) hc)
  | case6 bits least greatest following b r n hn v hf ih =>
    rcases List.mem_cons.1 hc with rfl | hc
    · exact absurd hascii (Nat.not_lt.2 (Midway.last hst hf hn))
    · exact hbehind (ih trivial hc)
  | case7 bits least greatest following b r n hn v hf ih =>
    exact hbehind (ih (Midway.more hst (Nat.not_le.1 hf) hn) hc)
  | case8 bits least greatest following b r n hn hb ih =>
    exact hbyte hb ((List.mem_cons.1 hc).resolve_left hreplacement) (ih trivial)
  | case9 bits least greatest following b r n hn hb hlead ih =>
    have hc := (List.mem_cons.1 hc).resolve_left hreplacement
    exact hbehind (ih trivial ((List.mem_cons.1 hc).resolve_left hreplacement))
  | case10 bits least greatest following b r n hn hb least' greatest' following' hlead ih =>
    exact hbehind (ih (midway_of_leadByte? hlead) ((List.mem_cons.1 hc).resolve_left hreplacement))

theorem Midway.le_least (h : Midway bits least greatest following) : 0x80 ≤ least := by
  match following, h with
  | 1, h => exact h.elim And.left And.left
  | 2, h => exact h.elim And.left And.left
  | 3, h => exact h.1

/-- A byte below 128 is read as the character of its number, wherever it stands. -/
theorem ofNat_mem_decodeLossyFrom {st : Option (Nat × Nat × Nat × Nat)} (hst : Ready st) (hb : b ∈ bytes)
    (hascii : b.toNat < 0x80) : Char.ofNat b.toNat ∈ decodeLossyFrom st bytes := by
  -- it is not one of those that start or continue a longer character
  have hrest : ∀ {b' : UInt8} {r : List UInt8}, ¬b'.toNat < 0x80 → b ∈ b' :: r → b ∈ r :=
    fun hb' hb => (List.mem_cons.1 hb).resolve_left fun h => hb' (h ▸ hascii)
  have hinside : ∀ {bits least greatest following : Nat} {b' : UInt8},
      Midway bits least greatest following → least ≤ b'.toNat ∧ b'.toNat ≤ greatest → ¬b'.toNat < 0x80 :=
    fun h hb' => Nat.not_lt.2 (Nat.le_trans h.le_least hb'.1)
  fun_induction decodeLossyFrom st bytes with
  | case1 | case2 => cases hb
  | case3 b' r n hn ih =>
    rcases List.mem_cons.1 hb with rfl | hb
    · exact List.mem_cons_self
    · exact List.mem_cons_of_mem _ (ih trivial hb)
  | case4 b' r n hn hlead ih => exact List.mem_cons_of_mem _ (ih trivial (hrest hn hb))
  | case5 b' r n hn least greatest following hlead ih => exact ih (midway_of_leadByte? hlead) (hrest hn hb)
  | case6 bits least greatest following b' r n hn v hf ih =>
    exact List.mem_cons_of_mem _ (ih trivial (hrest (hinside hst hn) hb))
  | case7 bits least greatest following b' r n hn v hf ih =>
    exact ih (Midway.more hst (Nat.not_le.1 hf) hn) (hrest (hinside hst hn) hb)
  | case8 bits least greatest following b' r n hn hb' ih =>
    rcases List.mem_cons.1 hb with rfl | hb
    · exact List.mem_cons_of_mem _ List.mem_cons_self
    · exact List.mem_cons_of_mem _ (List.mem_cons_of_mem _ (ih trivial hb))
  | case9 bits least greatest following b' r n hn hb' hlead ih =>
    exact List.mem_cons_of_mem _ (List.mem_cons_of_mem _ (ih trivial (hrest hb' hb)))
  | case10 bits least greatest following b' r n hn hb' least' greatest' following' hlead ih =>
    exact List.mem_cons_of_mem _ (ih (midway_of_leadByte? hlead) (hrest hb' hb))

/-- What is read from the middle of a character does not start with one of the first 128 characters. -/
theorem head_decodeLossyFrom {st : Nat × Nat × Nat × Nat} (hst : Ready (some st)) :
    ∃ c cs, decodeLossyFrom (some st) bytes = c :: cs ∧ ¬c.toNat < 0x80 := by
  obtain ⟨bits, least, greatest, following⟩ := st
  induction bytes generalizing bits least greatest following with
  | nil => exact ⟨replacement, [], rfl, not_ascii_replacement⟩
  | cons b r ih =>
    rw [decodeLossyFrom]
    dsimp only
    split
    · next hn =>
      split
      · next hf => exact ⟨_, _, rfl, Nat.not_lt.2 (Midway.last hst hf hn)⟩
      · next hf => exact ih _ _ _ _ (Midway.more hst (Nat.not_le.1 hf) hn)
    · split
      · exact ⟨_, _, rfl, not_ascii_replacement⟩
      · split <;> exact ⟨_, _, rfl, not_ascii_replacement⟩

/-- Where all characters that are read are among the first 128 ones, the bytes are their numbers. -/
theorem map_decodeLossyFrom (h : ∀ c ∈ decodeLossyFrom none bytes, c.toNat < 0x80) :
    (decodeLossyFrom none bytes).map (fun c => UInt8.ofNat c.toNat) = bytes := by
  induction bytes with
  | nil => rfl
  | cons b r ih =>
    by_cases hb : b.toNat < 0x80
    · rw [decodeLossyFrom_ascii hb] at h ⊢
      rw [List.map_cons, ih fun c hc => h c (List.mem_cons_of_mem _ hc), toNat_ofNat_ascii hb,
        UInt8.ofNat_toNat]
    · -- such a byte starts with a character beyond the first 128
      have hhead : ∃ c cs, decodeLossyFrom none (b :: r) = c :: cs ∧ ¬c.toNat < 0x80 := by
        cases hlead : leadByte? b.toNat with
        | none =>
          refine ⟨replacement, decodeLossyFrom none r, ?_, not_ascii_replacement⟩
          rw [decodeLossyFrom, if_neg hb, hlead]
        | some l =>
          obtain ⟨least, greatest, following⟩ := l
          rw [decodeLossyFrom_lead hlead]
          exact head_decodeLossyFrom (midway_of_leadByte? hlead)
      obtain ⟨c, cs, hcs, hc⟩ := hhead
      exact absurd (h c (hcs ▸ List.mem_cons_self)) hc

/-! ### Texts -/

/-- **The UTF-8 form of a text is read as that text.** -/
theorem decodeLossy_encode (s : String) : decodeLossy (encode s) = s := by
  have hread : ∀ cs : List Char, decodeLossyFrom none (cs.flatMap String.utf8EncodeChar) = cs := by
    intro cs
    induction cs with
    | nil => rfl
    | cons c cs ih => rw [List.flatMap_cons, decodeLossyFrom_utf8EncodeChar, ih]
  rw [decodeLossy, encode, hread, String.ofList_toList]

/-- **One of the first 128 characters stands for the byte of its number.** -/
theorem mem_bytes_of_mem_decodeLossy (hc : c ∈ (decodeLossy bytes).toList) (hascii : c.toNat < 0x80) :
    UInt8.ofNat c.toNat ∈ bytes := by
  rw [decodeLossy, String.toList_ofList] at hc
  have hready : Ready none := trivial
  obtain ⟨b, hb, hn⟩ := exists_byte_of_mem_decodeLossyFrom hready hc hascii
  rwa [← hn, UInt8.ofNat_toNat]

/-- The first 128 characters are written as one byte each. -/
theorem flatMap_utf8EncodeChar {cs : List Char} (h : ∀ c ∈ cs, c.toNat < 0x80) :
    cs.flatMap String.utf8EncodeChar = cs.map fun c => UInt8.ofNat c.toNat := by
  induction cs with
  | nil => rfl
  | cons c cs ih =>
    have hone : String.utf8EncodeChar c = [UInt8.ofNat c.toNat] :=
      if_pos (Nat.le_of_lt_succ (h c List.mem_cons_self))
    rw [List.flatMap_cons, hone, ih fun d hd => h d (List.mem_cons_of_mem _ hd)]
    rfl

/-- **A byte below 128 is read as the character of its number.** -/
theorem mem_decodeLossy_of_mem_bytes (hb : b ∈ bytes) (hascii : b.toNat < 0x80) :
    Char.ofNat b.toNat ∈ (decodeLossy bytes).toList := by
  have hready : Ready none := trivial
  rw [decodeLossy, String.toList_ofList]
  exact ofNat_mem_decodeLossyFrom hready hb hascii

/-- **A text of the first 128 characters is read from no other bytes than its UTF-8 form.** -/
theorem encode_decodeLossy (h : ∀ c ∈ (decodeLossy bytes).toList, c.toNat < 0x80) :
    encode (decodeLossy bytes) = bytes := by
  rw [decodeLossy, String.toList_ofList] at h
  rw [encode, decodeLossy, String.toList_ofList, flatMap_utf8EncodeChar h, map_decodeLossyFrom h]

end Text

end CodeSearch
