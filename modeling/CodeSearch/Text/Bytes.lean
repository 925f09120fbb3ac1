/-!
# Texts counted in bytes

Sizes, cuts and limits are counted in the bytes of the UTF-8 form of a text, and a cut is possible only
between two characters.

* `take?_append_drop?` — a cut at a byte offset loses nothing;
* `byteSize_truncate_le` — a truncated text keeps to its limit;
* `decodeLossy` reads bytes that need not be UTF-8: every longest stretch that begins a character and
  is not one becomes U+FFFD.
-/

namespace CodeSearch

namespace Chars

/-- The length of the UTF-8 form. -/
def byteSize : List Char → Nat
  | [] => 0
  | c :: r => c.utf8Size + byteSize r

@[simp] theorem byteSize_append (s t : List Char) : byteSize (s ++ t) = byteSize s + byteSize t := by
  induction s with
  | nil => simp [byteSize]
  | cons c r ih => simp [byteSize, ih, Nat.add_assoc]

/-- The characters that fill exactly the first `n` bytes, if a character ends there. -/
def take? : Nat → List Char → Option (List Char)
  | 0, _ => some []
  | _ + 1, [] => none
  | n + 1, c :: r => if c.utf8Size ≤ n + 1 then (take? (n + 1 - c.utf8Size) r).map (c :: ·) else none
termination_by _ s => s.length

/-- The characters after the first `n` bytes, if a character ends there. -/
def drop? : Nat → List Char → Option (List Char)
  | 0, s => some s
  | _ + 1, [] => none
  | n + 1, c :: r => if c.utf8Size ≤ n + 1 then drop? (n + 1 - c.utf8Size) r else none
termination_by _ s => s.length

/-- The characters from byte `start` to before byte `stop`; none if the offsets are not in order, lie
outside the text or fall inside a character. -/
def slice? (start stop : Nat) (s : List Char) : Option (List Char) :=
  if start ≤ stop then (drop? start s).bind (take? (stop - start)) else none

/-- The longest start of the text that has at most `limit` bytes. -/
def truncate : Nat → List Char → List Char
  | _, [] => []
  | limit, c :: r =>
    if c.utf8Size ≤ limit then c :: truncate (limit - c.utf8Size) r else []

theorem byteSize_truncate_le (limit : Nat) (s : List Char) : byteSize (truncate limit s) ≤ limit := by
  induction s generalizing limit with
  | nil => simp [truncate, byteSize]
  | cons c r ih =>
    simp only [truncate]
    split
    · have := ih (limit - c.utf8Size)
      simp only [byteSize]
      omega
    · simp [byteSize]

/-- **A cut loses nothing.** -/
theorem take?_append_drop? {n : Nat} {s a b : List Char} (ha : take? n s = some a)
    (hb : drop? n s = some b) : a ++ b = s := by
  induction s generalizing n a with
  | nil =>
    cases n with
    | zero =>
      simp only [take?, Option.some.injEq] at ha
      simp only [drop?, Option.some.injEq] at hb
      rw [← ha, ← hb]
      rfl
    | succ n => simp [take?] at ha
  | cons c r ih =>
    cases n with
    | zero =>
      simp only [take?, Option.some.injEq] at ha
      simp only [drop?, Option.some.injEq] at hb
      rw [← ha, ← hb]
      rfl
    | succ n =>
      rw [take?] at ha
      rw [drop?] at hb
      split at ha
      · rename_i hc
        rw [if_pos hc] at hb
        obtain ⟨a', ha', rfl⟩ := Option.map_eq_some_iff.1 ha
        simp [ih ha' hb]
      · simp at ha

end Chars

namespace Text

/-- The length of the UTF-8 form of a text. -/
def byteSize (s : String) : Nat := s.utf8ByteSize

/-- The text between two byte offsets, and the empty text if there is none. -/
def slice (start stop : Nat) (s : String) : String :=
  String.ofList ((Chars.slice? start stop s.toList).getD [])

/-- The longest start of a text that has at most `limit` bytes. -/
def truncate (limit : Nat) (s : String) : String := String.ofList (Chars.truncate limit s.toList)

/-- The replacement character, which stands for bytes that are no text. -/
def replacement : Char := Char.ofNat 0xFFFD

/-- The least and the greatest second byte that may follow a first byte, and how many bytes follow it
in all; none for a byte that begins no character of several bytes. -/
def leadByte? (b : Nat) : Option (Nat × Nat × Nat) :=
  if 0xC2 ≤ b ∧ b ≤ 0xDF then some (0x80, 0xBF, 1)
  else if b = 0xE0 then some (0xA0, 0xBF, 2)
  else if b = 0xED then some (0x80, 0x9F, 2)
  else if 0xE1 ≤ b ∧ b ≤ 0xEF then some (0x80, 0xBF, 2)
  else if b = 0xF0 then some (0x90, 0xBF, 3)
  else if 0xF1 ≤ b ∧ b ≤ 0xF3 then some (0x80, 0xBF, 3)
  else if b = 0xF4 then some (0x80, 0x8F, 3)
  else none

/-- The number made of the bits that a first byte with `following` bytes after it carries. -/
def leadBits (following b : Nat) : Nat := b % Nat.pow 2 (6 - following)

/-- Reads bytes as text. The state between two bytes is `none`, or the bits read so far of a character
with the range that its next byte must lie in and the number of bytes it still lacks. -/
def decodeLossyFrom : Option (Nat × Nat × Nat × Nat) → List UInt8 → List Char
  | none, [] => []
  | some _, [] => [replacement]
  | none, b :: r =>
    let n := b.toNat
    if n < 0x80 then Char.ofNat n :: decodeLossyFrom none r
    else match leadByte? n with
      | none => replacement :: decodeLossyFrom none r
      | some (least, greatest, following) =>
        decodeLossyFrom (some (leadBits following n, least, greatest, following)) r
  | some (bits, least, greatest, following), b :: r =>
    let n := b.toNat
    if least ≤ n ∧ n ≤ greatest then
      let bits := bits * 64 + n % 64
      if following ≤ 1 then Char.ofNat bits :: decodeLossyFrom none r
      else decodeLossyFrom (some (bits, 0x80, 0xBF, following - 1)) r
    else if n < 0x80 then replacement :: Char.ofNat n :: decodeLossyFrom none r
    else match leadByte? n with
      | none => replacement :: replacement :: decodeLossyFrom none r
      | some (least, greatest, following) =>
        replacement :: decodeLossyFrom (some (leadBits following n, least, greatest, following)) r

/-- The text that bytes stand for; what is no UTF-8 becomes U+FFFD, one for every longest stretch that
begins a character. -/
def decodeLossy (bytes : List UInt8) : String := String.ofList (decodeLossyFrom none bytes)

end Text

end CodeSearch
