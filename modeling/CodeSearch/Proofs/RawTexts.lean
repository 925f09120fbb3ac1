import CodeSearch.Proofs.Texts
import CodeSearch.Text.Raw

/-!
# What is shown of raw texts

A text is shown as it is (`RawText.text_ofText`), so texts are told apart by what is shown of them, and cutting
and joining them does not depend on whether it is done to their bytes or to their characters
(`RawText.pieces_ofText`, `RawText.join_ofText`).

Other raw texts look the same as some text without being it. But a replacement character never hides a slash
(`RawText.slash_mem_text_iff`), and it never makes a name out of what is none: what is shown in the first 128
characters alone is the text of these (`RawText.eq_ofText_of_text_eq`).
-/

namespace CodeSearch

namespace RawText

variable {r : RawText} {rs : List RawText} {s t : String}

/-! ### Texts -/

/-- A text is shown as it is. -/
@[simp] theorem text_ofText (s : String) : (ofText s).text = s := Text.decodeLossy_encode s

/-- Texts are different raw texts. -/
theorem ofText_inj : ofText s = ofText t ↔ s = t := by
  refine ⟨fun h => ?_, congrArg ofText⟩
  rw [← text_ofText s, h, text_ofText]

@[simp] theorem map_text_map_ofText (ss : List String) : (ss.map ofText).map text = ss := by
  rw [List.map_map]
  exact (List.map_congr_left fun s _ => text_ofText s).trans (List.map_id ss)

/-- Texts are put together by their bytes as by their characters. -/
theorem ofText_append (s t : String) : ofText (s ++ t) = ofText s ++ ofText t := by
  change mk _ = mk _
  rw [Text.encode, String.toList_append, List.flatMap_append]
  rfl

/-- There is a slash among the bytes of a character only if it is the slash. -/
theorem eq_slash_of_mem_utf8EncodeChar {c : Char} (h : slash ∈ String.utf8EncodeChar c) : c = '/' := by
  have hv : c.val.toNat = c.toNat := rfl
  rw [String.utf8EncodeChar, hv] at h
  -- but for the first 128 characters no byte is that small
  have hbig : ∀ n, 0x80 ≤ n → n < 0x100 → UInt8.ofNat n ≠ slash := by
    intro n hlow hhigh he
    have hn := congrArg UInt8.toNat he
    rw [Text.toNat_ofNat_byte hhigh] at hn
    have hslash : slash.toNat = 47 := rfl
    omega
  have htail : ∀ n, UInt8.ofNat (n % 64 + 128) ≠ slash := fun n => hbig _ (by omega) (by omega)
  split at h
  · next hone =>
    -- one byte: the character is its byte
    have hn := congrArg UInt8.toNat (List.mem_singleton.1 h)
    rw [Text.toNat_ofNat_byte (by omega)] at hn
    rw [← Char.ofNat_toNat c, ← hn]
    rfl
  · split at h
    · -- several bytes: neither the first one nor the others are that small
      simp only [List.mem_cons, List.not_mem_nil, or_false] at h
      rcases h with h | h
      · exact absurd h.symm (hbig _ (by omega) (by omega))
      · exact absurd h.symm (htail _)
    · split at h
      · simp only [List.mem_cons, List.not_mem_nil, or_false] at h
        rcases h with h | h | h
        · exact absurd h.symm (hbig _ (by omega) (by omega))
        · exact absurd h.symm (htail _)
        · exact absurd h.symm (htail _)
      · simp only [List.mem_cons, List.not_mem_nil, or_false] at h
        rcases h with h | h | h | h
        · exact absurd h.symm (hbig _ (by omega) (by omega))
        · exact absurd h.symm (htail _)
        · exact absurd h.symm (htail _)
        · exact absurd h.symm (htail _)

/-- A text has a slash in it if its bytes have. -/
theorem slash_mem_ofText_iff : slash ∈ (ofText s).bytes ↔ '/' ∈ s.toList := by
  change slash ∈ s.toList.flatMap String.utf8EncodeChar ↔ _
  rw [List.mem_flatMap]
  constructor
  · rintro ⟨c, hc, h⟩
    exact eq_slash_of_mem_utf8EncodeChar h ▸ hc
  · intro h
    exact ⟨'/', h, by decide⟩

/-! ### Cutting and joining -/

theorem append_assoc (r r' r'' : RawText) : r ++ r' ++ r'' = r ++ (r' ++ r'') :=
  congrArg mk (List.append_assoc r.bytes r'.bytes r''.bytes)

/-- A first raw text is joined to the others by a slash. -/
theorem join_cons {n : RawText} (h : rs ≠ []) : join (n :: rs) = n ++ "/" ++ join rs := by
  cases rs with
  | nil => exact absurd rfl h
  | cons m rs => exact congrArg mk (List.append_assoc n.bytes [slash] _).symm

/-- There is always a piece. -/
theorem pieces_ne_nil (r : RawText) : r.pieces ≠ [] := by
  rw [pieces, ne_eq, List.map_eq_nil_iff]
  exact Chars.pieces_ne_nil slash r.bytes

/-- No piece has a slash in it. -/
theorem not_mem_of_mem_pieces {p : RawText} (h : p ∈ r.pieces) : slash ∉ p.bytes := by
  obtain ⟨bytes, hbytes, rfl⟩ := List.mem_map.1 h
  exact Chars.not_mem_of_mem_pieces hbytes

/-- A raw text without slashes is one piece. -/
theorem pieces_of_not_mem (h : slash ∉ r.bytes) : r.pieces = [r] := by
  rw [pieces, Chars.pieces_of_not_mem h, List.map_singleton]

/-- A slash cuts a raw text. -/
theorem pieces_append_slash (r r' : RawText) : (r ++ "/" ++ r').pieces = r.pieces ++ r'.pieces := by
  have hbytes : (r ++ "/" ++ r').bytes = r.bytes ++ slash :: r'.bytes :=
    List.append_assoc r.bytes [slash] r'.bytes
  rw [pieces, hbytes, Chars.pieces_append_cons, List.map_append]
  rfl

/-- **Raw texts without slashes that are joined are found again by cutting.** -/
theorem pieces_join (hne : rs ≠ []) (h : ∀ r ∈ rs, slash ∉ r.bytes) : (join rs).pieces = rs := by
  have hbytes : ∀ p ∈ rs.map bytes, slash ∉ p := by
    intro p hp
    obtain ⟨r, hr, rfl⟩ := List.mem_map.1 hp
    exact h r hr
  rw [pieces, join, Chars.pieces_joinPieces (mt List.map_eq_nil_iff.1 hne) hbytes, List.map_map]
  exact List.map_id rs

/-- Texts are joined by their bytes as by their characters. -/
theorem join_ofText (names : List String) : join (names.map ofText) = ofText (Text.join "/" names) := by
  induction names with
  | nil => rfl
  | cons n names ih =>
    cases names with
    | nil => rfl
    | cons m names =>
      have hne : (m :: names).map ofText ≠ [] := List.cons_ne_nil _ _
      rw [List.map_cons, join_cons hne, ih, Text.join_cons (List.cons_ne_nil m names), ofText_append, ofText_append]

/-- **A text is cut by its bytes as by its characters.** -/
theorem pieces_ofText (s : String) : (ofText s).pieces = (Text.pieces '/' s).map ofText := by
  have hne : (Text.pieces '/' s).map ofText ≠ [] := mt List.map_eq_nil_iff.1 (Text.pieces_ne_nil '/' s)
  have hslash : ∀ r ∈ (Text.pieces '/' s).map ofText, slash ∉ r.bytes := by
    intro r hr
    obtain ⟨p, hp, rfl⟩ := List.mem_map.1 hr
    exact mt slash_mem_ofText_iff.1 (Text.not_mem_of_mem_pieces hp)
  have hcut := pieces_join hne hslash
  rwa [join_ofText, Text.join_pieces] at hcut

/-- Raw names with slashes between them, as they are shown. -/
def place (names : List RawText) : String := Text.join "/" (names.map text)

@[simp] theorem place_map_ofText (names : List String) : place (names.map ofText) = Text.join "/" names :=
  congrArg (Text.join "/") (map_text_map_ofText names)

/-- A single name is shown as it is. -/
@[simp] theorem place_singleton (n : RawText) : place [n] = n.text := rfl

/-! ### What other raw texts look like -/

/-- **A slash is shown where there is one, and nowhere else.** -/
theorem slash_mem_text_iff : '/' ∈ r.text.toList ↔ slash ∈ r.bytes := by
  refine ⟨fun h => Text.mem_bytes_of_mem_decodeLossy h (by decide), fun h => ?_⟩
  have hmem := Text.mem_decodeLossy_of_mem_bytes h (by decide)
  exact hmem

/-- **What is shown in the first 128 characters is the text of these.** -/
theorem eq_ofText_of_text_eq (hs : ∀ c ∈ s.toList, c.toNat < 0x80) (h : r.text = s) : r = ofText s := by
  subst h
  exact congrArg mk (Text.encode_decodeLossy hs).symm

end RawText

end CodeSearch
