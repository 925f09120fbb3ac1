import CodeSearch.Text.Lines
import CodeSearch.Text.Utf8

/-!
# Raw texts

The file system gives names and paths as bytes. Mostly these are the UTF-8 form of a text, but they need
not be. Bytes are what tells names apart; where a name is shown, compared with a rule or made part of an
id, it is read as text, and what is no UTF-8 in it becomes U+FFFD. So two raw texts may look the same.

* `join_pieces` — nothing but the slashes is lost by cutting at them.
-/

namespace CodeSearch

/-- A text as the file system has it. -/
structure RawText where
  /-- The bytes, mostly those of the UTF-8 form of a text. -/
  bytes : List UInt8
  deriving DecidableEq, Inhabited, Repr

/-- The bytes of something that is shown as a text. They need not be the UTF-8 form of the text. -/
class Spelling (shown : String) where
  /-- The bytes. -/
  bytes : List UInt8
  /-- What is shown of them. -/
  reads : Text.decodeLossy bytes = shown

/-- Unless something else is said, a text is spelled in UTF-8. -/
instance (s : String) : Spelling s := ⟨Text.encode s, Text.decodeLossy_encode s⟩

namespace RawText

/-- The UTF-8 form of a text. -/
@[coe] def ofText (s : String) : RawText := ⟨Text.encode s⟩

instance : Coe String RawText := ⟨ofText⟩

instance : Append RawText := ⟨fun a b => ⟨a.bytes ++ b.bytes⟩⟩

/-- What is shown of a raw text. -/
def text (r : RawText) : String := Text.decodeLossy r.bytes

/-- The text that the bytes are the UTF-8 form of, if they are. -/
def text? (r : RawText) : Option String := if ofText r.text = r then some r.text else none

/-- The slash, which stands between names. -/
def slash : UInt8 := 47

/-- The stretches between the slashes. -/
def pieces (r : RawText) : List RawText := (Chars.pieces slash r.bytes).map mk

/-- Raw texts put together with slashes between them. -/
def join (rs : List RawText) : RawText := ⟨Chars.joinPieces slash (rs.map bytes)⟩

/-- **Nothing is lost at the slashes.** -/
theorem join_pieces (r : RawText) : join r.pieces = r := by
  rw [join, pieces, List.map_map]
  exact congrArg mk ((congrArg _ (List.map_id _)).trans (Chars.joinPieces_pieces _ _))

end RawText

end CodeSearch
