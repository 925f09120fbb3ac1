/-!
# Blank characters and trimming

A character is *blank* if it has the property `White_Space`. Trimming removes blanks from the ends of
a text and nothing else:

* `trimStart_cons_of_not_blank`, `trim_eq_self` — a text without blanks at its ends is left as it is;
* `isBlankLine_iff` — a line is blank when all its characters are.
-/

namespace CodeSearch

/-- The characters with the property `White_Space`: 25 code points. -/
def isBlank (c : Char) : Bool :=
  let n := c.toNat
  (0x09 ≤ n && n ≤ 0x0D) || n == 0x20 || n == 0x85 || n == 0xA0 || n == 0x1680 ||
    (0x2000 ≤ n && n ≤ 0x200A) || n == 0x2028 || n == 0x2029 || n == 0x202F || n == 0x205F ||
    n == 0x3000

/-- The four blanks that a plain tool would think of are blank here too. -/
theorem isBlank_of_isWhitespace {c : Char} (h : c.isWhitespace = true) : isBlank c = true := by
  simp only [Char.isWhitespace, Bool.or_eq_true, decide_eq_true_eq] at h
  rcases h with ((h | h) | h) | h <;> subst h <;> decide

namespace Chars

/-- Drops the blanks at the start. -/
def trimStart (s : List Char) : List Char := s.dropWhile isBlank

/-- Drops the characters of a class at the end. -/
def dropEndWhile (p : Char → Bool) (s : List Char) : List Char :=
  (s.reverse.dropWhile p).reverse

/-- Drops the blanks at the end. -/
def trimEnd (s : List Char) : List Char := dropEndWhile isBlank s

/-- Drops the blanks at both ends. -/
def trim (s : List Char) : List Char := trimEnd (trimStart s)

@[simp] theorem trimStart_nil : trimStart [] = [] := rfl

@[simp] theorem dropEndWhile_nil (p : Char → Bool) : dropEndWhile p [] = [] := rfl

@[simp] theorem trim_nil : trim [] = [] := rfl

/-- A text that starts with no blank is left as it is. -/
theorem trimStart_cons_of_not_blank {c : Char} {s : List Char} (h : isBlank c = false) :
    trimStart (c :: s) = c :: s :=
  List.dropWhile_cons_of_neg (by simp [h])

/-- A text that neither starts nor ends with a blank is left as it is. -/
theorem trim_eq_self {s : List Char} (hhead : ∀ c ∈ s.head?, isBlank c = false)
    (hlast : ∀ c ∈ s.getLast?, isBlank c = false) : trim s = s := by
  have hkept : ∀ t : List Char, (∀ c ∈ t.head?, isBlank c = false) → t.dropWhile isBlank = t := by
    intro t ht
    cases t with
    | nil => rfl
    | cons c t => exact trimStart_cons_of_not_blank (ht c rfl)
  have hend : s.reverse.dropWhile isBlank = s.reverse := hkept s.reverse (by rwa [List.head?_reverse])
  rw [trim, trimStart, hkept s hhead, trimEnd, dropEndWhile, hend, List.reverse_reverse]

/-- A text without blanks is left as it is. -/
theorem trim_of_not_blank {s : List Char} (h : ∀ c ∈ s, isBlank c = false) : trim s = s := by
  apply trim_eq_self
  · exact fun c hc => h c (List.mem_of_mem_head? hc)
  · exact fun c hc => h c (List.mem_of_mem_getLast? hc)

/-- A line of blanks only. -/
def isBlankLine (s : List Char) : Bool := s.all isBlank

theorem isBlankLine_iff {s : List Char} : isBlankLine s = true ↔ ∀ c ∈ s, isBlank c = true :=
  List.all_eq_true

end Chars

namespace Text

/-- The text without the blanks at its ends. -/
def trim (s : String) : String := String.ofList (Chars.trim s.toList)

end Text

end CodeSearch
