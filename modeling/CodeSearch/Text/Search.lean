/-!
# Looking for text in text

Whether a text starts or ends with another one, what stands after it, and where it occurs first.

* `after?_eq_some_iff` — what stands after a start is what completes it;
* `cutAt?_append` — a text cut at an occurrence falls into what is before it, it, and what is after it.
-/

namespace CodeSearch.Chars

/-- Whether one text starts with another. -/
def startsWith (s start : List Char) : Bool := start.isPrefixOf s

/-- Whether one text ends with another. -/
def endsWith (s ending : List Char) : Bool := ending.isSuffixOf s

/-- What stands after the start of a text, if it starts so. -/
def after? : (start s : List Char) → Option (List Char)
  | [], s => some s
  | _ :: _, [] => none
  | a :: start, c :: s => if a = c then after? start s else none

theorem after?_eq_some_iff {start s r : List Char} : after? start s = some r ↔ s = start ++ r := by
  induction start generalizing s with
  | nil => simp [after?, eq_comm]
  | cons a start ih =>
    cases s with
    | nil => simp [after?]
    | cons c s =>
      by_cases h : a = c
      · subst h
        simp [after?, ih]
      · simp [after?, h, Ne.symm h]

/-- A text without a given start, and the text itself if it does not start so. -/
def dropStart (start s : List Char) : List Char := (after? start s).getD s

/-- What stands before and after the first occurrence of a text. -/
def cutAt? (sought : List Char) : List Char → Option (List Char × List Char)
  | [] => (after? sought []).map ([], ·)
  | c :: s =>
    match after? sought (c :: s) with
    | some r => some ([], r)
    | none => (cutAt? sought s).map fun (u, r) => (c :: u, r)

theorem cutAt?_append {sought s u r : List Char} (h : cutAt? sought s = some (u, r)) :
    s = u ++ sought ++ r := by
  induction s generalizing u with
  | nil =>
    obtain ⟨r', hr', he⟩ := Option.map_eq_some_iff.1 h
    cases he
    simpa using after?_eq_some_iff.1 hr'
  | cons c s ih =>
    rw [cutAt?] at h
    split at h
    · rename_i r' hr'
      cases h
      simpa using after?_eq_some_iff.1 hr'
    · obtain ⟨⟨u', r'⟩, hur, he⟩ := Option.map_eq_some_iff.1 h
      cases he
      rw [ih hur]
      simp

/-- Drops the characters of a class at both ends. -/
def stripBoth (p : Char → Bool) (s : List Char) : List Char :=
  ((s.dropWhile p).reverse.dropWhile p).reverse

end CodeSearch.Chars
