import CodeSearch.Json.Reader
import CodeSearch.Text.Search

/-!
# Scalars of TOML

Keys, texts, numbers, truth values and dates. Every reader takes what it reads from the front of a text
and gives the rest back; it gives nothing if the text does not start as it should.

A date is read as a record of one field that no setting has, since no setting is a date.
-/

namespace CodeSearch.Toml

/-- The blanks within a line. -/
def isSpace (c : Char) : Bool := c = ' ' || c = '\t'

/-- The text after its blanks. -/
def skipSpace (s : List Char) : List Char := s.dropWhile isSpace

/-- The text after the end of a line at its start. -/
def newline? : List Char → Option (List Char)
  | '\n' :: r => some r
  | '\r' :: '\n' :: r => some r
  | _ => none

/-- Whether a character may stand in a comment and in a text between single quotes. -/
def isPlain (c : Char) : Bool := c = '\t' || (0x20 ≤ c.toNat && c.toNat ≠ 0x7F)

/-- The text after a comment at its start, if there is one. -/
def skipComment : List Char → List Char
  | '#' :: r => r.dropWhile isPlain
  | s => s

/-- The text after blanks, comments and ends of lines. -/
def skipLines : (fuel : Nat) → List Char → List Char
  | 0, s => s
  | fuel + 1, s =>
    let s := skipComment (skipSpace s)
    match newline? s with
    | some r => skipLines fuel r
    | none => s

/-! ### Texts -/

/-- The number that a count of digits in base 16 stands for. -/
def hexNumber? : (count : Nat) → (value : Nat) → List Char → Option (Nat × List Char)
  | 0, n, s => some (n, s)
  | count + 1, n, c :: r => (Json.hexDigit? c).bind fun d => hexNumber? count (n * 16 + d) r
  | _ + 1, _, [] => none

/-- The character with a code point, if there is one. -/
def scalarValue? (n : Nat) : Option Char := if n.isValidChar then some (Char.ofNat n) else none

/-- The character that an escape stands for, after its backslash. -/
def escape? : List Char → Option (Char × List Char)
  | 'b' :: r => some ('\x08', r)
  | 't' :: r => some ('\t', r)
  | 'n' :: r => some ('\n', r)
  | 'f' :: r => some ('\x0c', r)
  | 'r' :: r => some ('\r', r)
  | 'e' :: r => some ('\x1b', r)
  | '\x22' :: r => some ('\x22', r)
  | '\\' :: r => some ('\\', r)
  | 'x' :: r => (hexNumber? 2 0 r).bind fun (n, r) => (scalarValue? n).map (·, r)
  | 'u' :: r => (hexNumber? 4 0 r).bind fun (n, r) => (scalarValue? n).map (·, r)
  | 'U' :: r => (hexNumber? 8 0 r).bind fun (n, r) => (scalarValue? n).map (·, r)
  | _ => none

/-- A text of one line between double quotes, after the first of them. -/
def basicText? : (fuel : Nat) → List Char → Option (List Char × List Char)
  | 0, _ => none
  | _, [] => none
  | fuel + 1, c :: r =>
    if c = '\x22' then some ([], r)
    else if c = '\\' then
      (escape? r).bind fun (d, r) => (basicText? fuel r).map fun (s, r) => (d :: s, r)
    else if isPlain c then (basicText? fuel r).map fun (s, r) => (c :: s, r)
    else none

/-- A text of one line between single quotes, after the first of them. -/
def literalText? (s : List Char) : Option (List Char × List Char) :=
  let body := s.takeWhile fun c => isPlain c && c ≠ '\x27'
  match s.drop body.length with
  | '\x27' :: r => some (body, r)
  | _ => none

/-- The quotes in front of a text that may end it: three of them end it, and up to two before them are
part of it. -/
def closing? (quote : Char) (s : List Char) : Option (List Char × List Char) :=
  let n := (s.takeWhile (· = quote)).length
  if n < 3 then none
  else
    let taken := min n 5
    some (List.replicate (taken - 3) quote, s.drop taken)

/-- The text after an end of a line at its start, or the text itself. -/
def dropNewline (s : List Char) : List Char := (newline? s).getD s

/-- A text of several lines between double quotes, after the first three of them. A backslash at the end
of a line takes out that end and all blanks after it. -/
def basicLines? : (fuel : Nat) → List Char → Option (List Char × List Char)
  | 0, _ => none
  | _, [] => none
  | fuel + 1, c :: r =>
    match closing? '\x22' (c :: r) with
    | some found => some found
    | none =>
      if c = '\\' then
        match newline? (skipSpace r) with
        | some r => basicLines? fuel (r.dropWhile fun c => isSpace c || c = '\n' || c = '\r')
        | none => (escape? r).bind fun (d, r) => (basicLines? fuel r).map fun (s, r) => (d :: s, r)
      else
        match newline? (c :: r) with
        | some rest => (basicLines? fuel rest).map fun (s, rest) => ('\n' :: s, rest)
        | none =>
          if isPlain c then (basicLines? fuel r).map fun (s, r) => (c :: s, r) else none

/-- A text of several lines between single quotes, after the first three of them. -/
def literalLines? : (fuel : Nat) → List Char → Option (List Char × List Char)
  | 0, _ => none
  | _, [] => none
  | fuel + 1, c :: r =>
    match closing? '\x27' (c :: r) with
    | some found => some found
    | none =>
      match newline? (c :: r) with
      | some rest => (literalLines? fuel rest).map fun (s, rest) => ('\n' :: s, rest)
      | none => if isPlain c then (literalLines? fuel r).map fun (s, r) => (c :: s, r) else none

/-- A text in any of the four kinds of quotes. -/
def text? : List Char → Option (List Char × List Char)
  | '\x22' :: '\x22' :: '\x22' :: r => basicLines? (r.length + 1) (dropNewline r)
  | '\x27' :: '\x27' :: '\x27' :: r => literalLines? (r.length + 1) (dropNewline r)
  | '\x22' :: r => basicText? (r.length + 1) r
  | '\x27' :: r => literalText? r
  | _ => none

/-! ### Keys -/

/-- Whether a character may stand in a key without quotes. -/
def isKeyChar (c : Char) : Bool := c.isAlphanum || c = '-' || c = '_'

/-- One part of a key. -/
def keyPart? : List Char → Option (String × List Char)
  | '\x22' :: r => (basicText? (r.length + 1) r).map fun (k, r) => (String.ofList k, r)
  | '\x27' :: r => (literalText? r).map fun (k, r) => (String.ofList k, r)
  | s =>
    let k := s.takeWhile isKeyChar
    if k.isEmpty then none else some (String.ofList k, s.drop k.length)

/-- A key: parts with dots between them. -/
def key? : (fuel : Nat) → List Char → Option (List String × List Char)
  | 0, _ => none
  | fuel + 1, s =>
    (keyPart? (skipSpace s)).bind fun (k, r) =>
      match skipSpace r with
      | '.' :: r => (key? fuel r).map fun (ks, r) => (k :: ks, r)
      | r => some ([k], r)

/-! ### Numbers and dates -/

/-- The digits of a number, which may have single underscores between them. -/
def digits? (isDigit : Char → Bool) : List Char → Option (List Char)
  | [] => none
  | [c] => if isDigit c then some [c] else none
  | c :: '_' :: r => if isDigit c then (digits? isDigit r).map (c :: ·) else none
  | c :: r => if isDigit c then (digits? isDigit r).map (c :: ·) else none

/-- The digits of a whole number in base 10, which does not start with a needless zero. -/
def wholeDigits? (s : List Char) : Option (List Char) :=
  (digits? Char.isDigit s).bind fun ds =>
    if ds.head? = some '0' ∧ 1 < ds.length then none else some ds

/-- The number that digits stand for in a base up to 16. -/
def numberIn (base : Nat) (ds : List Char) : Nat :=
  ds.foldl (fun n c => n * base + (Json.hexDigit? c).getD 0) 0

/-- Whether a character is a digit in a base up to 16. -/
def isDigitIn (base : Nat) (c : Char) : Bool := (Json.hexDigit? c).any (· < base)

/-- A whole number within the range of 64 bits. -/
def whole? (negative : Bool) (n : Nat) : Option Json :=
  if negative then if n ≤ 0x8000000000000000 then some (.int (-n)) else none
  else if n ≤ Json.greatestCount then some (.int n) else none

/-- The nearest number to `digits · 10 ^ e`, if it is not too large. -/
def nearest? (negative : Bool) (digits : List Char) (e : Int) : Option Json :=
  let n := Nat.ofDigitChars 10 digits 0
  let size : Int := digits.length + e
  if n = 0 ∨ size < -400 then some (.float (if negative then -0.0 else 0.0))
  else if 400 < size ∧ 400 < e then none
  else
    let x := if 0 ≤ e then Float.ofScientific (n * Nat.pow 10 e.toNat) false 0
      else Float.ofScientific n true (-e).toNat
    if x.isInf then none else some (.float (if negative then -x else x))

/-- A number with a fraction or an exponent, after its sign. -/
def fractional? (negative : Bool) (s : List Char) : Option Json :=
  let mantissa := s.takeWhile fun c => c ≠ 'e' && c ≠ 'E'
  let exponent := s.drop (mantissa.length + 1)
  let scaled := mantissa.length < s.length
  let whole := mantissa.takeWhile (· ≠ '.')
  let pointed := whole.length < mantissa.length
  let expNegative := exponent.head? = some '-'
  let expDigits := if expNegative ∨ exponent.head? = some '+' then exponent.drop 1 else exponent
  if !scaled ∧ !pointed then none
  else do
    let ws ← wholeDigits? whole
    let fs ← if pointed then digits? Char.isDigit (mantissa.drop (whole.length + 1)) else some []
    let es ← if scaled then digits? Char.isDigit expDigits else some []
    let n : Int := Nat.ofDigitChars 10 es 0
    nearest? negative (ws ++ fs) ((if expNegative then -n else n) - fs.length)

/-- The number of two digits. -/
def twoDigits? : List Char → Option (Nat × List Char)
  | a :: b :: r =>
    if a.isDigit ∧ b.isDigit then some (Nat.ofDigitChars 10 [a, b] 0, r) else none
  | _ => none

/-- The text after the time of a day. -/
def time? (s : List Char) : Option (List Char) := do
  let (h, r) ← twoDigits? s
  let r ← Chars.after? [':'] r
  let (m, r) ← twoDigits? r
  if 23 < h ∨ 59 < m then none
  else
    match r with
    | ':' :: r =>
      let (sec, r) ← twoDigits? r
      if 60 < sec then none
      else
        match r with
        | '.' :: f =>
          let fs := f.takeWhile Char.isDigit
          if fs.isEmpty then none else some (f.drop fs.length)
        | r => some r
    | r => some r

/-- The text after a distance from universal time, if there is one. -/
def offset? : List Char → Option (List Char)
  | [] => some []
  | 'Z' :: r => some r
  | 'z' :: r => some r
  | c :: r =>
    if c = '+' ∨ c = '-' then do
      let (h, r) ← twoDigits? r
      let r ← Chars.after? [':'] r
      let (m, r) ← twoDigits? r
      if 23 < h ∨ 59 < m then none else some r
    else none

/-- How many days a month has. -/
def daysIn (year month : Nat) : Nat :=
  if month = 2 then if year % 4 = 0 ∧ (year % 100 ≠ 0 ∨ year % 400 = 0) then 29 else 28
  else if month = 4 ∨ month = 6 ∨ month = 9 ∨ month = 11 then 30
  else 31

/-- The text after a date. -/
def date? (s : List Char) : Option (List Char) := do
  let (century, r) ← twoDigits? s
  let (year, r) ← twoDigits? r
  let r ← Chars.after? ['-'] r
  let (month, r) ← twoDigits? r
  let r ← Chars.after? ['-'] r
  let (day, r) ← twoDigits? r
  if month = 0 ∨ 12 < month ∨ day = 0 ∨ daysIn (century * 100 + year) month < day then none
  else some r

/-- Whether a word is a date, a time, or both. -/
def isMoment (s : List Char) : Bool :=
  match date? s with
  | some [] => true
  | some (c :: r) => (c = 'T' || c = 't' || c = ' ') && ((time? r).bind offset?) == some []
  | none => time? s == some []

/-- The value of a word that is no text. -/
def word? (s : List Char) : Option Json :=
  if s = "true".toList then some (.bool true)
  else if s = "false".toList then some (.bool false)
  else if isMoment s then some (.obj [("moment", .str (String.ofList s))])
  else
    match s with
    | '0' :: 'x' :: r => (digits? (isDigitIn 16) r).bind fun ds => whole? false (numberIn 16 ds)
    | '0' :: 'o' :: r => (digits? (isDigitIn 8) r).bind fun ds => whole? false (numberIn 8 ds)
    | '0' :: 'b' :: r => (digits? (isDigitIn 2) r).bind fun ds => whole? false (numberIn 2 ds)
    | _ =>
      let negative := s.head? = some '-'
      let r := if negative ∨ s.head? = some '+' then s.drop 1 else s
      if r = "inf".toList then some (.float (if negative then -(1.0 / 0.0) else 1.0 / 0.0))
      else if r = "nan".toList then some (.float (0.0 / 0.0))
      else
        match wholeDigits? r with
        | some ds => whole? negative (Nat.ofDigitChars 10 ds 0)
        | none => fractional? negative r

/-- Whether a character may stand in a word. -/
def isWordChar (c : Char) : Bool :=
  c.isAlphanum || c = '+' || c = '-' || c = '_' || c = '.' || c = ':'

/-- A word in front of a text. One blank may stand between a date and a time. -/
def takeWord (s : List Char) : List Char × List Char :=
  let w := s.takeWhile isWordChar
  let r := s.drop w.length
  let day := r.drop 1
  if date? w = some [] ∧ r.head? = some ' ' ∧ (twoDigits? day).isSome then
    let t := day.takeWhile isWordChar
    (w ++ ' ' :: t, day.drop t.length)
  else (w, r)

end CodeSearch.Toml
