import CodeSearch.Glob.Translation

/-!
# Translations are read as they are meant

A glob is translated into a text, and the text is read again. This module follows the parts of the text, each of
which has to be read as the item it stands for although the reader looks ahead of it: a repetition would be read
into an item if what comes behind it started with `*` or `?`.

* `Writes text i` — a text is read as the item `i` wherever no repetition comes behind it;
* `Writes.literal` — this holds of every character with the backslash that it may need;
* `Reads text is` — the text of an expression is read as the items `is` up to its end;
* `Writes.cons` — one item more at the front.
-/

namespace CodeSearch.Glob

/-! ### The items of globs -/

namespace Item

/-- A character that stands for itself. -/
def literal (c : Char) : Item := .piece (.one (.single c))

/-- One character of a name. -/
def nameChar : Item := .piece (.one (.allBut '/'))

/-- Any part of a name. -/
def namePart : Item := .piece (.many (.allBut '/'))

/-- Any text without newlines. -/
def anything : Item := .piece (.many (.allBut '\n'))

/-- Nothing, or a text without newlines up to a slash. -/
def directories : Item := .optional [.many (.allBut '\n'), .one (.single '/')]

end Item

/-! ### Reading one item -/

/-- Whether a text does not go on with the sign of a repetition. -/
def Unrepeated (s : List Char) : Prop := s.head? ≠ some '*' ∧ s.head? ≠ some '?'

/-- A text that is read as an item, whatever comes behind it that is no repetition. -/
structure Writes (text : List Char) (i : Item) : Prop where
  /-- It starts neither like a repetition nor like the end of an expression. -/
  start : ∃ c r, text = c :: r ∧ c ≠ '*' ∧ c ≠ '?' ∧ c ≠ '$'
  /-- It is read off the front of any text. -/
  read : ∀ r, Unrepeated r → readItem? (text ++ r) = some (i, r)

section ReadingItems

variable {set : CharSet} {c : Char} {r s : List Char}

/-- Without the sign of a repetition a set is taken once. -/
theorem readRepeated_one (h : Unrepeated r) : readRepeated set r = (.one set, r) := by
  unfold readRepeated
  split
  · exact absurd rfl h.1
  · exact absurd rfl h.1
  · rfl

/-- Behind the sign for any number a set is repeated. -/
theorem readRepeated_many (h : Unrepeated r) : readRepeated set ('*' :: r) = (.many set, r) := by
  cases r with
  | nil => rfl
  | cons d r =>
    have hd : d ≠ '?' := fun hd => h.2 (congrArg some hd)
    simp [readRepeated, hd]

theorem ne_of_not_isMeta {d : Char} (hc : ¬isMeta c = true) (hd : isMeta d = true) : c ≠ d := by
  rintro rfl
  exact hc hd

/-- A character without a meaning needs no backslash. -/
theorem readSet?_of_not_isMeta (hc : ¬isMeta c = true) : readSet? (c :: r) = some (.single c, r) := by
  -- a character without a meaning is plain
  have hplain : isPlain c = true := by
    rw [isPlain, Bool.eq_false_iff.2 hc]
    rfl
  unfold readSet?
  split
  · contradiction
  · next h => exact absurd (List.cons.inj h).1 (ne_of_not_isMeta hc rfl)
  · next h => exact absurd (List.cons.inj h).1 (ne_of_not_isMeta hc rfl)
  · next h => exact absurd (List.cons.inj h).1 (ne_of_not_isMeta hc rfl)
  · next h =>
    obtain ⟨rfl, rfl⟩ := List.cons.inj h
    exact if_pos hplain

/-- What does not start a group is read as a piece. -/
theorem readItem?_of_readSet? (h : readSet? s = some (set, r)) (hs : s.head? ≠ some '(') :
    readItem? s = some (.piece (readRepeated set r).1, (readRepeated set r).2) := by
  unfold readItem?
  split
  · exact absurd rfl hs
  · rw [readPiece?, h]
    rfl

namespace Writes

theorem directories : Writes ['(', '?', ':', '.', '*', '?', '/', ')', '?'] .directories where
  start := ⟨'(', _, rfl, by decide⟩
  read _ _ := rfl

/-- The way down that is put before a rule is read as directories. -/
theorem anyDirectories : Writes ['(', '?', ':', '.', '*', '/', ')', '?'] .directories where
  start := ⟨'(', _, rfl, by decide⟩
  read _ _ := rfl

theorem anything : Writes ['.', '*'] .anything where
  start := ⟨'.', _, rfl, by decide⟩
  read r hr := by
    have hset : readSet? ('.' :: '*' :: r) = some (.allBut '\n', '*' :: r) := rfl
    show readItem? ('.' :: '*' :: r) = _
    rw [readItem?_of_readSet? hset (by simp), readRepeated_many hr]
    rfl

theorem namePart : Writes ['[', '^', '/', ']', '*'] .namePart where
  start := ⟨'[', _, rfl, by decide⟩
  read r hr := by
    have hset : readSet? ('[' :: '^' :: '/' :: ']' :: '*' :: r) = some (.allBut '/', '*' :: r) := rfl
    show readItem? ('[' :: '^' :: '/' :: ']' :: '*' :: r) = _
    rw [readItem?_of_readSet? hset (by simp), readRepeated_many hr]
    rfl

theorem nameChar : Writes ['[', '^', '/', ']'] .nameChar where
  start := ⟨'[', _, rfl, by decide⟩
  read r hr := by
    have hset : readSet? ('[' :: '^' :: '/' :: ']' :: r) = some (.allBut '/', r) := rfl
    show readItem? ('[' :: '^' :: '/' :: ']' :: r) = _
    rw [readItem?_of_readSet? hset (by simp), readRepeated_one hr]
    rfl

/-- Every character is read as itself: those that mean something have a backslash. -/
theorem literal (c : Char) : Writes (escape c) (.literal c) := by
  by_cases hc : isMeta c = true
  · -- the character has a meaning, so it is behind a backslash
    have htext : escape c = ['\\', c] := if_pos hc
    rw [htext]
    refine ⟨⟨'\\', _, rfl, by decide⟩, fun r hr => ?_⟩
    have hset : readSet? ('\\' :: c :: r) = some (.single c, r) := if_pos hc
    show readItem? ('\\' :: c :: r) = _
    rw [readItem?_of_readSet? hset (by simp), readRepeated_one hr]
    rfl
  · -- the character has none
    have htext : escape c = [c] := if_neg hc
    have hne : ∀ d, isMeta d = true → c ≠ d := fun d hd => ne_of_not_isMeta hc hd
    rw [htext]
    refine ⟨⟨c, _, rfl, hne _ rfl, hne _ rfl, hne _ rfl⟩, fun r hr => ?_⟩
    show readItem? (c :: r) = _
    rw [readItem?_of_readSet? (readSet?_of_not_isMeta hc) (fun h => hne '(' rfl (Option.some.inj h)),
      readRepeated_one hr]
    rfl

end Writes

end ReadingItems

/-! ### Reading an expression -/

/-- A text that is read as the items of an expression up to its end. -/
structure Reads (text : List Char) (is : List Item) : Prop where
  /-- It does not start with a repetition. -/
  start : Unrepeated (text ++ ['$'])
  /-- It is read if there is a unit of fuel for each of its characters. -/
  read : ∀ fuel, text.length ≤ fuel → readItems? fuel (text ++ ['$']) = some is

namespace Reads

variable {text : List Char} {is : List Item}

theorem nil : Reads [] [] where
  start := ⟨by decide, by decide⟩
  read fuel _ := by cases fuel <;> rfl

/-- A whole expression. -/
theorem readExpression? (h : Reads text is) : readExpression? ('^' :: text ++ ['$']) = some is := by
  show readItems? (text ++ ['$']).length (text ++ ['$']) = some is
  refine h.read _ ?_
  rw [List.length_append]
  exact Nat.le_add_right _ _

end Reads

/-- An expression that does not end goes on with an item. -/
theorem readItems?_succ {s : List Char} (h : s.head? ≠ some '$') (fuel : Nat) :
    readItems? (fuel + 1) s = (readItem? s).bind fun p => (readItems? fuel p.2).map (p.1 :: ·) := by
  have hs : s = ['$'] → False := by
    rintro rfl
    exact h rfl
  rw [readItems?]
  exact hs

/-- **One item more at the front.** What comes behind it is an expression, so that it does not start with a
repetition. -/
theorem Writes.cons {t text : List Char} {i : Item} {is : List Item} (hi : Writes t i) (h : Reads text is) :
    Reads (t ++ text) (i :: is) := by
  have hread := hi.read (text ++ ['$']) h.start
  obtain ⟨c, r, rfl, hstar, hquestion, hend⟩ := hi.start
  rw [← List.append_assoc] at hread
  refine ⟨⟨fun he => hstar (Option.some.inj he), fun he => hquestion (Option.some.inj he)⟩, fun fuel hfuel => ?_⟩
  cases fuel with
  | zero => exact absurd hfuel (Nat.not_succ_le_zero _)
  | succ fuel =>
    -- the text behind the item takes the rest of the fuel
    have hlater : text.length ≤ fuel := by
      rw [List.length_append, List.length_cons] at hfuel
      omega
    -- the item does not end the expression
    have hhead : (c :: r ++ text ++ ['$']).head? ≠ some '$' := fun he => hend (Option.some.inj he)
    rw [readItems?_succ hhead, hread, Option.bind_some, h.read fuel hlater]
    rfl

end CodeSearch.Glob
