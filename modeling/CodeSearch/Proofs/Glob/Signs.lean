import CodeSearch.Proofs.Glob.Classes
import CodeSearch.Proofs.Glob.Language

/-!
# Rules, sign by sign

A glob is a list of signs: ways down, repeated and single characters of names, plain characters and bracket
classes. It is translated sign by sign, and its translation is read sign by sign as well, so that the expression of
a rule can be told from the signs alone, without going through its text:

* `translateSigns_eq` — the translation of a glob is that of its signs, one after the other;
* `areWritten_signs` — nothing of a glob is lost when its signs are read;
* `readItems?_signs` — signs are read as one item each, and not at all if there is a class among them that cannot be
  read;
* `Rule.isMatch_iff_spells`, `Rule.isMatch_iff_literal` — what a rule matches, in the one case and in the other.

Nothing is left out here: globs may have classes, and texts may have newlines.
-/

namespace CodeSearch.Glob

/-! ### Signs -/

/-- A sign of a glob. -/
inductive Sign where
  /-- `**/`: nothing, or any directories. -/
  | directories
  /-- `**`: any text. -/
  | anything
  /-- `*`: any part of a name. -/
  | namePart
  /-- `?`: one character of a name. -/
  | nameChar
  /-- A character that stands for itself. -/
  | literal (c : Char)
  /-- A bracket class, by the text between its brackets. -/
  | bracket (text : List Char)
  deriving DecidableEq, Repr

/-- Reads the signs of a glob, with fuel as for its translation. -/
def readSigns : (fuel : Nat) → List Char → List Sign
  | _, [] => []
  | 0, _ :: _ => []
  | fuel + 1, '*' :: '*' :: '/' :: r => .directories :: readSigns fuel r
  | fuel + 1, '*' :: '*' :: r => .anything :: readSigns fuel r
  | fuel + 1, '*' :: r => .namePart :: readSigns fuel r
  | fuel + 1, '?' :: r => .nameChar :: readSigns fuel r
  | fuel + 1, '\\' :: c :: r => .literal c :: readSigns fuel r
  | fuel + 1, '[' :: r =>
    match classBody? r with
    | some (text, rest) => .bracket text :: readSigns fuel rest
    | none => .literal '[' :: readSigns fuel r
  | fuel + 1, c :: r => .literal c :: readSigns fuel r

/-- The signs of a glob. -/
def signs (glob : List Char) : List Sign := readSigns glob.length glob

/-- What a sign is translated into. -/
def Sign.text : Sign → List Char
  | .directories => ['(', '?', ':', '.', '*', '?', '/', ')', '?']
  | .anything => ['.', '*']
  | .namePart => ['[', '^', '/', ']', '*']
  | .nameChar => ['[', '^', '/', ']']
  | .literal c => escape c
  | .bracket text => translateClass text

/-- A glob is translated sign by sign. -/
theorem translateSigns_eq (fuel : Nat) (glob : List Char) :
    translateSigns fuel glob = (readSigns fuel glob).flatMap Sign.text := by
  fun_induction translateSigns fuel glob with
  | case1 => rw [readSigns, List.flatMap_nil]
  | case2 => rfl
  | case3 fuel r ih => simp [readSigns, Sign.text, ih]
  | case4 fuel r hr ih => simp [readSigns, Sign.text, ih]
  | case5 fuel r _ hr ih => simp [readSigns, Sign.text, ih]
  | case6 fuel r ih => simp [readSigns, Sign.text, ih]
  | case7 fuel c r ih => simp [readSigns, Sign.text, ih]
  | case8 fuel r text rest hclass ih => simp [readSigns, Sign.text, hclass, ih]
  | case9 fuel r hclass ih => simp [readSigns, Sign.text, hclass, ih]
  | case10 fuel c r _ _ _ _ _ _ ih => simp [readSigns, Sign.text, ih]

/-! ### How signs are written -/

/-- How a sign is written in a glob. -/
inductive Sign.IsWritten : Sign → List Char → Prop where
  | directories : IsWritten .directories ['*', '*', '/']
  | anything : IsWritten .anything ['*', '*']
  | namePart : IsWritten .namePart ['*']
  | nameChar : IsWritten .nameChar ['?']
  | plain (c : Char) : IsWritten (.literal c) [c]
  | escaped (c : Char) : IsWritten (.literal c) ['\\', c]
  | bracket {text : List Char} (h : IsClassText text) : IsWritten (.bracket text) ('[' :: text ++ [']'])

/-- Whether a glob is made of signs, one written after the other. -/
inductive AreWritten : List Sign → List Char → Prop where
  | nil : AreWritten [] []
  | cons {sign : Sign} {ss : List Sign} {t r : List Char} (hsign : sign.IsWritten t) (hss : AreWritten ss r) :
      AreWritten (sign :: ss) (t ++ r)

/-- **Nothing of a glob is lost** when its signs are read. -/
theorem areWritten_readSigns {fuel : Nat} {glob : List Char} (hfuel : glob.length ≤ fuel) :
    AreWritten (readSigns fuel glob) glob := by
  fun_induction readSigns fuel glob with
  | case1 => exact .nil
  | case2 => cases hfuel
  | case3 fuel r ih => exact .cons .directories (ih (by grind))
  | case4 fuel r _ ih => exact .cons .anything (ih (by grind))
  | case5 fuel r _ _ ih => exact .cons .namePart (ih (by grind))
  | case6 fuel r ih => exact .cons .nameChar (ih (by grind))
  | case7 fuel c r ih => exact .cons (.escaped c) (ih (by grind))
  | case8 fuel r text rest hclass ih =>
    -- a class is put together again from its brackets and its text
    obtain ⟨rfl, htext⟩ := classBody?_eq_some hclass
    have hglob : '[' :: (text ++ ']' :: rest) = ('[' :: text ++ [']']) ++ rest := by simp
    rw [hglob]
    exact .cons (.bracket htext) (ih (by grind))
  | case9 fuel r _ ih => exact .cons (.plain '[') (ih (by grind))
  | case10 fuel c r _ _ _ _ _ _ ih => exact .cons (.plain c) (ih (by grind))

theorem areWritten_signs (glob : List Char) : AreWritten (signs glob) glob := areWritten_readSigns (Nat.le_refl _)

/-- A sign of a glob is written somewhere in it. -/
theorem AreWritten.exists_written {ss : List Sign} {glob : List Char} (h : AreWritten ss glob) {sign : Sign}
    (hsign : sign ∈ ss) : ∃ t, sign.IsWritten t ∧ t <:+: glob := by
  induction h with
  | nil => cases hsign
  | @cons first ss t r hfirst _ ih =>
    rcases List.mem_cons.1 hsign with rfl | hsign
    · exact ⟨t, hfirst, (List.prefix_append t r).isInfix⟩
    · obtain ⟨u, hu, hwithin⟩ := ih hsign
      exact ⟨u, hu, hwithin.trans (List.suffix_append t r).isInfix⟩

/-! ### Reading signs -/

/-- What a sign is read as; nothing if it is a class with a range in the wrong order. -/
def Sign.item? : Sign → Option Item
  | .directories => some .directories
  | .anything => some .anything
  | .namePart => some .namePart
  | .nameChar => some .nameChar
  | .literal c => some (.literal c)
  | .bracket text => (CharSet.ofClass? text).map fun set => .piece (.one set)

section ReadingSigns

variable {sign : Sign} {ss : List Sign} {r glob text : List Char}

/-- A sign starts neither like a repetition nor like the end of an expression. -/
theorem Sign.start (sign : Sign) : ∃ c r, sign.text = c :: r ∧ c ≠ '*' ∧ c ≠ '?' ∧ c ≠ '$' :=
  match sign with
  | .directories => Writes.directories.start
  | .anything => Writes.anything.start
  | .namePart => Writes.namePart.start
  | .nameChar => Writes.nameChar.start
  | .literal c => (Writes.literal c).start
  | .bracket _ => ⟨'[', _, rfl, by decide⟩

/-- A sign is read off the front of any text that does not repeat it. -/
theorem Sign.readItem?_text (h : ∀ text, sign = .bracket text → IsClassText text) (hr : Unrepeated r) :
    readItem? (sign.text ++ r) = sign.item?.map (·, r) := by
  cases sign with
  | directories => exact Writes.directories.read r hr
  | anything => exact Writes.anything.read r hr
  | namePart => exact Writes.namePart.read r hr
  | nameChar => exact Writes.nameChar.read r hr
  | literal c => exact (Writes.literal c).read r hr
  | bracket text =>
    -- a class is one piece
    have hitem : readItem? (translateClass text ++ r) =
        (readPiece? (translateClass text ++ r)).map fun read => (.piece read.1, read.2) := rfl
    show readItem? (translateClass text ++ r) = ((CharSet.ofClass? text).map _).map _
    rw [hitem, readPiece?, readSet?_translateClass (h text rfl)]
    cases CharSet.ofClass? text with
    | none => rfl
    | some set =>
      -- what follows is no repetition, so the class is taken once
      show some (Item.piece (readRepeated set r).1, (readRepeated set r).2) = _
      rw [readRepeated_one hr]
      rfl

/-- Signs are not written with a repetition at their start. -/
theorem unrepeated_signs : Unrepeated (ss.flatMap Sign.text ++ ['$']) := by
  cases ss with
  | nil => exact ⟨by decide, by decide⟩
  | cons sign ss =>
    obtain ⟨c, r, htext, hstar, hquestion, -⟩ := sign.start
    rw [List.flatMap_cons, htext]
    exact ⟨fun he => hstar (Option.some.inj he), fun he => hquestion (Option.some.inj he)⟩

/-- **Signs are read as their items**, if all of them can be read. -/
theorem readItems?_signs (h : ∀ text, .bracket text ∈ ss → IsClassText text) {fuel : Nat}
    (hfuel : (ss.flatMap Sign.text).length ≤ fuel) :
    readItems? fuel (ss.flatMap Sign.text ++ ['$']) = ss.mapM Sign.item? := by
  induction ss generalizing fuel with
  | nil => cases fuel <;> rfl
  | cons sign ss ih =>
    -- the text of a sign starts with a character that does not end the expression
    obtain ⟨c, r, htext, -, -, hend⟩ := sign.start
    rw [List.flatMap_cons, List.length_append, htext, List.length_cons] at hfuel
    cases fuel with
    | zero => omega
    | succ fuel =>
      have hhead : (sign.text ++ (ss.flatMap Sign.text ++ ['$'])).head? ≠ some '$' := by
        rw [htext]
        exact fun he => hend (Option.some.inj he)
      rw [List.flatMap_cons, List.append_assoc, readItems?_succ hhead,
        Sign.readItem?_text (fun text he => h text (he ▸ List.mem_cons_self)) unrepeated_signs, List.mapM_cons]
      cases sign.item? with
      | none => rfl
      | some i =>
        -- the signs behind the first one are shorter, so less fuel is enough
        have hlater : readItems? fuel (ss.flatMap Sign.text ++ ['$']) = ss.mapM Sign.item? :=
          ih (fun text hmem => h text (List.mem_cons_of_mem _ hmem)) (by omega)
        show (readItems? fuel (ss.flatMap Sign.text ++ ['$'])).map (i :: ·) = _
        rw [hlater]
        cases ss.mapM Sign.item? <;> rfl

/-- What is read as a class can be written between brackets. -/
theorem isClassText_of_mem_signs (h : .bracket text ∈ signs glob) : IsClassText text := by
  obtain ⟨t, ht, -⟩ := (areWritten_signs glob).exists_written h
  cases ht with
  | bracket htext => exact htext

end ReadingSigns

/-! ### Rules -/

namespace Rule

/-- The items that the glob of a rule is read as, if it can be read. -/
def Shape.items? (s : Shape) : Option (List Item) := (signs s.body).mapM Sign.item?

/-- The items of the expression of a rule: those of its glob, behind any directories if the rule is not anchored. -/
def Shape.itemsAt (s : Shape) (is : List Item) : List Item := if s.anchored then is else .directories :: is

/-- **The expression of a rule is read as the items of its glob.** -/
theorem readExpression?_expression (s : Shape) : readExpression? s.expression = s.items?.map s.itemsAt := by
  have hclasses : ∀ text, .bracket text ∈ signs s.body → IsClassText text := fun _ => isClassText_of_mem_signs
  obtain ⟨rest, hrest⟩ : ∃ rest, (signs s.body).flatMap Sign.text ++ ['$'] = rest := ⟨_, rfl⟩
  -- the glob is read in the same way behind whatever stands at the front
  have hread : ∀ fuel, rest.length ≤ fuel → readItems? fuel rest = s.items? := by
    intro fuel hfuel
    rw [← hrest] at hfuel ⊢
    exact readItems?_signs hclasses (by rw [List.length_append] at hfuel; omega)
  have htext : s.expression =
      '^' :: ((if s.anchored then [] else ['(', '?', ':', '.', '*', '/', ')', '?']) ++ rest) := by
    rw [Shape.expression, translate, translateSigns_eq, ← hrest, ← signs]
    simp only [List.cons_append, List.append_assoc]
  unfold Shape.itemsAt
  rw [htext]
  cases s.anchored with
  | true => exact (hread _ (Nat.le_refl _)).trans Option.map_id'.symm
  | false =>
    -- a rule that holds at any depth is read with a way down in front
    have hfront : readItem? (['(', '?', ':', '.', '*', '/', ')', '?'] ++ rest) = some (.directories, rest) :=
      Writes.anyDirectories.read rest (hrest ▸ unrepeated_signs)
    show readItems? (rest.length + 7 + 1) (['(', '?', ':', '.', '*', '/', ')', '?'] ++ rest) = _
    rw [readItems?_succ (by simp), hfront, Option.bind_some, hread _ (Nat.le_add_right _ _)]
    rfl

/-! A rule is matched as an expression if all of its classes can be read, and literally if one of them cannot. -/

section Matching

variable {raw path : String} {isDirectory : Bool}

/-- What a rule matches: a path that its matcher takes, and only a directory if the rule is for directories. -/
theorem isMatch_iff : (compile raw).isMatch path isDirectory = true ↔
    ((shape raw.toList).directoryOnly = true → isDirectory = true) ∧
      match (compile raw).matcher with
      | .expression is => Spells is (Chars.bareRelative path.toList)
      | .literal t => Chars.bareRelative path.toList = t ∨
          (shape raw.toList).anchored = false ∧ ∃ u, Chars.bareRelative path.toList = u ++ '/' :: t := by
  rw [isMatch, Bool.and_eq_true]
  refine and_congr ?_ ?_
  · show (!(shape raw.toList).directoryOnly || isDirectory) = true ↔ _
    cases (shape raw.toList).directoryOnly <;> simp
  · cases (compile raw).matcher with
    | expression is => exact accepts_iff
    | literal t =>
      show (Chars.bareRelative path.toList == t || !(shape raw.toList).anchored && _) = true ↔ _
      rw [Bool.or_eq_true, beq_iff_eq, Bool.and_eq_true, Bool.not_eq_true', Chars.endsWith, List.isSuffixOf_iff_suffix]
      exact or_congr_right (and_congr_right fun _ => exists_congr fun u => eq_comm)

/-- **A rule matches what its items spell**, if its glob can be read. -/
theorem isMatch_iff_spells {is : List Item} (h : (shape raw.toList).items? = some is) :
    (compile raw).isMatch path isDirectory = true ↔
      ((shape raw.toList).directoryOnly = true → isDirectory = true) ∧
        Spells ((shape raw.toList).itemsAt is) (Chars.bareRelative path.toList) := by
  have hmatcher : (compile raw).matcher = .expression ((shape raw.toList).itemsAt is) := by
    simp only [compile, readExpression?_expression, h, Option.map_some]
  rw [isMatch_iff, hmatcher]

/-- **A rule matches its own text**, if its glob cannot be read. -/
theorem isMatch_iff_literal (h : (shape raw.toList).items? = none) :
    (compile raw).isMatch path isDirectory = true ↔
      ((shape raw.toList).directoryOnly = true → isDirectory = true) ∧
        (Chars.bareRelative path.toList = (shape raw.toList).body ∨ (shape raw.toList).anchored = false ∧
          ∃ u, Chars.bareRelative path.toList = u ++ '/' :: (shape raw.toList).body) := by
  have hmatcher : (compile raw).matcher = .literal (shape raw.toList).body := by
    simp only [compile, readExpression?_expression, h, Option.map_none]
  rw [isMatch_iff, hmatcher]

end Matching

end Rule

end CodeSearch.Glob
