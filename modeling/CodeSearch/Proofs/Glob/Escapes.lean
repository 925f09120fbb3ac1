import CodeSearch.Proofs.Glob.Lists
import CodeSearch.Proofs.Glob.Names

/-!
# Escaped names

A backslash means something at every stage of reading a rule: it keeps a blank at the end of a line, it makes an
exclamation mark at the start plain, and it makes the character behind it stand for itself in a glob. The rule for a
name is that name with a backslash before every character, and all stages agree about it:

* `RuleSet.trimRule_escaped` — nothing is cut off its end, for the backslashes before a blank are odd in number;
* `Rule.exists_shape_escaped` — it is neither negated nor anchored nor for directories only, although its body may be
  without the first backslash;
* `spells_escaped_iff` — what its body spells is the name;
* `RuleSet.excluded_escaped_iff` — so a list of it alone excludes the paths that end in the name.
-/

namespace CodeSearch

/-! ### The last piece of a text -/

namespace Chars

/-- A text without separators is the last piece of a text that is nothing else, or has it behind a separator. -/
theorem getLast?_pieces_iff {sep : Char} {s p : List Char} (hs : sep ∉ s) :
    (pieces sep p).getLast? = some s ↔ p = s ∨ ∃ u, p = u ++ sep :: s := by
  -- behind the last separator there is only the last piece
  have hbehind : ∀ {u t : List Char}, sep ∉ t → (pieces sep (u ++ sep :: t)).getLast? = some t := by
    intro u t ht
    rw [pieces_append_cons, pieces_of_not_mem ht, List.getLast?_concat]
  constructor
  · intro h
    by_cases hsep : sep ∈ p
    · -- cut at the last separator
      obtain ⟨t, u, hcut, ht⟩ := List.eq_append_cons_of_mem (List.mem_reverse.2 hsep)
      have hp : p = u.reverse ++ sep :: t.reverse := by
        rw [← List.reverse_reverse p, hcut, List.reverse_append, List.reverse_cons, List.append_assoc]
        rfl
      rw [hp, hbehind (mt List.mem_reverse.1 ht)] at h
      obtain rfl := Option.some.inj h
      exact Or.inr ⟨u.reverse, hp⟩
    · rw [pieces_of_not_mem hsep] at h
      exact Or.inl (Option.some.inj h)
  · rintro (rfl | ⟨u, rfl⟩)
    · rw [pieces_of_not_mem hs]
      rfl
    · exact hbehind hs

end Chars

theorem Text.getLast?_pieces_iff {sep : Char} {piece s : String} (hpiece : sep ∉ piece.toList) :
    (pieces sep s).getLast? = some piece ↔ s.toList = piece.toList ∨ ∃ u, s.toList = u ++ sep :: piece.toList := by
  rw [← Chars.getLast?_pieces_iff hpiece, pieces, List.getLast?_map, Option.map_eq_some_iff]
  constructor
  · rintro ⟨t, ht, rfl⟩
    rw [ht, String.toList_ofList]
  · intro h
    exact ⟨_, h, String.ofList_toList⟩

/-! ### Escaping -/

namespace Chars

/-- A text with a backslash before every character. -/
def escaped (s : List Char) : List Char := s.flatMap fun c => ['\\', c]

section Escaped

variable {s : List Char} {c : Char}

@[simp] theorem escaped_nil : escaped [] = [] := rfl

@[simp] theorem escaped_cons (c : Char) (s : List Char) : escaped (c :: s) = '\\' :: c :: escaped s := rfl

theorem escaped_concat (s : List Char) (c : Char) : escaped (s ++ [c]) = escaped s ++ ['\\', c] :=
  List.flatMap_append

theorem mem_escaped_iff (hc : c ≠ '\\') : c ∈ escaped s ↔ c ∈ s := by
  simp [escaped, hc]

/-- **The backslashes at the end of an escaped text are even in number**: of each pair the first one was put there. -/
theorem even_backslashes_escaped (s : List Char) :
    ((escaped s).reverse.takeWhile (· = '\\')).length % 2 = 0 := by
  induction s using List.reverseRecOn with
  | nil => rfl
  | append_singleton s c ih =>
    rw [escaped_concat, List.reverse_append]
    by_cases hc : c = '\\'
    · -- a backslash adds a pair
      subst hc
      show ('\\' :: '\\' :: (escaped s).reverse.takeWhile (· = '\\')).length % 2 = 0
      rw [List.length_cons, List.length_cons]
      omega
    · -- any other character has one backslash before it and ends the backslashes
      show ((c :: '\\' :: (escaped s).reverse).takeWhile (· = '\\')).length % 2 = 0
      rw [List.takeWhile_cons_of_neg (by simpa using hc)]
      rfl

end Escaped

end Chars

namespace Text

/-- A text with a backslash before every character. -/
def escaped (s : String) : String := String.ofList (Chars.escaped s.toList)

theorem toList_escaped (s : String) : (escaped s).toList = Chars.escaped s.toList := String.toList_ofList

end Text

namespace Glob

section Escaped

variable {s : List Char}

/-- Nothing is trimmed off a text with a backslash before every character. -/
theorem RuleSet.trimRule_escaped (s : List Char) : trimRule (Chars.escaped s) = Chars.escaped s := by
  rcases List.eq_nil_or_concat s with rfl | ⟨s, c, rfl⟩
  · rfl
  · have hreverse : (Chars.escaped (s ++ [c])).reverse = c :: '\\' :: (Chars.escaped s).reverse := by
      rw [Chars.escaped_concat, List.reverse_append]
      rfl
    -- the last character has its own backslash, so it is not at the end of the rule
    have hkept : ¬(isRuleBlank c = true ∧
        (('\\' :: (Chars.escaped s).reverse).takeWhile (· = '\\')).length % 2 = 0) := by
      rintro ⟨-, hodd⟩
      have heven := Chars.even_backslashes_escaped s
      rw [List.takeWhile_cons_of_pos (by simp), List.length_cons] at hodd
      omega
    rw [List.concat_eq_append, trimRule, hreverse, dropBlanks, if_neg hkept, ← hreverse, List.reverse_reverse]

/-! ### What an escaped name is read as -/

/-- A backslash and a character are read as the character. -/
theorem readSigns_escaped {fuel : Nat} (hfuel : (Chars.escaped s).length ≤ fuel) :
    readSigns fuel (Chars.escaped s) = s.map .literal := by
  induction s generalizing fuel with
  | nil => rw [Chars.escaped_nil, readSigns, List.map_nil]
  | cons c s ih =>
    rw [Chars.escaped_cons, List.length_cons, List.length_cons] at hfuel
    cases fuel with
    | zero => omega
    | succ fuel =>
      -- one backslash and one character take one unit of fuel
      have hlater : readSigns fuel (Chars.escaped s) = s.map .literal := ih (by omega)
      rw [Chars.escaped_cons, readSigns, hlater, List.map_cons]

/-- An escaped name is read character by character. -/
theorem signs_escaped (s : List Char) : signs (Chars.escaped s) = s.map .literal := readSigns_escaped (Nat.le_refl _)

theorem mapM_item?_literal (s : List Char) : (s.map .literal).mapM Sign.item? = some (s.map Item.literal) := by
  induction s with
  | nil => rfl
  | cons c s ih =>
    rw [List.map_cons, List.mapM_cons, ih]
    rfl

/-- **Plain characters spell themselves** and nothing else. -/
theorem spells_map_literal_iff {t : List Char} : Spells (s.map Item.literal) t ↔ t = s := by
  induction s generalizing t with
  | nil => exact spells_nil_iff
  | cons c s ih =>
    rw [List.map_cons, spells_literal_iff]
    constructor
    · rintro ⟨r, rfl, hr⟩
      rw [ih.1 hr]
    · rintro rfl
      exact ⟨s, rfl, ih.2 rfl⟩

end Escaped

/-! ### The rule for a name -/

namespace Rule

/-- A text without the ends of lines is a line. -/
theorem lineOf_eq_self {s : List Char} (hreturn : '\r' ∉ s) (hnewline : '\n' ∉ s) : lineOf s = s := by
  have hkept : s.reverse.dropWhile (fun c => c = '\r' || c = '\n') = s.reverse := by
    cases hlast : s.reverse with
    | nil => rfl
    | cons c r =>
      have hmem : c ∈ s := List.mem_reverse.1 (hlast ▸ List.mem_cons_self)
      -- the last character ends no line, so nothing is taken off
      refine List.dropWhile_cons_of_neg fun hc => ?_
      rcases Bool.or_eq_true_iff.1 hc with hc | hc
      · exact hreturn (of_decide_eq_true hc ▸ hmem)
      · exact hnewline (of_decide_eq_true hc ▸ hmem)
  rw [lineOf, hkept, List.reverse_reverse]

/-- A text without slashes is the body of its rule. -/
theorem Shape.ofUnmarked_of_not_mem (negated : Bool) {text : List Char} (h : '/' ∉ text) :
    ofUnmarked negated text = { negated, directoryOnly := false, anchored := false, body := text } := by
  have hlast : text.getLast? ≠ some '/' := fun he => h (List.mem_of_getLast? he)
  have hhead : text.head? ≠ some '/' := fun he => h (List.mem_of_head? he)
  simp [ofUnmarked, hlast, hhead, h]

/-- **The rule for a name** has no special parts, and its body is read as the characters of the name. The body is not
quite the rule: if the name starts with an exclamation mark, the backslash before it is dropped. -/
theorem exists_shape_escaped {s : List Char} (hne : s ≠ []) (hslash : '/' ∉ s) (hnewline : '\n' ∉ s)
    (hreturn : '\r' ∉ s) :
    ∃ body, shape (Chars.escaped s) = { negated := false, directoryOnly := false, anchored := false, body } ∧
      signs body = s.map .literal := by
  -- a name has neither ends of lines nor slashes, and the backslashes add none
  have hline : lineOf (Chars.escaped s) = Chars.escaped s := by
    refine lineOf_eq_self ?_ ?_
    · exact mt (Chars.mem_escaped_iff (by decide)).1 hreturn
    · exact mt (Chars.mem_escaped_iff (by decide)).1 hnewline
  have hescaped : '/' ∉ Chars.escaped s := mt (Chars.mem_escaped_iff (by decide)).1 hslash
  obtain ⟨c, s, rfl⟩ := List.exists_cons_of_ne_nil hne
  have hmark : ¬(Chars.escaped (c :: s)).head? = some '!' := fun he => absurd (Option.some.inj he) (by decide)
  rw [shape, hline, if_neg hmark]
  split
  · next hstart =>
    -- the exclamation mark is read as a plain character now that the backslash before it is gone
    obtain ⟨r, hr⟩ := List.isPrefixOf_iff_prefix.1 hstart
    obtain ⟨-, htail⟩ := List.cons.inj hr
    obtain ⟨rfl, -⟩ := List.cons.inj htail
    refine ⟨'!' :: Chars.escaped s, Shape.ofUnmarked_of_not_mem false fun h => hescaped (List.mem_cons_of_mem _ h), ?_⟩
    have hlater : readSigns (Chars.escaped s).length (Chars.escaped s) = s.map .literal := signs_escaped s
    simp [signs, readSigns, hlater]
  · -- the name starts with another character, which keeps its backslash
    exact ⟨Chars.escaped (c :: s), Shape.ofUnmarked_of_not_mem false hescaped, signs_escaped (c :: s)⟩

/-- The rule for a name matches the paths that end in the name. -/
theorem isMatch_escaped_iff {name path : String} {isDirectory : Bool} (hne : name ≠ "") (hslash : '/' ∉ name.toList)
    (hnewline : '\n' ∉ name.toList) (hreturn : '\r' ∉ name.toList) (hpath : '\n' ∉ path.toList) :
    (compile (Text.escaped name)).isMatch path isDirectory = true ↔
      (Text.pieces '/' (Text.bareRelative path)).getLast? = some name := by
  -- the path is looked at without the signs at its start and end
  obtain ⟨p, hp⟩ : ∃ p, Chars.bareRelative path.toList = p := ⟨_, rfl⟩
  have hbare : '\n' ∉ p := fun h => hpath (mem_of_mem_bareRelative (hp ▸ h))
  obtain ⟨body, hshape, hsigns⟩ :=
    exists_shape_escaped (mt String.toList_eq_nil_iff.1 hne) hslash hnewline hreturn
  have hraw : shape (Text.escaped name).toList =
      { negated := false, directoryOnly := false, anchored := false, body } := by rw [Text.toList_escaped, hshape]
  -- the rule is read as the characters of the name, at any depth
  have hitems : (shape (Text.escaped name).toList).items? = some (name.toList.map Item.literal) := by
    rw [hraw, Shape.items?, hsigns, mapM_item?_literal]
  have hpieces := Text.getLast?_pieces_iff (s := Text.bareRelative path) hslash
  rw [Text.bareRelative, String.toList_ofList, hp] at hpieces
  rw [isMatch_iff_spells hitems, hraw, Text.bareRelative, hp, hpieces, Shape.itemsAt, if_neg Bool.false_ne_true,
    spells_directories_iff, and_iff_right fun h => absurd h Bool.false_ne_true]
  simp only [spells_map_literal_iff]
  -- the path is the name, or the name stands behind a slash
  refine or_congr_right ?_
  constructor
  · rintro ⟨u, t, hu, -, rfl⟩
    exact ⟨u, hu⟩
  · rintro ⟨u, hu⟩
    exact ⟨u, _, hu, fun hn => hbare (hu ▸ List.mem_append_left _ hn), rfl⟩

end Rule

namespace RuleSet

/-- A name with backslashes is a rule, as it is written. -/
theorem isRuleText_escaped {name : String} (hne : name ≠ "") :
    isRuleText (Text.escaped name) = true ∧ ruleOf (Text.escaped name) = Rule.compile (Text.escaped name) := by
  have htrim : trimRule (Text.escaped name).toList = (Text.escaped name).toList := by
    rw [Text.toList_escaped, trimRule_escaped]
  obtain ⟨c, r, hname⟩ := List.exists_cons_of_ne_nil (mt String.toList_eq_nil_iff.1 hne)
  refine ⟨?_, by rw [ruleOf, htrim, String.ofList_toList]⟩
  -- a backslash starts no comment
  rw [isRuleText_iff, htrim, Text.toList_escaped, hname, Chars.escaped_cons]
  exact ⟨List.cons_ne_nil _ _, fun he => absurd (Option.some.inj he) (by decide)⟩

/-- **The rule for a name excludes that name**, wherever it is, and nothing else. -/
theorem excluded_escaped_iff (name path : String) (isDirectory : Bool) (hne : name ≠ "")
    (hslash : '/' ∉ name.toList) (hnewline : '\n' ∉ name.toList) (hreturn : '\r' ∉ name.toList)
    (hpath : '\n' ∉ path.toList) :
    (ofLines [Text.escaped name]).excluded path isDirectory = true ↔
      (Text.pieces '/' (Text.bareRelative path)).getLast? = some name := by
  obtain ⟨htext, hrule⟩ := isRuleText_escaped hne
  obtain ⟨body, hshape, -⟩ :=
    Rule.exists_shape_escaped (mt String.toList_eq_nil_iff.1 hne) hslash hnewline hreturn
  -- a rule that is the only one decides, and it excludes
  have hplain : (ruleOf (Text.escaped name)).negated = false := by
    rw [hrule, Rule.negated_compile, Text.toList_escaped, hshape]
  rw [← Rule.isMatch_escaped_iff hne hslash hnewline hreturn hpath, ← hrule, ← List.nil_append [_],
    excluded_ofLines_concat, htext, hplain]
  cases (ruleOf (Text.escaped name)).isMatch path isDirectory <;> exact Iff.rfl

/-! A name that starts like a negated rule, ends with a backslash and a blank, and is full of signs. -/

theorem excluded_escaped_marked :
    "!#*[a-?]\\ " ≠ "" ∧ '/' ∉ "!#*[a-?]\\ ".toList ∧ '\n' ∉ "!#*[a-?]\\ ".toList ∧
      '\r' ∉ "!#*[a-?]\\ ".toList ∧ '\n' ∉ "./x/!#*[a-?]\\ /".toList ∧
      (ofLines [Text.escaped "!#*[a-?]\\ "]).excluded "./x/!#*[a-?]\\ /" true = true := by
  have hne : "!#*[a-?]\\ " ≠ "" := by decide
  have hslash : '/' ∉ "!#*[a-?]\\ ".toList := by decide +kernel
  have hnewline : '\n' ∉ "!#*[a-?]\\ ".toList := by decide +kernel
  have hreturn : '\r' ∉ "!#*[a-?]\\ ".toList := by decide +kernel
  have hpath : '\n' ∉ "./x/!#*[a-?]\\ /".toList := by decide +kernel
  refine ⟨hne, hslash, hnewline, hreturn, hpath, ?_⟩
  rw [excluded_escaped_iff _ _ true hne hslash hnewline hreturn hpath]
  decide +kernel

end RuleSet

end Glob

end CodeSearch
