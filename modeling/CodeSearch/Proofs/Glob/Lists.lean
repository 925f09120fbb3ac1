import CodeSearch.Glob.Rule
import Mathlib.Data.List.Induction

/-!
# What a list of rules decides

The lines of an ignore list are its rules, but for those that are blank and those that are comments. The last one
that matches a path decides about it, so a rule that is followed by its own negation decides about no path but those
that it takes back itself:

* `trimRule_eq_nil_iff`, `ofLines_eq` — what is cut off the end of a line, and which lines are rules;
* `excluded_eq_lastDecision` — the last rule that matches decides;
* `trimRule_mark`, `Rule.shape_mark` — an exclamation mark before a line changes neither what is cut off its end nor
  any part of the rule but its sign;
* `isMatch_ruleOf_mark` — so the two rules match the same paths;
* `excluded_ofLines` — both statements, for lists of lines and for the lines of a text.
-/

namespace CodeSearch.Glob

namespace RuleSet

/-! ### Ends of lines -/

section Trimming

variable {s : List Char} {c : Char}

/-- What is kept of a reversed rule is an end of it. -/
theorem dropBlanks_suffix (s : List Char) : dropBlanks s <:+ s := by
  fun_induction dropBlanks s with
  | case1 => exact List.suffix_refl []
  | case2 c r _ ih => exact ih.trans (List.suffix_cons c r)
  | case3 c r _ => exact List.suffix_refl (c :: r)

/-- All of a rule is taken off exactly if it is made of blanks. -/
theorem dropBlanks_eq_nil_iff : dropBlanks s = [] ↔ ∀ c ∈ s, isRuleBlank c = true := by
  fun_induction dropBlanks s with
  | case1 => exact iff_of_true rfl nofun
  | case2 c r h ih => rw [ih, List.forall_mem_cons, and_iff_right h.1]
  | case3 c r h =>
    refine iff_of_false (List.cons_ne_nil c r) fun hblank => h ?_
    rw [List.forall_mem_cons] at hblank
    -- a backslash is no blank, so there is none before this one
    have hback : r.takeWhile (· = '\\') = [] := by
      cases r with
      | nil => rfl
      | cons d r =>
        refine List.takeWhile_cons_of_neg fun hd => ?_
        have hdblank := hblank.2 d List.mem_cons_self
        rw [of_decide_eq_true hd] at hdblank
        exact absurd hdblank (by decide)
    exact ⟨hblank.1, by rw [hback]; rfl⟩

/-- What is kept of a reversed line is kept if something is put behind it that is neither blank nor a backslash. -/
theorem dropBlanks_concat (hc : isRuleBlank c = false) (hback : c ≠ '\\') :
    dropBlanks (s ++ [c]) = dropBlanks s ++ [c] := by
  -- the backslashes at the start are the same
  have htakeWhile : ∀ r, (r ++ [c]).takeWhile (· = '\\') = r.takeWhile (· = '\\') := by
    intro r
    induction r with
    | nil => exact List.takeWhile_cons_of_neg (by simpa using hback)
    | cons d r ih => rw [List.cons_append, List.takeWhile_cons, List.takeWhile_cons, ih]
  induction s with
  | nil =>
    -- one character more is kept, because it is no blank
    have hkept : ¬(isRuleBlank c = true ∧ ([].takeWhile (· = '\\')).length % 2 = 0) := fun h =>
      absurd (h.1.symm.trans hc) Bool.noConfusion
    exact if_neg hkept
  | cons d r ih =>
    rw [List.cons_append, dropBlanks, dropBlanks, htakeWhile]
    split
    · exact ih
    · rfl

theorem trimRule_isPrefix (s : List Char) : trimRule s <+: s := by
  have h := List.reverse_prefix.2 (dropBlanks_suffix s.reverse)
  rwa [List.reverse_reverse] at h

/-- **Nothing is left of a line** exactly if it is blank. -/
theorem trimRule_eq_nil_iff : trimRule s = [] ↔ ∀ c ∈ s, isRuleBlank c = true := by
  rw [trimRule, List.reverse_eq_nil_iff, dropBlanks_eq_nil_iff]
  simp only [List.mem_reverse]

/-- An exclamation mark before a line changes nothing at its end. -/
theorem trimRule_mark (s : List Char) : trimRule ('!' :: s) = '!' :: trimRule s := by
  rw [trimRule, List.reverse_cons, dropBlanks_concat (by decide) (by decide), List.reverse_append]
  rfl

end Trimming

/-! ### Lines that are rules -/

/-- Whether a line is a rule: it is neither blank nor a comment. -/
def isRuleText (line : String) : Bool :=
  line.toList.any (!isRuleBlank ·) && line.toList.head? ≠ some '#'

/-- The rule of a line. -/
def ruleOf (line : String) : Rule := Rule.compile (String.ofList (trimRule line.toList))

/-- A line is a rule if something is left of it and it does not start with a hash. -/
theorem isRuleText_iff {line : String} :
    isRuleText line = true ↔ trimRule line.toList ≠ [] ∧ line.toList.head? ≠ some '#' := by
  rw [isRuleText, Bool.and_eq_true, decide_eq_true_iff]
  refine and_congr_left' ?_
  rw [ne_eq, trimRule_eq_nil_iff]
  simp [List.any_eq_true]

/-- A rule starts as its line does. -/
theorem head?_trimRule {s : List Char} (h : trimRule s ≠ []) : (trimRule s).head? = s.head? := by
  obtain ⟨c, t, htrim⟩ := List.exists_cons_of_ne_nil h
  obtain ⟨r, hr⟩ := trimRule_isPrefix s
  rw [htrim] at hr ⊢
  rw [← hr]
  rfl

/-- **The rules among some lines** are those of the lines that are neither blank nor comments. -/
theorem ofLines_eq (lines : List String) : ofLines lines = (lines.filter isRuleText).map ruleOf := by
  rw [ofLines, ← List.filterMap_eq_map, List.filterMap_filter]
  congr 1
  funext line
  by_cases hempty : trimRule line.toList = []
  · -- a line of which nothing is left is no rule
    have htext : ¬isRuleText line = true := fun h => (isRuleText_iff.1 h).1 hempty
    rw [if_neg htext, if_pos (Or.inl (List.isEmpty_iff.2 hempty))]
  · have hhead : (trimRule line.toList).head? = line.toList.head? := head?_trimRule hempty
    by_cases hcomment : line.toList.head? = some '#'
    · -- a comment is no rule
      have htext : ¬isRuleText line = true := fun h => (isRuleText_iff.1 h).2 hcomment
      rw [if_neg htext, if_pos (Or.inr (hhead.trans hcomment))]
    · -- any other line is one
      rw [if_pos (isRuleText_iff.2 ⟨hempty, hcomment⟩), if_neg]
      · rfl
      · rintro (he | he)
        · exact hempty (List.isEmpty_iff.1 he)
        · exact hcomment (hhead.symm.trans he)

/-! ### The last rule decides -/

section Deciding

variable {path : String} {isDirectory : Bool}

/-- What the last rule among some lines that matches a path decides about it. A path is not excluded if no rule
matches it. -/
def lastDecision (lines : List String) (path : String) (isDirectory : Bool) : Bool :=
  (lines.reverse.find? fun line => isRuleText line && (ruleOf line).isMatch path isDirectory).any fun line =>
    !(ruleOf line).negated

/-- One more line changes the decision if it is a rule that matches. -/
theorem excluded_ofLines_concat (lines : List String) (line : String) :
    (ofLines (lines ++ [line])).excluded path isDirectory =
      if isRuleText line && (ruleOf line).isMatch path isDirectory then !(ruleOf line).negated
      else (ofLines lines).excluded path isDirectory := by
  rw [ofLines_eq, ofLines_eq, List.filter_append, List.map_append]
  cases htext : isRuleText line with
  | false => simp [htext]
  | true =>
    have hline : ([line].filter isRuleText).map ruleOf = [ruleOf line] := by simp [htext]
    rw [hline, excluded_append_singleton, Bool.true_and]

/-- **The last rule that matches decides.** -/
theorem excluded_eq_lastDecision (lines : List String) :
    (ofLines lines).excluded path isDirectory = lastDecision lines path isDirectory := by
  induction lines using List.reverseRecOn with
  | nil => rfl
  | append_singleton lines line ih =>
    have hreverse : (lines ++ [line]).reverse = line :: lines.reverse := List.reverse_append
    rw [excluded_ofLines_concat, ih, lastDecision, lastDecision, hreverse, List.find?_cons]
    cases isRuleText line && (ruleOf line).isMatch path isDirectory with
    | true => rw [if_pos rfl, Option.any_some]
    | false => rw [if_neg Bool.false_ne_true]

end Deciding

end RuleSet

/-! ### Rules that are taken back -/

namespace Rule

theorem negated_compile (raw : String) : (compile raw).negated = (shape raw.toList).negated := rfl

/-- Rules of the same parts match the same, whether they take files back or not. -/
theorem isMatch_congr {raw raw' path : String} {isDirectory negated : Bool}
    (h : shape raw'.toList = { shape raw.toList with negated }) :
    (compile raw').isMatch path isDirectory = (compile raw).isMatch path isDirectory := by
  obtain ⟨hexpression, honly, hanchored, hbody⟩ :
      (shape raw'.toList).expression = (shape raw.toList).expression ∧
        (shape raw'.toList).directoryOnly = (shape raw.toList).directoryOnly ∧
        (shape raw'.toList).anchored = (shape raw.toList).anchored ∧
        (shape raw'.toList).body = (shape raw.toList).body := by
    -- only the sign of the rule differs, which plays no part in a match
    rw [h]
    exact ⟨rfl, rfl, rfl, rfl⟩
  simp only [isMatch, compile, hexpression, honly, hanchored, hbody]

theorem lineOf_mark (s : List Char) : lineOf ('!' :: s) = '!' :: lineOf s := by
  have hmark : ['!'].dropWhile (fun c => c = '\r' || c = '\n') = ['!'] := rfl
  rw [lineOf, List.reverse_cons, List.dropWhile_append, hmark, lineOf]
  split
  · next hempty => rw [List.isEmpty_iff.1 hempty]; rfl
  · rw [List.reverse_append]; rfl

theorem lineOf_isPrefix (s : List Char) : lineOf s <+: s := by
  have h := List.reverse_prefix.2 (List.dropWhile_suffix (l := s.reverse) fun c => c = '\r' || c = '\n')
  rwa [List.reverse_reverse] at h

theorem startsWith_of_isPrefix {s t start : List Char} (hstarts : t <+: s) (hs : Chars.startsWith s start = false) :
    Chars.startsWith t start = false :=
  Bool.eq_false_iff.2 fun h => absurd (List.isPrefixOf_iff_prefix.2 ((List.isPrefixOf_iff_prefix.1 h).trans hstarts))
    (Bool.eq_false_iff.1 hs)

/-- **An exclamation mark before a rule** that has no mark changes no part but its sign. -/
theorem shape_mark {s : List Char} (hmark : s.head? ≠ some '!') (hback : Chars.startsWith s ['\\', '!'] = false) :
    shape ('!' :: s) = { shape s with negated := true } ∧ (shape s).negated = false := by
  -- what ends the line does not change how it starts
  have hline : (lineOf s).head? ≠ some '!' := fun h => by
    obtain ⟨r, hr⟩ := List.head?_eq_some_iff.1 h
    obtain ⟨t, ht⟩ := lineOf_isPrefix s
    rw [← ht, hr] at hmark
    exact hmark rfl
  have hstart : ¬Chars.startsWith (lineOf s) ['\\', '!'] = true :=
    Bool.eq_false_iff.1 (startsWith_of_isPrefix (lineOf_isPrefix s) hback)
  -- without a mark nothing is taken off, and with one only the mark is
  have hplain : shape s = .ofUnmarked false (lineOf s) := by rw [shape, if_neg hline, if_neg hstart]
  have hmarked : shape ('!' :: s) = .ofUnmarked true (lineOf s) := by rw [shape, lineOf_mark]; rfl
  rw [hplain, hmarked]
  exact ⟨rfl, rfl⟩

end Rule

namespace RuleSet

/-- Whether a line is a rule that has no mark: neither an exclamation mark nor a backslash that makes one plain. -/
def IsUnmarked (line : String) : Prop :=
  isRuleText line = true ∧ line.toList.head? ≠ some '!' ∧ Chars.startsWith line.toList ['\\', '!'] = false

instance : DecidablePred IsUnmarked := fun _ => inferInstanceAs (Decidable (_ ∧ _ ∧ _))

section Marked

variable {line path : String} {isDirectory : Bool}

/-- **A rule and its negation match the same paths**, the one to exclude them and the other to take them back. -/
theorem IsUnmarked.mark (h : IsUnmarked line) :
    isRuleText ("!" ++ line) = true ∧ (ruleOf line).negated = false ∧ (ruleOf ("!" ++ line)).negated = true ∧
      ∀ path isDirectory, (ruleOf ("!" ++ line)).isMatch path isDirectory = (ruleOf line).isMatch path isDirectory := by
  obtain ⟨htext, hmark, hback⟩ := h
  have hlist : ("!" ++ line).toList = '!' :: line.toList := String.toList_append
  -- the mark stays when the line is trimmed
  have hrule : trimRule ("!" ++ line).toList = '!' :: trimRule line.toList := by rw [hlist, trimRule_mark]
  have hne := (isRuleText_iff.1 htext).1
  -- a trimmed line starts as before, so it has no mark either
  have hstart : Chars.startsWith (trimRule line.toList) ['\\', '!'] = false :=
    Rule.startsWith_of_isPrefix (trimRule_isPrefix _) hback
  obtain ⟨hshape, hnegated⟩ := Rule.shape_mark ((head?_trimRule hne).trans_ne hmark) hstart
  have hshapes : Rule.shape (String.ofList (trimRule ("!" ++ line).toList)).toList =
      { Rule.shape (String.ofList (trimRule line.toList)).toList with negated := true } := by
    rw [String.toList_ofList, String.toList_ofList, hrule, hshape]
  refine ⟨isRuleText_iff.2 ⟨?_, ?_⟩, ?_, ?_, fun path isDirectory => Rule.isMatch_congr hshapes⟩
  · rw [hrule]
    exact List.cons_ne_nil _ _
  · rw [hlist, List.head?_cons]
    exact fun he => absurd (Option.some.inj he) (by decide)
  · rw [ruleOf, Rule.negated_compile, String.toList_ofList, hnegated]
  · rw [ruleOf, Rule.negated_compile, hshapes]

/-- **A rule that is taken back at once** decides about no path but those it matches, and those are not excluded. -/
theorem excluded_mark (lines : List String) (h : IsUnmarked line) :
    (ofLines (lines ++ [line, "!" ++ line])).excluded path isDirectory =
      (!(ruleOf line).isMatch path isDirectory && (ofLines lines).excluded path isDirectory) := by
  obtain ⟨htext, hplain, hnegated, hmatch⟩ := h.mark
  have hlines : lines ++ [line, "!" ++ line] = (lines ++ [line]) ++ ["!" ++ line] := by
    rw [List.append_assoc, List.singleton_append]
  rw [hlines, excluded_ofLines_concat, excluded_ofLines_concat, htext, h.1, hplain, hnegated, hmatch]
  cases (ruleOf line).isMatch path isDirectory <;> rfl

end Marked

/-- **What a list of rules decides.** The last line that is a rule and matches a path decides about it, and a path that
no rule matches is not excluded. If a rule without a mark and then its negation are put behind some lines, no path is
excluded that the rule matches, and all others are decided about as before. Both hold for lists of lines and for the
lines of a text. -/
theorem excluded_ofLines (path : String) (isDirectory : Bool) :
    (∀ lines, (ofLines lines).excluded path isDirectory = lastDecision lines path isDirectory) ∧
      (∀ lines rule, IsUnmarked rule → (ofLines (lines ++ [rule, "!" ++ rule])).excluded path isDirectory =
        (!(ruleOf rule).isMatch path isDirectory && (ofLines lines).excluded path isDirectory)) ∧
      (∀ text, (parse text).excluded path isDirectory = lastDecision (Text.lines text) path isDirectory) ∧
      ∀ text rule taken, IsUnmarked rule → Text.lines taken = Text.lines text ++ [rule, "!" ++ rule] →
        (parse taken).excluded path isDirectory =
          (!(ruleOf rule).isMatch path isDirectory && (parse text).excluded path isDirectory) := by
  refine ⟨excluded_eq_lastDecision, fun lines rule h => excluded_mark lines h,
    fun text => excluded_eq_lastDecision (Text.lines text), fun text rule taken h hlines => ?_⟩
  rw [parse, hlines]
  exact excluded_mark (Text.lines text) h

/-! A rule that keeps a blank at its end, in a list that excludes the path before. -/

theorem excluded_ofLines_takenBack :
    IsUnmarked "a*\\   " ∧ (ruleOf "a*\\   ").isMatch "k/ab " false = true ∧
      Text.lines "*b*\n# !k\na*\\   \n!a*\\   \n" = Text.lines "*b*\n# !k\n" ++ ["a*\\   ", "!" ++ "a*\\   "] ∧
      (parse "*b*\n# !k\n").excluded "k/ab " false = true ∧
      (parse "*b*\n# !k\na*\\   \n!a*\\   \n").excluded "k/ab " false = false := by
  have hrule : IsUnmarked "a*\\   " := by decide +kernel
  have hmatch : (ruleOf "a*\\   ").isMatch "k/ab " false = true := by decide +kernel
  have hlines : Text.lines "*b*\n# !k\na*\\   \n!a*\\   \n" =
      Text.lines "*b*\n# !k\n" ++ ["a*\\   ", "!" ++ "a*\\   "] := by decide +kernel
  obtain ⟨-, -, hlast, htaken⟩ := excluded_ofLines "k/ab " false
  have hlater := htaken _ _ _ hrule hlines
  rw [hmatch, Bool.not_true, Bool.false_and] at hlater
  refine ⟨hrule, hmatch, hlines, ?_, hlater⟩
  rw [hlast]
  decide +kernel

end RuleSet

end CodeSearch.Glob
