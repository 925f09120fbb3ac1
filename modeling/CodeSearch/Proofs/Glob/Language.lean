import CodeSearch.Glob.Rule
import CodeSearch.Proofs.Glob.Matching
import CodeSearch.Proofs.Glob.Translation

/-!
# The language of a rule

The body of a rule without bracket classes is read from left to right, and `Describes body s` says what it
describes, in terms of the body as it is written: `**/` stands for nothing or for any directories, `**` for any
text, `*` for any part of a name, `?` for one character of a name, a backslash makes the character behind it a
plain one, and all others stand for themselves.

`Rule.isMatch_iff_describes` says that a rule matches a path exactly if its body describes it or, if the rule is
not anchored, describes an end of the path behind a slash. What the parts of a rule are is told by
`Rule.Shape.IsWritten`.

The body is translated into an expression, the text of which is read again:

* `exists_reads` — the items that are read spell what the body describes, by induction along the translation,
  with one lemma of `Renders` for the meaning and one of `Writes` for the text of each sign;
* `accepts_iff` — and a path is matched against what the items spell.

A path with a newline is left out: a way down and `**` do not go past one.
-/

namespace CodeSearch.Glob

/-! ### What a body describes -/

/-- The texts that a body without bracket classes describes. -/
inductive Describes : List Char → List Char → Prop where
  /-- An empty body describes the empty text. -/
  | nil : Describes [] []
  /-- `**/` can stand for nothing. -/
  | here {r s : List Char} (hs : Describes r s) : Describes ('*' :: '*' :: '/' :: r) s
  /-- `**/` can stand for any text that ends in a slash. -/
  | descend {r s : List Char} (u : List Char) (hs : Describes r s) :
      Describes ('*' :: '*' :: '/' :: r) (u ++ '/' :: s)
  /-- `**` stands for any text, unless a slash follows. -/
  | anything {r s : List Char} (hr : r.head? ≠ some '/') (u : List Char) (hs : Describes r s) :
      Describes ('*' :: '*' :: r) (u ++ s)
  /-- `*` stands for any text without slashes. -/
  | namePart {r s u : List Char} (hr : r.head? ≠ some '*') (hu : '/' ∉ u) (hs : Describes r s) :
      Describes ('*' :: r) (u ++ s)
  /-- `?` stands for any character but a slash. -/
  | nameChar {r s : List Char} {c : Char} (hc : c ≠ '/') (hs : Describes r s) :
      Describes ('?' :: r) (c :: s)
  /-- A backslash makes the character behind it stand for itself. -/
  | escaped {r s : List Char} (c : Char) (hs : Describes r s) : Describes ('\\' :: c :: r) (c :: s)
  /-- A backslash at the end stands for itself. -/
  | backslash : Describes ['\\'] ['\\']
  /-- All other characters stand for themselves. -/
  | plain {r s : List Char} {c : Char} (hc : c ≠ '*' ∧ c ≠ '?' ∧ c ≠ '\\') (hs : Describes r s) :
      Describes (c :: r) (c :: s)

section Describes

variable {r s : List Char} {c : Char}

theorem describes_nil_iff : Describes [] s ↔ s = [] := by
  constructor
  · intro h
    cases h
    rfl
  · rintro rfl
    exact .nil

/-- `**/` describes nothing, or a text that ends in a slash. -/
theorem describes_directories_iff : Describes ('*' :: '*' :: '/' :: r) s ↔
    Describes r s ∨ ∃ u t, s = u ++ '/' :: t ∧ Describes r t := by
  constructor
  · intro h
    cases h with
    | here hs => exact Or.inl hs
    | descend u hs => exact Or.inr ⟨u, _, rfl, hs⟩
    | anything hr _ _ => exact absurd rfl hr
    | namePart hr _ _ => exact absurd rfl hr
    | plain hc _ => exact absurd rfl hc.1
  · rintro (hs | ⟨u, t, rfl, hs⟩)
    · exact .here hs
    · exact .descend u hs

/-- `**` describes any text. -/
theorem describes_anything_iff (hr : r.head? ≠ some '/') :
    Describes ('*' :: '*' :: r) s ↔ ∃ u t, s = u ++ t ∧ Describes r t := by
  constructor
  · intro h
    cases h with
    -- the other ways begin otherwise
    | here _ => exact absurd rfl hr
    | descend _ _ => exact absurd rfl hr
    | anything _ u hs => exact ⟨u, _, rfl, hs⟩
    | namePart hr _ _ => exact absurd rfl hr
    | plain hc _ => exact absurd rfl hc.1
  · rintro ⟨u, t, rfl, hs⟩
    exact .anything hr u hs

/-- `*` describes a text without slashes. -/
theorem describes_namePart_iff (hr : r.head? ≠ some '*') :
    Describes ('*' :: r) s ↔ ∃ u t, s = u ++ t ∧ '/' ∉ u ∧ Describes r t := by
  constructor
  · intro h
    cases h with
    | here _ => exact absurd rfl hr
    | descend _ _ => exact absurd rfl hr
    | anything _ _ _ => exact absurd rfl hr
    | namePart _ hu hs => exact ⟨_, _, rfl, hu, hs⟩
    | plain hc _ => exact absurd rfl hc.1
  · rintro ⟨u, t, rfl, hu, hs⟩
    exact .namePart hr hu hs

theorem describes_nameChar_iff :
    Describes ('?' :: r) s ↔ ∃ c t, s = c :: t ∧ c ≠ '/' ∧ Describes r t := by
  constructor
  · intro h
    cases h with
    | nameChar hc hs => exact ⟨_, _, rfl, hc, hs⟩
    | plain hc _ => exact absurd rfl hc.2.1
  · rintro ⟨c, t, rfl, hc, hs⟩
    exact .nameChar hc hs

theorem describes_escaped_iff : Describes ('\\' :: c :: r) s ↔ ∃ t, s = c :: t ∧ Describes r t := by
  constructor
  · intro h
    cases h with
    | escaped _ hs => exact ⟨_, rfl, hs⟩
    | plain hc _ => exact absurd rfl hc.2.2
  · rintro ⟨t, rfl, hs⟩
    exact .escaped c hs

/-- Any other character describes itself. -/
theorem describes_plain_iff (hstar : c ≠ '*') (hquestion : c ≠ '?') (hback : c = '\\' → r = []) :
    Describes (c :: r) s ↔ ∃ t, s = c :: t ∧ Describes r t := by
  constructor
  · intro h
    cases h with
    | backslash => exact ⟨[], rfl, .nil⟩
    | plain _ hs => exact ⟨_, rfl, hs⟩
    -- a backslash before another character would make that one plain
    | escaped d _ => exact absurd (hback rfl) (List.cons_ne_nil _ _)
    | _ => contradiction
  · rintro ⟨t, rfl, hs⟩
    by_cases hc : c = '\\'
    · -- a backslash with nothing behind it
      obtain rfl := hback hc
      obtain rfl := describes_nil_iff.1 hs
      rw [hc]
      exact .backslash
    · exact .plain ⟨hstar, hquestion, hc⟩ hs

end Describes

/-! ### Items of a body -/

section Items

variable {is : List Item} {s : List Char}

theorem spells_literal_iff {c : Char} : Spells (.literal c :: is) s ↔ ∃ t, s = c :: t ∧ Spells is t := by
  rw [Item.literal, spells_one_iff]
  constructor
  · rintro ⟨d, t, rfl, hd, hs⟩
    obtain rfl := (CharSet.mem_single c d).1 hd
    exact ⟨t, rfl, hs⟩
  · rintro ⟨t, rfl, hs⟩
    exact ⟨c, t, rfl, (CharSet.mem_single c c).2 rfl, hs⟩

theorem forall_mem_allBut_iff {u : List Char} {c : Char} :
    (∀ d ∈ u, (CharSet.allBut c).mem d = true) ↔ c ∉ u := by
  simp only [CharSet.mem_allBut]
  exact ⟨fun h hc => h c hc rfl, fun h d hd he => h (he ▸ hd)⟩

/-- The item of `**/` takes nothing, or a text without newlines up to a slash. -/
theorem spells_directories_iff :
    Spells (.directories :: is) s ↔ Spells is s ∨ ∃ u t, s = u ++ '/' :: t ∧ '\n' ∉ u ∧ Spells is t := by
  rw [Item.directories, spells_optional_iff]
  refine or_congr_right ?_
  show Spells (.piece (.many (.allBut '\n')) :: .literal '/' :: is) s ↔ _
  rw [spells_many_iff]
  constructor
  · -- the text is what the many take, and the slash comes behind it
    rintro ⟨u, r, rfl, hu, hs⟩
    obtain ⟨t, rfl, ht⟩ := spells_literal_iff.1 hs
    exact ⟨u, t, rfl, forall_mem_allBut_iff.1 hu, ht⟩
  · rintro ⟨u, t, rfl, hu, ht⟩
    exact ⟨u, _, rfl, forall_mem_allBut_iff.2 hu, spells_literal_iff.2 ⟨t, rfl, ht⟩⟩

end Items

/-- Whether items spell what a body describes, as far as there is no newline. -/
def Renders (is : List Item) (body : List Char) : Prop :=
  ∀ s, '\n' ∉ s → (Spells is s ↔ Describes body s)

namespace Renders

variable {is : List Item} {r : List Char} {c : Char}

theorem nil : Renders [] [] := fun _ _ => spells_nil_iff.trans describes_nil_iff.symm

/-- The item of `**/` renders it. -/
theorem directories (h : Renders is r) : Renders (.directories :: is) ('*' :: '*' :: '/' :: r) := by
  intro s hs
  rw [spells_directories_iff, describes_directories_iff, h s hs]
  refine or_congr_right (exists_congr fun u => exists_congr fun t => and_congr_right ?_)
  rintro rfl
  rw [h t fun hn => hs (List.mem_append_right _ (List.mem_cons_of_mem _ hn))]
  exact and_iff_right fun hn => hs (List.mem_append_left _ hn)

/-- The item of `**` renders it. -/
theorem anything (h : Renders is r) (hr : r.head? ≠ some '/') :
    Renders (.anything :: is) ('*' :: '*' :: r) := by
  intro s hs
  rw [Item.anything, spells_many_iff, describes_anything_iff hr]
  refine exists_congr fun u => exists_congr fun t => and_congr_right ?_
  rintro rfl
  rw [forall_mem_allBut_iff, h t fun hn => hs (List.mem_append_right _ hn)]
  -- nothing stops at a newline where there is none
  exact and_iff_right fun hn => hs (List.mem_append_left _ hn)

theorem namePart (h : Renders is r) (hr : r.head? ≠ some '*') : Renders (.namePart :: is) ('*' :: r) := by
  intro s hs
  rw [Item.namePart, spells_many_iff, describes_namePart_iff hr]
  refine exists_congr fun u => exists_congr fun t => and_congr_right ?_
  rintro rfl
  rw [forall_mem_allBut_iff, h t fun hn => hs (List.mem_append_right _ hn)]

theorem nameChar (h : Renders is r) : Renders (.nameChar :: is) ('?' :: r) := by
  intro s hs
  rw [Item.nameChar, spells_one_iff, describes_nameChar_iff]
  refine exists_congr fun d => exists_congr fun t => and_congr_right ?_
  rintro rfl
  rw [CharSet.mem_allBut, h t fun hn => hs (List.mem_cons_of_mem _ hn)]

/-- A plain character stands where the body asks for that character. -/
theorem literal (h : Renders is r) {body : List Char}
    (hbody : ∀ s, Describes body s ↔ ∃ t, s = c :: t ∧ Describes r t) :
    Renders (.literal c :: is) body := by
  intro s hs
  rw [spells_literal_iff, hbody]
  refine exists_congr fun t => and_congr_right ?_
  rintro rfl
  exact h t fun hn => hs (List.mem_cons_of_mem _ hn)

end Renders

/-- **Translating a body**: without bracket classes the translation is read as items that spell what the body
describes. The induction is along the translation, where every sign of the body costs at least one unit of
fuel. -/
theorem exists_reads (fuel : Nat) (body : List Char) (hfuel : body.length ≤ fuel) (hbracket : '[' ∉ body) :
    ∃ is, Reads (translateSigns fuel body) is ∧ Renders is body := by
  fun_induction translateSigns fuel body with
  | case1 => exact ⟨[], .nil, .nil⟩
  | case2 c r => exact absurd hfuel (Nat.not_succ_le_zero _)
  | case3 fuel r ih =>
    obtain ⟨is, hread, h⟩ := ih (by grind) (by grind)
    exact ⟨_, Writes.directories.cons hread, h.directories⟩
  | case4 fuel r hr ih =>
    obtain ⟨is, hread, h⟩ := ih (by grind) (by grind)
    have hhead : r.head? ≠ some '/' := fun he => (List.head?_eq_some_iff.1 he).elim hr
    exact ⟨_, Writes.anything.cons hread, h.anything hhead⟩
  | case5 fuel r _ hr ih =>
    obtain ⟨is, hread, h⟩ := ih (by grind) (by grind)
    have hhead : r.head? ≠ some '*' := fun he => (List.head?_eq_some_iff.1 he).elim hr
    exact ⟨_, Writes.namePart.cons hread, h.namePart hhead⟩
  | case6 fuel r ih =>
    obtain ⟨is, hread, h⟩ := ih (by grind) (by grind)
    exact ⟨_, Writes.nameChar.cons hread, h.nameChar⟩
  | case7 fuel c r ih =>
    obtain ⟨is, hread, h⟩ := ih (by grind) (by grind)
    exact ⟨_, (Writes.literal c).cons hread, h.literal fun _ => describes_escaped_iff⟩
  | case8 => exact absurd List.mem_cons_self hbracket
  | case9 => exact absurd List.mem_cons_self hbracket
  | case10 fuel c r _ _ hstar hquestion hback _ ih =>
    obtain ⟨is, hread, h⟩ := ih (by grind) (by grind)
    have hlast : c = '\\' → r = [] := by
      intro hc
      cases r with
      | nil => rfl
      | cons d r => exact (hback d r hc rfl).elim
    exact ⟨_, (Writes.literal c).cons hread, h.literal fun _ => describes_plain_iff hstar hquestion hlast⟩

/-! ### Rules -/

namespace Rule

/-- **How a rule is written**: a mark, a slash at the front, the body, a slash at the end, and the end of a line,
where all but the body may be missing. The mark is an exclamation mark, or a backslash that makes one plain. -/
def Shape.IsWritten (s : Shape) (raw : List Char) : Prop :=
  ∃ mark front ending,
    raw = mark ++ (front ++ s.body ++ if s.directoryOnly then ['/'] else []) ++ ending ∧
    (mark = ['!'] ∧ s.negated = true ∨ mark = ['\\'] ∧ s.negated = false ∧ s.body.head? = some '!' ∨
      mark = [] ∧ s.negated = false) ∧
    (front = [] ∨ front = ['/']) ∧
    (∀ c ∈ ending, c = '\r' ∨ c = '\n') ∧
    (s.anchored = true ↔ front = ['/'] ∨ '/' ∈ s.body)

/-- Whether a text is a path or, if the rule holds at any depth, an end of the path behind a slash. -/
def Shape.Reaches (s : Shape) (path part : List Char) : Prop :=
  part = path ∨ s.anchored = false ∧ ∃ u, path = u ++ '/' :: part

/-- A slash at the front is taken off. -/
theorem exists_front (text : List Char) :
    ∃ front, text = front ++ (if text.head? = some '/' then text.drop 1 else text) ∧
      (front = [] ∨ front = ['/']) ∧ (text.head? = some '/' ↔ front = ['/']) := by
  by_cases h : text.head? = some '/'
  · obtain ⟨rest, rfl⟩ := List.head?_eq_some_iff.1 h
    exact ⟨['/'], rfl, Or.inr rfl, iff_of_true rfl rfl⟩
  · exact ⟨[], by rw [if_neg h]; rfl, Or.inl rfl, iff_of_false h nofun⟩

/-- A slash at the end is taken off, and what it is taken off from starts as before. -/
theorem append_slash {text rest : List Char} {only : Bool}
    (honly : (decide (1 < text.length) && decide (text.getLast? = some '/')) = only)
    (hrest : (if only then text.dropLast else text) = rest) :
    text = rest ++ (if only then ['/'] else []) ∧ rest.head? = text.head? := by
  cases only with
  | true =>
    -- the rule is for directories, and the slash at its end is not part of the rest
    obtain ⟨hlength, hlast⟩ := Bool.and_eq_true_iff.1 honly
    obtain ⟨l, rfl⟩ := List.getLast?_eq_some_iff.1 (of_decide_eq_true hlast)
    rw [if_pos rfl, List.dropLast_concat] at hrest
    subst hrest
    refine ⟨rfl, ?_⟩
    cases l with
    | nil => exact absurd hlength (by decide)
    | cons c l => rfl
  | false =>
    -- there is no slash to be taken off
    rw [if_neg Bool.false_ne_true] at hrest
    exact ⟨by rw [hrest, if_neg Bool.false_ne_true, List.append_nil], by rw [hrest]⟩

/-- The parts of a rule whose mark has been taken off, put together again. -/
theorem Shape.exists_front_ofUnmarked (negated : Bool) (text : List Char) :
    ∃ front, text = front ++ (ofUnmarked negated text).body ++
        (if (ofUnmarked negated text).directoryOnly then ['/'] else []) ∧
      (front = [] ∨ front = ['/']) ∧
      ((ofUnmarked negated text).anchored = true ↔ front = ['/'] ∨ '/' ∈ (ofUnmarked negated text).body) ∧
      (text.head? = some '!' → (ofUnmarked negated text).body.head? = some '!') := by
  -- the rest is the rule without the slash at its end
  obtain ⟨rest, hrest⟩ : ∃ rest,
      (if (ofUnmarked negated text).directoryOnly then text.dropLast else text) = rest := ⟨_, rfl⟩
  have hbody : (ofUnmarked negated text).body = if rest.head? = some '/' then rest.drop 1 else rest := by
    rw [← hrest]
    rfl
  have hanchored : (ofUnmarked negated text).anchored =
      (decide (rest.head? = some '/') || (ofUnmarked negated text).body.contains '/') := by
    rw [← hrest]
    rfl
  have honly : (decide (1 < text.length) && decide (text.getLast? = some '/')) =
      (ofUnmarked negated text).directoryOnly := rfl
  -- taken off are first the slash at the end and then the one at the front
  obtain ⟨hslash, hhead⟩ := append_slash honly hrest
  obtain ⟨front, hfront, hfronts, hiff⟩ := exists_front rest
  refine ⟨front, ?_, hfronts, ?_, fun hmark => ?_⟩
  · rw [hbody, ← hfront]
    exact hslash
  · rw [hanchored, Bool.or_eq_true, decide_eq_true_iff, List.contains_iff_mem, hiff]
  · -- what starts with an exclamation mark does not start with a slash
    rw [hbody, if_neg (by rw [hhead, hmark]; decide), hhead, hmark]

/-- The parts of a rule, put together again, are the rule. -/
theorem isWritten_shape (raw : List Char) : (shape raw).IsWritten raw := by
  -- what ends the line is taken off first
  obtain ⟨ending, hraw, hending⟩ : ∃ ending, raw = lineOf raw ++ ending ∧ ∀ c ∈ ending, c = '\r' ∨ c = '\n' := by
    refine ⟨(raw.reverse.takeWhile fun c => c = '\r' || c = '\n').reverse, ?_, fun c hc => ?_⟩
    · rw [lineOf, ← List.reverse_append, List.takeWhile_append_dropWhile, List.reverse_reverse]
    · have := List.all_takeWhile (l := raw.reverse) (p := fun c => c = '\r' || c = '\n')
      simpa using List.all_eq_true.1 this c (List.mem_reverse.1 hc)
  rw [shape]
  split
  · next hmark =>
    -- the rule takes files back
    obtain ⟨rest, hline⟩ := List.head?_eq_some_iff.1 hmark
    obtain ⟨front, htext, hfront, hanchored, -⟩ := Shape.exists_front_ofUnmarked true ((lineOf raw).drop 1)
    rw [hline] at hraw htext hanchored ⊢
    refine ⟨['!'], front, ending, ?_, Or.inl ⟨rfl, rfl⟩, hfront, hending, hanchored⟩
    rw [← htext, hraw]
    rfl
  · split
    · next hmark =>
      -- a backslash makes the exclamation mark plain, and the body starts with it
      obtain ⟨rest, hline⟩ := List.isPrefixOf_iff_prefix.1 hmark
      obtain ⟨front, htext, hfront, hanchored, hbody⟩ :=
        Shape.exists_front_ofUnmarked false ((lineOf raw).drop 1)
      rw [← hline] at hraw htext hanchored hbody ⊢
      refine ⟨['\\'], front, ending, ?_, Or.inr (Or.inl ⟨rfl, rfl, hbody rfl⟩), hfront, hending, hanchored⟩
      rw [← htext, hraw]
      rfl
    · -- the rule has no mark
      obtain ⟨front, htext, hfront, hanchored, -⟩ := Shape.exists_front_ofUnmarked false (lineOf raw)
      refine ⟨[], front, ending, ?_, Or.inr (Or.inr ⟨rfl, rfl⟩), hfront, hending, hanchored⟩
      rw [← htext, List.nil_append, ← hraw]

end Rule

/-- A bare path is made of characters of the path. -/
theorem mem_of_mem_bareRelative {c : Char} {path : List Char} (h : c ∈ Chars.bareRelative path) : c ∈ path := by
  have hhere : ∀ s, Chars.dropHere s <:+ s := by
    intro s
    fun_induction Chars.dropHere s with
    | case1 r ih => exact ih.trans ((List.suffix_cons '/' r).trans (List.suffix_cons '.' _))
    | case2 s _ => exact List.suffix_refl s
  -- every step leaves a part of the path
  rw [Chars.bareRelative, Chars.stripBoth, List.mem_reverse] at h
  have hback := List.mem_reverse.1 ((List.dropWhile_sublist _).mem h)
  exact (hhere path).mem ((List.dropWhile_sublist _).mem hback)

namespace Rule

/-- The expression of a rule without bracket classes, as it is read. -/
theorem exists_readExpression? {s : Shape} (hbracket : '[' ∉ s.body) :
    ∃ is, readExpression? s.expression = some (if s.anchored then is else .directories :: is) ∧
      Renders is s.body := by
  obtain ⟨is, hread, hrenders⟩ := exists_reads _ s.body (Nat.le_refl _) hbracket
  refine ⟨is, ?_, hrenders⟩
  unfold Shape.expression
  cases s.anchored with
  | true => exact hread.readExpression?
  | false => exact (Writes.anyDirectories.cons hread).readExpression?

/-- The items of a rule that holds at any depth are matched against the ends of a path. -/
theorem spells_compiled_iff {s : Shape} {is : List Item} (h : Renders is s.body) {path : List Char}
    (hpath : '\n' ∉ path) :
    Spells (if s.anchored then is else .directories :: is) path ↔
      ∃ part, s.Reaches path part ∧ Describes s.body part := by
  unfold Shape.Reaches
  cases s.anchored with
  | true =>
    -- an anchored rule is matched against the whole path
    rw [if_pos rfl, h path hpath]
    constructor
    · intro hs
      exact ⟨path, Or.inl rfl, hs⟩
    · rintro ⟨part, rfl | ⟨hanchored, -⟩, hs⟩
      · exact hs
      · cases hanchored
  | false =>
    -- any other rule is matched against the path and the ends of it
    rw [if_neg Bool.false_ne_true, spells_directories_iff, h path hpath]
    constructor
    · rintro (hs | ⟨u, part, rfl, -, hs⟩)
      · exact ⟨path, Or.inl rfl, hs⟩
      · -- a newline in the end of a path would be one of the path
        refine ⟨part, Or.inr ⟨rfl, u, rfl⟩, (h part fun hn => hpath ?_).1 hs⟩
        exact List.mem_append_right _ (List.mem_cons_of_mem _ hn)
    · rintro ⟨part, rfl | ⟨-, u, rfl⟩, hs⟩
      · exact Or.inl hs
      · -- nor is there one in what stands before the end
        refine Or.inr ⟨u, part, rfl, fun hn => hpath (List.mem_append_left _ hn), (h part fun hn => hpath ?_).2 hs⟩
        exact List.mem_append_right _ (List.mem_cons_of_mem _ hn)

/-- **A rule matches what its body describes.** A rule without bracket classes matches a path without newlines
exactly if it holds for what the path leads to and its body describes the bare path or, if the rule is not
anchored, an end of it behind a slash. -/
theorem isMatch_iff_describes (raw path : String) (isDirectory : Bool)
    (hbracket : '[' ∉ (shape raw.toList).body) (hpath : '\n' ∉ path.toList) :
    (shape raw.toList).IsWritten raw.toList ∧
      ((compile raw).isMatch path isDirectory = true ↔
        ((shape raw.toList).directoryOnly = true → isDirectory = true) ∧
          ∃ part, (shape raw.toList).Reaches (Chars.bareRelative path.toList) part ∧
            Describes (shape raw.toList).body part) := by
  refine ⟨isWritten_shape raw.toList, ?_⟩
  obtain ⟨is, hread, hrenders⟩ := exists_readExpression? hbracket
  have hbare : '\n' ∉ Chars.bareRelative path.toList := fun h => hpath (mem_of_mem_bareRelative h)
  -- without bracket classes there is an expression to match with
  have hmatcher : (compile raw).matcher =
      .expression (if (shape raw.toList).anchored then is else .directories :: is) := by
    simp only [compile, hread]
  rw [isMatch, hmatcher, Bool.and_eq_true, accepts_iff, spells_compiled_iff hrenders hbare]
  refine and_congr_left' ?_
  show (!(shape raw.toList).directoryOnly || isDirectory) = true ↔ _
  cases (shape raw.toList).directoryOnly <;> simp

/-! A rule with a sign of every kind, which takes back a directory. -/

theorem isMatch_takenBack :
    '[' ∉ (shape "!a/**/*.?\\*/".toList).body ∧ '\n' ∉ "./a/b/c/x.y*/".toList ∧
      (compile "!a/**/*.?\\*/").isMatch "./a/b/c/x.y*/" true = true := by
  have hbracket : '[' ∉ (shape "!a/**/*.?\\*/".toList).body := by decide +kernel
  have hpath : '\n' ∉ "./a/b/c/x.y*/".toList := by decide +kernel
  have hbody : (shape "!a/**/*.?\\*/".toList).body = ['a', '/', '*', '*', '/', '*', '.', '?', '\\', '*'] := by
    decide +kernel
  have hbare : Chars.bareRelative "./a/b/c/x.y*/".toList = ['a', '/', 'b', '/', 'c', '/', 'x', '.', 'y', '*'] := by
    decide +kernel
  have hdescribes : Describes ['a', '/', '*', '*', '/', '*', '.', '?', '\\', '*']
      ['a', '/', 'b', '/', 'c', '/', 'x', '.', 'y', '*'] := by
    refine .plain (by decide) (.plain (by decide) (.descend ['b', '/', 'c'] ?_))
    refine .namePart (u := ['x']) (by decide) (by decide) (.plain (by decide) ?_)
    exact .nameChar (by decide) (.escaped '*' .nil)
  refine ⟨hbracket, hpath, (isMatch_iff_describes _ _ true hbracket hpath).2.2 ⟨fun _ => rfl, _, Or.inl hbare.symm, ?_⟩⟩
  rw [hbody]
  exact hdescribes

end Rule

end CodeSearch.Glob
