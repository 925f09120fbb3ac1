import CodeSearch.Proofs.Glob.Separators
import CodeSearch.Proofs.Paths
import Mathlib.Data.List.Basic

/-!
# Rules for names

A rule without slashes, but for one at its end, is about names, wherever they stand. It is not quite true that such a
rule matches a path if and only if it matches the last name of it: the directories before that name are taken by a way
down, and a way down does not go past a newline, although all signs for parts of names do.

* `Text.bare_join`, `Text.bareRelative_join` — a path that is made of names is bare, unless the first name is a dot;
* `Rule.Shape.ofUnmarked_of_names` — the rule is not anchored, and there is no slash in its body;
* `Rule.exists_items_of_names` — so what its body spells is a name;
* `Rule.isMatch_below_iff` — the rule matches a name below some directories exactly if it matches the name and there
  is no newline in the directories.
-/

namespace CodeSearch

/-! ### Paths made of names -/

namespace Chars

theorem dropHere_eq_self {s : List Char} (hhere : ¬['.', '/'] <+: s) : dropHere s = s := by
  fun_cases dropHere s with
  | case1 r => exact absurd ⟨r, rfl⟩ hhere
  | case2 => rfl

/-- A text that neither starts nor ends with a slash has none to be stripped. -/
theorem stripBoth_slash_eq_self {s : List Char} (hhead : s.head? ≠ some '/') (hlast : s.getLast? ≠ some '/') :
    stripBoth (· = '/') s = s := by
  have hstart : s.dropWhile (· = '/') = s := List.dropWhile_beq_eq_self_of_head?_ne hhead
  have hend : s.reverse.dropWhile (· = '/') = s.reverse :=
    List.dropWhile_beq_eq_self_of_head?_ne (by rwa [List.head?_reverse])
  rw [stripBoth, hstart, hend, List.reverse_reverse]

/-- A text that starts neither with `./` nor with a slash, and does not end with one, is bare. -/
theorem bareRelative_eq_self {s : List Char} (hhere : ¬['.', '/'] <+: s) (hhead : s.head? ≠ some '/')
    (hlast : s.getLast? ≠ some '/') : bareRelative s = s := by
  rw [bareRelative, dropHere_eq_self hhere, stripBoth_slash_eq_self hhead hlast]

/-- A text without slashes is bare. -/
theorem bareRelative_of_not_mem {s : List Char} (h : '/' ∉ s) : bareRelative s = s :=
  bareRelative_eq_self (fun hhere => h (hhere.mem (by decide))) (fun hhead => h (List.mem_of_head? hhead))
    fun hlast => h (List.mem_of_getLast? hlast)

end Chars

namespace Text

section Joining

variable {names : List String} {name : String}

/-- The last of some names comes behind a slash. -/
theorem toList_join_concat (hne : names ≠ []) (name : String) :
    (join "/" (names ++ [name])).toList = (join "/" names).toList ++ '/' :: name.toList := by
  rw [join_append hne (List.cons_ne_nil _ _), String.toList_append, String.toList_append, List.append_assoc]
  rfl

/-- There are no characters in joined names but those of the names and slashes. -/
theorem mem_toList_join_iff {c : Char} (hc : c ≠ '/') :
    c ∈ (join "/" names).toList ↔ ∃ name ∈ names, c ∈ name.toList := by
  induction names with
  | nil => simp [join]
  | cons name names ih =>
    by_cases hnames : names = []
    · subst hnames
      simp [join]
    · -- what is joined are the first name, a slash and the other names
      have hslash : ("/" : String).toList = ['/'] := rfl
      rw [join_cons hnames, String.toList_append, String.toList_append, List.mem_append, List.mem_append, ih, hslash]
      simp [hc]

/-- What is made of names starts neither with `./` nor with a slash, whatever comes behind it, and does not end with a
slash, unless the first name is a dot. -/
theorem bare_join (hne : names ≠ []) (hnames : ∀ n ∈ names, n ≠ "" ∧ '/' ∉ n.toList)
    (hfirst : names.head? ≠ some ".") :
    (∀ t, ¬['.', '/'] <+: (join "/" names).toList ++ t) ∧ (join "/" names).toList.head? ≠ some '/' ∧
      (join "/" names).toList.getLast? ≠ some '/' := by
  have hstart : (∀ t, ¬['.', '/'] <+: (join "/" names).toList ++ t) ∧
      (join "/" names).toList.head? ≠ some '/' := by
    obtain ⟨first, more, rfl⟩ := List.exists_cons_of_ne_nil hne
    obtain ⟨hempty, hslash⟩ := hnames first List.mem_cons_self
    -- the text starts with the first name
    obtain ⟨r, hr⟩ : ∃ r, (join "/" (first :: more)).toList = first.toList ++ r := by
      by_cases hmore : more = []
      · subst hmore
        exact ⟨[], (List.append_nil _).symm⟩
      · rw [join_cons hmore, String.toList_append, String.toList_append, List.append_assoc]
        exact ⟨_, rfl⟩
    obtain ⟨c, t, hfirstlist⟩ := List.exists_cons_of_ne_nil (mt String.toList_eq_nil_iff.1 hempty)
    rw [hfirstlist] at hslash hr
    rw [hr]
    constructor
    · -- only a dot for the first name would make it start with `./`
      rintro u ⟨rest, hrest⟩
      obtain ⟨rfl, htail⟩ := List.cons.inj hrest
      cases t with
      | nil => exact hfirst (congrArg some (String.toList_inj.1 hfirstlist))
      | cons d t =>
        obtain ⟨rfl, -⟩ := List.cons.inj htail
        simp at hslash
    · exact fun he => hslash (Option.some.inj he ▸ List.mem_cons_self)
  refine ⟨hstart.1, hstart.2, ?_⟩
  obtain ⟨before, name, rfl⟩ := (List.eq_nil_or_concat' names).resolve_left hne
  obtain ⟨hempty, hslash⟩ := hnames name (List.mem_append_right _ (List.mem_singleton_self name))
  -- and it ends with the last one
  obtain ⟨u, hu⟩ : ∃ u, (join "/" (before ++ [name])).toList = u ++ name.toList := by
    by_cases hbefore : before = []
    · subst hbefore
      exact ⟨[], rfl⟩
    · exact ⟨(join "/" before).toList ++ ['/'], by rw [toList_join_concat hbefore, List.append_assoc]; rfl⟩
  rw [hu, List.getLast?_append_of_ne_nil _ (mt String.toList_eq_nil_iff.1 hempty)]
  exact fun he => hslash (List.mem_of_getLast? he)

/-- **A path that is made of names is bare**, unless it starts with a dot. -/
theorem bareRelative_join (hne : names ≠ []) (hnames : ∀ n ∈ names, n ≠ "" ∧ '/' ∉ n.toList)
    (hfirst : names.head? ≠ some ".") (hname : name ≠ "" ∧ '/' ∉ name.toList) :
    Chars.bareRelative (join "/" (names ++ [name])).toList =
      (join "/" names).toList ++ '/' :: name.toList := by
  have hall : ∀ n ∈ names ++ [name], n ≠ "" ∧ '/' ∉ n.toList :=
    List.forall_mem_append.2 ⟨hnames, List.forall_mem_singleton.2 hname⟩
  -- more names do not change the first one
  have hhead : (names ++ [name]).head? ≠ some "." := by rwa [List.head?_append_of_ne_nil _ hne]
  obtain ⟨hhere, hslash, hlast⟩ := bare_join (List.append_ne_nil_of_left_ne_nil hne _) hall hhead
  rw [← toList_join_concat hne]
  refine Chars.bareRelative_eq_self ?_ hslash hlast
  rw [← List.append_nil (join "/" (names ++ [name])).toList]
  exact hhere []

end Joining

end Text

namespace Glob

/-! ### What globs for names spell -/

section Spelling

variable {ss : List Sign} {is : List Item} {s : List Char}

/-- Signs that are no classes can be read. -/
theorem exists_items (h : ∀ text, .bracket text ∉ ss) : ∃ is, ss.mapM Sign.item? = some is := by
  induction ss with
  | nil => exact ⟨[], rfl⟩
  | cons sign ss ih =>
    obtain ⟨is, his⟩ := ih fun text htext => h text (List.mem_cons_of_mem _ htext)
    obtain ⟨i, hi⟩ : ∃ i, sign.item? = some i := by
      cases sign with
      | bracket text => exact absurd List.mem_cons_self (h text)
      | _ => exact ⟨_, rfl⟩
    exact ⟨i :: is, by rw [List.mapM_cons, hi, his]; rfl⟩

/-- **What a glob without slashes, `**` and classes spells** has no slashes. -/
theorem exists_items_spelling_names {glob : List Char} (hslash : '/' ∉ glob) (hstars : ¬['*', '*'] <:+: glob)
    (hbracket : '[' ∉ glob) :
    ∃ is, (signs glob).mapM Sign.item? = some is ∧ ∀ s, Spells is s → '/' ∉ s := by
  -- the signs are those written in the glob, so there is no class among them
  have hwritten := areWritten_signs glob
  have hclasses : ∀ text, .bracket text ∉ signs glob := by
    intro text htext
    obtain ⟨t, ht, hwithin⟩ := hwritten.exists_written htext
    cases ht with
    | bracket _ => exact hbracket (hwithin.mem (by simp))
  have hname : ∀ sign ∈ signs glob, sign.InName := fun _ => hwritten.inName hstars
  -- without classes every sign has an item
  obtain ⟨is, his⟩ := exists_items hclasses
  refine ⟨is, his, fun s hs => ?_⟩
  -- there is no slash in the glob, and no class that could take another one
  obtain ⟨-, hmost⟩ := count_slash_of_spells his hname hs
  have hslashes : (signs glob).countP Sign.isSlash = 0 := by
    rw [hwritten.countP_isSlash hname fun text htext => absurd htext (hclasses text), List.count_eq_zero]
    exact hslash
  -- no sign is a class that holds a slash
  have hholds : (signs glob).countP Sign.holdsSlash = 0 := by
    have hnone : classes glob = [] :=
      List.eq_nil_iff_forall_not_mem.2 fun text htext => hclasses text (bracket_mem_of_mem_classes htext)
    rw [countP_holdsSlash, hnone]
    rfl
  rw [hslashes, hholds] at hmost
  exact List.count_eq_zero.1 (Nat.le_zero.1 hmost)

/-- A way down takes all that is before a name, as long as there is no newline in it. -/
theorem spells_below_iff (hspells : ∀ s, Spells is s → '/' ∉ s) {u name : List Char} (hname : '/' ∉ name) :
    Spells (.directories :: is) (u ++ '/' :: name) ↔ '\n' ∉ u ∧ Spells (.directories :: is) name := by
  -- there is only one slash that can be meant, the last one of the text
  have hbelow : Spells (.directories :: is) (u ++ '/' :: name) ↔ '\n' ∉ u ∧ Spells is name := by
    rw [spells_directories_iff]
    constructor
    · rintro (hs | ⟨v, t, hcut, hv, ht⟩)
      · -- the items alone spell no text with a slash
        exact absurd (by simp) (hspells _ hs)
      · obtain ⟨rfl, rfl⟩ := Chars.eq_of_append_cons_last hname (hspells t ht) hcut
        exact ⟨hv, ht⟩
    · rintro ⟨hu, hs⟩
      exact Or.inr ⟨u, name, rfl, hu, hs⟩
  -- in front of a name without slashes there is no way down
  have hself : Spells (.directories :: is) name ↔ Spells is name := by
    rw [spells_directories_iff]
    refine or_iff_left ?_
    rintro ⟨v, t, rfl, -⟩
    exact hname (by simp)
  rw [hbelow, hself]

end Spelling

/-! ### Rules for names -/

namespace Rule

/-- A rule is what is left of its line without the mark at its start. -/
theorem exists_ofUnmarked (raw : List Char) :
    ∃ mark negated text, lineOf raw = mark ++ text ∧ shape raw = .ofUnmarked negated text := by
  rw [shape]
  split
  · next hmark =>
    -- an exclamation mark takes back
    obtain ⟨r, hr⟩ := List.head?_eq_some_iff.1 hmark
    exact ⟨['!'], true, (lineOf raw).drop 1, by rw [hr]; rfl, rfl⟩
  · split
    · next hmark =>
      -- a backslash before an exclamation mark makes it plain
      obtain ⟨r, hr⟩ := List.isPrefixOf_iff_prefix.1 hmark
      exact ⟨['\\'], false, (lineOf raw).drop 1, by rw [← hr]; rfl, rfl⟩
    · exact ⟨[], false, lineOf raw, rfl, rfl⟩

/-- The glob of a rule stands somewhere in it. -/
theorem body_within (raw : List Char) : (shape raw).body <:+: raw := by
  obtain ⟨mark, front, ending, hraw, -⟩ := isWritten_shape raw
  refine ⟨mark ++ front, (if (shape raw).directoryOnly then ['/'] else []) ++ ending, ?_⟩
  conv_rhs => rw [hraw]
  simp only [List.append_assoc]

/-- A slash that stands at the end of a text only is taken off if there is anything before it. -/
theorem eq_slash_of_mem {text : List Char} (h : '/' ∉ text.dropLast) (hslash : '/' ∈ text)
    (hkept : (decide (1 < text.length) && decide (text.getLast? = some '/')) = false) : text = ['/'] := by
  -- a slash that is not the last character would be one of the text before it
  have hlast : text.getLast? = some '/' := by
    by_contra hne
    exact h (List.mem_dropLast_of_mem_of_ne_getLast? hslash (Ne.symm hne))
  have hlength : ¬1 < text.length := by
    intro hlength
    rw [decide_eq_true hlength, decide_eq_true hlast] at hkept
    cases hkept
  -- the text is not longer than its last character
  obtain ⟨l, hl⟩ := List.getLast?_eq_some_iff.1 hlast
  rw [hl, List.length_append, List.length_singleton] at hlength
  obtain rfl := List.length_eq_zero_iff.1 (show l.length = 0 by omega)
  exact hl

/-- A rule without slashes, but for one at its end, is not anchored, and there is no slash in its body. The one
exception is a single slash. -/
theorem Shape.ofUnmarked_of_names (negated : Bool) {text : List Char} (h : '/' ∉ text.dropLast) :
    text = ['/'] ∨ (ofUnmarked negated text).anchored = false ∧ '/' ∉ (ofUnmarked negated text).body := by
  obtain ⟨front, htext, hfront, hanchored, -⟩ := exists_front_ofUnmarked negated text
  have honly : (ofUnmarked negated text).directoryOnly =
      (decide (1 < text.length) && decide (text.getLast? = some '/')) := rfl
  obtain ⟨body, hbody⟩ : ∃ body, (ofUnmarked negated text).body = body := ⟨_, rfl⟩
  rw [hbody] at htext hanchored ⊢
  rcases hfront with rfl | rfl
  · -- a rule that is not anchored has no slash at its front and none in its body
    have hfree : '/' ∉ body → (ofUnmarked negated text).anchored = false := fun hslash =>
      Bool.eq_false_iff.2 fun h => (hanchored.1 h).elim nofun hslash
    cases hdirectory : (ofUnmarked negated text).directoryOnly with
    | true =>
      -- the slash at the end is not part of the body
      rw [hdirectory, if_pos rfl, List.nil_append] at htext
      rw [htext, List.dropLast_concat] at h
      exact Or.inr ⟨hfree h, h⟩
    | false =>
      rw [hdirectory, if_neg Bool.false_ne_true, List.nil_append, List.append_nil] at htext
      -- if the slash at the end is kept, there is nothing before it
      by_cases hslash : '/' ∈ body
      · exact Or.inl (eq_slash_of_mem h (htext ▸ hslash) (honly.symm.trans hdirectory))
      · exact Or.inr ⟨hfree hslash, hslash⟩
  · -- with a slash at the front there can be nothing behind it
    rw [List.append_assoc, List.singleton_append] at htext
    left
    by_cases hrest : body ++ (if (ofUnmarked negated text).directoryOnly then ['/'] else []) = []
    · rw [htext, hrest]
    · rw [htext, List.dropLast_cons_of_ne_nil hrest] at h
      exact absurd List.mem_cons_self h

/-- **How a rule for names is read**: as items that spell nothing but names, or as none if the rule is a single
slash. -/
theorem exists_items_of_names {raw : List Char} (hslash : '/' ∉ (lineOf raw).dropLast)
    (hstars : ¬['*', '*'] <:+: raw) (hbracket : '[' ∉ raw) :
    ∃ is, (shape raw).items? = some is ∧
      ((shape raw).anchored = true ∧ is = [] ∨ (shape raw).anchored = false ∧ ∀ s, Spells is s → '/' ∉ s) := by
  obtain ⟨mark, negated, text, hline, hshape⟩ := exists_ofUnmarked raw
  have hwithin := body_within raw
  have htext : '/' ∉ text.dropLast := by
    intro h
    have hne : text ≠ [] := fun he => by simp [he] at h
    rw [hline, List.dropLast_append_of_ne_nil hne] at hslash
    exact hslash (List.mem_append_right _ h)
  rcases Shape.ofUnmarked_of_names negated htext with rfl | ⟨hfree, hbody⟩
  · -- a single slash has no items
    rw [hshape]
    exact ⟨[], rfl, Or.inl ⟨rfl, rfl⟩⟩
  · -- the body of any other rule spells names
    rw [← hshape] at hfree hbody
    obtain ⟨is, his, hspells⟩ :=
      exists_items_spelling_names hbody (fun h => hstars (h.trans hwithin)) fun h => hbracket (hwithin.mem h)
    exact ⟨is, his, Or.inr ⟨hfree, hspells⟩⟩

/-- **A rule for names at any depth.** A rule without slashes, but for one at its end, and without `**` and classes
matches a name below some directories exactly if it matches the name and there is no newline in the directories. -/
theorem isMatch_below_iff (raw name : String) (directories : List String) (isDirectory : Bool)
    (hslash : '/' ∉ (lineOf raw.toList).dropLast) (hstars : ¬['*', '*'] <:+: raw.toList) (hbracket : '[' ∉ raw.toList)
    (hname : name ≠ "" ∧ '/' ∉ name.toList) (hne : directories ≠ [])
    (hdirectories : ∀ d ∈ directories, d ≠ "" ∧ '/' ∉ d.toList) (hfirst : directories.head? ≠ some ".") :
    (compile raw).isMatch (Text.join "/" (directories ++ [name])) isDirectory = true ↔
      (∀ d ∈ directories, '\n' ∉ d.toList) ∧ (compile raw).isMatch name isDirectory = true := by
  -- a newline of the directories is one of their joined names
  have hnewline : (∀ d ∈ directories, '\n' ∉ d.toList) ↔ '\n' ∉ (Text.join "/" directories).toList := by
    rw [Text.mem_toList_join_iff (by decide)]
    simp only [not_exists, not_and]
  obtain ⟨is, his, hcases⟩ := exists_items_of_names hslash hstars hbracket
  rw [isMatch_iff_spells his, isMatch_iff_spells his, Text.bareRelative_join hne hdirectories hfirst hname,
    Chars.bareRelative_of_not_mem hname.2, hnewline, and_left_comm]
  refine and_congr_right fun _ => ?_
  rcases hcases with ⟨hanchored, rfl⟩ | ⟨hfree, hspells⟩
  · -- a single slash matches no name at all
    rw [Shape.itemsAt, if_pos hanchored, spells_nil_iff, spells_nil_iff]
    exact iff_of_false (by simp) fun h => hname.1 (String.toList_eq_nil_iff.1 h.2)
  · -- the rule holds at any depth, so the directories before the name do not matter
    rw [Shape.itemsAt, if_neg (by rw [hfree]; exact Bool.false_ne_true)]
    exact spells_below_iff hspells hname.2

/-! A rule with every sign it can have, three directories down. -/

theorem isMatch_below_logs :
    '/' ∉ (lineOf "!l*\\?-?.log/".toList).dropLast ∧ ¬['*', '*'] <:+: "!l*\\?-?.log/".toList ∧
      '[' ∉ "!l*\\?-?.log/".toList ∧
      (compile "!l*\\?-?.log/").isMatch (Text.join "/" (["a.b", "..", "\\ $(c)"] ++ ["lx?-1.log"])) true = true := by
  have hslash : '/' ∉ (lineOf "!l*\\?-?.log/".toList).dropLast := by decide +kernel
  have hstars : ¬['*', '*'] <:+: "!l*\\?-?.log/".toList := by decide +kernel
  have hbracket : '[' ∉ "!l*\\?-?.log/".toList := by decide +kernel
  have hnames : ∀ d ∈ ["a.b", "..", "\\ $(c)"], d ≠ "" ∧ '/' ∉ d.toList := by decide +kernel
  have hname : "lx?-1.log" ≠ "" ∧ '/' ∉ "lx?-1.log".toList := by decide +kernel
  have hmatch : (compile "!l*\\?-?.log/").isMatch "lx?-1.log" true = true := by decide +kernel
  refine ⟨hslash, hstars, hbracket, ?_⟩
  rw [isMatch_below_iff _ _ _ true hslash hstars hbracket hname (List.cons_ne_nil _ _) hnames (by decide +kernel)]
  exact ⟨by decide +kernel, hmatch⟩

/-- A directory with a newline in its name hides a name from a rule that matches it. -/
theorem isMatch_ne_below_newline :
    '/' ∉ (lineOf "x".toList).dropLast ∧ ¬['*', '*'] <:+: "x".toList ∧ '[' ∉ "x".toList ∧
      ("x" ≠ "" ∧ '/' ∉ "x".toList) ∧ (∀ d ∈ ["a\nb"], d ≠ "" ∧ '/' ∉ d.toList) ∧ ["a\nb"].head? ≠ some "." ∧
      (compile "x").isMatch (Text.join "/" (["a\nb"] ++ ["x"])) false = false ∧
      (compile "x").isMatch "x" false = true := by
  decide +kernel

end Rule

end Glob

end CodeSearch
