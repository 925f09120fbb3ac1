import CodeSearch.Proofs.Glob.Signs

/-!
# What goes past a slash

Of the signs of a glob `**` is the one that is made for going past a directory. This module counts the slashes of a
path that an anchored rule without `**` matches. `*`, `?` and classes that only list characters never take one, but
a negated class does (`[!a]`), and so does a class with a range past the slash (`[+-9]`):

* `AreWritten.countP_isSlash` — the slashes of a glob are its signs that stand for one, if there are none in its
  classes;
* `Sign.exists_taken` — what one sign of a name takes off a text, and how many slashes there can be in it;
* `count_slash_of_spells` — so the slashes of a text that is spelled are those of the signs and at most one more for
  each class that holds a slash;
* `Rule.count_slash_of_isMatch` — the same for a rule and a path it matches.
-/

namespace CodeSearch.Glob

/-! ### Slashes of a glob -/

/-- The text of a class, if a sign is one. -/
def Sign.classText? : Sign → Option (List Char)
  | .bracket text => some text
  | _ => none

/-- The bracket classes of a glob, by the text between the brackets. -/
def classes (glob : List Char) : List (List Char) := (signs glob).filterMap Sign.classText?

/-- Whether a class stands for a character. -/
def classHolds (c : Char) (text : List Char) : Bool := (CharSet.ofClass? text).any (·.mem c)

namespace Sign

/-- A sign that takes no more than a name, unlike `**`. -/
def InName (sign : Sign) : Prop := sign ≠ .directories ∧ sign ≠ .anything

/-- Whether a sign stands for a slash. -/
def isSlash (sign : Sign) : Bool := sign = .literal '/'

/-- Whether a sign is a class that stands for a slash, among others. -/
def holdsSlash (sign : Sign) : Bool := sign.classText?.any (classHolds '/')

end Sign

section Counting

variable {ss : List Sign} {glob text : List Char}

theorem bracket_mem_of_mem_classes (h : text ∈ classes glob) : .bracket text ∈ signs glob := by
  obtain ⟨sign, hsign, he⟩ := List.mem_filterMap.1 h
  cases sign with
  | bracket t => exact Option.some.inj he ▸ hsign
  | _ => cases he

theorem mem_classes_of_bracket_mem (h : .bracket text ∈ signs glob) : text ∈ classes glob :=
  List.mem_filterMap.2 ⟨_, h, rfl⟩

/-- There is no sign for any text in a glob without `**`. -/
theorem AreWritten.inName (h : AreWritten ss glob) (hstars : ¬['*', '*'] <:+: glob) {sign : Sign}
    (hsign : sign ∈ ss) : sign.InName := by
  obtain ⟨t, ht, hwithin⟩ := h.exists_written hsign
  refine ⟨?_, ?_⟩
  · rintro rfl
    cases ht with
    | directories => exact hstars (List.IsInfix.trans ⟨[], ['/'], rfl⟩ hwithin)
  · rintro rfl
    cases ht with
    | anything => exact hstars hwithin

/-- **The slashes of a glob** are its signs that stand for one, if there are none in its classes. -/
theorem AreWritten.countP_isSlash (h : AreWritten ss glob) (hname : ∀ sign ∈ ss, sign.InName)
    (hclasses : ∀ text, .bracket text ∈ ss → '/' ∉ text) : ss.countP Sign.isSlash = glob.count '/' := by
  induction h with
  | nil => rfl
  | @cons sign ss t r hsign _ ih =>
    -- the signs behind the first one count by induction
    have hlater := ih (fun s hs => hname s (List.mem_cons_of_mem _ hs))
      fun text htext => hclasses text (List.mem_cons_of_mem _ htext)
    -- of the first sign, only a plain slash counts
    have hfirst : (if sign.isSlash then 1 else 0) = t.count '/' := by
      cases hsign with
      | directories => exact absurd rfl (hname _ List.mem_cons_self).1
      | anything => exact absurd rfl (hname _ List.mem_cons_self).2
      | namePart => rfl
      | nameChar => rfl
      | plain c => simp [Sign.isSlash, List.count_singleton]
      | escaped c => simp [Sign.isSlash, List.count_cons]
      | @bracket text _ =>
        have htext : text.count '/' = 0 := List.count_eq_zero.2 (hclasses text List.mem_cons_self)
        simp [Sign.isSlash, htext]
    rw [List.countP_cons, List.count_append, hfirst, hlater, Nat.add_comm]

theorem countP_holdsSlash (glob : List Char) :
    (signs glob).countP Sign.holdsSlash = (classes glob).countP (classHolds '/') := by
  rw [classes, List.countP_filterMap]
  refine List.countP_congr fun sign _ => ?_
  cases sign <;> exact Iff.rfl

end Counting

/-! ### Slashes of what is spelled -/

section Spelled

variable {sign : Sign} {i : Item} {is : List Item} {s : List Char}

/-- **One sign of a name** takes a slash off a text if it stands for one, and otherwise only if it is a class that holds
one. -/
theorem Sign.exists_taken (hitem : sign.item? = some i) (hname : sign.InName) (hs : Spells (i :: is) s) :
    ∃ u r, s = u ++ r ∧ Spells is r ∧ (if sign.isSlash then 1 else 0) ≤ u.count '/' ∧
      u.count '/' ≤ (if sign.isSlash then 1 else 0) + if sign.holdsSlash then 1 else 0 := by
  cases sign with
  | directories => exact absurd rfl hname.1
  | anything => exact absurd rfl hname.2
  | namePart =>
    -- a part of a name takes no slash
    cases hitem
    obtain ⟨u, r, rfl, hu, hr⟩ := spells_many_iff.1 hs
    have hcount : u.count '/' = 0 := List.count_eq_zero.2 (forall_mem_allBut_iff.1 hu)
    exact ⟨u, r, rfl, hr, Nat.zero_le _, Nat.le_of_eq hcount⟩
  | nameChar =>
    -- nor does a character of a name
    cases hitem
    obtain ⟨c, r, rfl, hc, hr⟩ := spells_one_iff.1 hs
    have hcount : [c].count '/' = 0 := by
      rw [List.count_singleton, if_neg]
      simpa using (CharSet.mem_allBut _ _).1 hc
    exact ⟨[c], r, rfl, hr, Nat.zero_le _, Nat.le_of_eq hcount⟩
  | literal c =>
    -- a character takes itself
    cases hitem
    obtain ⟨r, rfl, hr⟩ := spells_literal_iff.1 hs
    have hcount : [c].count '/' = if (Sign.literal c).isSlash then 1 else 0 := by
      simp [isSlash, List.count_singleton]
    exact ⟨[c], r, rfl, hr, hcount ▸ Nat.le_refl _, hcount ▸ Nat.le_add_right _ _⟩
  | bracket text =>
    -- a class takes one character
    obtain ⟨set, hset, rfl⟩ := Option.map_eq_some_iff.1 hitem
    obtain ⟨c, r, rfl, hc, hr⟩ := spells_one_iff.1 hs
    refine ⟨[c], r, rfl, hr, Nat.zero_le _, ?_⟩
    by_cases hslash : c = '/'
    · -- the character taken is the slash, so the class holds it
      subst hslash
      have hholds : (Sign.bracket text).holdsSlash = true := by
        show (CharSet.ofClass? text).any (·.mem '/') = true
        rw [hset]
        exact hc
      rw [if_pos hholds]
      exact Nat.le_add_left 1 _
    · -- any other character is no slash
      simp [hslash]

/-- **The slashes of a text that signs spell** are those they stand for and at most one more for each class that holds
one. -/
theorem count_slash_of_spells {ss : List Sign} (hitems : ss.mapM Sign.item? = some is)
    (hname : ∀ sign ∈ ss, sign.InName) (hs : Spells is s) :
    ss.countP Sign.isSlash ≤ s.count '/' ∧
      s.count '/' ≤ ss.countP Sign.isSlash + ss.countP Sign.holdsSlash := by
  induction ss generalizing is s with
  | nil =>
    cases hitems
    rw [spells_nil_iff.1 hs]
    exact ⟨Nat.le_refl _, Nat.le_refl _⟩
  | cons sign ss ih =>
    rw [List.mapM_cons] at hitems
    obtain ⟨i, hitem, hitems⟩ := Option.bind_eq_some_iff.1 hitems
    obtain ⟨is', hitems', he⟩ := Option.bind_eq_some_iff.1 hitems
    cases he
    -- what the first sign takes is counted by itself
    obtain ⟨u, r, rfl, hr, hleast, hmost⟩ := Sign.exists_taken hitem (hname sign List.mem_cons_self) hs
    obtain ⟨ihleast, ihmost⟩ := ih hitems' (fun s hs => hname s (List.mem_cons_of_mem _ hs)) hr
    rw [List.countP_cons, List.countP_cons, List.count_append]
    omega

end Spelled

namespace Rule

/-- **What an anchored rule without `**` matches** has the slashes of its body, and at most one more for each of its
classes that stands for the slash. Such a class is negated, or one of its ranges spans the slash. -/
theorem count_slash_of_isMatch (raw path : String) (isDirectory : Bool)
    (hanchored : (compile raw).anchored = true) (hstars : ¬['*', '*'] <:+: (shape raw.toList).body)
    (hclasses : ∀ text ∈ classes (shape raw.toList).body, '/' ∉ text)
    (hmatch : (compile raw).isMatch path isDirectory = true) :
    (shape raw.toList).body.count '/' ≤ (Chars.bareRelative path.toList).count '/' ∧
      (Chars.bareRelative path.toList).count '/' ≤
        (shape raw.toList).body.count '/' + (classes (shape raw.toList).body).countP (classHolds '/') ∧
      ∀ text ∈ classes (shape raw.toList).body, classHolds '/' text = true →
        isNegatedClass text = true ∨ Spans text '/' := by
  obtain ⟨body, hbody⟩ : ∃ body, (shape raw.toList).body = body := ⟨_, rfl⟩
  have hwritten := areWritten_signs body
  have hname : ∀ sign ∈ signs body, sign.InName := fun _ => hwritten.inName (hbody ▸ hstars)
  have hslashes : (signs body).countP Sign.isSlash = body.count '/' :=
    hwritten.countP_isSlash hname fun text htext => hclasses text (hbody ▸ mem_classes_of_bracket_mem htext)
  have hcount : body.count '/' ≤ (Chars.bareRelative path.toList).count '/' ∧
      (Chars.bareRelative path.toList).count '/' ≤ body.count '/' + (classes body).countP (classHolds '/') := by
    cases hitems : (shape raw.toList).items? with
    | none =>
      -- a rule that is taken literally matches its body and nothing else
      obtain ⟨-, hpath | ⟨hfree, -⟩⟩ := (isMatch_iff_literal hitems).1 hmatch
      · rw [hpath, hbody]
        exact ⟨Nat.le_refl _, Nat.le_add_right _ _⟩
      · exact absurd (hanchored.symm.trans hfree) Bool.noConfusion
    | some is =>
      -- the rule is read as signs, and it starts where the path does
      obtain ⟨-, hs⟩ := (isMatch_iff_spells hitems).1 hmatch
      have hall : (shape raw.toList).itemsAt is = is := if_pos hanchored
      rw [hall] at hs
      rw [Shape.items?, hbody] at hitems
      rw [← hslashes, ← countP_holdsSlash]
      exact count_slash_of_spells hitems hname hs
  rw [hbody]
  refine ⟨hcount.1, hcount.2, fun text htext hholds => ?_⟩
  -- a class that is not negated holds the slash only by a range
  obtain ⟨set, hset, hmem⟩ := (Option.any_eq_true _ _).1 hholds
  by_cases hspans : Spans text '/'
  · exact Or.inr hspans
  · exact Or.inl (CharSet.mem_ofClass? hset (hclasses text (hbody ▸ htext)) hspans ▸ hmem)

/-! A negated class takes a slash of the path besides those of the rule. -/

theorem count_slash_of_crossing :
    (compile "src/[a-c]*/?[!x]y").anchored = true ∧ ¬['*', '*'] <:+: (shape "src/[a-c]*/?[!x]y".toList).body ∧
      (∀ text ∈ classes (shape "src/[a-c]*/?[!x]y".toList).body, '/' ∉ text) ∧
      (compile "src/[a-c]*/?[!x]y").isMatch "./src/b1/k/y" false = true ∧
      2 ≤ (Chars.bareRelative "./src/b1/k/y".toList).count '/' ∧
      (Chars.bareRelative "./src/b1/k/y".toList).count '/' ≤ 2 + 1 := by
  have hanchored : (compile "src/[a-c]*/?[!x]y").anchored = true := by decide +kernel
  have hstars : ¬['*', '*'] <:+: (shape "src/[a-c]*/?[!x]y".toList).body := by decide +kernel
  have hclasses : ∀ text ∈ classes (shape "src/[a-c]*/?[!x]y".toList).body, '/' ∉ text := by decide +kernel
  have hmatch : (compile "src/[a-c]*/?[!x]y").isMatch "./src/b1/k/y" false = true := by decide +kernel
  have hbody : (shape "src/[a-c]*/?[!x]y".toList).body.count '/' = 2 := by decide +kernel
  have hholds : (classes (shape "src/[a-c]*/?[!x]y".toList).body).countP (classHolds '/') = 1 := by decide +kernel
  obtain ⟨hleast, hmost, -⟩ := count_slash_of_isMatch _ _ false hanchored hstars hclasses hmatch
  rw [hbody] at hleast hmost
  rw [hholds] at hmost
  exact ⟨hanchored, hstars, hclasses, hmatch, hleast, hmost⟩

/-- A path can have more slashes than the rule that matches it, if there is a negated class in the rule, or a class
with a range that spans the slash. -/
theorem count_slash_ne_of_isMatch :
    ((compile "/x[!a]y").anchored = true ∧ ¬['*', '*'] <:+: (shape "/x[!a]y".toList).body ∧
      (∀ text ∈ classes (shape "/x[!a]y".toList).body, '/' ∉ text) ∧
      (compile "/x[!a]y").isMatch "x/y" false = true ∧
      (Chars.bareRelative "x/y".toList).count '/' ≠ (shape "/x[!a]y".toList).body.count '/') ∧
    ((compile "/x[+-9]y").anchored = true ∧ ¬['*', '*'] <:+: (shape "/x[+-9]y".toList).body ∧
      (∀ text ∈ classes (shape "/x[+-9]y".toList).body, '/' ∉ text) ∧
      (compile "/x[+-9]y").isMatch "x/y" false = true ∧
      (Chars.bareRelative "x/y".toList).count '/' ≠ (shape "/x[+-9]y".toList).body.count '/') := by
  decide +kernel

end Rule

end CodeSearch.Glob
