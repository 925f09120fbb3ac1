import CodeSearch.Text.Lines

/-!
# Texts that are cut and put together

Texts are cut at separators and put together with them. This module says how the two go together, for texts
and for bytes alike:

* `Chars.pieces_append_cons` — a separator cuts, whatever comes before and after it;
* `Chars.pieces_joinPieces`, `Text.pieces_join` — what was joined is found again by cutting;
* `Text.join_pieces` — what was cut is found again by joining;
* `Chars.eq_of_append_cons`, `Chars.eq_of_append_cons_last` — there is one way to cut a text at the first or at
  the last place of a character;
* `toList_toString_inj`, `isDigit_of_mem_toString` — how a number looks in a text.
-/

namespace CodeSearch

namespace Chars

variable {α : Type} [DecidableEq α] {sep : α}

/-- A text without separators is one piece. -/
theorem pieces_of_not_mem {s : List α} (h : sep ∉ s) : pieces sep s = [s] := by
  induction s with
  | nil => rfl
  | cons c s ih =>
    obtain ⟨hc, hs⟩ := not_or.1 (fun hmem => h (List.mem_cons.2 hmem))
    rw [pieces, if_neg (Ne.symm hc), ih hs]

/-- **A separator cuts a text**, whatever comes before and after it. -/
theorem pieces_append_cons (s t : List α) :
    pieces sep (s ++ sep :: t) = pieces sep s ++ pieces sep t := by
  induction s with
  | nil => simp [pieces]
  | cons c s ih =>
    rw [List.cons_append]
    by_cases hc : c = sep
    · -- the separator begins another piece, or else the character goes to the first one
      rw [pieces, if_pos hc, pieces, if_pos hc, ih]
      rfl
    · rw [pieces, if_neg hc, pieces, if_neg hc, ih]
      cases hp : pieces sep s with
      | nil => exact absurd hp (pieces_ne_nil sep s)
      | cons p ps => rfl

/-- There are no separators in a piece. -/
theorem not_mem_of_mem_pieces {s p : List α} (h : p ∈ pieces sep s) : sep ∉ p := by
  induction s generalizing p with
  | nil =>
    rw [pieces, List.mem_singleton] at h
    rw [h]
    exact List.not_mem_nil
  | cons c s ih =>
    rw [pieces] at h
    split at h
    · -- the first piece is empty, and the others are those of the rest
      rcases List.mem_cons.1 h with rfl | h
      · exact List.not_mem_nil
      · exact ih h
    · next hc =>
      -- the character is not the separator, and comes to the front of the first piece
      cases hp : pieces sep s with
      | nil => exact absurd hp (pieces_ne_nil sep s)
      | cons q qs =>
        rw [hp] at h ih
        rcases List.mem_cons.1 h with rfl | h
        · intro hmem
          rcases List.mem_cons.1 hmem with rfl | hmem
          · exact hc rfl
          · exact ih List.mem_cons_self hmem
        · exact ih (List.mem_cons_of_mem _ h)

/-- Cutting undoes joining. -/
theorem pieces_joinPieces {ps : List (List α)} (hne : ps ≠ [])
    (h : ∀ p ∈ ps, sep ∉ p) : pieces sep (joinPieces sep ps) = ps := by
  induction ps with
  | nil => exact absurd rfl hne
  | cons p ps ih =>
    -- the first piece has no separator in it, so it is cut off behind it
    have hp := pieces_of_not_mem (h p List.mem_cons_self)
    cases ps with
    | nil => exact hp
    | cons q qs =>
      have hrest := ih (List.cons_ne_nil q qs) fun r hr => h r (List.mem_cons_of_mem p hr)
      rw [joinPieces, pieces_append_cons, hp, hrest]
      · rfl
      · exact List.cons_ne_nil q qs

/-! ### Texts cut once -/

omit [DecidableEq α] in
/-- There is one way to cut a text at the first place of a character. -/
theorem eq_of_append_cons {u v s t : List α} (hu : sep ∉ u) (hv : sep ∉ v)
    (h : u ++ sep :: s = v ++ sep :: t) : u = v ∧ s = t := by
  rcases List.append_eq_append_iff.1 h with ⟨a, rfl, ha⟩ | ⟨a, rfl, ha⟩
  all_goals
    cases a with
    | nil => simpa [eq_comm] using ha
    | cons d a =>
      -- the character would come earlier
      obtain ⟨rfl, -⟩ := List.cons.inj ha
      simp at hu hv

omit [DecidableEq α] in
/-- There is one way to cut a text at the last place of a character: that place is the first one from the other
end. -/
theorem eq_of_append_cons_last {u v s t : List α} (hs : sep ∉ s) (ht : sep ∉ t)
    (h : u ++ sep :: s = v ++ sep :: t) : u = v ∧ s = t := by
  have hreverse : ∀ x y : List α, (x ++ sep :: y).reverse = y.reverse ++ sep :: x.reverse := by
    intro x y
    rw [List.reverse_append, List.reverse_cons, List.append_assoc]
    rfl
  have hcut := congrArg List.reverse h
  rw [hreverse, hreverse] at hcut
  obtain ⟨hst, huv⟩ := eq_of_append_cons (mt List.mem_reverse.1 hs) (mt List.mem_reverse.1 ht) hcut
  exact ⟨List.reverse_inj.1 huv, List.reverse_inj.1 hst⟩

end Chars

/-! ### Pieces of texts -/

namespace Text

/-- There is always a piece. -/
theorem pieces_ne_nil (sep : Char) (s : String) : pieces sep s ≠ [] := by
  rw [pieces, ne_eq, List.map_eq_nil_iff]
  exact Chars.pieces_ne_nil sep s.toList

/-- A text without separators is one piece. -/
theorem pieces_of_not_mem {sep : Char} {s : String} (h : sep ∉ s.toList) : pieces sep s = [s] := by
  rw [pieces, Chars.pieces_of_not_mem h, List.map_singleton, String.ofList_toList]

/-- No piece has a separator in it. -/
theorem not_mem_of_mem_pieces {sep : Char} {s p : String} (h : p ∈ pieces sep s) :
    sep ∉ p.toList := by
  obtain ⟨cs, hcs, rfl⟩ := List.mem_map.1 h
  rw [String.toList_ofList]
  exact Chars.not_mem_of_mem_pieces hcs

/-- A separator cuts a text. -/
theorem pieces_append_singleton (sep : Char) (s t : String) :
    pieces sep (s ++ String.singleton sep ++ t) = pieces sep s ++ pieces sep t := by
  have hlist : (s ++ String.singleton sep ++ t).toList = s.toList ++ sep :: t.toList := by
    rw [String.toList_append, String.toList_append, String.toList_singleton, List.append_assoc]
    rfl
  rw [pieces, hlist, Chars.pieces_append_cons, List.map_append, pieces, pieces]

/-- A slash cuts a text. -/
theorem pieces_append_slash (s t : String) :
    pieces '/' (s ++ "/" ++ t) = pieces '/' s ++ pieces '/' t :=
  pieces_append_singleton '/' s t

/-- A first text is joined to the others by a slash. -/
theorem join_cons {s : String} {r : List String} (hr : r ≠ []) :
    join "/" (s :: r) = s ++ "/" ++ join "/" r := by
  cases r with
  | nil => exact absurd rfl hr
  | cons t r => rfl

/-- Joining names in two groups and then the groups is joining them all. -/
theorem join_append {names more : List String} (hne : names ≠ []) (hmore : more ≠ []) :
    join "/" (names ++ more) = join "/" names ++ "/" ++ join "/" more := by
  induction names with
  | nil => exact absurd rfl hne
  | cons n names ih =>
    by_cases hnames : names = []
    · subst hnames
      exact join_cons hmore
    · rw [List.cons_append, join_cons (List.append_ne_nil_of_left_ne_nil hnames _), ih hnames, join_cons hnames]
      simp only [String.append_assoc]

/-- **Names that are joined by slashes are found again by cutting.** -/
theorem pieces_join {names : List String} (hne : names ≠ []) (h : ∀ n ∈ names, '/' ∉ n.toList) :
    pieces '/' (join "/" names) = names := by
  induction names with
  | nil => exact absurd rfl hne
  | cons n names ih =>
    have hn := pieces_of_not_mem (h n List.mem_cons_self)
    -- the last name has no slash after it
    by_cases hnames : names = []
    · subst hnames
      exact hn
    · rw [join_cons hnames, pieces_append_slash, hn,
        ih hnames fun m hm => h m (List.mem_cons_of_mem _ hm)]
      rfl

/-- The pieces of a text, joined again, are the text. -/
theorem join_pieces (s : String) : join "/" (pieces '/' s) = s := by
  have hjoin : ∀ ps : List (List Char), (join "/" (ps.map String.ofList)).toList =
      Chars.joinPieces '/' ps := by
    -- the same is known of lists of characters, of which the texts are made
    intro ps
    induction ps with
    | nil => rfl
    | cons p ps ih =>
      cases ps with
      | nil => exact String.toList_ofList
      | cons q ps =>
        have hne : (q :: ps).map String.ofList ≠ [] := List.cons_ne_nil _ _
        rw [List.map_cons, join_cons hne, String.toList_append, String.toList_append, ih,
          String.toList_ofList, List.append_assoc]
        rfl
  rw [← String.toList_inj, pieces, hjoin, Chars.joinPieces_pieces]

end Text

/-! ### Numbers in texts -/

/-- Two numbers that are written alike are the same. -/
theorem toList_toString_inj {m n : Nat} (h : (toString m).toList = (toString n).toList) : m = n := by
  have hm : ∀ k : Nat, (toString k).toList = Nat.toDigits 10 k := fun _ => Nat.toList_repr
  rw [hm, hm] at h
  rw [← Nat.ofDigitChars_ten_toDigits (n := m), h, Nat.ofDigitChars_ten_toDigits]

/-- A number is written in digits. -/
theorem isDigit_of_mem_toString {n : Nat} {c : Char} (h : c ∈ (toString n).toList) : c.isDigit = true := by
  have hdigits : (toString n).toList = Nat.toDigits 10 n := Nat.toList_repr
  exact Nat.isDigit_of_mem_toDigits (by decide) (by decide) (hdigits ▸ h)

/-- In a number there is nothing but digits. -/
theorem not_mem_toString {c : Char} (hc : c.isDigit = false) (n : Nat) : c ∉ (toString n).toList := by
  intro h
  rw [isDigit_of_mem_toString h] at hc
  cases hc

end CodeSearch
