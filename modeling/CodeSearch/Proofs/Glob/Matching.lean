import CodeSearch.Glob.Expression

/-!
# Expressions match what they spell

`Spells is s` says what texts an expression describes and `accepts is s` decides it, for a text and all its ends
at once. This module proves that the decision is right:

* `spells_one_iff`, `spells_many_iff`, `spells_optional_iff` — what an expression describes, told by its first
  item;
* `AnswersFor P s as` — the list `as` says for `s` and each of its ends whether `P` holds of it;
* `accepts_iff` — an expression is accepted exactly if it spells the text.

The decision goes through the items from the last one to the first one. What it keeps is that the answers of the
later items are right for every end of the text (`Item.answersFor`), and each kind of piece is one induction over
the text.
-/

namespace CodeSearch.Glob

/-! ### Spelling, by the first item -/

section Spelling

variable {set : CharSet} {ps : List Piece} {is : List Item} {c : Char} {s : List Char}

theorem spells_nil_iff : Spells [] s ↔ s = [] := by
  constructor
  · intro h
    cases h
    rfl
  · rintro rfl
    exact .nil

theorem spells_one_iff :
    Spells (.piece (.one set) :: is) s ↔ ∃ c r, s = c :: r ∧ set.mem c = true ∧ Spells is r := by
  constructor
  · intro h
    cases h with
    | one hc hs => exact ⟨_, _, rfl, hc, hs⟩
  · rintro ⟨c, r, rfl, hc, hs⟩
    exact .one hc hs

/-- What is repeated takes any number of characters of its set. -/
theorem spells_many_iff : Spells (.piece (.many set) :: is) s ↔
    ∃ u r, s = u ++ r ∧ (∀ c ∈ u, set.mem c = true) ∧ Spells is r := by
  constructor
  · intro h
    cases h with
    | many hu hs => exact ⟨_, _, rfl, hu, hs⟩
  · rintro ⟨u, r, rfl, hu, hs⟩
    exact .many hu hs

/-- What is optional takes nothing or is there. -/
theorem spells_optional_iff :
    Spells (.optional ps :: is) s ↔ Spells is s ∨ Spells (ps.map .piece ++ is) s := by
  constructor
  · intro h
    cases h with
    | skip hs => exact Or.inl hs
    | take hs => exact Or.inr hs
  · rintro (hs | hs)
    · exact .skip hs
    · exact .take hs

/-! A repeated class takes the text one character at a time. -/

theorem spells_many_nil_iff : Spells (.piece (.many set) :: is) [] ↔ Spells is [] := by
  rw [spells_many_iff]
  constructor
  · rintro ⟨u, r, h, -, hs⟩
    obtain ⟨rfl, rfl⟩ := List.append_eq_nil_iff.1 h.symm
    exact hs
  · intro hs
    exact ⟨[], [], rfl, nofun, hs⟩

/-- What is repeated takes nothing, or one character and is repeated again. -/
theorem spells_many_cons_iff : Spells (.piece (.many set) :: is) (c :: s) ↔
    Spells is (c :: s) ∨ (set.mem c = true ∧ Spells (.piece (.many set) :: is) s) := by
  constructor
  · intro h
    obtain ⟨u, r, heq, hu, hs⟩ := spells_many_iff.1 h
    -- nothing is taken
    cases u with
    | nil =>
      rw [List.nil_append] at heq
      exact Or.inl (heq ▸ hs)
    | cons a u =>
      -- one character is taken, and the rest is repeated
      obtain ⟨rfl, rfl⟩ := List.cons.inj heq
      exact Or.inr ⟨hu c List.mem_cons_self, .many (fun d hd => hu d (List.mem_cons_of_mem _ hd)) hs⟩
  · rintro (hs | ⟨hc, hs⟩)
    · exact .many (u := []) nofun hs
    · obtain ⟨u, r, rfl, hu, hs⟩ := spells_many_iff.1 hs
      exact .many (u := c :: u) (List.forall_mem_cons.2 ⟨hc, hu⟩) hs

end Spelling

/-! ### Answers for all ends of a text -/

/-- Whether a list says of a text and of each of its ends, in their order, if `P` holds of it. -/
inductive AnswersFor (P : List Char → Prop) : List Char → List Bool → Prop where
  /-- The empty end is the last one. -/
  | nil {a : Bool} (ha : a = true ↔ P []) : AnswersFor P [] [a]
  /-- The first answer is about the whole text. -/
  | cons {c : Char} {s : List Char} {a : Bool} {as : List Bool} (ha : a = true ↔ P (c :: s))
      (later : AnswersFor P s as) : AnswersFor P (c :: s) (a :: as)

namespace AnswersFor

variable {P Q : List Char → Prop} {set : CharSet} {is : List Item} {s : List Char} {as bs : List Bool}

theorem first (h : AnswersFor P s as) : firstAnswer as = true ↔ P s := by
  cases h with
  | nil ha => exact ha
  | cons ha _ => exact ha

/-- Two answers to one question about each end. -/
theorem or (hp : AnswersFor P s as) (hq : AnswersFor Q s bs) :
    AnswersFor (fun r => P r ∨ Q r) s (List.zipWith (· || ·) as bs) := by
  induction hp generalizing bs with
  | nil ha =>
    cases hq with
    | nil hb => exact .nil (by rw [Bool.or_eq_true, ha, hb])
  | cons ha _ ih =>
    cases hq with
    | cons hb hlater => exact .cons (by rw [Bool.or_eq_true, ha, hb]) (ih hlater)

/-- Questions that mean the same have the same answers. -/
theorem congr (h : AnswersFor P s as) (hpq : ∀ r, P r ↔ Q r) : AnswersFor Q s as := by
  induction h with
  | nil ha => exact .nil (ha.trans (hpq _))
  | cons ha _ ih => exact .cons (ha.trans (hpq _)) ih

theorem done : (s : List Char) → AnswersFor (Spells []) s (doneAnswers s)
  | [] => .nil (iff_of_true rfl .nil)
  | _ :: s => .cons (iff_of_false Bool.false_ne_true fun h => nomatch spells_nil_iff.1 h) (done s)

/-- A class takes one character, so there is no answer to look up behind the last one. -/
theorem oneAnswers (h : AnswersFor (Spells is) s as) :
    AnswersFor (Spells (.piece (.one set) :: is)) s (oneAnswers set s as) := by
  induction h with
  | nil _ => exact .nil (iff_of_false Bool.false_ne_true fun h => nomatch h)
  | @cons c s a as _ later ih =>
    -- the answer for the rest is the first one of the later answers
    refine .cons ?_ ih
    rw [List.tail_cons, Bool.and_eq_true, later.first, spells_one_iff]
    constructor
    · rintro ⟨hc, hs⟩
      exact ⟨c, s, rfl, hc, hs⟩
    · rintro ⟨d, r, heq, hd, hs⟩
      obtain ⟨rfl, rfl⟩ := List.cons.inj heq
      exact ⟨hd, hs⟩

/-- A repeated class ends here, or takes a character and goes on. -/
theorem manyAnswers (h : AnswersFor (Spells is) s as) :
    AnswersFor (Spells (.piece (.many set) :: is)) s (manyAnswers set s as) := by
  induction h with
  | nil ha => exact .nil (ha.trans spells_many_nil_iff.symm)
  | @cons c s a as ha later ih =>
    refine .cons ?_ ih
    show (a || (set.mem c && firstAnswer (Glob.manyAnswers set s as))) = true ↔ _
    rw [Bool.or_eq_true, Bool.and_eq_true, ha, ih.first, spells_many_cons_iff]

/-- One piece more. -/
theorem piece (h : AnswersFor (Spells is) s as) (p : Piece) :
    AnswersFor (Spells (.piece p :: is)) s (p.answers s as) := by
  cases p with
  | one set => exact h.oneAnswers
  | many set => exact h.manyAnswers

/-- Several pieces more, from the last one to the first one. -/
theorem pieces (h : AnswersFor (Spells is) s as) (ps : List Piece) :
    AnswersFor (Spells (ps.map .piece ++ is)) s (pieceAnswers s as ps) := by
  induction ps with
  | nil => exact h
  | cons p ps ih => exact ih.piece p

end AnswersFor

/-- **One item more**: right answers of the later items are made into right answers of all. -/
theorem Item.answersFor (i : Item) {is : List Item} {s : List Char} {as : List Bool}
    (h : AnswersFor (Spells is) s as) : AnswersFor (Spells (i :: is)) s (i.answers s as) := by
  cases i with
  | piece p => exact h.piece p
  | optional ps => exact (h.or (h.pieces ps)).congr fun r => spells_optional_iff.symm

/-- All answers of an expression are right. -/
theorem answersFor_answers (is : List Item) (s : List Char) : AnswersFor (Spells is) s (answers is s) := by
  induction is with
  | nil => exact .done s
  | cons i is ih => exact i.answersFor ih

/-- **An expression is accepted exactly if it spells the text.** -/
theorem accepts_iff {is : List Item} {s : List Char} : accepts is s = true ↔ Spells is s :=
  (answersFor_answers is s).first

end CodeSearch.Glob
