import CodeSearch.Proofs.Glob.Translation

/-!
# Bracket classes of globs

A class of a glob is cut off at its closing bracket, rewritten as a class of an expression, and read again. This
module says which characters it stands for:

* `classBody?_eq_some` — what is cut off as a class is the text between the brackets, and such a text has members;
* `readSet?_translateClass` — a class is read as the set `CharSet.ofClass?`, whatever comes behind it;
* `CharSet.mem_ofClass?` — a character that is no member of a class and that none of its ranges spans is in the class
  exactly if that is negated.
-/

namespace CodeSearch.Glob

/-! ### The text of a class -/

/-- Whether the text of a class starts with a mark of negation. -/
def isNegatedClass (text : List Char) : Bool := text.head? = some '!' || text.head? = some '^'

/-- The text of a class without a mark of negation. -/
def classMembers (text : List Char) : List Char := if isNegatedClass text then text.drop 1 else text

/-- Whether a text can stand between the brackets of a class. -/
structure IsClassText (text : List Char) : Prop where
  /-- There is something besides a mark of negation. -/
  ne_nil : classMembers text ≠ []
  /-- A closing bracket behind the first member would end the class. -/
  not_mem : ']' ∉ (classMembers text).tail

/-- The members of a class added to an empty one, unless one of their ranges is in the wrong order. Hyphens at the
start stand for themselves, or else a closing bracket does so. -/
def CharSet.ofMembers? (empty : CharSet) : List Char → Option CharSet
  | '-' :: ms => (empty.add false ⟨'-', '-'⟩).readMembers? false (ms.dropWhile (· = '-'))
  | ']' :: ms => (empty.add false ⟨']', ']'⟩).readMembers? false ms
  | ms => empty.readMembers? false ms

/-- The characters that the text of a class stands for. -/
def CharSet.ofClass? (text : List Char) : Option CharSet :=
  ofMembers? ⟨isNegatedClass text, [], []⟩ (classMembers text)

/-- Whether a range in the text of a class goes past a character. -/
def Spans (text : List Char) (c : Char) : Prop :=
  ∃ u a b v, text = u ++ a :: '-' :: b :: v ∧ a ≤ c ∧ c ≤ b

section Cutting

variable {text rest ms s : List Char} {c : Char}

theorem isNegatedClass_iff : isNegatedClass text = true ↔ text.head? = some '!' ∨ text.head? = some '^' := by
  rw [isNegatedClass, Bool.or_eq_true, decide_eq_true_iff, decide_eq_true_iff]

theorem classMembers_suffix (text : List Char) : classMembers text <:+ text := by
  unfold classMembers
  split
  · exact List.drop_suffix 1 text
  · exact List.suffix_refl text

/-- The members at the start of a text, with a closing bracket at the very start, and what is left behind them. -/
theorem takeMembers_spec {opening : Nat} (hopening : opening = if s.head? = some ']' then 1 else 0)
    (hms : s.take opening ++ (s.drop opening).takeWhile (· ≠ ']') = ms)
    (h : s.drop ms.length = c :: rest) : s = ms ++ ']' :: rest ∧ ms ≠ [] ∧ ']' ∉ ms.tail := by
  -- what was taken are the members, so the text goes on with what is left
  have hsplit : s = ms ++ (s.drop opening).dropWhile (· ≠ ']') := by
    rw [← hms, List.append_assoc, List.takeWhile_append_dropWhile, List.take_append_drop]
  have hrest : (s.drop opening).dropWhile (· ≠ ']') = c :: rest := by
    rw [hsplit, List.drop_left] at h
    exact h
  -- members are taken up to a closing bracket
  obtain rfl : c = ']' := by
    have hhead := List.head?_dropWhile_not (fun d => decide (d ≠ ']')) (s.drop opening)
    rw [hrest] at hhead
    simpa using hhead
  rw [hrest] at hsplit
  have hplain : ']' ∉ (s.drop opening).takeWhile (· ≠ ']') := by
    intro hmem
    simpa using List.all_eq_true.1 List.all_takeWhile _ hmem
  refine ⟨hsplit, ?_, ?_⟩
  · rintro rfl
    -- with nothing in front of it, the closing bracket would have been the first member
    obtain ⟨htake, -⟩ := List.append_eq_nil_iff.1 hms
    rw [hopening, hsplit] at htake
    simp at htake
  · rw [← hms]
    -- a bracket at the very start is the first member, and none of the others is one
    split at hopening
    · next hs =>
      obtain ⟨s', rfl⟩ := List.head?_eq_some_iff.1 hs
      rw [hopening] at hplain ⊢
      exact hplain
    · -- without one at the start no member is a closing bracket
      rw [hopening] at hplain ⊢
      exact fun hmem => hplain (List.mem_of_mem_tail hmem)

/-- **A class is cut off** before a closing bracket that is not its first member. -/
theorem classBody?_eq_some (h : classBody? s = some (text, rest)) :
    s = text ++ ']' :: rest ∧ IsClassText text := by
  unfold classBody? at h
  by_cases hmark : s.head? = some '!' ∨ s.head? = some '^'
  · -- the class is negated
    obtain ⟨m, s', rfl⟩ : ∃ m s', s = m :: s' := by
      cases s with
      | nil => simp at hmark
      | cons m s' => exact ⟨m, s', rfl⟩
    simp only [if_pos hmark, List.drop_succ_cons, List.drop_zero, Nat.add_comm 1, List.take_succ_cons,
      List.cons_append, List.length_cons] at h
    split at h
    · next c rest' hrest =>
      obtain ⟨rfl, rfl⟩ := Prod.mk.inj (Option.some.inj h)
      obtain ⟨hs, hne, hnot⟩ := takeMembers_spec rfl rfl hrest
      -- the mark is taken off again
      have hmembers : ∀ ms, classMembers (m :: ms) = ms := fun ms => if_pos (isNegatedClass_iff.2 hmark)
      refine ⟨congrArg (m :: ·) hs, ⟨?_, ?_⟩⟩
      · rwa [hmembers]
      · rwa [hmembers]
    · cases h
  · -- the class is not negated
    simp only [if_neg hmark, List.drop_zero, Nat.zero_add] at h
    split at h
    · next c rest' hrest =>
      obtain ⟨rfl, rfl⟩ := Prod.mk.inj (Option.some.inj h)
      obtain ⟨hs, hne, hnot⟩ := takeMembers_spec rfl rfl hrest
      refine ⟨hs, ?_⟩
      generalize s.take _ ++ _ = ms at hs hne hnot
      -- its members start with no mark, so none is taken off
      have hmembers : classMembers ms = ms := by
        refine if_neg fun hneg => hmark ?_
        obtain ⟨c, ms, rfl⟩ := List.exists_cons_of_ne_nil hne
        rw [hs]
        exact isNegatedClass_iff.1 hneg
      exact ⟨hmembers.symm ▸ hne, hmembers.symm ▸ hnot⟩
    · cases h

end Cutting

/-! ### Reading a class -/

section Reading

variable {text ms r s : List Char} {c : Char}

/-- The members of a class are read up to the closing bracket. -/
theorem readClassText?_flatMap (h : ']' ∉ ms) :
    readClassText? (ms.flatMap escapeMember ++ ']' :: r) = some (ms, r) := by
  induction ms with
  | nil => rfl
  | cons c ms ih =>
    obtain ⟨hc, hms⟩ := not_or.1 fun hmem => h (List.mem_cons.2 hmem)
    rw [List.flatMap_cons, List.append_assoc, escapeMember]
    split
    · next hspecial =>
      -- the member has a meaning of its own, so it is read behind a backslash
      have hmeta : (isMeta c && c != '-') = true := by
        have hcases : c = '\\' ∨ c = '[' ∨ c = '&' ∨ c = '~' := by simpa using hspecial
        rcases hcases with rfl | rfl | rfl | rfl <;> decide
      rw [List.cons_append, List.singleton_append, readClassText?, if_pos hmeta, ih hms]
      rfl
    · next hspecial =>
      -- a member that is written as itself is no backslash
      have hback : c ≠ '\\' := by
        rintro rfl
        exact hspecial rfl
      rw [List.singleton_append, readClassText?, if_neg hspecial, ih hms]
      · rfl
      · -- nor is it a closing bracket
        exact Ne.symm hc
      · exact fun _ _ he _ => hback he

/-- The hyphens at the start of the members are the hyphens at the start of what they are written as. -/
theorem dropWhile_flatMap_escapeMember :
    (ms.flatMap escapeMember ++ ']' :: r).dropWhile (· = '-') =
      (ms.dropWhile (· = '-')).flatMap escapeMember ++ ']' :: r := by
  induction ms with
  | nil => rfl
  | cons c ms ih =>
    by_cases hc : c = '-'
    · subst hc
      exact ih
    · rw [List.dropWhile_cons_of_neg (by simpa using hc), List.flatMap_cons, List.append_assoc, escapeMember]
      split
      · -- a hyphen is never behind a backslash, so nothing but a hyphen is passed over
        exact List.dropWhile_cons_of_neg (by decide)
      · exact List.dropWhile_cons_of_neg (by simpa using hc)

/-- The first member of a class is written as itself, unless it gets a backslash. -/
theorem head?_flatMap_escapeMember {d : Char} (hd : d ≠ '\\') (hc : ['\\', '[', '&', '~'].contains d = false) :
    ((c :: ms).flatMap escapeMember ++ ']' :: r).head? = some d ↔ c = d := by
  rw [List.flatMap_cons, List.append_assoc, escapeMember]
  split
  · next hspecial =>
    refine iff_of_false (fun he => hd (Option.some.inj he).symm) ?_
    rintro rfl
    exact absurd hspecial (Bool.eq_false_iff.1 hc)
  · exact Option.some_inj

theorem drop_length_takeWhile (p : Char → Bool) (s : List Char) :
    s.drop (s.takeWhile p).length = s.dropWhile p := by
  calc s.drop (s.takeWhile p).length
      = (s.takeWhile p ++ s.dropWhile p).drop (s.takeWhile p).length := by rw [List.takeWhile_append_dropWhile]
    _ = s.dropWhile p := List.drop_left

namespace CharSet

variable {empty : CharSet}

/-- What is read of a class behind the characters at its start that have a meaning of their own there. -/
def readRest? (start : CharSet) (s : List Char) : Option (CharSet × List Char) :=
  (readClassText? s).bind fun (text, rest) => (start.readMembers? false text).map fun set => (set, rest)

/-- What is read of a class behind its mark of negation. -/
def readAll? (empty : CharSet) (s : List Char) : Option (CharSet × List Char) :=
  let hyphens := s.takeWhile (· = '-')
  if !hyphens.isEmpty then (empty.add false ⟨'-', '-'⟩).readRest? (s.drop hyphens.length)
  else if s.head? = some ']' then (empty.add false ⟨']', ']'⟩).readRest? (s.drop 1)
  else empty.readRest? s

theorem readClass?_eq (s : List Char) : readClass? s =
    readAll? ⟨s.head? = some '^', [], []⟩ (if s.head? = some '^' then s.drop 1 else s) := by
  unfold readAll? readClass?
  grind [readRest?]

theorem readRest?_flatMap (h : ']' ∉ ms) : empty.readRest? (ms.flatMap escapeMember ++ ']' :: r) =
    (empty.readMembers? false ms).map (·, r) := by
  rw [readRest?, readClassText?_flatMap h]
  rfl

/-- A hyphen at the start of a class is a member, and the ones behind it are passed over. -/
theorem readAll?_hyphen : empty.readAll? ('-' :: s) =
    (empty.add false ⟨'-', '-'⟩).readRest? (s.dropWhile (· = '-')) := by
  have hdrop := drop_length_takeWhile (· = '-') ('-' :: s)
  show readRest? _ (List.drop _ ('-' :: s)) = _
  rw [hdrop]
  rfl

/-- A class that starts with neither a hyphen nor a closing bracket has no members that are read first. -/
theorem readAll?_plain (hhyphen : s.head? ≠ some '-') (hbracket : s.head? ≠ some ']') :
    empty.readAll? s = empty.readRest? s := by
  have hne : (s.takeWhile (· = '-')).isEmpty = true := by
    cases s with
    | nil => rfl
    | cons c s => simp_all
  simp only [readAll?, hne, if_neg hbracket, Bool.not_true, Bool.false_eq_true, if_false]

/-- The members of a class are read as they are meant. -/
theorem readAll?_flatMap (h : ']' ∉ ms) :
    empty.readAll? ((c :: ms).flatMap escapeMember ++ ']' :: r) = (empty.ofMembers? (c :: ms)).map (·, r) := by
  by_cases hhyphen : c = '-'
  · -- a hyphen at the start
    subst hhyphen
    show empty.readAll? ('-' :: (ms.flatMap escapeMember ++ ']' :: r)) = _
    rw [readAll?_hyphen, dropWhile_flatMap_escapeMember,
      readRest?_flatMap fun hmem => h ((List.dropWhile_sublist _).mem hmem)]
    rfl
  · by_cases hbracket : c = ']'
    · -- a closing bracket at the start
      subst hbracket
      exact readRest?_flatMap h
    · -- any other member
      have hmem : ']' ∉ c :: ms := by simp [Ne.symm hbracket, h]
      rw [readAll?_plain, readRest?_flatMap hmem, ofMembers?]
      · exact fun ms he => hhyphen (List.cons.inj he).1
      · exact fun ms he => hbracket (List.cons.inj he).1
      · rw [Ne, head?_flatMap_escapeMember (by decide) (by decide)]
        exact hhyphen
      · rw [Ne, head?_flatMap_escapeMember (by decide) (by decide)]
        exact hbracket

end CharSet

/-- **A class is read as the set of characters it stands for**, whatever comes behind it. -/
theorem readSet?_translateClass (h : IsClassText text) :
    readSet? (translateClass text ++ r) = (CharSet.ofClass? text).map (·, r) := by
  obtain ⟨c, ms, hms⟩ := List.exists_cons_of_ne_nil h.ne_nil
  have htail : ']' ∉ ms := by simpa [hms] using h.not_mem
  -- the written class: its bracket, its mark, its members and the closing bracket
  have htext : translateClass text ++ r = '[' :: ((if isNegatedClass text then ['^'] else []) ++
      ((c :: ms).flatMap escapeMember ++ ']' :: r)) := by
    rw [← hms]
    simp [translateClass, classMembers, isNegatedClass]
  rw [htext]
  show readClass? _ = _
  rw [CharSet.readClass?_eq, CharSet.ofClass?, hms, ← CharSet.readAll?_flatMap htail]
  cases hneg : isNegatedClass text with
  | true => rfl
  | false =>
    -- what is not negated starts with no mark
    have hc : c ≠ '^' := by
      rintro rfl
      rw [classMembers, hneg] at hms
      exact Bool.eq_false_iff.1 hneg (isNegatedClass_iff.2 (Or.inr (congrArg List.head? hms)))
    have hcaret : ((c :: ms).flatMap escapeMember ++ ']' :: r).head? ≠ some '^' := by
      rw [Ne, head?_flatMap_escapeMember (by decide) (by decide)]
      exact hc
    rw [if_neg Bool.false_ne_true, List.nil_append, if_neg hcaret, decide_eq_false hcaret]

end Reading

/-! ### What a class stands for -/

section Members

variable {text ms rest : List Char} {c : Char}

theorem Spans.mono (h : Spans rest c) (hrest : rest <:+ ms) : Spans ms c := by
  obtain ⟨u, a, b, v, rfl, hrange⟩ := h
  obtain ⟨w, rfl⟩ := hrest
  exact ⟨w ++ u, a, b, v, (List.append_assoc w u _).symm, hrange⟩

namespace CharSet

variable {s set : CharSet} {removing : Bool} {r : CharRange}

/-- Whether a character is among the members of a class or what is taken away from them. -/
def Mentions (s : CharSet) (c : Char) : Prop := ∃ r ∈ s.members ++ s.without, r.mem c = true

/-- What a class does not mention is in it exactly if it is negated. -/
theorem mem_of_not_mentions (h : ¬s.Mentions c) : s.mem c = s.negated := by
  have hmembers : s.members.any (·.mem c) = false := by
    rw [List.any_eq_false]
    exact fun r hr hmem => h ⟨r, List.mem_append_left _ hr, hmem⟩
  rw [mem, hmembers, Bool.false_and, Bool.bne_false]

/-- One range more mentions the characters of the range, besides those mentioned before. -/
theorem mentions_add : (s.add removing r).Mentions c ↔ r.mem c = true ∨ s.Mentions c := by
  cases removing with
  | true => simp [Mentions, add, or_left_comm, or_and_right, exists_or]
  | false => simp [Mentions, add]

theorem mem_range_self {d : Char} : (⟨d, d⟩ : CharRange).mem c = true ↔ c = d := by
  rw [CharRange.mem, Bool.and_eq_true, decide_eq_true_iff, decide_eq_true_iff]
  constructor
  · rintro ⟨hdc, hcd⟩
    exact Char.le_antisymm hcd hdc
  · rintro rfl
    exact ⟨Char.le_refl _, Char.le_refl _⟩

/-- Whether reading `ms` has made one class of another: it stays negated or not, and mentions a character more only
if that is in `ms` or spanned by one of its ranges. -/
structure Adds (ms : List Char) (c : Char) (s set : CharSet) : Prop where
  /-- The mark of negation counts. -/
  negated_eq : set.negated = s.negated
  /-- No other characters are added. -/
  mentions : set.Mentions c → s.Mentions c ∨ c ∈ ms ∨ Spans ms c

theorem Adds.refl : Adds ms c s s := ⟨rfl, Or.inl⟩

theorem Adds.mono (h : Adds rest c s set) (hrest : rest <:+ ms) : Adds ms c s set where
  negated_eq := h.negated_eq
  mentions hset := (h.mentions hset).imp_right (Or.imp (hrest.mem ·) (·.mono hrest))

/-- One range more: it is made of a member, or of two that it spans. -/
theorem Adds.range (h : Adds ms c (s.add removing r) set)
    (hrange : r.mem c = true → c ∈ ms ∨ Spans ms c) : Adds ms c s set where
  negated_eq := by
    rw [h.negated_eq]
    cases removing <;> rfl
  mentions hset := by
    rcases h.mentions hset with hadd | hms
    · exact (mentions_add.1 hadd).elim (fun hc => Or.inr (hrange hc)) Or.inl
    · exact Or.inr hms

theorem Adds.member {d : Char} (h : Adds ms c (s.add removing ⟨d, d⟩) set) (hd : d ∈ ms) : Adds ms c s set :=
  h.range fun hc => Or.inl (mem_range_self.1 hc ▸ hd)

/-- Reading members adds no more to a class than the characters that are written and those between the ends of
ranges. -/
theorem adds_of_readMembers? (h : s.readMembers? removing ms = some set) : Adds ms c s set := by
  fun_induction readMembers? s removing ms with
  | case1 =>
    cases h
    exact .refl
  | case2 =>
    cases h
    exact Adds.refl.member List.mem_cons_self
  | case3 s removing r ih => exact (ih h).mono ((List.suffix_cons _ _).trans (List.suffix_cons _ _))
  | case4 s removing d r _ ih => exact ((ih h).mono (List.suffix_cons _ _)).member List.mem_cons_self
  | case5 s removing d e r _ _ _ ih =>
    -- a range takes both of its ends and the hyphen
    have hr : r <:+ d :: '-' :: e :: r := ⟨[d, '-', e], rfl⟩
    refine ((ih h).mono hr).range fun hc => Or.inr ⟨[], d, e, r, rfl, ?_⟩
    simpa [CharRange.mem] using hc
  | case6 => cases h
  | case7 s removing d r _ _ _ ih => exact ((ih h).mono (List.suffix_cons _ _)).member List.mem_cons_self

theorem adds_of_ofMembers? (h : s.ofMembers? ms = some set) : Adds ms c s set := by
  unfold ofMembers? at h
  split at h
  · refine ((adds_of_readMembers? h).mono ?_).member List.mem_cons_self
    exact (List.dropWhile_suffix _).trans (List.suffix_cons _ _)
  · exact ((adds_of_readMembers? h).mono (List.suffix_cons _ _)).member List.mem_cons_self
  · exact adds_of_readMembers? h

/-- **What a class stands for besides its members**: a character that is no member of it and that none of its ranges
spans is in the class exactly if that is negated. -/
theorem mem_ofClass? (h : ofClass? text = some set) (hc : c ∉ text) (hspans : ¬Spans text c) :
    set.mem c = isNegatedClass text := by
  have hadds : Adds text c _ set := (adds_of_ofMembers? h).mono (classMembers_suffix text)
  have hmentions : ¬set.Mentions c := by
    intro hset
    rcases hadds.mentions hset with ⟨r, hr, -⟩ | hmem | hs
    · cases hr
    · exact hc hmem
    · exact hspans hs
  rw [mem_of_not_mentions hmentions, hadds.negated_eq]

end CharSet

end Members

end CodeSearch.Glob
