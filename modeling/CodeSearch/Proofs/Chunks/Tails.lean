import CodeSearch.Proofs.Chunks.Ownership
import CodeSearch.Proofs.Chunks.Sizes
import Mathlib.Algebra.Order.BigOperators.Group.List
import Mathlib.Algebra.Order.Group.Nat
import Mathlib.Data.List.Chain
import Mathlib.Data.List.Flatten

/-!
# Short parts at the end of a chunk

When a chunk is split, the last fragment may come out small, and then the one before it gives it units from its end. A
unit is a paragraph, or a line of a paragraph that is too long. Nothing more can be given if the fragment before has only
one unit left, or if its last unit does not fit (`Chunk.GivesNothing`).

Fragments are measured with the blank lines at their end, and these are left out only when the parts are made. Where a
chunk ends with text this makes no difference to its last part. But a document without declarations is split with the
blank lines at its end, and they count: with them the last fragment may be large enough, or too large for another unit,
although the part that is made of it is not (`not_givesNothing_blankEnd`). They may even be a fragment of their own, of
which no part is made at all.

* `Fragment.isChain_pack`, `Fragment.isChain_topUp` — fragments that stand next to each other do not fit into one;
* `Fragment.rebalance_stops`, `Fragment.topUp_stops` — why no further unit is moved to the last fragment;
* `Fragment.gives_nothing` — what follows for any fragment and a later one, however few lines that one begins;
* `givesNothing_split` — nothing more can be given to the last part of a chunk, if it is short together with the blank
  lines behind it.
-/

namespace CodeSearch

/-! ### Blank lines behind others -/

namespace Line

variable {ls ms : List Line}

/-- Blank lines at the end are trimmed off. -/
theorem trimBlank_append_blank (h : ∀ l ∈ ms, l.isBlank = true) : trimBlank (ls ++ ms) = trimBlank ls := by
  rw [trimBlank, List.reverse_append, List.dropWhile_append_of_pos fun l hl => h l (List.mem_reverse.1 hl), trimBlank]

/-- Nothing in front of a line that is not blank is trimmed off. -/
theorem trimBlank_append_text (h : ∃ l ∈ ms, l.isBlank = false) : trimBlank (ls ++ ms) = ls ++ trimBlank ms := by
  obtain ⟨l, hl, htext⟩ := h
  have hne : ms.reverse.dropWhile isBlank ≠ [] := by
    intro hnil
    have hkept := mem_trimBlank hl htext
    rw [trimBlank, hnil] at hkept
    cases hkept
  rw [trimBlank, List.reverse_append, List.dropWhile_append, if_neg (by simpa using hne), List.reverse_append,
    List.reverse_reverse, trimBlank]

/-- The size of lines does not go down when others join them. -/
theorem size_le_of_sublist (h : ls.Sublist ms) : size ls ≤ size ms := by
  rw [size_eq_sum, size_eq_sum]
  exact Nat.sub_le_sub_right
    ((h.map fun l => Chars.byteSize l.text + 1).sum_le_sum fun _ _ => Nat.zero_le _) 1

/-- The number of the first line; 0 if there is none. -/
def firstNumber : List Line → Nat
  | [] => 0
  | l :: _ => l.number

end Line

/-! ### Fragments -/

namespace Fragment

variable {limit least : Nat} {g g' : List (List Line)} {gs : List (List (List Line))}

/-- Whether a fragment has no room for the first unit of the next one. -/
def IsFull (limit : Nat) (g g' : List (List Line)) : Prop :=
  ∃ u rest, g' = u :: rest ∧ limit < Line.size (g ++ [u]).flatten

/-- Whether two fragments do not fit into one. -/
def AreApart (limit : Nat) (g g' : List (List Line)) : Prop := limit < Line.size (g ++ g').flatten

/-- It is enough to look at a start of the next fragment. -/
theorem IsFull.areApart (h : IsFull limit g g') : AreApart limit g g' := by
  obtain ⟨u, rest, rfl, hlimit⟩ := h
  apply Nat.lt_of_lt_of_le hlimit
  apply Line.size_le_of_sublist
  apply List.Sublist.flatten
  show (g ++ [u]).Sublist (g ++ u :: rest)
  rw [List.append_cons g u rest]
  exact List.sublist_append_left _ rest

/-- A fragment goes on to have no room while units are taken from the end of the next one. -/
theorem IsFull.of_isPrefix {g'' : List (List Line)} (h : IsFull limit g g') (hstart : g'' <+: g') (hne : g'' ≠ []) :
    IsFull limit g g'' := by
  obtain ⟨u, rest, rfl, hlimit⟩ := h
  obtain ⟨v, rest', rfl⟩ := List.exists_cons_of_ne_nil hne
  obtain ⟨rfl, -⟩ := List.cons_prefix_cons.1 hstart
  exact ⟨v, rest', rfl, hlimit⟩

/-! #### Packing -/

/-- The first fragment begins with the unit that is there. -/
theorem packAfter_eq_cons (limit : Nat) (u : List Line) (fragment us : List (List Line)) :
    ∃ rest gs, packAfter limit (u :: fragment) us = (u :: rest) :: gs := by
  induction us generalizing fragment with
  | nil => exact ⟨fragment, [], rfl⟩
  | cons v us ih =>
    rw [packAfter]
    split
    · exact ih (fragment ++ [v])
    · exact ⟨fragment, _, rfl⟩

/-- A fragment that is not the last one has no room for what comes after it. -/
theorem isChain_packAfter (fragment us : List (List Line)) :
    (packAfter limit fragment us).IsChain (IsFull limit) := by
  induction us generalizing fragment with
  | nil => exact List.isChain_singleton _
  | cons u us ih =>
    rw [packAfter]
    split
    · -- the unit joins the fragment
      exact ih (fragment ++ [u])
    next hfull =>
      -- the next fragment begins with the unit that had no room
      obtain ⟨rest, gs, hnext⟩ := packAfter_eq_cons limit u [] us
      have hchain := ih [u]
      rw [hnext] at hchain ⊢
      exact List.isChain_cons_cons.2 ⟨⟨u, rest, rfl, Nat.not_le.1 hfull⟩, hchain⟩

/-- **Fragments are packed full**: none has room for the first unit of the next one. -/
theorem isChain_pack (us : List (List Line)) : (pack limit us).IsChain (IsFull limit) := by
  cases us with
  | nil => exact List.isChain_nil
  | cons u us => exact isChain_packAfter [u] us

/-! #### Rebalancing -/

/-- The fragment that units are taken from keeps those at its start. -/
theorem rebalance_isSuffix (limit least : Nat) (before last : List (List Line)) :
    (rebalance limit least before last).1 <:+ before := by
  fun_induction rebalance limit least before last with
  | case1 => exact List.suffix_refl _
  | case2 u v before last h ih => exact ih.trans (List.suffix_cons u _)
  | case3 => exact List.suffix_refl _

/-- Some unit of a fragment stays. -/
theorem rebalance_ne_nil (limit least : Nat) {before : List (List Line)} (hne : before ≠ [])
    (last : List (List Line)) : (rebalance limit least before last).1 ≠ [] := by
  fun_induction rebalance limit least before last with
  | case1 => exact hne
  | case2 u v before last h ih => exact ih (List.cons_ne_nil v before)
  | case3 => exact hne

/-- **Why no further unit is moved**: the fragment before has one unit at most, the last one is large enough, or the next
unit does not fit. -/
theorem rebalance_stops (before last : List (List Line)) :
    (rebalance limit least before last).1.length ≤ 1 ∨
      least ≤ Line.size (rebalance limit least before last).2.flatten ∨
      ∃ u ∈ (rebalance limit least before last).1.head?,
        limit < Line.size (u ++ (rebalance limit least before last).2.flatten) := by
  fun_induction rebalance limit least before last with
  | case1 u v before last h => exact Or.inr (h.imp id fun hlimit => ⟨u, rfl, hlimit⟩)
  | case2 u v before last h ih => exact ih
  | case3 before last h =>
    -- what is left are the fragments with fewer than two units
    cases before with
    | nil => exact Or.inl (Nat.zero_le _)
    | cons u before =>
      cases before with
      | nil => exact Or.inl (Nat.le_refl _)
      | cons v before => exact absurd rfl (h u v before)

/-- Only the last two fragments change. -/
theorem topUp_append (gs : List (List (List Line))) (g last : List (List Line)) :
    topUp limit least (gs ++ [g, last]) =
      gs ++ [(rebalance limit least g.reverse last).1.reverse, (rebalance limit least g.reverse last).2] := by
  induction gs with
  | nil => rfl
  | cons g' gs ih =>
    -- in front of two fragments and more there is nothing to move
    rw [List.cons_append, topUp, ih, List.cons_append]
    · intro h
      cases gs <;> cases h
    · intro last' h
      cases gs <;> simp at h

/-- There is one fragment at most, or there are two at the end. -/
theorem topUp_cases (limit least : Nat) (gs : List (List (List Line))) :
    topUp limit least gs = gs ∧ gs.length ≤ 1 ∨
      ∃ before g last, gs = before ++ [g, last] ∧ topUp limit least gs =
        before ++ [(rebalance limit least g.reverse last).1.reverse, (rebalance limit least g.reverse last).2] := by
  rcases List.eq_nil_or_concat gs with rfl | ⟨gs, last, rfl⟩
  · exact Or.inl ⟨rfl, Nat.zero_le 1⟩
  · rcases List.eq_nil_or_concat gs with rfl | ⟨before, g, rfl⟩
    · exact Or.inl ⟨rfl, Nat.le_refl 1⟩
    · have htwo : (before.concat g).concat last = before ++ [g, last] := by simp
      exact Or.inr ⟨before, g, last, htwo, htwo ▸ topUp_append before g last⟩

/-- **Fragments that stand next to each other do not fit into one**, also when the last two were rebalanced. -/
theorem isChain_topUp (h : gs.IsChain (IsFull limit)) (least : Nat) :
    (topUp limit least gs).IsChain (AreApart limit) := by
  rcases topUp_cases limit least gs with ⟨hsame, -⟩ | ⟨before, g, last, rfl, htop⟩
  · -- fewer than two fragments stay as they are
    rw [hsame]
    exact h.imp fun _ _ => IsFull.areApart
  · rw [htop]
    obtain ⟨hbefore, hfull, -⟩ := List.isChain_append_cons_cons.1 h
    obtain ⟨hbefore, -, hnext⟩ := List.isChain_append.1 hbefore
    refine List.isChain_append_cons_cons.2 ⟨List.isChain_append.2
      ⟨hbefore.imp fun _ _ => IsFull.areApart, List.isChain_singleton _, ?_⟩, ?_, List.isChain_singleton _⟩
    · intro x hx y hy
      obtain rfl := Option.some.inj hy
      have hroom : IsFull limit x g := hnext x hx g rfl
      have hne : g ≠ [] := by
        obtain ⟨u, rest, rfl, -⟩ := hroom
        exact List.cons_ne_nil u rest
      -- what is left of the fragment is a start of it
      refine (hroom.of_isPrefix ?_ ?_).areApart
      · have hsuffix := rebalance_isSuffix limit least g.reverse last
        rwa [← List.reverse_prefix, List.reverse_reverse] at hsuffix
      · have hne' : g.reverse ≠ [] := by simpa using hne
        simpa using rebalance_ne_nil limit least hne' last
    · -- the last two fragments have together what they had before
      show limit < _
      rw [rebalance_flatten, List.reverse_reverse]
      exact hfull.areApart

/-- **Why no further unit is moved to the last fragment.** -/
theorem topUp_stops {before : List (List (List Line))} {last : List (List Line)}
    (h : topUp limit least gs = before ++ [g, last]) :
    g.length ≤ 1 ∨ least ≤ Line.size last.flatten ∨ ∃ u ∈ g.getLast?, limit < Line.size (u ++ last.flatten) := by
  -- two fragments at the end have been rebalanced
  rcases topUp_cases limit least gs with ⟨hsame, hlength⟩ | ⟨before', g', last', -, htop⟩
  · rw [← hsame, h, List.length_append] at hlength
    exact absurd hlength (by simp)
  · -- and they are what rebalancing made of the last two
    rw [htop] at h
    obtain ⟨-, htwo⟩ := List.append_inj' h rfl
    obtain ⟨rfl, hlast⟩ := List.cons.inj htwo
    obtain rfl := (List.cons.inj hlast).1
    rw [List.length_reverse, List.getLast?_reverse]
    exact rebalance_stops g'.reverse last'

/-- **Nothing can be given from a fragment to a later one**, if that one and all behind it are short: if a unit of the
first fragment is not its first one, then the lines from this unit on are too many for one fragment. -/
theorem gives_nothing {before between behind : List (List (List Line))} {vs ws : List (List Line)} {u : List Line}
    (hfull : gs.IsChain (IsFull limit)) (hleast : least < limit)
    (htop : topUp limit least gs = before ++ (vs ++ u :: ws) :: (between ++ g :: behind))
    (hshort : Line.size (g :: behind).flatten.flatten < least) :
    vs = [] ∨ limit < Line.size (u :: ws ++ (between ++ g :: behind).flatten).flatten := by
  have happart := isChain_topUp hfull least
  rw [htop] at happart
  obtain ⟨-, happart⟩ := List.isChain_split.1 happart
  cases behind with
  | cons b behind =>
    -- the fragment does not fit into one with what is behind it, so they are not short
    rw [← List.cons_append] at happart
    have hnot : AreApart limit g b := (List.isChain_append_cons_cons.1 happart).2.1
    have hle : Line.size (g ++ b).flatten ≤ Line.size (g :: b :: behind).flatten.flatten := by
      apply Line.size_le_of_sublist
      apply List.Sublist.flatten
      show (g ++ b).Sublist (g ++ (b ++ behind.flatten))
      exact (List.sublist_append_left b _).append_left g
    exact absurd hnot (by unfold AreApart; omega)
  | nil =>
    rcases List.eq_nil_or_concat between with rfl | ⟨between, b, rfl⟩
    · -- the two fragments are the last ones
      rcases topUp_stops htop with hone | hlarge | ⟨v, hv, hlimit⟩
      · -- the fragment has one unit, which is its first
        left
        rw [List.length_append, List.length_cons] at hone
        exact List.eq_nil_of_length_eq_zero (by omega)
      · -- the last one is large enough, which it is not
        rw [List.flatten_singleton] at hshort
        omega
      · -- the last unit of the fragment does not fit, so neither does one with more behind it
        right
        rw [List.getLast?_append_of_ne_nil _ (List.cons_ne_nil u ws)] at hv
        refine Nat.lt_of_lt_of_le hlimit (Line.size_le_of_sublist ?_)
        rw [List.nil_append, List.flatten_singleton, List.flatten_append]
        exact (List.sublist_flatten_of_mem (List.mem_of_getLast? hv)).append_right _
    · -- the fragment does not fit into one with what is in front of it
      right
      have happart' : ((vs ++ u :: ws) :: between ++ b :: [g]).IsChain (AreApart limit) := by simpa using happart
      have hnot : AreApart limit b g := (List.isChain_append_cons_cons.1 happart').2.1
      refine Nat.lt_of_lt_of_le hnot (Line.size_le_of_sublist (List.Sublist.flatten ?_))
      have hall : u :: ws ++ (between.concat b ++ [g]).flatten = u :: ws ++ between.flatten ++ (b ++ g) := by simp
      rw [hall]
      exact List.sublist_append_right _ _

end Fragment

/-! ### Parts of a chunk -/

section Parts

variable {s : ChunkSettings} {content : String} {definitions : List Definition} {c p q : Chunk} {parts : List Chunk}
  {before ls after : List Line} {last : Nat}

/-- The lines of a chunk's own with the numbers from one up to another. -/
def Chunk.linesIn (c : Chunk) (first last : Nat) : List Line :=
  c.ownLines.filter fun l => first ≤ l.number && l.number ≤ last

/-- What the parts of a chunk are put together from. -/
def Chunk.units (s : ChunkSettings) (c : Chunk) : List (List Line) :=
  Fragment.units s.maxChunkSize (Fragment.paragraphs c.ownLines)

/-- Whether a part `q` of a chunk can give nothing to the next one, which goes up to the line `last`: it consists of a
single unit, or its last unit is too long for one part together with the lines from there up to `last`. -/
def Chunk.GivesNothing (s : ChunkSettings) (c q : Chunk) (last : Nat) : Prop :=
  ∃ u ∈ c.units s, (∃ l ∈ u, l.number = q.endLine) ∧
    ((∃ l ∈ u, l.number = q.startLine) ∨ s.maxChunkSize < Line.size (c.linesIn (Line.firstNumber u) last))

/-- The lines that stand between two numbers. -/
theorem Chunk.linesIn_eq (hcut : c.ownLines = before ++ (ls ++ after)) (hne : ls ≠ [])
    (hlast : ∀ l ∈ ls, l.number ≤ last) (hafter : ∀ l ∈ after, last < l.number) :
    c.linesIn (Line.firstNumber ls) last = ls := by
  obtain ⟨a, r, rfl⟩ := List.exists_cons_of_ne_nil hne
  -- the lines ascend, so those before and behind have other numbers
  have hsorted : c.ownLines.Pairwise fun a b => a.number < b.number := Line.pairwise_numbered _ _
  rw [hcut] at hsorted
  obtain ⟨-, hrest, hbefore⟩ := List.pairwise_append.1 hsorted
  have hfirst : ∀ l ∈ a :: r, a.number ≤ l.number := fun l hl =>
    Line.number_le_of_head? (List.pairwise_append.1 hrest).1 rfl hl
  have hnone : ∀ ms : List Line, (∀ l ∈ ms, l.number < a.number ∨ last < l.number) →
      (ms.filter fun l => a.number ≤ l.number && l.number ≤ last) = [] := by
    intro ms hms
    rw [List.filter_eq_nil_iff]
    intro l hl
    have hout := hms l hl
    rw [Bool.and_eq_true, decide_eq_true_iff, decide_eq_true_iff]
    omega
  -- only the lines between the two numbers are left
  show c.ownLines.filter (fun l => a.number ≤ l.number && l.number ≤ last) = a :: r
  rw [hcut, List.filter_append, List.filter_append, hnone before, hnone after, List.append_nil, List.nil_append,
    List.filter_eq_self]
  · intro l hl
    rw [Bool.and_eq_true, decide_eq_true_iff, decide_eq_true_iff]
    exact ⟨hfirst l hl, hlast l hl⟩
  · exact fun l hl => Or.inr (hafter l hl)
  · exact fun l hl => Or.inl (hbefore l hl a (List.mem_append_left _ List.mem_cons_self))

/-- A chunk of lines begins with the first of them. -/
theorem Chunk.MadeOf.startLine_eq (h : p.MadeOf ls) :
    p.startLine = Line.firstNumber (Line.trimBlank ls) ∧ p.startLine = Line.firstNumber ls := by
  obtain ⟨a, ha, hfirst⟩ := h.first
  obtain ⟨blank, happend, -⟩ := Line.trimBlank_append ls
  obtain ⟨r, hr⟩ := List.head?_eq_some_iff.1 ha
  rw [hr] at happend ⊢
  rw [happend, ← hfirst]
  exact ⟨rfl, rfl⟩

/-- The size of a chunk of lines is that of the lines between its ends. -/
theorem Chunk.MadeOf.byteSize_eq (h : p.MadeOf ls) (hcut : c.ownLines = before ++ (ls ++ after)) :
    Text.byteSize p.content = Line.size (c.linesIn p.startLine p.endLine) := by
  obtain ⟨b, hb, hend⟩ := h.last
  obtain ⟨blank, happend, -⟩ := Line.trimBlank_append ls
  -- the blank lines behind do not count
  have hkept : c.ownLines = before ++ (Line.trimBlank ls ++ (blank ++ after)) := by
    rw [hcut, ← List.append_assoc (Line.trimBlank ls), ← happend]
  have hsorted : c.ownLines.Pairwise fun a b => a.number < b.number := Line.pairwise_numbered _ _
  rw [hkept] at hsorted
  obtain ⟨hown, -, hbehind⟩ := List.pairwise_append.1 (List.pairwise_append.1 hsorted).2.1
  rw [h.startLine_eq.1, Chunk.linesIn_eq hkept (List.ne_nil_of_mem (List.mem_of_getLast? hb)), h.content,
    Text.byteSize_ofList, Line.size]
  · exact fun l hl => hend ▸ Line.number_le_of_getLast? hown hb hl
  · exact fun l hl => hend ▸ hbehind b (List.mem_of_getLast? hb) l hl

/-- Of some units that are not all blank there is a last one with text. -/
theorem Fragment.exists_last_unit {g : List (List Line)} (h : ∃ l ∈ g.flatten, l.isBlank = false) :
    ∃ vs u ws, g = vs ++ u :: ws ∧ (∃ l ∈ u, l.isBlank = false) ∧ ∀ l ∈ ws.flatten, l.isBlank = true := by
  -- from the last unit to the first
  induction g using List.reverseRecOn with
  | nil =>
    obtain ⟨l, hl, -⟩ := h
    cases hl
  | append_singleton g u ih =>
    by_cases hu : ∃ l ∈ u, l.isBlank = false
    · exact ⟨g, u, [], rfl, hu, fun l hl => by cases hl⟩
    · -- the last unit is blank, so an earlier one has text
      have hblank : ∀ l ∈ u, l.isBlank = true := fun l hl => by
        cases hl' : l.isBlank with
        | true => rfl
        | false => exact absurd ⟨l, hl, hl'⟩ hu
      obtain ⟨l, hl, htext⟩ := h
      rw [List.flatten_append, List.flatten_singleton, List.mem_append] at hl
      obtain ⟨vs, v, ws, rfl, hv, hws⟩ := ih ⟨l, hl.resolve_right fun hmem => hu ⟨l, hmem, htext⟩, htext⟩
      refine ⟨vs, v, ws ++ [u], by simp, hv, fun l hl => ?_⟩
      rw [List.flatten_append, List.flatten_singleton, List.mem_append] at hl
      exact hl.elim (hws l) (hblank l)

/-- A part ends in the last unit with text, and begins there if this is the first one. -/
theorem Chunk.MadeOf.ends_in {vs ws : List (List Line)} {u : List Line} (h : q.MadeOf (vs ++ u :: ws).flatten)
    (hu : ∃ l ∈ u, l.isBlank = false) (hws : ∀ l ∈ ws.flatten, l.isBlank = true) :
    (∃ l ∈ u, l.number = q.endLine) ∧ (vs = [] → ∃ l ∈ u, l.number = q.startLine) := by
  -- what comes behind the unit is trimmed off, and nothing in front of it
  have hkept : Line.trimBlank (vs ++ u :: ws).flatten = vs.flatten ++ Line.trimBlank u := by
    rw [List.flatten_append, List.flatten_cons, ← List.append_assoc, Line.trimBlank_append_blank hws,
      Line.trimBlank_append_text hu]
  have hne : Line.trimBlank u ≠ [] := by
    obtain ⟨l, hl, htext⟩ := hu
    exact List.ne_nil_of_mem (Line.mem_trimBlank hl htext)
  refine ⟨?_, ?_⟩
  · -- the last line that is left is one of the unit
    obtain ⟨b, hb, hend⟩ := h.last
    rw [hkept, List.getLast?_append_of_ne_nil _ hne] at hb
    exact ⟨b, (Line.trimBlank_sublist u).subset (List.mem_of_getLast? hb), hend⟩
  · -- with no unit in front of it, so is the first one
    rintro rfl
    obtain ⟨a, ha, hstart⟩ := h.first
    rw [hkept] at ha
    exact ⟨a, (Line.trimBlank_sublist u).subset (List.mem_of_head? ha), hstart⟩

/-- The fragments that the last two parts of a chunk are made of. -/
theorem Chunk.exists_fragments (hsplit : Chunk.split s c = parts ++ [q, p]) :
    ∃ before g between g' behind,
      Fragment.topUp s.maxChunkSize s.minFragmentSize (Fragment.pack s.maxChunkSize (c.units s)) =
        before ++ g :: (between ++ g' :: behind) ∧ q.MadeOf g.flatten ∧ p.MadeOf g'.flatten := by
  rcases Chunk.split_cases s c with h | h
  · -- a chunk that is kept as it is is a single part
    rw [h] at hsplit
    exact absurd (congrArg List.length hsplit) (by simp)
  · rw [h, Fragment.split, List.filterMap_map] at hsplit
    -- parts that were left out as they are blank can stand before, between and behind the two
    obtain ⟨before, rest, htop, -, hrest⟩ := List.filterMap_eq_append_iff.1 hsplit
    obtain ⟨none, g, rest', rfl, -, hq, hrest⟩ := List.filterMap_eq_cons_iff.1 hrest
    obtain ⟨between, g', behind, rfl, -, hp, -⟩ := List.filterMap_eq_cons_iff.1 hrest
    refine ⟨before ++ none, g, between, g', behind, ?_, (Chunk.madeOf_of_ofLines? hq).1,
      (Chunk.madeOf_of_ofLines? hp).1⟩
    rw [List.append_assoc]
    exact htop

/-- The units of the fragments are those of the chunk, and their lines are its own. -/
theorem Chunk.flatten_topUp (s : ChunkSettings) (c : Chunk) (least : Nat) :
    (Fragment.topUp s.maxChunkSize least (Fragment.pack s.maxChunkSize (c.units s))).flatten = c.units s ∧
      (c.units s).flatten = c.ownLines :=
  ⟨by rw [Fragment.topUp_flatten, Fragment.pack_flatten],
    by rw [Chunk.units, Fragment.units_flatten, Fragment.paragraphs_flatten]⟩

/-- **Nothing can be given to a short part**, measured with the blank lines behind it and up to the end of the chunk. -/
theorem givesNothing_of_short (hvalid : s.minFragmentSize < s.maxChunkSize)
    (hown : ∀ l ∈ c.ownLines, l.number ≤ last) (hsplit : Chunk.split s c = parts ++ [q, p])
    (hshort : Line.size (c.linesIn p.startLine last) < s.minFragmentSize) : c.GivesNothing s q last := by
  obtain ⟨before, g, between, g', behind, htop, hq, hp⟩ := Chunk.exists_fragments hsplit
  obtain ⟨hunits, hlines⟩ := Chunk.flatten_topUp s c s.minFragmentSize
  rw [htop] at hunits
  rw [← hunits] at hlines
  -- the part before has text, so one of its units is the last with text
  have htext : ∃ l ∈ g.flatten, l.isBlank = false := by
    obtain ⟨b, hb, -⟩ := hq.last
    exact ⟨b, (Line.trimBlank_sublist _).subset (List.mem_of_getLast? hb), Line.getLast?_trimBlank hb⟩
  obtain ⟨vs, u, ws, rfl, hu, hws⟩ := Fragment.exists_last_unit htext
  obtain ⟨hend, hstart⟩ := hq.ends_in hu hws
  have hmem : u ∈ c.units s := by
    rw [← hunits]
    simp
  -- what is measured are the lines of the fragments up to the end
  have hbehind : c.linesIn p.startLine last = (g' :: behind).flatten.flatten := by
    obtain ⟨a, ha, -⟩ := hp.first
    have hne : g'.flatten ≠ [] :=
      List.ne_nil_of_mem ((Line.trimBlank_sublist _).subset (List.mem_of_head? ha))
    -- the part begins with the first of these lines
    have hfirst : p.startLine = Line.firstNumber (g' :: behind).flatten.flatten := by
      obtain ⟨b, r, hbr⟩ := List.exists_cons_of_ne_nil hne
      rw [hp.startLine_eq.2, List.flatten_cons, List.flatten_append, hbr]
      rfl
    -- the lines of the fragments are those of the chunk, in their order
    have hcut : c.ownLines =
        (before ++ (vs ++ u :: ws) :: between).flatten.flatten ++ ((g' :: behind).flatten.flatten ++ []) := by
      rw [← hlines]
      simp
    rw [hfirst]
    refine Chunk.linesIn_eq hcut ?_ (fun l hl => hown l ?_) (by simp)
    · rw [List.flatten_cons, List.flatten_append]
      exact List.append_ne_nil_of_left_ne_nil hne _
    · rw [hcut]
      exact List.mem_append_right _ (List.mem_append_left _ hl)
  -- and what would be given are the lines from the unit on
  have hfrom : c.linesIn (Line.firstNumber u) last = (u :: ws ++ (between ++ g' :: behind).flatten).flatten := by
    obtain ⟨a, ha, -⟩ := hu
    obtain ⟨b, r, rfl⟩ := List.exists_cons_of_ne_nil (List.ne_nil_of_mem ha)
    have hcut : c.ownLines = (before.flatten ++ vs).flatten ++
        (((b :: r) :: ws ++ (between ++ g' :: behind).flatten).flatten ++ []) := by
      rw [← hlines]
      simp
    have hrange := Chunk.linesIn_eq hcut (by simp) (fun l hl => hown l ?_) (by simp)
    · exact hrange
    · rw [hcut]
      exact List.mem_append_right _ (List.mem_append_left _ hl)
  rw [hbehind] at hshort
  have hnothing := Fragment.gives_nothing (Fragment.isChain_pack (c.units s)) hvalid htop hshort
  rw [← hfrom] at hnothing
  exact ⟨u, hmem, hend, hnothing.imp hstart id⟩

/-- Behind the parts of a chunk that was cut out for a declaration there are no lines of it. -/
theorem number_le_of_mem_syntaxChunks (hc : c ∈ syntaxChunks content definitions)
    (hsplit : Chunk.split s c = parts ++ [q, p]) {l : Line} (hl : l ∈ c.ownLines) : l.number ≤ p.endLine := by
  have hmirrors := mirrors_of_mem_syntaxChunks hc
  -- the last line of the chunk has text, so one of the parts goes on to it
  obtain ⟨x, hx, -, hlast⟩ := hmirrors.exists_covers (s := s) ⟨hmirrors.startLine_le, Nat.le_refl _⟩
    (hasText_of_mem_syntaxChunks hc)
  -- no other part goes on behind the last one
  have hle : x.endLine ≤ p.endLine := by
    have hascending := Chunk.ascending_split s c
    have hp : p ∈ Chunk.split s c := by simp [hsplit]
    have hforward := (hmirrors.partOf_of_mem_split hp).2
    have hconcat : Chunk.split s c = (parts ++ [q]) ++ [p] := by simp [hsplit]
    rw [hconcat] at hascending hx
    rcases List.mem_append.1 hx with hx | hx
    · have hbefore := (List.pairwise_append.1 hascending).2.2 x hx p (List.mem_singleton_self p)
      omega
    · rw [List.mem_singleton.1 hx]
  exact Nat.le_trans (hmirrors.covers_of_mem_ownLines hl).2 (Nat.le_trans hlast hle)

/-- **Short parts at the end of a chunk are topped up** as far as this is possible. If a chunk is split into two parts or
more and no lines of it are left behind the last one, and that one is shorter than a fragment should be, then the part
before it can give nothing to it. The same holds of any chunk if the blank lines at its end are counted. There are no
lines left behind the parts of a chunk that was cut out for a declaration. -/
theorem givesNothing_split (hvalid : s.minFragmentSize < s.maxChunkSize) (hc : c ∈ firstChunks content definitions)
    (hsplit : Chunk.split s c = parts ++ [q, p]) :
    ((∀ l ∈ c.ownLines, l.number ≤ p.endLine) → Text.byteSize p.content < s.minFragmentSize →
        c.GivesNothing s q p.endLine) ∧
      (Line.size (c.linesIn p.startLine c.endLine) < s.minFragmentSize → c.GivesNothing s q c.endLine) ∧
      (c ∈ syntaxChunks content definitions → ∀ l ∈ c.ownLines, l.number ≤ p.endLine) := by
  have hmirrors := mirrors_of_mem_firstChunks hc
  refine ⟨fun hown hshort => ?_, fun hshort => ?_, fun hc l hl => number_le_of_mem_syntaxChunks hc hsplit hl⟩
  · -- up to its own end the part is measured by its size
    obtain ⟨before, g, between, g', behind, htop, -, hp⟩ := Chunk.exists_fragments hsplit
    have hcut : c.ownLines = (before ++ g :: between).flatten.flatten ++ (g'.flatten ++ behind.flatten.flatten) := by
      obtain ⟨hunits, hlines⟩ := Chunk.flatten_topUp s c s.minFragmentSize
      rw [← hlines, ← hunits, htop]
      simp
    rw [hp.byteSize_eq hcut] at hshort
    exact givesNothing_of_short hvalid hown hsplit hshort
  · -- no line of the chunk goes on behind its end
    exact givesNothing_of_short hvalid (fun l hl => (hmirrors.covers_of_mem_ownLines hl).2) hsplit hshort

end Parts

/-! Two documents without declarations. In the first one the last unit of the part before is a line that does not fit
with the last part. In the second one a blank line at the end makes the last fragment large enough, and is then left
out. -/

section Ends

/-- Three lines, of which the first two fit into six bytes, and the last two do not. -/
def heavyText : String := "a\nbbbb\ncc\n"

/-- Three lines with one byte each, and a blank one. -/
def blankEndText : String := "a\nb\nc\n\n"

/-- A text without declarations is one chunk before splitting. -/
theorem wholeChunk_mem_firstChunks (content : String) : wholeChunk content ∈ firstChunks content [] := by
  rw [firstChunks, syntaxChunks_nil]
  exact List.mem_singleton_self _

/-- Where a text is cut into two parts as a whole. -/
theorem exists_two_parts (content : String) (s : ChunkSettings) {x y : String × Nat × Nat}
    (h : (Chunk.split s (wholeChunk content)).map (fun p => (p.content, p.startLine, p.endLine)) = [x, y]) :
    ∃ q p, Chunk.split s (wholeChunk content) = [] ++ [q, p] ∧ (q.content, q.startLine, q.endLine) = x ∧
      (p.content, p.startLine, p.endLine) = y := by
  obtain ⟨q, rest, hsplit, hq, hrest⟩ := List.map_eq_cons_iff.1 h
  obtain ⟨p, rest, rfl, hp, hnil⟩ := List.map_eq_cons_iff.1 hrest
  obtain rfl := List.map_eq_nil_iff.1 hnil
  exact ⟨q, p, hsplit, hq, hp⟩

/-- In the first text the last part is short, and the one before it has a unit that does not fit. -/
theorem givesNothing_split_heavy :
    3 < 6 ∧ wholeChunk heavyText ∈ firstChunks heavyText [] ∧
      ∃ q p, Chunk.split ⟨6, 3⟩ (wholeChunk heavyText) = [] ++ [q, p] ∧
        (q.content, q.startLine, q.endLine) = ("a\nbbbb", 1, 2) ∧ (p.content, p.startLine, p.endLine) = ("cc", 3, 3) ∧
        (wholeChunk heavyText).GivesNothing ⟨6, 3⟩ q p.endLine := by
  -- a text without declarations is one chunk, and is split into two parts
  have hwhole := wholeChunk_mem_firstChunks heavyText
  obtain ⟨q, p, hsplit, hq, hp⟩ := exists_two_parts heavyText ⟨6, 3⟩
    (x := ("a\nbbbb", 1, 2)) (y := ("cc", 3, 3)) (by decide +kernel)
  obtain ⟨hcontent, hends⟩ := Prod.mk.inj hp
  obtain ⟨-, hend⟩ := Prod.mk.inj hends
  refine ⟨by decide, hwhole, q, p, hsplit, hq, hp, ?_⟩
  apply (givesNothing_split (s := ⟨6, 3⟩) (by decide) hwhole hsplit).1
  · rw [hend]
    decide +kernel
  · rw [hcontent]
    decide +kernel

/-- **The last part can be short although the one before it could give a unit**: the parts of the second text are its
first two lines and the third one, and the second line fits with the third one. -/
theorem not_givesNothing_blankEnd :
    2 < 3 ∧ wholeChunk blankEndText ∈ firstChunks blankEndText [] ∧
      ∃ q p, Chunk.split ⟨3, 2⟩ (wholeChunk blankEndText) = [] ++ [q, p] ∧ Text.byteSize p.content < 2 ∧
        ¬(wholeChunk blankEndText).GivesNothing ⟨3, 2⟩ q p.endLine := by
  -- the parts are computed
  obtain ⟨q, p, hsplit, hq, hp⟩ := exists_two_parts blankEndText ⟨3, 2⟩
    (x := ("a\nb", 1, 2)) (y := ("c", 3, 3)) (by decide +kernel)
  obtain ⟨-, hends⟩ := Prod.mk.inj hq
  obtain ⟨hfirst, hlast⟩ := Prod.mk.inj hends
  obtain ⟨hcontent, hends⟩ := Prod.mk.inj hp
  obtain ⟨-, hend⟩ := Prod.mk.inj hends
  refine ⟨by decide, wholeChunk_mem_firstChunks blankEndText, q, p, hsplit, ?_, ?_⟩
  · rw [hcontent]
    decide +kernel
  · rw [Chunk.GivesNothing, hfirst, hlast, hend]
    decide +kernel

end Ends

end CodeSearch
