import CodeSearch.DocComment
import CodeSearch.Proofs.Paths
import Mathlib.Logic.Basic

/-!
# Comments behind an interpreter line

The comment that describes a file is looked for in two ways. Quoted texts and marked lines are read off the
significant lines, and a line that is passed over leaves those as they are
(`significantLines_append_of_isPassedOver`). A block is not: it has to stand at the very start of the text, after
blanks only, and an interpreter line is no blank. So

* behind an interpreter line a block is never found (`block?_of_hash`);
* nothing is found in its place, since a text that starts with a block has no significant line with the mark of a
  line comment before it (`markedLines?_of_block`).

Together: an interpreter line changes nothing, unless the comment is a block, and then it hides it
(`docComment?_interpreter`).
-/

namespace CodeSearch

namespace Chars

variable {c : Char} {s : List Char}

/-! ### Trimmed lines -/

/-- What is not dropped keeps all before it. -/
theorem dropEndWhile_cons_of_neg {p : Char → Bool} (hc : p c = false) (s : List Char) :
    dropEndWhile p (c :: s) = c :: dropEndWhile p s := by
  rw [dropEndWhile, List.reverse_cons, List.dropWhile_append, dropEndWhile]
  split
  next h => rw [List.dropWhile_cons_of_neg (by simp [hc]), List.isEmpty_iff.1 h]; rfl
  next => rw [List.reverse_append]; rfl

/-- A first character that is no blank stays. -/
theorem trim_cons_of_not_blank (hc : isBlank c = false) (s : List Char) : trim (c :: s) = c :: trimEnd s := by
  rw [trim, trimStart_cons_of_not_blank hc, trimEnd, dropEndWhile_cons_of_neg hc, trimEnd]

/-- A blank in front is trimmed off, -/
theorem trim_cons_of_blank (hc : isBlank c = true) (s : List Char) : trim (c :: s) = trim s := by
  rw [trim, trimStart, List.dropWhile_cons_of_pos hc, trim, trimStart]

/-- and so is one at the end. -/
theorem trim_concat_of_blank (hc : isBlank c = true) (s : List Char) : trim (s ++ [c]) = trim s := by
  rw [trim, trimStart, List.dropWhile_append, trim, trimStart]
  split
  next h => rw [List.dropWhile_cons_of_pos hc, List.isEmpty_iff.1 h]; rfl
  next =>
    rw [trimEnd, dropEndWhile, List.reverse_append, List.reverse_singleton, List.singleton_append,
      List.dropWhile_cons_of_pos hc]
    rfl

/-- A carriage return at the end is a blank, so trimming makes up for it. -/
theorem trim_dropReturn (s : List Char) : trim (dropReturn s) = trim s := by
  rw [dropReturn]
  split
  next h =>
    obtain ⟨r, rfl⟩ := List.getLast?_eq_some_iff.1 h
    rw [List.dropLast_concat, trim_concat_of_blank (by decide)]
  next => rfl

/-- The first line of a text is its first piece, unless nothing is in that and nothing follows. -/
theorem map_trim_linesOfPieces {p : List Char} {ps : List (List Char)} (h : p ≠ [] ∨ ps ≠ []) :
    (linesOfPieces (p :: ps)).map trim = trim p :: (linesOfPieces ps).map trim := by
  -- a last piece counts as a line, as there is something in it
  cases ps with
  | nil =>
    have hp : ¬p.isEmpty = true := by simpa using h
    have hline : linesOfPieces [p] = [p] := if_neg hp
    rw [hline]
    rfl
  | cons q qs =>
    -- the line ends in front of a newline, and may lose a carriage return that would be trimmed off
    rw [linesOfPieces, List.map_cons, trim_dropReturn]
    exact List.cons_ne_nil q qs

/-- There is always a first piece. -/
theorem exists_pieces (sep : Char) (s : List Char) : ∃ p ps, pieces sep s = p :: ps :=
  List.exists_cons_of_ne_nil (pieces_ne_nil sep s)

/-- What is no separator goes to the first piece. -/
theorem pieces_cons_of_ne {sep : Char} {p : List Char} {ps : List (List Char)} (hc : c ≠ sep)
    (h : pieces sep s = p :: ps) : pieces sep (c :: s) = (c :: p) :: ps := by
  rw [pieces, if_neg hc, h]

end Chars

/-- Whether the comment of a language may be a block. -/
def Language.takesBlocks : Language → Bool
  | .javascript | .typescript | .tsx | .go => true
  | .python | .rust | .bash | .toml | .json | .markdown => false

namespace DocComment

open Chars (lines pieces trim trimEnd trimStart linesOfPieces)

variable {c : Char} {p s : List Char}

/-! ### Significant lines -/

/-- **A first line that is passed over** leaves the significant lines as they are. -/
theorem significantLines_append_of_isPassedOver (hp : '\n' ∉ p) (hpassed : isPassedOver (trim p) = true)
    (s : List Char) : significantLines (p ++ '\n' :: s) = significantLines s := by
  have hpieces : pieces '\n' (p ++ '\n' :: s) = p :: pieces '\n' s := by
    rw [Chars.pieces_append_cons, Chars.pieces_of_not_mem hp, List.singleton_append]
  rw [significantLines, lines, hpieces, Chars.map_trim_linesOfPieces (Or.inr (Chars.pieces_ne_nil _ s)),
    List.dropWhile_cons_of_pos hpassed]
  rfl

/-- An interpreter line is passed over, whatever stands in it. -/
theorem isPassedOver_interpreter (t : List Char) : isPassedOver (trim ('#' :: '!' :: t)) = true := by
  rw [Chars.trim_cons_of_not_blank (by decide), trimEnd, Chars.dropEndWhile_cons_of_neg (by decide)]
  rfl

/-- A blank at the start is part of a line that is passed over, or trimmed off. -/
theorem significantLines_cons_of_blank (hc : isBlank c = true) (s : List Char) :
    significantLines (c :: s) = significantLines s := by
  by_cases hnewline : c = '\n'
  · -- a newline ends a line with nothing in it, which is passed over
    subst hnewline
    exact significantLines_append_of_isPassedOver (p := []) List.not_mem_nil rfl s
  · obtain ⟨p, ps, hpieces⟩ := Chars.exists_pieces '\n' s
    rw [significantLines, significantLines, lines, lines, Chars.pieces_cons_of_ne hnewline hpieces, hpieces,
      Chars.map_trim_linesOfPieces (Or.inl (List.cons_ne_nil c p)), Chars.trim_cons_of_blank hc]
    -- the blank is trimmed off the first line, if there is one without it
    by_cases hrest : p ≠ [] ∨ ps ≠ []
    · rw [Chars.map_trim_linesOfPieces hrest]
    · -- the blank is all there is
      obtain ⟨hp, hps⟩ := not_or.1 hrest
      rw [not_not.1 hp, not_not.1 hps]
      rfl

/-- Blanks at the start do not count. -/
theorem significantLines_trimStart (s : List Char) : significantLines (trimStart s) = significantLines s := by
  induction s with
  | nil => rfl
  | cons c s ih =>
    cases hc : isBlank c with
    | false => rw [Chars.trimStart_cons_of_not_blank hc]
    | true => rw [significantLines_cons_of_blank hc, ← ih, trimStart, List.dropWhile_cons_of_pos hc, trimStart]

/-- A text that starts with the mark of a block has it in its first significant line. -/
theorem exists_significantLines_of_block (s : List Char) :
    ∃ q ls, significantLines ('/' :: '*' :: s) = ('/' :: '*' :: q) :: ls := by
  obtain ⟨p, ps, hpieces⟩ := Chars.exists_pieces '\n' s
  have hmarked : pieces '\n' ('/' :: '*' :: s) = ('/' :: '*' :: p) :: ps :=
    Chars.pieces_cons_of_ne (by decide) (Chars.pieces_cons_of_ne (by decide) hpieces)
  have htrimmed : trim ('/' :: '*' :: p) = '/' :: '*' :: trimEnd p := by
    rw [Chars.trim_cons_of_not_blank (by decide), trimEnd, Chars.dropEndWhile_cons_of_neg (by decide), trimEnd]
  refine ⟨trimEnd p, (linesOfPieces ps).map trim, ?_⟩
  rw [significantLines, lines, hmarked, Chars.map_trim_linesOfPieces (Or.inl (List.cons_ne_nil _ _)), htrimmed]
  exact List.dropWhile_cons_of_neg (by simp [isPassedOver, Chars.startsWith, List.isPrefixOf])

/-! ### Blocks -/

/-- A block does not start with a number sign. -/
theorem block?_of_hash (s : List Char) : block? ('#' :: s) = none := by
  rw [block?, Chars.trimStart_cons_of_not_blank (by decide)]
  rfl

/-- **Where a block stands, there are no marked lines.** -/
theorem markedLines?_of_block (h : (block? s).isSome) : markedLines? ['/', '/'] s = none := by
  obtain ⟨text, htext⟩ := Option.isSome_iff_exists.1 h
  obtain ⟨body, hbody, -⟩ := Option.bind_eq_some_iff.1 htext
  have hstart : trimStart s = '/' :: '*' :: body := Chars.after?_eq_some_iff.1 hbody
  obtain ⟨q, ls, hlines⟩ := exists_significantLines_of_block body
  rw [markedLines?, ← significantLines_trimStart, hstart, hlines]
  rfl

/-- What a language that takes blocks falls back on. -/
theorem raw?_of_takesBlocks {l : Language} (hl : l.takesBlocks = true) (s : List Char) :
    raw? l s = (block? s).or (markedLines? ['/', '/'] s) := by
  cases l with
  | javascript | typescript | tsx | go => rfl
  | python | rust | bash | toml | json | markdown => cases hl

/-- The other languages go by the significant lines alone. -/
theorem raw?_congr {l : Language} (hl : l.takesBlocks = false) {s s' : List Char}
    (h : significantLines s = significantLines s') : raw? l s = raw? l s' := by
  cases l with
  | javascript | typescript | tsx | go => cases hl
  | json | markdown => rfl
  | python => rw [raw?, quoted?, h, raw?, quoted?]
  | rust | bash | toml => rw [raw?, markedLines?, h, raw?, markedLines?]

/-- **The comment behind an interpreter line**, as it stands in the file. -/
theorem raw?_interpreter (l : Language) {t : List Char} (ht : '\n' ∉ t) (s : List Char) :
    raw? l ('#' :: '!' :: t ++ '\n' :: s) =
      if l.takesBlocks = true ∧ (block? s).isSome then none else raw? l s := by
  have hsignificant : significantLines ('#' :: '!' :: t ++ '\n' :: s) = significantLines s :=
    significantLines_append_of_isPassedOver (by simpa using ht) (isPassedOver_interpreter t) s
  -- lines that are marked are looked for among those that count, of which the first one is none
  cases hl : l.takesBlocks with
  | false => rw [if_neg fun h => Bool.false_ne_true h.1, raw?_congr hl hsignificant]
  | true =>
    have hmarked : markedLines? ['/', '/'] ('#' :: '!' :: t ++ '\n' :: s) = markedLines? ['/', '/'] s := by
      rw [markedLines?, hsignificant, markedLines?]
    rw [raw?_of_takesBlocks hl, raw?_of_takesBlocks hl, List.cons_append, block?_of_hash, ← List.cons_append,
      hmarked, Option.none_or]
    -- a block is looked for where the file starts, which is now in front of it
    cases hblock : block? s with
    | none => rfl
    | some text => exact markedLines?_of_block (by rw [hblock]; rfl)

/-- Whether the comment of a file is a block with something other than blanks in it. -/
def StandsInBlock (l : Language) (source : String) : Prop :=
  l.takesBlocks = true ∧ ∃ text, block? source.toList = some text ∧ trim text ≠ []

end DocComment

open DocComment (StandsInBlock)

/-- **An interpreter line changes nothing but for a block, and a block it hides.** -/
theorem docComment?_interpreter (l : Language) {t : String} (ht : '\n' ∉ t.toList) (source : String) :
    (docComment? l ("#!" ++ t ++ "\n" ++ source) = docComment? l source ↔ ¬StandsInBlock l source) ∧
      (StandsInBlock l source →
        docComment? l ("#!" ++ t ++ "\n" ++ source) = none ∧ (docComment? l source).isSome) := by
  have hlist : ("#!" ++ t ++ "\n" ++ source).toList = '#' :: '!' :: t.toList ++ '\n' :: source.toList := by
    simp only [String.toList_append, List.append_assoc]
    rfl
  have hhidden : StandsInBlock l source →
      docComment? l ("#!" ++ t ++ "\n" ++ source) = none ∧ (docComment? l source).isSome := by
    -- the block is the comment of the file alone, and is not blank
    rintro ⟨hl, text, htext, hblank⟩
    have hraw : DocComment.raw? l source.toList = some text := by
      rw [DocComment.raw?_of_takesBlocks hl, htext]
      rfl
    have hnot : (Chars.trim text).isEmpty = false := by simpa using hblank
    constructor
    · rw [docComment?, hlist, DocComment.raw?_interpreter l ht, if_pos ⟨hl, by rw [htext]; rfl⟩]
      rfl
    · rw [docComment?, hraw, Option.bind_some, if_neg (by simp [hnot])]
      rfl
  refine ⟨⟨fun heq hstands => ?_, fun hnot => ?_⟩, hhidden⟩
  · -- with the block hidden there is no comment, but without the line there is one
    obtain ⟨hnone, hsome⟩ := hhidden hstands
    rw [← heq, hnone] at hsome
    cases hsome
  · -- without a block nothing changes
    rw [docComment?, hlist, DocComment.raw?_interpreter l ht]
    split
    next h =>
      -- the block has nothing in it but blanks, so it is no comment anyway
      obtain ⟨text, htext⟩ := Option.isSome_iff_exists.1 h.2
      have hblank : Chars.trim text = [] := by_contra fun hne => hnot ⟨h.1, text, htext, hne⟩
      rw [docComment?, DocComment.raw?_of_takesBlocks h.1, htext, Option.some_or, Option.bind_some, hblank]
      rfl
    next => rfl

/-- The comment of a script is found behind its interpreter line. -/
theorem docComment?_interpreter_script :
    '\n' ∉ "/bin/sh".toList ∧
      docComment? .bash ("#!" ++ "/bin/sh" ++ "\n" ++ "# Tools.\nls") = docComment? .bash "# Tools.\nls" ∧
      docComment? .bash "# Tools.\nls" = some "Tools." := by
  have ht : '\n' ∉ "/bin/sh".toList := by decide
  have hnot : ¬StandsInBlock .bash "# Tools.\nls" := fun h => Bool.false_ne_true h.1
  exact ⟨ht, (docComment?_interpreter .bash ht _).1.2 hnot, by decide +kernel⟩

/-- **An interpreter line hides a block.** -/
theorem docComment?_interpreter_block :
    ¬∀ l ∈ [Language.rust, .python, .javascript, .typescript, .tsx, .go, .bash, .toml],
      ∀ t source : String, '\n' ∉ t.toList →
        docComment? l ("#!" ++ t ++ "\n" ++ source) = docComment? l source := by
  intro h
  -- the block of a script that is run by an interpreter
  have hclaimed := h .javascript (by decide) "/usr/bin/env node" "/** Tools. */" (by decide)
  have hhidden : docComment? .javascript ("#!" ++ "/usr/bin/env node" ++ "\n" ++ "/** Tools. */") = none := by
    decide +kernel
  have hfound : docComment? .javascript "/** Tools. */" = some "Tools." := by decide +kernel
  rw [hhidden, hfound] at hclaimed
  cases hclaimed

end CodeSearch
