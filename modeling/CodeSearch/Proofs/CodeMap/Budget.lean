import CodeSearch.Proofs.CodeMap.Overview
import Mathlib.Algebra.GroupWithZero.Nat

/-!
# Tokens of an overview

While an overview is written, tokens are counted: those of the first and the last line, and those of each line of a
file before it is taken (`countedTokens`). What is counted stays within the budget (`countedTokens_le`). But the
overview can take more, since two things are not counted (`uncountedLength`): the characters that the estimate of
each line drops as it is rounded down, which add up, and all of the line about the files that were left out, which
is written when the tokens are used up.

So the estimate of an overview is told by two numbers (`accounts_overview`), and an overview fits its budget exactly
if what was not counted fits into what is left of it. An overview can take many times its budget
(`overview_exceeds_budget`, `estimateTokens_overview_le` says how much).
-/

namespace CodeSearch

/-! ### Estimates of many texts -/

/-- The characters that the estimate of a text drops. -/
def droppedLength (s : String) : Nat := s.length % 4

/-- A text has four characters for each token, and those that are dropped. -/
theorem length_eq_estimate (s : String) : s.length = 4 * estimateTokens s + droppedLength s :=
  (Nat.div_add_mod s.length 4).symm

/-- Of a text no more than three characters are dropped. -/
theorem droppedLength_le (s : String) : droppedLength s ≤ 3 :=
  Nat.le_of_lt_succ (Nat.mod_lt _ (by decide))

/-- The same holds of lines that are put together. -/
theorem length_join_eq (ls : List String) :
    (String.join ls).length = 4 * (ls.map estimateTokens).sum + (ls.map droppedLength).sum := by
  induction ls with
  | nil => rfl
  | cons l ls ih =>
    rw [String.join_cons, String.length_append, ih, length_eq_estimate l, List.map_cons, List.map_cons,
      List.sum_cons, List.sum_cons]
    omega

/-- No more than three characters are dropped of each line. -/
theorem sum_droppedLength_le (ls : List String) : (ls.map droppedLength).sum ≤ 3 * ls.length := by
  induction ls with
  | nil => exact Nat.le_refl 0
  | cons l ls ih =>
    have hl := droppedLength_le l
    rw [List.map_cons, List.sum_cons, List.length_cons]
    omega

namespace CodeMap

variable {m : CodeMap} {budget : Nat}

/-! ### What is counted and what is not -/

/-- **Lines are taken as long as their tokens fit.** -/
theorem sum_shown_le (budget : Nat) (ls : List String) : ((shown budget ls).map estimateTokens).sum ≤ budget := by
  induction ls generalizing budget with
  | nil => exact Nat.zero_le budget
  | cons l ls ih =>
    rw [shown]
    -- a line is taken if it fits, and those after it share what it leaves
    split
    · next hl =>
      have hrest := ih (budget - estimateTokens l)
      rw [List.map_cons, List.sum_cons]
      omega
    · -- nothing is taken behind a line that does not fit
      exact Nat.zero_le budget

/-- The tokens that are counted while an overview is written. -/
def countedTokens (m : CodeMap) (budget : Nat) : Nat :=
  estimateTokens overviewHeader + estimateTokens overviewFooter + ((m.shownLines budget).map estimateTokens).sum

/-- The line about what was left out, as it is written. -/
def omittedText (m : CodeMap) (budget : Nat) : String :=
  let n := m.overviewLines.length - (m.shownLines budget).length
  if n = 0 then "" else omittedLine n

/-- The characters that are not counted: those that are dropped line by line, and the line about what was left
out. -/
def uncountedLength (m : CodeMap) (budget : Nat) : Nat :=
  droppedLength overviewHeader + droppedLength overviewFooter + ((m.shownLines budget).map droppedLength).sum +
    (m.omittedText budget).length

/-- An overview has four characters for each token that is counted, and those that are not. -/
theorem length_overview (m : CodeMap) (budget : Nat) :
    (m.overview budget).length = 4 * m.countedTokens budget + m.uncountedLength budget := by
  have hparts : (m.overview budget).length = overviewHeader.length + (String.join (m.shownLines budget)).length +
      (m.omittedText budget).length + overviewFooter.length := by
    rw [overview, String.length_append, String.length_append, String.length_append]
    rfl
  -- every part has four characters for each of its tokens, and up to three more
  rw [hparts, length_join_eq, length_eq_estimate overviewHeader, length_eq_estimate overviewFooter, countedTokens,
    uncountedLength]
  omega

/-- **What is counted stays within the budget**, if it is enough for the first and the last line. -/
theorem countedTokens_le (h : estimateTokens overviewHeader + estimateTokens overviewFooter ≤ budget) :
    m.countedTokens budget ≤ budget := by
  -- the first and the last line are paid for before any other
  have hshown : m.shownLines budget =
      shown (budget - (estimateTokens overviewHeader + estimateTokens overviewFooter)) m.overviewLines := by
    rw [shownLines, lineBudget?, if_pos h]
  have hsum := sum_shown_le (budget - (estimateTokens overviewHeader + estimateTokens overviewFooter))
    m.overviewLines
  rw [countedTokens, hshown]
  omega

/-! ### The estimate of an overview -/

/-- So its tokens are those that are counted, and a token for four characters that are not. -/
theorem estimateTokens_overview (m : CodeMap) (budget : Nat) :
    estimateTokens (m.overview budget) = m.countedTokens budget + m.uncountedLength budget / 4 := by
  rw [estimateTokens, length_overview, Nat.mul_add_div (by decide)]

/-- Few characters are dropped of each line, so the overview takes little more than the line about what was left
out in addition to its budget, and less than a token for each line. -/
theorem estimateTokens_overview_le (h : estimateTokens overviewHeader + estimateTokens overviewFooter ≤ budget) :
    estimateTokens (m.overview budget) ≤
      budget + (3 * ((m.shownLines budget).length + 2) + (m.omittedText budget).length) / 4 := by
  have hcounted : m.countedTokens budget ≤ budget := countedTokens_le h
  -- no more than three characters are dropped of the first line, of the last one and of each between
  have huncounted : m.uncountedLength budget ≤
      3 * ((m.shownLines budget).length + 2) + (m.omittedText budget).length := by
    have hheader := droppedLength_le overviewHeader
    have hfooter := droppedLength_le overviewFooter
    have hlines := sum_droppedLength_le (m.shownLines budget)
    rw [uncountedLength]
    omega
  calc estimateTokens (m.overview budget)
      = m.countedTokens budget + m.uncountedLength budget / 4 := estimateTokens_overview m budget
    _ ≤ budget + (3 * ((m.shownLines budget).length + 2) + (m.omittedText budget).length) / 4 :=
      Nat.add_le_add hcounted (Nat.div_le_div_right huncounted)

/-- What the tokens of an overview within a budget are made of. -/
structure Accounts (m : CodeMap) (budget : Nat) : Prop where
  /-- What is counted stays within the budget. -/
  counted_le : m.countedTokens budget ≤ budget
  /-- All characters are counted or not, so nothing else makes a token. -/
  estimate_eq : estimateTokens (m.overview budget) = m.countedTokens budget + m.uncountedLength budget / 4
  /-- The overview fits exactly if the characters that are not counted make up no more tokens than are left. -/
  fits_iff : estimateTokens (m.overview budget) ≤ budget ↔
    m.uncountedLength budget / 4 ≤ budget - m.countedTokens budget
  /-- An overview is too long by what it says about files that were left out, and by less than a token for each
  other line. -/
  estimate_le : estimateTokens (m.overview budget) ≤
    budget + (3 * ((m.shownLines budget).length + 2) + (m.omittedText budget).length) / 4

/-- **An overview fits its budget exactly if the characters that are not counted do**: those that are dropped as the
estimate of each line is rounded down, and the line about the files that were left out. -/
theorem accounts_overview (h : estimateTokens overviewHeader + estimateTokens overviewFooter ≤ budget) :
    Accounts m budget := by
  have hcounted : m.countedTokens budget ≤ budget := countedTokens_le h
  have hestimate := estimateTokens_overview m budget
  refine ⟨hcounted, hestimate, ?_, estimateTokens_overview_le h⟩
  rw [hestimate]
  omega

/-- The map of two files whose lines have seven tokens each. -/
def twoLong : CodeMap := ofDocuments ⟨"/r"⟩
  [{ (default : Metadata) with path := ⟨"a.rs"⟩, functions := ["abcdefghijklmn"] },
    { (default : Metadata) with path := ⟨"b.rs"⟩, functions := ["abcdefghijklmn"] }]

/-- The lines of the map are computed. -/
theorem overviewLines_twoLong :
    twoLong.overviewLines = ["  a.rs :: fn:abcdefghijklmn\n", "  b.rs :: fn:abcdefghijklmn\n"] := by
  rw [overviewLines, listed_of_pairwise (by decide +kernel) (by decide +kernel)]
  decide +kernel

/-- With eleven tokens, one of the two files is shown, and the overview takes eighteen. -/
theorem overview_twoLong : twoLong.overview 11 =
    "<repo_map>\n  a.rs :: fn:abcdefghijklmn\n  ... and 1 more files\n</repo_map>" := by
  unfold overview shownLines
  rw [overviewLines_twoLong]
  decide

/-- The two lines do not fit into eleven tokens with the frame. -/
theorem accounts_twoLong :
    estimateTokens overviewHeader + estimateTokens overviewFooter ≤ 11 ∧ Accounts twoLong 11 ∧
      estimateTokens (twoLong.overview 11) = 18 :=
  ⟨by decide, accounts_overview (by decide), by
    rw [overview_twoLong]
    decide⟩

/-- **An overview can be too long for its budget**, also if that is enough for the first line, the last one and the
one about any number of its files. -/
theorem overview_exceeds_budget :
    ¬∀ (root : Path) (m : CodeMap), Built root m → ∀ budget,
      (∀ n ≤ m.listed.length, estimateTokens (overviewHeader ++ omittedLine n ++ overviewFooter) ≤ budget) →
        estimateTokens (m.overview budget) ≤ budget := by
  intro hfits
  have hlength : twoLong.listed.length = 2 := by
    have hlines := congrArg List.length overviewLines_twoLong
    rwa [overviewLines, List.length_map] at hlines
  -- the frame alone fits, with the line about both files
  have hframe : ∀ n ≤ twoLong.listed.length,
      estimateTokens (overviewHeader ++ omittedLine n ++ overviewFooter) ≤ 11 := by
    rw [hlength]
    decide
  -- but the line is not counted, so more is written
  have hle := hfits ⟨"/r"⟩ twoLong (built_ofDocuments _ _) 11 hframe
  rw [overview_twoLong] at hle
  exact absurd hle (by decide)

end CodeMap

end CodeSearch
