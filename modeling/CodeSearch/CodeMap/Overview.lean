import CodeSearch.CodeMap.Basic
import CodeSearch.Embedding.Text

/-!
# The overview of a map

An overview lists what the files of a map declare, the files with more symbols first, until the tokens
it may take are used up. A last line then counts the files that were left out.

* `shown_isPrefix` — what is shown is the beginning of the whole list;
* `shown_mono` — a larger budget shows more.
-/

namespace CodeSearch.CodeMap

/-- The path of a file below the root of its map, written with slashes. -/
def relativeText (m : CodeMap) (f : MapFile) : String :=
  let cs := (m.root.relativeTo? f.path).getD f.path.components
  (Path.ofComponents cs).text.map fun c => if c = '\\' then '/' else c

/-- The order of the list: more symbols first, and then by path. -/
def listedBefore (a b : String × MapFile) : Bool :=
  b.2.symbolCount < a.2.symbolCount ||
    (a.2.symbolCount == b.2.symbolCount && decide (a.1 ≤ b.1))

/-- The files that declare something, with their paths, in the order of the list. -/
def listed (m : CodeMap) : List (String × MapFile) :=
  ((m.files.filter (0 < ·.symbolCount)).map fun f => (m.relativeText f, f)).mergeSort listedBefore

/-- The line of a file. -/
def overviewLine (path : String) (f : MapFile) : String :=
  let symbols := f.classes.map ("class:" ++ ·) ++ f.functions.map ("fn:" ++ ·)
  "  " ++ path ++ " :: " ++ Text.join ", " symbols ++ "\n"

/-- The first line of an overview. -/
def overviewHeader : String := "<repo_map>\n"

/-- The last line of an overview. -/
def overviewFooter : String := "</repo_map>"

/-- The line that counts what was left out. -/
def omittedLine (n : Nat) : String := "  ... and " ++ toString n ++ " more files\n"

/-- The lines at the start of a list that fit into a number of tokens together. -/
def shown : Nat → List String → List String
  | _, [] => []
  | budget, l :: ls =>
    if estimateTokens l ≤ budget then l :: shown (budget - estimateTokens l) ls else []

/-- The tokens that are left for the lines of files. -/
def lineBudget? (budget : Nat) : Option Nat :=
  let framed := estimateTokens overviewHeader + estimateTokens overviewFooter
  if framed ≤ budget then some (budget - framed) else none

/-- The lines of all listed files. -/
def overviewLines (m : CodeMap) : List String := m.listed.map fun (p, f) => overviewLine p f

/-- The lines that an overview of some tokens shows. -/
def shownLines (m : CodeMap) (budget : Nat) : List String :=
  match lineBudget? budget with
  | some b => shown b m.overviewLines
  | none => []

/-- The overview of a map within some tokens. -/
def overview (m : CodeMap) (budget : Nat) : String :=
  let lines := m.shownLines budget
  let omitted := m.overviewLines.length - lines.length
  overviewHeader ++ String.join lines ++ (if omitted = 0 then "" else omittedLine omitted) ++
    overviewFooter

theorem shown_isPrefix (budget : Nat) (ls : List String) : shown budget ls <+: ls := by
  induction ls generalizing budget with
  | nil => exact List.prefix_refl _
  | cons l ls ih =>
    rw [shown]
    split
    · exact (List.prefix_cons_inj l).2 (ih _)
    · exact List.nil_prefix

/-- **A larger budget shows more.** -/
theorem shown_mono {b c : Nat} (h : b ≤ c) (ls : List String) : shown b ls <+: shown c ls := by
  induction ls generalizing b c with
  | nil => exact List.prefix_refl _
  | cons l ls ih =>
    rw [shown, shown]
    split
    · rename_i hl
      rw [if_pos (Nat.le_trans hl h)]
      exact (List.prefix_cons_inj l).2 (ih (Nat.sub_le_sub_right h _))
    · exact List.nil_prefix

end CodeSearch.CodeMap
