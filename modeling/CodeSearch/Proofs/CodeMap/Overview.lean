import CodeSearch.CodeMap.Overview
import CodeSearch.Proofs.CodeMap.Tidy
import CodeSearch.Proofs.Texts

/-!
# What an overview shows

An overview is a text, and all that a reader can find in it are its lines. So this module is about the lines that
are found again by cutting the text at its newlines (`pieces_overview`): the first line, lines of files, perhaps one
that counts what was left out, and the last line. A line of a file is known by the sign between the path and the
names (`IsFileLine`), which no other line has.

* `pairwise_listed`, `perm_listed` — the list that an overview starts to show has every file that declares
  something, the files with more symbols first, and those with as many by their paths;
* `Tidy.relativeText_eq` — the path that is shown is made of the names that lead to the file;
* `fileLines_overview` — the lines of files are the first ones of that list, as many as the tokens allow.

A name with a newline in it would end a line too early, so no name has one here (`NamesAreLines`). Of the budget
nothing is asked: one that is too small even for the first line is a budget for no file.
-/

namespace CodeSearch

/-! ### Texts cut at newlines -/

namespace Text

/-- A character of joined texts is one of the separator or of a text. -/
theorem mem_join {sep : String} {ls : List String} {c : Char} (h : c ∈ (join sep ls).toList) :
    c ∈ sep.toList ∨ ∃ s ∈ ls, c ∈ s.toList := by
  induction ls with
  | nil => cases h
  | cons s ls ih =>
    cases ls with
    | nil => exact Or.inr ⟨s, List.mem_cons_self, h⟩
    | cons t ls =>
      -- what is joined is the first text, the separator and the rest
      have hcut : c ∈ (s ++ sep ++ join sep (t :: ls)).toList := h
      rw [String.toList_append, String.toList_append, List.mem_append, List.mem_append] at hcut
      rcases hcut with (hs | hsep) | hrest
      · exact Or.inr ⟨s, List.mem_cons_self, hs⟩
      · exact Or.inl hsep
      · rcases ih hrest with hsep | ⟨r, hr, hc⟩
        · exact Or.inl hsep
        · exact Or.inr ⟨r, List.mem_cons_of_mem _ hr, hc⟩

/-- A line is the first piece of the text that starts with it. -/
theorem pieces_lineOf_append {l : String} (h : '\n' ∉ l.toList) (t : String) :
    pieces '\n' (lineOf l ++ t) = l :: pieces '\n' t := by
  have hlist : (lineOf l ++ t).toList = l.toList ++ '\n' :: t.toList := by
    rw [lineOf, String.toList_append, String.toList_append, List.append_assoc]
    rfl
  rw [pieces, hlist, Chars.pieces_append_cons, Chars.pieces_of_not_mem h, List.singleton_append, List.map_cons,
    String.ofList_toList, pieces]

/-- **Lines that were written one after another are found again** in front of what follows them. -/
theorem pieces_lines {ls : List String} (h : ∀ l ∈ ls, '\n' ∉ l.toList) (t : String) :
    pieces '\n' (String.join (ls.map lineOf) ++ t) = ls ++ pieces '\n' t := by
  induction ls with
  | nil => rw [List.map_nil, String.join_nil, String.empty_append, List.nil_append]
  | cons l ls ih =>
    have hrest := ih fun l' hl' => h l' (List.mem_cons_of_mem _ hl')
    rw [List.map_cons, String.join_cons, String.append_assoc, pieces_lineOf_append (h l List.mem_cons_self), hrest,
      List.cons_append]

end Text

namespace CodeMap

variable {m : CodeMap} {root : Path} {f : MapFile} {names : List String}

/-! ### The list of files -/

/-- Whether a file declares something. -/
def Declares (f : MapFile) : Prop := f.classes ≠ [] ∨ f.functions ≠ []

instance : DecidablePred Declares := fun f => inferInstanceAs (Decidable (f.classes ≠ [] ∨ f.functions ≠ []))

theorem declares_iff : Declares f ↔ 0 < f.symbolCount := by
  rw [Declares, MapFile.symbolCount, ← List.length_pos_iff, ← List.length_pos_iff]
  omega

/-- Whether a file may stand before another one: it has more symbols, or as many and a path that is not later. -/
def StandsBefore (a b : String × MapFile) : Prop :=
  b.2.symbolCount < a.2.symbolCount ∨ a.2.symbolCount = b.2.symbolCount ∧ a.1 ≤ b.1

instance : DecidableRel StandsBefore := fun _ _ => inferInstanceAs (Decidable (_ ∨ _))

/-- The order of the list puts one file before another exactly if it may stand there. -/
theorem listedBefore_iff {a b : String × MapFile} : listedBefore a b = true ↔ StandsBefore a b := by
  rw [listedBefore, StandsBefore, Bool.or_eq_true, decide_eq_true_iff, Bool.and_eq_true, beq_iff_eq,
    decide_eq_true_iff]

theorem StandsBefore.trans {a b c : String × MapFile} (hab : StandsBefore a b) (hbc : StandsBefore b c) :
    StandsBefore a c := by
  rcases hab with hab | ⟨hab, hpath⟩
  · rcases hbc with hbc | ⟨hbc, -⟩
    · exact Or.inl (Nat.lt_trans hbc hab)
    · exact Or.inl (hbc ▸ hab)
  · rcases hbc with hbc | ⟨hbc, hpath'⟩
    · exact Or.inl (hab ▸ hbc)
    · exact Or.inr ⟨hab.trans hbc, String.le_trans hpath hpath'⟩

theorem StandsBefore.total (a b : String × MapFile) : StandsBefore a b ∨ StandsBefore b a := by
  rcases Nat.lt_trichotomy a.2.symbolCount b.2.symbolCount with hlt | heq | hgt
  · exact Or.inr (Or.inl hlt)
  · exact (String.le_total a.1 b.1).imp (fun h => Or.inr ⟨heq, h⟩) fun h => Or.inr ⟨heq.symm, h⟩
  · exact Or.inl (Or.inl hgt)

/-- **In the list stand all files that declare something.** -/
theorem perm_listed (m : CodeMap) : m.listed.Perm
    (((MapNode.filesOf m.entries).filter fun f => Declares f).map fun f => (m.relativeText f, f)) := by
  have hdeclares : (fun f : MapFile => decide (0 < f.symbolCount)) = fun f => decide (Declares f) :=
    funext fun f => decide_eq_decide.2 declares_iff.symm
  refine (List.mergeSort_perm _ _).trans (List.Perm.map _ ?_)
  rw [hdeclares]
  exact (perm_files m).filter _

/-- **The list has the files with more symbols first.** -/
theorem pairwise_listed (m : CodeMap) : m.listed.Pairwise StandsBefore := by
  have hsorted : m.listed.Pairwise fun a b => listedBefore a b = true := by
    refine List.pairwise_mergeSort (fun a b c hab hbc => ?_) (fun a b => ?_) _
    · exact listedBefore_iff.2 ((listedBefore_iff.1 hab).trans (listedBefore_iff.1 hbc))
    · rw [Bool.or_eq_true, listedBefore_iff, listedBefore_iff]
      exact StandsBefore.total a b
  exact hsorted.imp listedBefore_iff.1

/-- Nothing has to be sorted if a visit of the map finds its files in both orders. -/
theorem listed_of_pairwise
    (hfiles : (MapNode.listFiles [m.directory] []).Pairwise fun f g => (f.path.compare g.path).isLE = true)
    (hlisted : (((MapNode.listFiles [m.directory] []).filter (0 < ·.symbolCount)).map
      fun f => (m.relativeText f, f)).Pairwise fun a b => listedBefore a b = true) :
    m.listed = ((MapNode.listFiles [m.directory] []).filter (0 < ·.symbolCount)).map
      fun f => (m.relativeText f, f) := by
  have hsorted : m.files = MapNode.listFiles [m.directory] [] := List.mergeSort_of_pairwise hfiles
  rw [listed, hsorted]
  exact List.mergeSort_of_pairwise hlisted

/-- The names that lead to a file of a tidy map. -/
theorem Tidy.exists_names (h : m.Tidy) (hf : f ∈ m.files) :
    ∃ names, namesBelow? m.root f.path = some names ∧ f.path.components = m.root.components ++ names.map .ofName := by
  obtain ⟨names, hfind⟩ := (MapNode.mem_filesOf_iff h).1 (mem_files.1 hf)
  obtain ⟨hnames, hpath, -⟩ := MapNode.Tidy.find? h hfind
  have hbelow : f.path = m.root.below names := hpath
  have hne : names ≠ [] := by
    rintro rfl
    cases hfind
  rw [hbelow]
  exact ⟨names, namesBelow?_below m.root hne hnames, m.root.components_below hnames⟩

/-- **The path that is shown** is made of the names that lead to the file, with slashes for backslashes. -/
theorem Tidy.relativeText_eq (h : m.Tidy) (hf : f ∈ m.files) (hnames : namesBelow? m.root f.path = some names) :
    m.relativeText f = (Text.join "/" names).map fun c => if c = '\\' then '/' else c := by
  obtain ⟨names', hnames', hcomponents⟩ := h.exists_names hf
  obtain rfl : names = names' := Option.some.inj (hnames.symm.trans hnames')
  rw [relativeText, Path.relativeTo?_of_components hcomponents, Option.getD_some, Path.ofComponents_names]

/-! ### Lines -/

/-- The line of a file, without its end. -/
def fileLine (e : String × MapFile) : String :=
  "  " ++ e.1 ++ " :: " ++
    Text.join ", " (e.2.classes.map ("class:" ++ ·) ++ e.2.functions.map ("fn:" ++ ·))

/-- The line that counts what was left out, without its end. -/
def omission (n : Nat) : String := "  ... and " ++ toString n ++ " more files"

/-- Whether a line is that of a file: only there a sign stands between the path and the names. -/
def IsFileLine (l : String) : Prop := " :: ".toList <:+: l.toList

instance : DecidablePred IsFileLine := fun l => inferInstanceAs (Decidable (" :: ".toList <:+: l.toList))

/-- The lines of files in a text. -/
def fileLines (text : String) : List String := (Text.pieces '\n' text).filter fun l => IsFileLine l

/-- The lines of all files in the list. -/
def allLines (m : CodeMap) : List String := m.listed.map fileLine

/-- The lines of the files that an overview shows. -/
def firstLines (m : CodeMap) (budget : Nat) : List String := m.allLines.take (m.shownLines budget).length

/-- The line about the files that are left out if some number of files is shown. -/
def restLines (m : CodeMap) (budget : Nat) : List String :=
  let n := m.allLines.length - (m.firstLines budget).length
  if n = 0 then [] else [omission n]

/-- Whether no name that an overview of a map may show has a newline in it. -/
def NamesAreLines (m : CodeMap) : Prop :=
  ∀ f ∈ MapNode.filesOf m.entries, ∀ n ∈ (namesBelow? m.root f.path).getD [] ++ f.classes ++ f.functions,
    '\n' ∉ n.toList

instance (m : CodeMap) : Decidable m.NamesAreLines :=
  inferInstanceAs (Decidable (∀ f ∈ MapNode.filesOf m.entries, ∀ n ∈ _, _))

theorem overviewLines_eq (m : CodeMap) : m.overviewLines = m.allLines.map lineOf := by
  rw [allLines, List.map_map]
  rfl

theorem omittedLine_eq (n : Nat) : omittedLine n = lineOf (omission n) := by
  have hend : " more files\n" = " more files" ++ "\n" := rfl
  rw [omittedLine, hend, ← String.append_assoc]
  rfl

/-- The lines that are shown are the first ones. -/
theorem shownLines_isPrefix (m : CodeMap) (budget : Nat) : m.shownLines budget <+: m.overviewLines := by
  unfold shownLines
  split
  · exact shown_isPrefix _ _
  · exact List.nil_prefix

theorem shownLines_eq (m : CodeMap) (budget : Nat) : m.shownLines budget = (m.firstLines budget).map lineOf := by
  have htake := List.prefix_iff_eq_take.1 (m.shownLines_isPrefix budget)
  rw [overviewLines_eq, ← List.map_take] at htake
  exact htake

theorem firstLines_isPrefix (m : CodeMap) (budget : Nat) : m.firstLines budget <+: m.allLines :=
  List.take_prefix _ _

/-- **A larger budget shows more**, also if one of the two leaves nothing for files. -/
theorem shownLines_mono (m : CodeMap) {b c : Nat} (h : b ≤ c) : m.shownLines b <+: m.shownLines c := by
  unfold shownLines lineBudget?
  by_cases hb : estimateTokens overviewHeader + estimateTokens overviewFooter ≤ b
  · rw [if_pos hb, if_pos (Nat.le_trans hb h)]
    exact shown_mono (Nat.sub_le_sub_right h _) _
  · rw [if_neg hb]
    exact List.nil_prefix

/-- More tokens show more lines. -/
theorem firstLines_mono (m : CodeMap) {b c : Nat} (h : b ≤ c) : m.firstLines b <+: m.firstLines c :=
  List.take_prefix_take_left (m.shownLines_mono h).length_le

/-! ### Signs in lines -/

/-- The line of a file has a sign between the path and the names. -/
theorem isFileLine_fileLine (e : String × MapFile) : IsFileLine (fileLine e) := by
  rw [IsFileLine, fileLine, String.toList_append, String.toList_append]
  exact List.infix_append _ _ _

theorem not_isFileLine_of_not_mem {l : String} (h : ':' ∉ l.toList) : ¬IsFileLine l :=
  fun hl => h (hl.subset (by decide))

/-- A character of the line of what was left out stands in the words or is a digit. -/
theorem mem_omission {n : Nat} {c : Char} (h : c ∈ (omission n).toList) :
    c ∈ "  ... and  more files".toList ∨ c.isDigit = true := by
  rw [omission, String.toList_append, String.toList_append, List.mem_append, List.mem_append] at h
  rcases h with (h | h) | h
  · exact Or.inl (List.mem_append_left " more files".toList h)
  · exact Or.inr (isDigit_of_mem_toString h)
  · exact Or.inl (List.mem_append_right "  ... and ".toList h)

theorem not_isFileLine_omission (n : Nat) : ¬IsFileLine (omission n) :=
  not_isFileLine_of_not_mem fun h => (mem_omission h).elim (by decide) (by decide)

/-- The line about what was left out is one line. -/
theorem newline_not_mem_omission (n : Nat) : '\n' ∉ (omission n).toList :=
  fun h => (mem_omission h).elim (by decide) (by decide)

/-- The line about what was left out tells how much. -/
theorem omission_inj {n k : Nat} (h : omission n = omission k) : n = k := by
  have hlist := congrArg String.toList h
  rw [omission, omission, String.toList_append, String.toList_append, String.toList_append,
    String.toList_append] at hlist
  exact toList_toString_inj (List.append_cancel_left (List.append_cancel_right hlist))

/-- A line of a file has newlines only where names have them. -/
theorem newline_not_mem_fileLine {e : String × MapFile} (hpath : '\n' ∉ e.1.toList)
    (hnames : ∀ n ∈ e.2.classes ++ e.2.functions, '\n' ∉ n.toList) : '\n' ∉ (fileLine e).toList := by
  intro h
  rw [fileLine, String.toList_append, String.toList_append, String.toList_append, List.mem_append,
    -- the newline would stand in front of the path, in the path, in the sign or in the names
    List.mem_append, List.mem_append] at h
  rcases h with ((h | h) | h) | h
  · exact absurd h (by decide)
  · exact hpath h
  · exact absurd h (by decide)
  · rcases Text.mem_join h with h | ⟨s, hs, h⟩
    · exact absurd h (by decide)
    · -- a symbol is a name with a word in front
      rcases List.mem_append.1 hs with hs | hs
      · obtain ⟨n, hn, rfl⟩ := List.mem_map.1 hs
        rw [String.toList_append] at h
        exact (List.mem_append.1 h).elim (by decide) (hnames n (List.mem_append_left _ hn))
      · obtain ⟨n, hn, rfl⟩ := List.mem_map.1 hs
        rw [String.toList_append] at h
        exact (List.mem_append.1 h).elim (by decide) (hnames n (List.mem_append_right _ hn))

/-! ### The text -/

/-- The lines of all files are lines of a text if no name has a newline in it. -/
theorem NamesAreLines.newline_not_mem (hn : m.NamesAreLines) (h : m.Tidy) {l : String} (hl : l ∈ m.allLines) :
    '\n' ∉ l.toList := by
  obtain ⟨e, he, rfl⟩ := List.mem_map.1 hl
  obtain ⟨f, hf, rfl⟩ := List.mem_map.1 ((perm_listed m).mem_iff.1 he)
  -- the file is a file of the map, and names lead to it
  have hfile : f ∈ m.files := mem_files.2 (List.mem_of_mem_filter hf)
  obtain ⟨names, hnames, -⟩ := h.exists_names hfile
  have hlines := hn f (mem_files.1 hfile)
  rw [hnames, Option.getD_some] at hlines
  refine newline_not_mem_fileLine (fun hpath => ?_) fun n hmem => hlines n ?_
  · -- no slash was a newline before, so the newline is one of the names
    have hpath' : '\n' ∈ (m.relativeText f).toList := hpath
    rw [h.relativeText_eq hfile hnames, String.toList_map] at hpath'
    obtain ⟨c, hc, hslash⟩ := List.mem_map.1 hpath'
    obtain rfl : c = '\n' := by
      split at hslash
      · exact absurd hslash (by decide)
      · exact hslash
    rcases Text.mem_join hc with hsep | ⟨n, hmem, hc⟩
    · exact absurd hsep (by decide)
    · exact hlines n (List.mem_append_left _ (List.mem_append_left _ hmem)) hc
  · rw [List.append_assoc]
    exact List.mem_append_right _ hmem

/-- An overview is its first line, the lines of the first files, the line about the rest and its last line. -/
theorem overview_eq (m : CodeMap) (budget : Nat) :
    m.overview budget = lineOf "<repo_map>" ++ (String.join ((m.firstLines budget).map lineOf) ++
      (String.join ((m.restLines budget).map lineOf) ++ overviewFooter)) := by
  -- the shown lines are as many as the first lines of files
  have hlengths : m.overviewLines.length - (m.shownLines budget).length =
      m.allLines.length - (m.firstLines budget).length := by
    rw [overviewLines_eq, shownLines_eq, List.length_map, List.length_map]
  have hheader : overviewHeader = lineOf "<repo_map>" := rfl
  -- the line about the rest is there exactly if something is left out
  have hrest : (if m.allLines.length - (m.firstLines budget).length = 0 then ""
      else omittedLine (m.allLines.length - (m.firstLines budget).length)) =
      String.join ((m.restLines budget).map lineOf) := by
    rw [restLines]
    split
    · rfl
    · rw [omittedLine_eq, List.map_singleton, String.join_cons, String.join_nil, String.append_empty]
  rw [overview, hlengths, hrest, shownLines_eq, hheader, String.append_assoc, String.append_assoc]

/-- **The lines of an overview**: those of the first files of the list, and one about the rest if there is one,
between the first line and the last one. -/
theorem pieces_overview (h : m.Tidy) (hn : m.NamesAreLines) (budget : Nat) :
    Text.pieces '\n' (m.overview budget) =
      "<repo_map>" :: (m.firstLines budget ++ (m.restLines budget ++ [overviewFooter])) := by
  -- none of its parts has a newline, so cutting the text gives the parts back
  have hfirst : ∀ l ∈ m.firstLines budget, '\n' ∉ l.toList := fun l hl =>
    hn.newline_not_mem h (List.mem_of_mem_take hl)
  have hrest : ∀ l ∈ m.restLines budget, '\n' ∉ l.toList := by
    intro l hl
    rw [restLines] at hl
    split at hl
    · cases hl
    · rw [List.mem_singleton.1 hl]
      exact newline_not_mem_omission _
  calc Text.pieces '\n' (m.overview budget)
      = "<repo_map>" :: Text.pieces '\n' (String.join ((m.firstLines budget).map lineOf) ++
          (String.join ((m.restLines budget).map lineOf) ++ overviewFooter)) := by
        rw [overview_eq, Text.pieces_lineOf_append (by decide)]
    _ = "<repo_map>" :: (m.firstLines budget ++ (m.restLines budget ++ Text.pieces '\n' overviewFooter)) := by
        rw [Text.pieces_lines hfirst, Text.pieces_lines hrest]
    _ = _ := by rw [Text.pieces_of_not_mem (s := overviewFooter) (by decide)]

/-- The lines of files in an overview are those of the first files of the list. -/
theorem fileLines_overview (h : m.Tidy) (hn : m.NamesAreLines) (budget : Nat) :
    fileLines (m.overview budget) = m.firstLines budget := by
  -- among the lines of an overview, those of files are the first ones
  have hfirst : (m.firstLines budget).filter (fun l => IsFileLine l) = m.firstLines budget := by
    refine List.filter_eq_self.2 fun l hl => decide_eq_true ?_
    obtain ⟨e, -, rfl⟩ := List.mem_map.1 (List.mem_of_mem_take hl)
    exact isFileLine_fileLine e
  -- and neither the line about the rest nor the first or the last line is one of a file
  have hrest : (m.restLines budget).filter (fun l => IsFileLine l) = [] := by
    refine List.filter_eq_nil_iff.2 fun l hl => ?_
    rw [restLines] at hl
    split at hl
    · cases hl
    · rw [List.mem_singleton.1 hl, decide_eq_true_iff]
      exact not_isFileLine_omission _
  have hheader : ¬decide (IsFileLine "<repo_map>") = true :=
    mt of_decide_eq_true (not_isFileLine_of_not_mem (by decide))
  have hfooter : ¬decide (IsFileLine overviewFooter) = true :=
    mt of_decide_eq_true (not_isFileLine_of_not_mem (by decide))
  rw [fileLines, pieces_overview h hn, List.filter_cons, if_neg hheader, List.filter_append,
    List.filter_append, hfirst, hrest, List.filter_cons, if_neg hfooter, List.filter_nil, List.append_nil,
    List.append_nil]

/-- **What was left out is counted** exactly if something was. -/
theorem omission_mem_overview_iff (h : m.Tidy) (hn : m.NamesAreLines) (budget n : Nat) :
    omission n ∈ Text.pieces '\n' (m.overview budget) ↔
      n ≠ 0 ∧ (fileLines (m.overview budget)).length + n = m.allLines.length := by
  -- the line about the rest starts with a blank, unlike the first and the last one
  have hhead : (omission n).toList.head? = some ' ' := by
    rw [omission, String.toList_append, String.toList_append]
    rfl
  have hheader : omission n ≠ "<repo_map>" := fun he => absurd (he ▸ hhead) (by decide)
  have hfooter : omission n ≠ overviewFooter := fun he => absurd (he ▸ hhead) (by decide)
  -- and it is no line of a file
  have hfile : omission n ∉ m.firstLines budget := by
    intro hmem
    obtain ⟨e, -, he⟩ := List.mem_map.1 (List.mem_of_mem_take hmem)
    exact not_isFileLine_omission n (he ▸ isFileLine_fileLine e)
  have hle : (m.firstLines budget).length ≤ m.allLines.length := (m.firstLines_isPrefix budget).length_le
  rw [fileLines_overview h hn, pieces_overview h hn, List.mem_cons, List.mem_append, List.mem_append,
    List.mem_singleton, restLines]
  constructor
  · rintro (he | hmem | hmem | he)
    · exact absurd he hheader
    · exact absurd hmem hfile
    · split at hmem
      · cases hmem
      · -- the number in the line is that of the files left out
        have hcount := omission_inj (List.mem_singleton.1 hmem)
        omega
    · exact absurd he hfooter
  · rintro ⟨hne, hsum⟩
    have hcount : m.allLines.length - (m.firstLines budget).length = n := by omega
    rw [hcount, if_neg hne]
    exact Or.inr (Or.inr (Or.inl (List.mem_singleton_self _)))

/-! ### Overviews -/

/-- Whether a list has every file of a map that declares something, the files with more symbols first and those with
as many in the order of their paths, each with the names that lead to it. -/
structure Ranks (m : CodeMap) (fs : List (String × MapFile)) : Prop where
  /-- These are all files of the tree that declare something. -/
  perm : (fs.map Prod.snd).Perm ((MapNode.filesOf m.entries).filter fun f => Declares f)
  /-- More symbols come first, and then paths in ascending order. -/
  ordered : fs.Pairwise StandsBefore
  /-- The path of a file is told by the names that lead to it. -/
  path : ∀ e ∈ fs, ∃ names, namesBelow? m.root e.2.path = some names ∧
    e.1 = (Text.join "/" names).map fun c => if c = '\\' then '/' else c

/-- Whether a text shows the first of some lines and counts the others. -/
structure ShowsFirst (all : List String) (text : String) : Prop where
  /-- The lines of files in the text are the first ones. -/
  first : fileLines text <+: all
  /-- A line counts what was left out exactly if something was, and tells how much it was. -/
  omission_iff : ∀ n, omission n ∈ Text.pieces '\n' text ↔
    fileLines text ≠ all ∧ n = all.length - (fileLines text).length

/-- The list has the files that declare something, in the order in which an overview shows them. -/
theorem Tidy.ranks_listed (h : m.Tidy) : m.Ranks m.listed where
  perm := by
    have hmap := (perm_listed m).map Prod.snd
    rwa [List.map_map, show (Prod.snd ∘ fun f => (m.relativeText f, f)) = id from rfl, List.map_id] at hmap
  ordered := pairwise_listed m
  path := by
    intro e he
    obtain ⟨f, hf, rfl⟩ := List.mem_map.1 ((perm_listed m).mem_iff.1 he)
    have hfile : f ∈ m.files := mem_files.2 (List.mem_of_mem_filter hf)
    obtain ⟨names, hnames, -⟩ := h.exists_names hfile
    exact ⟨names, hnames, h.relativeText_eq hfile hnames⟩

/-- An overview shows the first lines of the list. -/
theorem Tidy.showsFirst_overview (h : m.Tidy) (hn : m.NamesAreLines) (budget : Nat) :
    ShowsFirst m.allLines (m.overview budget) := by
  have hfirst : fileLines (m.overview budget) <+: m.allLines :=
    fileLines_overview h hn budget ▸ m.firstLines_isPrefix budget
  refine ⟨hfirst, fun n => ?_⟩
  -- a beginning is proper exactly if it is shorter
  have hproper : fileLines (m.overview budget) ≠ m.allLines ↔
      (fileLines (m.overview budget)).length < m.allLines.length :=
    ⟨fun hne => Nat.lt_of_le_of_ne hfirst.length_le fun he => hne (hfirst.eq_of_length he),
      fun hlt he => Nat.lt_irrefl _ (he ▸ hlt)⟩
  rw [omission_mem_overview_iff h hn, hproper]
  omega

/-- **An overview keeps the files with the most symbols and accounts for the others.** Its lines of files are the
first ones of a list of all files that declare something; a line counts what was left out exactly if something was;
and what a budget shows, a larger one shows as well. -/
theorem overview_keeps_first (h : Built root m) (hn : m.NamesAreLines) :
    m.Ranks m.listed ∧ (∀ budget, ShowsFirst (m.listed.map fileLine) (m.overview budget)) ∧
      ∀ b c, b ≤ c → fileLines (m.overview b) <+: fileLines (m.overview c) := by
  refine ⟨h.tidy.ranks_listed, fun budget => h.tidy.showsFirst_overview hn budget, fun b c hbc => ?_⟩
  rw [fileLines_overview h.tidy hn, fileLines_overview h.tidy hn]
  exact m.firstLines_mono hbc

/-- Of two files, the one with two functions is shown as soon as there are tokens for its line. -/
theorem overview_keeps_first_of_two :
    let a : Metadata := { (default : Metadata) with path := ⟨"a.rs"⟩, functions := ["f", "g"] }
    let b : Metadata := { (default : Metadata) with path := ⟨"b.rs"⟩, functions := ["h"] }
    let m := ofDocuments ⟨"/r"⟩ [b, a]
    Built ⟨"/r"⟩ m ∧ m.NamesAreLines ∧ m.Ranks m.listed ∧
      (∀ budget, ShowsFirst (m.listed.map fileLine) (m.overview budget)) ∧
      (∀ b c, b ≤ c → fileLines (m.overview b) <+: fileLines (m.overview c)) ∧
      Text.pieces '\n' (m.overview 9) = ["<repo_map>", "  a.rs :: fn:f, fn:g", omission 1, "</repo_map>"] := by
  intro a b m
  have hbuilt : Built ⟨"/r"⟩ m := built_ofDocuments ⟨"/r"⟩ [b, a]
  have hlines : m.NamesAreLines := by decide
  obtain ⟨hranks, hfirst, hmono⟩ := overview_keeps_first hbuilt hlines
  refine ⟨hbuilt, hlines, hranks, hfirst, hmono, ?_⟩
  unfold overview shownLines overviewLines
  rw [listed_of_pairwise (m := m) (by decide +kernel) (by decide +kernel)]
  decide +kernel

end CodeMap

end CodeSearch
