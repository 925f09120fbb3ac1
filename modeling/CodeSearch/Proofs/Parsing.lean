import CodeSearch.Parsing
import CodeSearch.Proofs.Chunks.Names
import CodeSearch.Proofs.OutlineRows
import CodeSearch.Proofs.Tables

/-!
# What parsing tells about a document

Parsing fills four tables of a document from its outline, and they hold nothing else afterwards. Three of them are
filled along the way through the declarations, and each in its own manner: the names of types and those of functions are
noted when they come up for the first time, and the lines of a name are noted each time. What the tables hold in the end
is said of the declarations as a whole (`Metadata.Mirrors`). This determines them, so nothing can be left of what they
held before (`Metadata.Mirrors.unique`).

* `Outline.listsNames_namesAmong`, `Outline.ListsNames.unique` — names, each once, in the order in which they come up
  first;
* `Outline.get?_linesAmong` — the lines of a name, in the order of its declarations;
* `Document.parse_cases` — what parsing does without a language, without an outline, and with one;
* `Document.parse_mirrors` — after parsing, the tables mirror the outline, if there is one; if there is none, only the
  comment may change; and the facts of the file never do.
-/

namespace CodeSearch

namespace Outline

/-! ### Names -/

section Names

variable {ds : List Definition} {kinds : List ChunkKind} {names names' : List String}

/-- The place of the first declaration of some kinds that has a name. -/
def firstPlace (ds : List Definition) (kinds : List ChunkKind) (name : String) : Nat :=
  ds.findIdx fun d => kinds.contains d.kind && d.name == name

/-- Whether names are those of the declarations of some kinds, each once and in the order in which they come up
first. -/
structure ListsNames (ds : List Definition) (kinds : List ChunkKind) (names : List String) : Prop where
  nodup : names.Nodup
  mem_iff : ∀ n, n ∈ names ↔ ∃ d ∈ ds, d.kind ∈ kinds ∧ d.name = n
  in_order : names.Pairwise fun m n => firstPlace ds kinds m < firstPlace ds kinds n

/-- The names of some declarations of the kinds. -/
def namesAmong (kinds : List ChunkKind) (ds : List Definition) : List String :=
  distinct ((ds.filter fun d => kinds.contains d.kind).map (·.name))

/-- One more declaration adds its name at the end, if it is of one of the kinds and its name is new. -/
theorem namesAmong_concat (kinds : List ChunkKind) (ds : List Definition) (d : Definition) :
    namesAmong kinds (ds ++ [d]) =
      if d.kind ∈ kinds ∧ d.name ∉ namesAmong kinds ds then namesAmong kinds ds ++ [d.name]
      else namesAmong kinds ds := by
  rw [namesAmong, List.filter_append]
  by_cases hkind : d.kind ∈ kinds
  · have hone : [d].filter (fun e => kinds.contains e.kind) = [d] := by simp [hkind]
    rw [hone, List.map_append, distinct, List.foldl_append, ← distinct, ← namesAmong]
    show (if _ then _ else _) = _
    -- the name is known, or else it comes last
    by_cases hname : d.name ∈ namesAmong kinds ds
    · rw [if_pos (List.contains_iff_mem.2 hname), if_neg (not_and_not_right.2 fun _ => hname)]
    · rw [if_neg (mt List.contains_iff_mem.1 hname), if_pos ⟨hkind, hname⟩]
  · -- a declaration of another kind is left out
    have hnone : [d].filter (fun e => kinds.contains e.kind) = [] := by simp [hkind]
    rw [hnone, List.append_nil, if_neg fun h => hkind h.1]
    rfl

/-- A name that has come up keeps its place. -/
theorem firstPlace_concat {n : String} (h : ∃ e ∈ ds, e.kind ∈ kinds ∧ e.name = n) (d : Definition) :
    firstPlace ds kinds n < ds.length ∧ firstPlace (ds ++ [d]) kinds n = firstPlace ds kinds n := by
  obtain ⟨e, he, hkind, hname⟩ := h
  have hlt : firstPlace ds kinds n < ds.length :=
    List.findIdx_lt_length_of_exists ⟨e, he, by simp [hkind, hname]⟩
  refine ⟨hlt, ?_⟩
  rw [firstPlace, List.findIdx_append]
  exact if_pos hlt

/-- A new name has its place at the end. -/
theorem firstPlace_concat_new {d : Definition} (hkind : d.kind ∈ kinds)
    (h : ¬∃ e ∈ ds, e.kind ∈ kinds ∧ e.name = d.name) : firstPlace (ds ++ [d]) kinds d.name = ds.length := by
  -- none of the declarations so far has the name
  have hnone : ds.findIdx (fun e => kinds.contains e.kind && e.name == d.name) = ds.length := by
    rw [List.findIdx_eq_length]
    intro e he
    rw [Bool.eq_false_iff]
    intro hfound
    rw [Bool.and_eq_true, List.contains_iff_mem, beq_iff_eq] at hfound
    exact h ⟨e, he, hfound⟩
  rw [firstPlace, List.findIdx_append, hnone, if_neg (Nat.lt_irrefl _), List.findIdx_cons]
  simp [hkind]

/-- **Names are noted when they come up for the first time**: each once, and in this order. -/
theorem listsNames_namesAmong (kinds : List ChunkKind) (ds : List Definition) :
    ListsNames ds kinds (namesAmong kinds ds) := by
  -- one declaration after the other: it adds its name at the end, or no name
  induction ds using List.reverseRecOn with
  | nil => exact ⟨List.nodup_nil, by simp [namesAmong, distinct], List.Pairwise.nil⟩
  | append_singleton ds d ih =>
    -- a name is declared if it was, or if it is that of the last declaration
    have hconcat : ∀ n, (∃ e ∈ ds ++ [d], e.kind ∈ kinds ∧ e.name = n) ↔
        n ∈ namesAmong kinds ds ∨ d.kind ∈ kinds ∧ d.name = n := by
      intro n
      rw [ih.mem_iff]
      simp only [List.mem_append, List.mem_singleton, or_and_right, exists_or, exists_eq_left]
    -- the places of the names so far stay as they are
    have hkeep : (namesAmong kinds ds).Pairwise fun m n =>
        firstPlace (ds ++ [d]) kinds m < firstPlace (ds ++ [d]) kinds n := by
      apply ih.in_order.imp_of_mem
      intro m n hm hn hlt
      rwa [(firstPlace_concat ((ih.mem_iff m).1 hm) d).2, (firstPlace_concat ((ih.mem_iff n).1 hn) d).2]
    rw [namesAmong_concat]
    by_cases hnew : d.kind ∈ kinds ∧ d.name ∉ namesAmong kinds ds
    · rw [if_pos hnew]
      refine ⟨?_, fun n => ?_, ?_⟩
      · rw [← List.concat_eq_append]
        exact ih.nodup.concat hnew.2
      · rw [hconcat, List.mem_append, List.mem_singleton]
        exact or_congr_right ⟨fun h => ⟨hnew.1, h.symm⟩, fun h => h.2.symm⟩
      · -- all names so far have a place before the end
        rw [List.pairwise_append]
        refine ⟨hkeep, List.pairwise_singleton _ _, fun m hm n hn => ?_⟩
        obtain rfl := List.mem_singleton.1 hn
        obtain ⟨hlt, hsame⟩ := firstPlace_concat ((ih.mem_iff m).1 hm) d
        rw [hsame, firstPlace_concat_new hnew.1 (mt (ih.mem_iff d.name).2 hnew.2)]
        exact hlt
    · rw [if_neg hnew]
      refine ⟨ih.nodup, fun n => ?_, hkeep⟩
      rw [hconcat]
      -- a declaration of the kinds that adds no name has one that is known
      apply (or_iff_left_of_imp _).symm
      rintro ⟨hkind, rfl⟩
      by_contra hname
      exact hnew ⟨hkind, hname⟩

/-- **There is one such list of names.** -/
theorem ListsNames.unique (h : ListsNames ds kinds names) (h' : ListsNames ds kinds names') : names = names' := by
  have hperm : names.Perm names' :=
    (List.perm_ext_iff_of_nodup h.nodup h'.nodup).2 fun n => (h.mem_iff n).trans (h'.mem_iff n).symm
  exact hperm.eq_of_pairwise (fun _ _ _ _ hlt hgt => absurd hlt (Nat.lt_asymm hgt)) h.in_order h'.in_order

end Names

/-! ### Lines -/

section Lines

variable {ds : List Definition} {n : String}

/-- The lines on which a name is declared, in the order of the declarations. -/
def linesOf (ds : List Definition) (n : String) : List Nat :=
  (ds.filter fun d => d.name = n).map fun d => d.declRow + 1

/-- The lines of all names. -/
def linesAmong (ds : List Definition) : Table (List Nat) :=
  ds.foldl (fun t d => Table.insert t d.name (Table.getD t d.name [] ++ [d.declRow + 1])) []

/-- One more declaration adds its line to those of its name. -/
theorem linesAmong_concat (ds : List Definition) (d : Definition) :
    linesAmong (ds ++ [d]) =
      Table.insert (linesAmong ds) d.name (Table.getD (linesAmong ds) d.name [] ++ [d.declRow + 1]) :=
  List.foldl_append ..

/-- The lines of its name get one more, and those of other names none. -/
theorem linesOf_concat (ds : List Definition) (d : Definition) (n : String) :
    linesOf (ds ++ [d]) n = linesOf ds n ++ if d.name = n then [d.declRow + 1] else [] := by
  rw [linesOf, List.filter_append, List.map_append, ← linesOf]
  by_cases hname : d.name = n
  · simp [hname]
  · simp [hname]

/-- A name has lines if it is declared. -/
theorem linesOf_ne_nil_iff : linesOf ds n ≠ [] ↔ ∃ d ∈ ds, d.name = n := by
  rw [linesOf, Ne, List.map_eq_nil_iff, List.filter_eq_nil_iff]
  simp

/-- The names come in order. -/
theorem sorted_linesAmong (ds : List Definition) : Table.Sorted (linesAmong ds) := by
  induction ds using List.reverseRecOn with
  | nil => exact Table.sorted_nil
  | append_singleton ds d ih =>
    rw [linesAmong_concat]
    exact Table.sorted_insert ih _ _

/-- **A name has the lines of all its declarations**, and has none noted if it has no declaration. -/
theorem get?_linesAmong (ds : List Definition) (n : String) :
    Table.get? (linesAmong ds) n = if linesOf ds n = [] then none else some (linesOf ds n) := by
  induction ds using List.reverseRecOn with
  | nil => rfl
  | append_singleton ds d ih =>
    rw [linesAmong_concat, Table.get?_insert, linesOf_concat]
    by_cases hname : d.name = n
    · -- the lines that were noted so far are those of the declarations so far
      have hlines : Table.getD (linesAmong ds) d.name [] = linesOf ds n := by
        rw [Table.getD, hname, ih]
        split
        next hnil => exact hnil.symm
        next => rfl
      rw [if_pos hname.symm, if_pos hname, hlines, if_neg (by simp)]
    · rw [if_neg (Ne.symm hname), if_neg hname, List.append_nil, ih]

/-- The names that are noted are those that are declared. -/
theorem mem_keys_linesAmong : n ∈ Table.keys (linesAmong ds) ↔ ∃ d ∈ ds, d.name = n := by
  rw [Table.mem_keys_iff, get?_linesAmong, ← linesOf_ne_nil_iff]
  split
  next hnil => simp [hnil]
  next hne => simp [hne]

end Lines

end Outline

/-! ### Facts about a document -/

namespace Metadata

open Outline (ListsNames linesOf linesAmong namesAmong)

/-- Whether the tables of a document hold what an outline tells, and nothing else. -/
structure Mirrors (m : Metadata) (o : Outline) : Prop where
  imports_eq : m.imports = o.imports
  classes : ListsNames o.definitions [.classLike] m.classes
  functions : ListsNames o.definitions [.function, .method] m.functions
  sorted : Table.Sorted m.symbols
  mem_keys : ∀ n, n ∈ Table.keys m.symbols ↔ n ∈ m.classes ∨ n ∈ m.functions
  lines_eq : ∀ n lines, Table.get? m.symbols n = some lines → lines = linesOf o.definitions n

/-- Whether two documents have the same tables and the same comment. -/
structure SameTables (m m' : Metadata) : Prop where
  imports_eq : m.imports = m'.imports
  classes_eq : m.classes = m'.classes
  functions_eq : m.functions = m'.functions
  symbols_eq : m.symbols = m'.symbols
  docComment_eq : m.docComment = m'.docComment

/-- Whether two documents have the same facts about their files. -/
structure SameFile (m m' : Metadata) : Prop where
  path_eq : m.path = m'.path
  language_eq : m.language = m'.language
  size_eq : m.size = m'.size
  modified_eq : m.modified = m'.modified
  lineCount_eq : m.lineCount = m'.lineCount
  contentHash_eq : m.contentHash = m'.contentHash

variable {m m' : Metadata} {o : Outline}

/-- **An outline leaves one way to fill the tables.** -/
theorem Mirrors.unique (h : m.Mirrors o) (h' : m'.Mirrors o) (hcomment : m.docComment = m'.docComment) :
    m.SameTables m' := by
  have hclasses := h.classes.unique h'.classes
  have hfunctions := h.functions.unique h'.functions
  -- the names of both tables are those of the classes and of the functions
  have hkeys : ∀ n, n ∈ Table.keys m.symbols ↔ n ∈ Table.keys m'.symbols := by
    intro n
    rw [h.mem_keys, h'.mem_keys, hclasses, hfunctions]
  refine ⟨h.imports_eq.trans h'.imports_eq.symm, hclasses, hfunctions, ?_, hcomment⟩
  apply Table.ext_of_get? h.sorted h'.sorted
  intro n
  have hn := hkeys n
  rw [Table.mem_keys_iff, Table.mem_keys_iff] at hn
  cases hget : Table.get? m.symbols n with
  | none =>
    rw [hget] at hn
    exact (Option.isNone_iff_eq_none.1 (by simpa using hn)).symm
  | some lines =>
    -- the lines of a name are those of its declarations in both
    obtain ⟨lines', hget'⟩ := Option.isSome_iff_exists.1 (hn.1 (by rw [hget]; rfl))
    rw [hget', h.lines_eq n lines hget, h'.lines_eq n lines' hget']

/-- The tables that are filled from an outline mirror it, whatever they held before. -/
theorem mirrors_withOutline (m : Metadata) (hkinds : ∀ d ∈ o.definitions, d.kind ≠ .fileScope) :
    (m.withOutline o).Mirrors o := by
  -- no declaration is left out, as none stands for the whole file
  have hall : o.definitions.filter (fun d => d.kind ≠ .fileScope) = o.definitions :=
    List.filter_eq_self.2 fun d hd => decide_eq_true (hkinds d hd)
  have hsymbols : (m.withOutline o).symbols = linesAmong o.definitions := by
    show linesAmong (o.definitions.filter fun d => d.kind ≠ .fileScope) = _
    rw [hall]
  have hclasses := Outline.listsNames_namesAmong [.classLike] o.definitions
  have hfunctions := Outline.listsNames_namesAmong [.function, .method] o.definitions
  refine ⟨rfl, hclasses, hfunctions, ?_, fun n => ?_, fun n lines hlines => ?_⟩
  · rw [hsymbols]
    exact Outline.sorted_linesAmong o.definitions
  · rw [hsymbols, Outline.mem_keys_linesAmong]
    show _ ↔ n ∈ namesAmong [.classLike] o.definitions ∨ n ∈ namesAmong [.function, .method] o.definitions
    rw [hclasses.mem_iff, hfunctions.mem_iff]
    refine ⟨?_, fun h => ?_⟩
    · -- a declaration is of one of the kinds that are listed
      rintro ⟨d, hd, hname⟩
      cases hkind : d.kind with
      | fileScope => exact absurd hkind (hkinds d hd)
      | classLike => exact Or.inl ⟨d, hd, by simp [hkind], hname⟩
      | function => exact Or.inr ⟨d, hd, by simp [hkind], hname⟩
      | method => exact Or.inr ⟨d, hd, by simp [hkind], hname⟩
    · -- and a name that is listed comes from a declaration
      rcases h with ⟨d, hd, -, hname⟩ | ⟨d, hd, -, hname⟩
      · exact ⟨d, hd, hname⟩
      · exact ⟨d, hd, hname⟩
  · rw [hsymbols, Outline.get?_linesAmong] at hlines
    split at hlines
    · cases hlines
    · exact (Option.some.inj hlines).symm

end Metadata

namespace Document

variable {g : Grammars} {d d' : Document} {l : Language} {o : Outline}

/-- Without an outline parsing looks for the comment only. -/
theorem parse_of_no_outline (hl : d.metadata.language = some l) (ho : Outline.ofSource? g l d.content = none) :
    d.parse g = ({ d with metadata := { d.metadata with docComment := docComment? l d.content } }, none) := by
  simp only [parse, hl, ho]

/-- With an outline it fills the tables, too. -/
theorem parse_of_outline (hl : d.metadata.language = some l) (ho : Outline.ofSource? g l d.content = some o) :
    d.parse g =
      ({ d with metadata := { d.metadata with docComment := docComment? l d.content }.withOutline o }, some o) := by
  simp only [parse, hl, ho]

/-- **What parsing does**: nothing without a language, without an outline it looks for the comment, and with one it
fills the tables as well. -/
theorem parse_cases (g : Grammars) (d : Document) :
    (d.metadata.language = none ∧ d.parse g = (d, none)) ∨
      (∃ l, d.metadata.language = some l ∧ d.parse g =
        ({ d with metadata := { d.metadata with docComment := docComment? l d.content } }, none)) ∨
      ∃ l o, d.metadata.language = some l ∧ Outline.ofSource? g l d.content = some o ∧ d.parse g =
        ({ d with metadata := { d.metadata with docComment := docComment? l d.content }.withOutline o }, some o) := by
  cases hl : d.metadata.language with
  | none => exact Or.inl ⟨rfl, parse_of_no_language g hl⟩
  | some l =>
    cases ho : Outline.ofSource? g l d.content with
    | none => exact Or.inr (Or.inl ⟨l, rfl, parse_of_no_outline hl ho⟩)
    | some o => exact Or.inr (Or.inr ⟨l, o, rfl, ho, parse_of_outline hl ho⟩)

/-- **An outline is returned only if there is one**: for a known language, and read off a tree of the text. -/
theorem exists_of_parse_eq_some (h : (d.parse g).2 = some o) :
    ∃ l t, d.metadata.language = some l ∧ g.parse l d.content = some t ∧ o = Outline.ofTree l d.content t ∧
      Outline.ofSource? g l d.content = some o := by
  rcases parse_cases g d with ⟨-, hparse⟩ | ⟨l, -, hparse⟩ | ⟨l, o', hl, ho, hparse⟩
  · rw [hparse] at h
    cases h
  · rw [hparse] at h
    cases h
  · -- only with an outline there is something, and that was read off a tree
    rw [hparse] at h
    obtain rfl : o' = o := Option.some.inj h
    have htree := ho
    rw [Outline.ofSource?] at htree
    split at htree
    · obtain ⟨t, ht, rfl⟩ := Option.map_eq_some_iff.1 htree
      exact ⟨l, t, hl, ht, rfl, ho⟩
    · cases htree

/-- The facts of the file are those of before. -/
theorem sameFile_parse (g : Grammars) (d : Document) : (d.parse g).1.metadata.SameFile d.metadata := by
  rcases parse_cases g d with ⟨-, hparse⟩ | ⟨l, -, hparse⟩ | ⟨l, o, -, -, hparse⟩
  all_goals
    rw [hparse]
    exact ⟨rfl, rfl, rfl, rfl, rfl, rfl⟩

/-- The comment is looked for whenever the language is known. -/
theorem docComment_parse (g : Grammars) (hl : d.metadata.language = some l) :
    (d.parse g).1.metadata.docComment = docComment? l d.content := by
  rcases parse_cases g d with ⟨hl', -⟩ | ⟨l', hl', hparse⟩ | ⟨l', o, hl', -, hparse⟩
  · cases hl.symm.trans hl'
  · cases hl.symm.trans hl'
    rw [hparse]
  · cases hl.symm.trans hl'
    rw [hparse]
    rfl

/-- Without an outline only the comment may change. -/
theorem parse_of_eq_none (h : (d.parse g).2 = none) :
    (d.parse g).1 =
      { d with metadata := { d.metadata with docComment := (d.parse g).1.metadata.docComment } } := by
  rcases parse_cases g d with ⟨-, hparse⟩ | ⟨l, -, hparse⟩ | ⟨l, o, -, -, hparse⟩
  · rw [hparse]
  · rw [hparse]
  · rw [hparse] at h
    cases h

/-- **What an outline tells is what the tables hold**, and nothing is left of what they held before. -/
theorem mirrors_parse (h : (d.parse g).2 = some o) : (d.parse g).1.metadata.Mirrors o := by
  obtain ⟨l, t, hl, -, -, ho⟩ := exists_of_parse_eq_some h
  rw [parse_of_outline hl ho]
  exact Metadata.mirrors_withOutline _ fun e he => (Outline.proper_of_ofSource? ho he).kind_ne

/-- **Documents with one text in one language end with the same tables.** -/
theorem sameTables_parse (hl : d'.metadata.language = d.metadata.language) (hcontent : d'.content = d.content)
    (h : (d.parse g).2 = some o) :
    (d'.parse g).2 = some o ∧ (d'.parse g).1.metadata.SameTables (d.parse g).1.metadata := by
  obtain ⟨l, t, hlanguage, -, -, ho⟩ := exists_of_parse_eq_some h
  have hl' : d'.metadata.language = some l := hl.trans hlanguage
  have h' : (d'.parse g).2 = some o := by
    rw [parse_of_outline hl' (hcontent ▸ ho)]
  have hcomment : (d'.parse g).1.metadata.docComment = (d.parse g).1.metadata.docComment := by
    rw [docComment_parse g hl', docComment_parse g hlanguage, hcontent]
  exact ⟨h', (mirrors_parse h').unique (mirrors_parse h) hcomment⟩

/-- The lines of a name ascend if the rows of the tree do. -/
theorem pairwise_lines_parse (h : (d.parse g).2 = some o)
    (hrows : ∀ l t, d.metadata.language = some l → g.parse l d.content = some t → t.RowsAscend) {n : String}
    {lines : List Nat} (hlines : Table.get? (d.parse g).1.metadata.symbols n = some lines) :
    lines.Pairwise (· ≤ ·) := by
  obtain ⟨l, t, hl, ht, rfl, -⟩ := exists_of_parse_eq_some h
  rw [(mirrors_parse h).lines_eq n lines hlines, Outline.linesOf, List.pairwise_map]
  apply ((Outline.pairwise_declRow (hrows l t hl ht)).sublist List.filter_sublist).imp
  intro e e' hle
  exact Nat.succ_le_succ hle

/-- **The tables mirror the outline, and nothing else changes.** If parsing gives an outline, the tables hold what it
tells, with the lines of each name in ascending order where the rows of the tree do not decrease, and another document
with the same text in the same language ends with the same tables. If it gives none, only the comment may change, and
without a language not even that. The facts of the file stay in each case. -/
theorem parse_mirrors (g : Grammars) (d : Document) :
    (∀ o, (d.parse g).2 = some o →
      (d.parse g).1.metadata.Mirrors o ∧
      ((∀ l t, d.metadata.language = some l → g.parse l d.content = some t → t.RowsAscend) →
        ∀ n lines, Table.get? (d.parse g).1.metadata.symbols n = some lines → lines.Pairwise (· ≤ ·)) ∧
      ∀ d' : Document, d'.metadata.language = d.metadata.language → d'.content = d.content →
        (d'.parse g).2 = some o ∧ (d'.parse g).1.metadata.SameTables (d.parse g).1.metadata) ∧
    ((d.parse g).2 = none → (d.parse g).1 =
      { d with metadata := { d.metadata with docComment := (d.parse g).1.metadata.docComment } }) ∧
    (∀ l, d.metadata.language = some l → (d.parse g).1.metadata.docComment = docComment? l d.content) ∧
    (d.metadata.language = none → d.parse g = (d, none)) ∧
    (d.parse g).1.metadata.SameFile d.metadata := by
  refine ⟨fun o h => ⟨mirrors_parse h, ?_, ?_⟩, parse_of_eq_none, fun l hl => docComment_parse g hl,
    parse_of_no_language g, sameFile_parse g d⟩
  · intro hrows n lines hlines
    exact pairwise_lines_parse h hrows hlines
  · intro d' hl hcontent
    exact sameTables_parse hl hcontent h

/-! A document that was parsed before, when its text was another one. -/

section Stale

/-- Facts with tables that tell nothing of the text. -/
def staleMetadata : Metadata :=
  { newMetadata ⟨"store.py"⟩ Outline.storeText with
    language := some .python
    imports := ["import sys"]
    classes := ["Gone", "Gone"]
    functions := ["get"]
    symbols := [("Gone", [7, 2])]
    docComment := some "of old" }

/-- The document. -/
def staleDocument : Document := { content := Outline.storeText, metadata := staleMetadata }

/-- What the document held before is gone. -/
theorem parse_mirrors_stale :
    let g := Grammars.ofTrees fun _ _ => some Outline.storeTree
    let m := (staleDocument.parse g).1.metadata
    ∃ o, (staleDocument.parse g).2 = some o ∧ m.Mirrors o ∧ m.SameFile staleMetadata ∧
      m.classes = ["Store"] ∧ m.functions = ["get", "step"] ∧
      m.symbols = [("Store", [3]), ("get", [4]), ("step", [6])] ∧
      ∀ n lines, Table.get? m.symbols n = some lines → lines.Pairwise (· ≤ ·) := by
  intro g m
  have hsome : (staleDocument.parse g).2 = some (Outline.ofTree .python Outline.storeText Outline.storeTree) := rfl
  -- the rows of the tree ascend, which is computed
  have hrows : ∀ l t, staleDocument.metadata.language = some l → g.parse l staleDocument.content = some t →
      t.RowsAscend := by
    intro l t hl ht
    obtain rfl : Language.python = l := Option.some.inj hl
    obtain rfl : Outline.storeTree = t := Option.some.inj ht
    unfold SyntaxTree.RowsAscend
    decide +kernel
  obtain ⟨htables, -, -, -, hfile⟩ := parse_mirrors g staleDocument
  obtain ⟨hmirrors, hlines, -⟩ := htables _ hsome
  refine ⟨_, hsome, hmirrors, hfile, ?_, ?_, ?_, hlines hrows⟩
  · show (Outline.ofTree .python Outline.storeText Outline.storeTree).namesOf [.classLike] = _
    decide +kernel
  · show (Outline.ofTree .python Outline.storeText Outline.storeTree).namesOf [.function, .method] = _
    decide +kernel
  · show (Outline.ofTree .python Outline.storeText Outline.storeTree).symbols = _
    decide +kernel

end Stale

end Document

end CodeSearch
