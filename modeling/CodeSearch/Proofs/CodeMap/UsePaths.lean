import CodeSearch.Proofs.CodeMap.Modules
import Mathlib.Data.List.Infix
import Mathlib.Data.List.TakeWhile

/-!
# What `use` statements refer to

A path in a `use` statement names a module, or an item of a module whose name comes before it. Which of
the two it is cannot be told from the path, so the path is sought as it stands, then without its last
name, and so on. The names that only say where a path starts are left out first, and the libraries that
are never part of a map are not sought at all.

* `Import.usedNames_join` — the names of a path are read off the statement as they were written;
* `Import.groups_use` — so it has one group of candidates, the starts of the names, longest first;
* `CodeMap.search_use` — so it finds the files that are known as the longest start as which any file is
  known, and these only (`CodeMap.AreFoundFor`, which leaves nothing open: `CodeMap.AreFoundFor.unique`).

Known are files as the ends of their paths without the extension (`CodeMap.Tidy.knownAs_eq_endingIn`), but
this is only true if what the extension leaves of a name is a name. The file `...` is called `..` without
its extension. That is read as a step, and left out, so the file counts as what its directory is called, and
is found under a name in which its path does not end (`CodeMap.search_use_dots`).
-/

namespace CodeSearch

namespace Import

/-! ### The names of a path -/

/-- Whether a text can be a name of a path: it has no blanks, none of the characters that end a path or a
name in it, and no slash. Identifiers are such texts. -/
structure IsSegment (name : String) : Prop where
  ne_empty : name ≠ ""
  plain : ∀ c ∈ name.toList, isBlank c = false ∧ c ≠ ':' ∧ c ≠ ';' ∧ c ≠ '\x7b' ∧ c ≠ '/'

/-- The characters of a text are looked at one by one. -/
instance : DecidablePred IsSegment := fun name =>
  decidable_of_iff (name ≠ "" ∧ name.toList.all (fun c =>
      isBlank c = false ∧ c ≠ ':' ∧ c ≠ ';' ∧ c ≠ '\x7b' ∧ c ≠ '/') = true)
    ⟨fun ⟨hne, hplain⟩ => ⟨hne, fun c hc => of_decide_eq_true (List.all_eq_true.1 hplain c hc)⟩,
      fun ⟨hne, hplain⟩ => ⟨hne, List.all_eq_true.2 fun c hc => decide_eq_true (hplain c hc)⟩⟩

/-- The names of a path without those that say where it starts. -/
def moduleNames (path : List String) : List String := path.dropWhile (["crate", "self", "super"].contains ·)

/-- Whether a statement uses a path, or hands it on. -/
def IsUseOf (path : List String) (statement : String) : Prop :=
  statement = "use " ++ Text.join "::" path ++ ";" ∨ statement = "pub use " ++ Text.join "::" path ++ ";"

/-- Whether names lead into a library that is never part of what is mapped. -/
def AreExternal (names : List String) : Prop := ∃ n ∈ names.head?, n ∈ ["std", "core", "alloc"]

instance (names : List String) : Decidable (AreExternal names) :=
  inferInstanceAs (Decidable (∃ n ∈ names.head?, n ∈ ["std", "core", "alloc"]))

theorem contains_map_toList (l : List String) (n : String) :
    (l.map String.toList).contains n.toList = l.contains n := by
  rw [Bool.eq_iff_iff, List.contains_iff_mem, List.contains_iff_mem]
  exact List.mem_map_of_injective fun _ _ => String.toList_injective

theorem areExternal_iff (names : List String) :
    (names.map String.toList).head?.any externals.contains = true ↔ AreExternal names := by
  cases names with
  | nil => exact ⟨nofun, nofun⟩
  | cons n names =>
    have hlibraries : externals.contains n.toList = ["std", "core", "alloc"].contains n :=
      contains_map_toList ["std", "core", "alloc"] n
    rw [List.map_cons, List.head?_cons, Option.any_some, hlibraries, List.contains_iff_mem, AreExternal]
    simp

/-! ### Double colons -/

/-- A text without colons is one piece. -/
theorem colonPieces_of_not_mem {s : List Char} (h : ':' ∉ s) : colonPieces s = [s] := by
  induction s with
  | nil => rfl
  | cons c s ih =>
    obtain ⟨hc, hs⟩ := not_or.1 (mt List.mem_cons.2 h)
    rw [colonPieces, ih hs]
    · exact fun _ he _ => hc he.symm

/-- Double colons cut a text. -/
theorem colonPieces_append {s : List Char} (h : ':' ∉ s) (r : List Char) :
    colonPieces (s ++ ':' :: ':' :: r) = s :: colonPieces r := by
  induction s with
  | nil => rfl
  | cons c s ih =>
    obtain ⟨hc, hs⟩ := not_or.1 (mt List.mem_cons.2 h)
    rw [List.cons_append, colonPieces, ih hs]
    · exact fun _ he _ => hc he.symm

theorem dropColons_eq_self {s : List Char} (h : s.head? ≠ some ':') : dropColons s = s := by
  fun_cases dropColons s with
  | case1 r => exact absurd rfl h
  | case2 => rfl

/-- Of a text that ends in a semicolon, and has nothing else that could end a path before, the names are what stands
between double colons. -/
theorem usedNames_append {text : List Char} (hplain : ∀ c ∈ text, isBlank c = false ∧ c ≠ ';' ∧ c ≠ '\x7b')
    (hlast : text.getLast? ≠ some ':') : usedNames (text ++ [';']) =
      (((colonPieces text).map Chars.trim).filter (!·.isEmpty)).dropWhile (anchors.contains ·) := by
  -- the semicolon is cut off, and nothing else is
  have hend : Chars.dropEndWhile (· = ';') (text ++ [';']) = text := by
    -- nothing else is a semicolon
    have hreverse : text.reverse.dropWhile (· = ';') = text.reverse := by
      cases hr : text.reverse with
      | nil => rfl
      | cons c r =>
        have hc : c ∈ text := List.mem_reverse.1 (hr ▸ List.mem_cons_self)
        exact List.dropWhile_cons_of_neg (mt of_decide_eq_true (hplain c hc).2.1)
    calc Chars.dropEndWhile (· = ';') (text ++ [';'])
        = ((';' :: text.reverse).dropWhile (· = ';')).reverse := by
          rw [Chars.dropEndWhile, List.reverse_append]
          rfl
      _ = (text.reverse.dropWhile (· = ';')).reverse := rfl
      _ = text := by rw [hreverse, List.reverse_reverse]
  -- there are no blanks at the ends, no brace and no colons at the end
  have htrim : Chars.trim text = text := Chars.trim_of_not_blank fun c hc => (hplain c hc).1
  have hbrace : text.takeWhile (· ≠ '\x7b') = text :=
    List.takeWhile_eq_self_iff.2 fun c hc => decide_eq_true (hplain c hc).2.2
  have hcolons : (dropColons text.reverse).reverse = text := by
    rw [dropColons_eq_self (by rwa [List.head?_reverse]), List.reverse_reverse]
  have has : Chars.cutAt? " as ".toList text = none := by
    cases hcut : Chars.cutAt? " as ".toList text with
    | none => rfl
    | some cut =>
      -- a new name would come after a blank
      have hblank : ' ' ∈ text := by
        rw [Chars.cutAt?_append hcut]
        exact List.mem_append_left _ (List.mem_append_right _ (by decide))
      exact absurd (hplain ' ' hblank).1 (by decide)
  unfold usedNames
  dsimp only
  rw [hend, htrim, hbrace, hcolons, has, Option.map_none, Option.getD_none]

section Path

variable {path : List String}

theorem toList_join_cons (n : String) (hne : path ≠ []) : (Text.join "::" (n :: path)).toList =
    n.toList ++ ':' :: ':' :: (Text.join "::" path).toList := by
  cases path with
  | nil => exact absurd rfl hne
  | cons n' path =>
    rw [Text.join, String.toList_append, String.toList_append, List.append_assoc]
    · rfl
    · exact List.cons_ne_nil _ _

variable (hpath : ∀ n ∈ path, IsSegment n)

include hpath

/-- Apart from the colons, a path has no characters that mean something in a statement. -/
theorem plain_of_mem_join {c : Char} (hc : c ∈ (Text.join "::" path).toList) :
    isBlank c = false ∧ c ≠ ';' ∧ c ≠ '\x7b' := by
  induction path with
  | nil => cases hc
  | cons n path ih =>
    have hname : c ∈ n.toList → isBlank c = false ∧ c ≠ ';' ∧ c ≠ '\x7b' := by
      intro hc
      obtain ⟨hblank, -, hsemicolon, hbrace, -⟩ := (hpath n List.mem_cons_self).plain c hc
      exact ⟨hblank, hsemicolon, hbrace⟩
    -- the last name has nothing after it
    by_cases hne : path = []
    · subst hne
      exact hname hc
    · rw [toList_join_cons n hne] at hc
      rcases List.mem_append.1 hc with hc | hc
      · exact hname hc
      · -- what stands between two names are colons
        rcases List.mem_cons.1 hc with rfl | hc
        · decide
        · rcases List.mem_cons.1 hc with rfl | hc
          · decide
          · exact ih (fun n hn => hpath n (List.mem_cons_of_mem _ hn)) hc

/-- A path ends as its last name does. -/
theorem getLast?_join (hne : path ≠ []) : ∃ c, (Text.join "::" path).toList.getLast? = some c ∧ c ≠ ':' := by
  induction path with
  | nil => exact absurd rfl hne
  | cons n path ih =>
    by_cases hmore : path = []
    · subst hmore
      -- the last name is not empty, and has no colon
      obtain ⟨hempty, hplain⟩ := hpath n List.mem_cons_self
      have hlist : n.toList ≠ [] := mt String.toList_eq_nil_iff.1 hempty
      exact ⟨_, List.getLast?_eq_some_getLast hlist, (hplain _ (List.getLast_mem hlist)).2.1⟩
    · obtain ⟨c, hlast, hc⟩ := ih (fun n hn => hpath n (List.mem_cons_of_mem _ hn)) hmore
      -- the names before it do not show at the end
      refine ⟨c, ?_, hc⟩
      rw [toList_join_cons n hmore, List.getLast?_append_of_ne_nil _ (List.cons_ne_nil _ _),
        List.getLast?_cons_cons, List.getLast?_cons_of_ne_nil, hlast]
      rintro he
      rw [he] at hlast
      cases hlast

/-- The pieces between double colons are the names. -/
theorem colonPieces_join (hne : path ≠ []) :
    colonPieces (Text.join "::" path).toList = path.map String.toList := by
  induction path with
  | nil => exact absurd rfl hne
  | cons n path ih =>
    have hcolon : ':' ∉ n.toList := fun hc => ((hpath n List.mem_cons_self).plain ':' hc).2.1 rfl
    by_cases hmore : path = []
    · -- the last name is the last piece
      subst hmore
      exact colonPieces_of_not_mem hcolon
    · -- a name before it is cut off together with its colons
      rw [toList_join_cons n hmore, colonPieces_append hcolon,
        ih (fun n hn => hpath n (List.mem_cons_of_mem _ hn)) hmore]
      rfl

/-- **The names of a path are read off a statement,** without those that say where the path starts. -/
theorem usedNames_join :
    usedNames ((Text.join "::" path).toList ++ [';']) = (moduleNames path).map String.toList := by
  by_cases hne : path = []
  · subst hne
    rfl
  -- there are no blanks at the ends of names, and no names without letters
  have htrimmed : (path.map String.toList).map Chars.trim = path.map String.toList := by
    rw [List.map_map]
    exact List.map_congr_left fun n hn => Chars.trim_of_not_blank fun c hc => ((hpath n hn).plain c hc).1
  have hkept : (path.map String.toList).filter (!·.isEmpty) = path.map String.toList := by
    rw [List.filter_eq_self]
    intro s hs
    obtain ⟨n, hn, rfl⟩ := List.mem_map.1 hs
    have hempty : n.toList ≠ [] := mt String.toList_eq_nil_iff.1 (hpath n hn).ne_empty
    rw [List.isEmpty_eq_false_iff.2 hempty]
    rfl
  -- the words for where a path starts are the same as texts and as lists of letters
  have hanchors : (fun n : String => anchors.contains n.toList) = (["crate", "self", "super"].contains ·) :=
    funext fun n => contains_map_toList ["crate", "self", "super"] n
  obtain ⟨c, hlast, hc⟩ := getLast?_join hpath hne
  have hcolon : (Text.join "::" path).toList.getLast? ≠ some ':' := by
    rw [hlast]
    exact fun he => hc (Option.some.inj he)
  rw [usedNames_append (fun c hc => plain_of_mem_join hpath hc) hcolon, colonPieces_join hpath hne, htrimmed, hkept,
    List.dropWhile_map]
  exact congrArg (fun p => (path.dropWhile p).map String.toList) hanchors

end Path

/-! ### Starts of names -/

section Starts

/-- The starts of a list, from the whole of it to its first item. -/
def starts {α : Type} (l : List α) : List (List α) := (ends l.reverse).map List.reverse

variable {α : Type} {p : List α → Bool} {l e : List α}

/-- The starts of a list are its beginnings but the empty one. -/
theorem mem_starts_iff : e ∈ starts l ↔ e ≠ [] ∧ e <+: l := by
  rw [starts, List.mem_map]
  constructor
  · rintro ⟨r, hr, rfl⟩
    obtain ⟨hne, hsuffix⟩ := mem_ends_iff.1 hr
    exact ⟨mt List.reverse_eq_nil_iff.1 hne, List.reverse_suffix.1 (by rwa [List.reverse_reverse])⟩
  · rintro ⟨hne, hpre⟩
    have hr : e.reverse ∈ ends l.reverse :=
      mem_ends_iff.2 ⟨mt List.reverse_eq_nil_iff.1 hne, List.reverse_suffix.2 hpre⟩
    exact ⟨e.reverse, hr, List.reverse_reverse e⟩

/-- The longest start of a kind is found. -/
theorem find?_starts (hne : e ≠ []) (hpre : e <+: l) (he : p e = true)
    (hlonger : ∀ e', e' <+: l → e.length < e'.length → p e' = false) : (starts l).find? p = some e := by
  have hfind : (ends l.reverse).find? (p ∘ List.reverse) = some e.reverse := by
    apply find?_ends_eq_some_iff.2
    refine ⟨mt List.reverse_eq_nil_iff.1 hne, List.reverse_suffix.2 hpre, ?_, fun e' he' hlt => ?_⟩
    · rw [Function.comp_apply, List.reverse_reverse, he]
    · apply hlonger
      · exact List.reverse_suffix.1 (by rwa [List.reverse_reverse])
      · rwa [List.length_reverse] at hlt ⊢
  rw [starts, List.find?_map, hfind, Option.map_some, List.reverse_reverse]

end Starts

/-! ### The candidates -/

section Candidates

variable {path : List String}

/-- What follows on `use` is all that counts, and the statement may start with `pub`. -/
theorem groups_of_use {statement : String} (hstatement : IsUseOf path statement) :
    groups statement = useGroups ((Text.join "::" path).toList ++ [';']) := by
  -- the statement is one of two texts
  have hlist : statement.toList = "use ".toList ++ ((Text.join "::" path).toList ++ [';']) ∨
      statement.toList = "pub use ".toList ++ ((Text.join "::" path).toList ++ [';']) := by
    rcases hstatement with rfl | rfl
    · left
      rw [String.toList_append, String.toList_append, List.append_assoc]
      rfl
    · right
      rw [String.toList_append, String.toList_append, List.append_assoc]
      rfl
  -- it begins with a letter and ends with a semicolon, so there is nothing to trim
  have htrim : Chars.trim statement.toList = statement.toList := by
    apply Chars.trim_eq_self
    · intro c hc
      rcases hlist with hlist | hlist
      · rw [hlist] at hc
        obtain rfl : 'u' = c := Option.some.inj hc
        decide
      · rw [hlist] at hc
        obtain rfl : 'p' = c := Option.some.inj hc
        decide
    · have hlast : statement.toList.getLast? = some ';' := by
        rcases hlist with hlist | hlist
        · rw [hlist, ← List.append_assoc, List.getLast?_concat]
        · rw [hlist, ← List.append_assoc, List.getLast?_concat]
      rw [hlast]
      intro c hc
      obtain rfl : ';' = c := Option.some.inj hc
      decide
  -- either way what stands before the path is read off, letter by letter
  unfold groups
  rw [htrim]
  rcases hlist with hlist | hlist
  · rw [hlist]
    rfl
  · rw [hlist]
    rfl

variable (hpath : ∀ n ∈ path, IsSegment n)

include hpath

/-- **A `use` statement has one group of candidates,** the starts of the names of its path, unless they lead out of
what is mapped. -/
theorem groups_use {statement : String} (hstatement : IsUseOf path statement) :
    groups statement = if moduleNames path = [] ∨ AreExternal (moduleNames path) then []
      else [(starts (moduleNames path)).map key] := by
  rw [groups_of_use hstatement]
  unfold useGroups
  rw [usedNames_join hpath]
  -- the candidates are read from the back, so each of them is turned around
  have hkeys : (ends ((moduleNames path).map String.toList).reverse).map (fun n => pathOf n.reverse) =
      (starts (moduleNames path)).map key := by
    rw [← List.map_reverse, ends_map, starts, List.map_map, List.map_map]
    refine List.map_congr_left fun e _ => ?_
    rw [Function.comp_apply, Function.comp_apply, key, List.map_reverse]
  -- nothing is sought if no names are left, or if they lead out of the project
  have hout : (((moduleNames path).map String.toList).isEmpty ||
      ((moduleNames path).map String.toList).head?.any externals.contains) = true ↔
        moduleNames path = [] ∨ AreExternal (moduleNames path) := by
    rw [Bool.or_eq_true, areExternal_iff, List.isEmpty_iff, List.map_eq_nil_iff]
  dsimp only
  rw [hkeys]
  simp only [hout]

end Candidates

end Import

/-! ### Paths without their extension -/

/-- Whether some names end the path of a file as it is written without the extension, or the path of its directory if
the file stands for that. -/
def MapFile.EndsIn (root : Path) (f : MapFile) (names : List String) : Prop :=
  names ≠ [] ∧ ∃ place ∈ namesBelow? root f.path, ∃ last ∈ place.getLast?,
    names <:+ place.dropLast ++ [(Path.splitName last).1] ∨
      ModuleIndex.standsForDirectory f = true ∧ names <:+ place.dropLast

instance (root : Path) (f : MapFile) (names : List String) : Decidable (f.EndsIn root names) :=
  inferInstanceAs (Decidable (_ ∧ _))

/-- Whether a file has a name without its extension that stands for itself, and is no step that leads nowhere or
upwards. -/
def MapFile.HasNamedStem (f : MapFile) : Prop := ∀ stem ∈ f.path.stem?, stem ≠ "." ∧ stem ≠ ".."

instance (f : MapFile) : Decidable f.HasNamedStem :=
  inferInstanceAs (Decidable (∀ stem ∈ f.path.stem?, stem ≠ "." ∧ stem ≠ ".."))

namespace CodeMap

variable {m : CodeMap} {root : Path} {f : MapFile}

/-- The files of a map whose path without the extension ends in some names, in ascending order. -/
def endingIn (m : CodeMap) (names : List String) : List Path :=
  (m.files.filter fun f => f.EndsIn m.root names).map MapFile.path

/-- A file is known as the ends of its path without the extension, if what is left of its name stands for
itself. -/
theorem Tidy.isKnownAs_iff_endsIn (h : m.Tidy) (hf : f ∈ m.files) (hstem : f.HasNamedStem) (names : List String) :
    f.IsKnownAs m.root names ↔ f.EndsIn m.root names := by
  obtain ⟨place, hne, -, hbelow, hrelative⟩ := h.exists_place hf
  obtain ⟨before, last, rfl⟩ := (List.eq_nil_or_concat' place).resolve_left hne
  -- the last name of the path is cut at its last dot
  have hlast : f.path.stem? = some (Path.splitName last).1 := by
    rw [Path.stem?, Path.fileName?, Path.relativeTo?_eq_some_iff.1 hrelative, List.map_append, List.map_singleton,
      ← List.append_assoc, List.getLast?_concat]
    exact congrArg (fun n => some (Path.splitName n).1) (RawText.text_ofText last)
  -- what is left is a name, so no step is left out
  obtain ⟨hcurrent, hparent⟩ := hstem _ hlast
  have hwithout : Import.withoutExtension (before ++ [last]) = before ++ [(Path.splitName last).1] := by
    rw [Import.withoutExtension_concat, if_neg (not_or.2 ⟨hcurrent, hparent⟩)]
  rw [MapFile.IsKnownAs, MapFile.EndsIn, hbelow]
  simp [hwithout]

/-- **Files are known as the ends of their paths** in a map without names that turn into steps. -/
theorem Tidy.knownAs_eq_endingIn (h : m.Tidy) (hstems : ∀ f ∈ m.files, f.HasNamedStem) : m.knownAs = m.endingIn := by
  funext names
  unfold knownAs endingIn
  congr 1
  refine List.filter_congr fun f hf => ?_
  rw [decide_eq_decide, h.isKnownAs_iff_endsIn hf (hstems f hf)]

/-! ### What is found -/

/-- Whether what is found for some names are the files that are known as their longest known start. -/
structure AreFoundFor (known : List String → List Path) (names : List String) (found : List Path) : Prop where
  /-- Nothing is found if there are no names, or if they lead into a library that is never mapped. -/
  of_outside : names = [] ∨ Import.AreExternal names → found = []
  /-- Else what is known as the longest start of the names is found, and all of it. -/
  of_longest : names ≠ [] → ¬Import.AreExternal names →
    ∀ start, IsLongestKnown known (· <+: names) start → found = known start
  /-- Nothing is found if no start of the names is known. -/
  of_unknown : (∀ start, start <+: names → known start = []) → found = []

/-- If any start is known, there is a longest one. -/
theorem exists_isLongestKnown {known : List String → List Path} {names start : List String} (hpre : start <+: names)
    (hknown : known start ≠ []) : ∃ longest, IsLongestKnown known (· <+: names) longest := by
  by_cases hlonger : ∃ longer, longer <+: names ∧ start.length < longer.length ∧ known longer ≠ []
  · obtain ⟨longer, hpre', hlt, hknown'⟩ := hlonger
    exact exists_isLongestKnown hpre' hknown'
  · refine ⟨start, hpre, hknown, fun longer hpre' hlt => ?_⟩
    by_contra hknown'
    exact hlonger ⟨longer, hpre', hlt, hknown'⟩
termination_by names.length - start.length
decreasing_by
  -- no start is longer than all the names
  have hle := hpre'.length_le
  omega

/-- **What is found for some names is settled** by what files are known as. -/
theorem AreFoundFor.unique {known : List String → List Path} {names : List String} {found found' : List Path}
    (h : AreFoundFor known names found) (h' : AreFoundFor known names found') : found = found' := by
  by_cases hout : names = [] ∨ Import.AreExternal names
  · -- for these names nothing is found
    rw [h.of_outside hout, h'.of_outside hout]
  · obtain ⟨hne, hexternal⟩ := not_or.1 hout
    by_cases hknown : ∃ start, start <+: names ∧ known start ≠ []
    · obtain ⟨start, hpre, hstart⟩ := hknown
      -- some start is known, and then there is a longest one
      obtain ⟨longest, hlongest⟩ := exists_isLongestKnown hpre hstart
      rw [h.of_longest hne hexternal longest hlongest, h'.of_longest hne hexternal longest hlongest]
    · -- no start is known
      push Not at hknown
      rw [h.of_unknown hknown, h'.of_unknown hknown]

/-- The first start that is known is the longest one. -/
theorem IsLongestKnown.find?_starts {names start : List String}
    (h : IsLongestKnown m.knownAs (· <+: names) start) :
    (Import.starts names).find? (fun e => m.knownAs e ≠ []) = some start := by
  apply Import.find?_starts h.ne_nil h.of_kind (decide_eq_true h.isKnown)
  intro longer hpre hlt
  exact decide_eq_false (not_not_intro (h.longest longer hpre hlt))

section Search

variable {path : List String} {statement : String} (hpath : ∀ n ∈ path, Import.IsSegment n)
  (hstatement : Import.IsUseOf path statement)

include hpath hstatement

/-- A `use` statement finds what is known as the longest known start of its names. -/
theorem areFoundFor_search (h : m.Tidy) :
    AreFoundFor m.knownAs (Import.moduleNames path) (m.resolver.search statement) := by
  have hgroups := Import.groups_use hpath hstatement
  -- the candidates can be told apart, because no name of the path has a slash
  have hcandidates : ∀ e ∈ Import.starts (Import.moduleNames path), e ≠ [] ∧ Import.AreProper e := by
    intro e he
    obtain ⟨hne, hpre⟩ := Import.mem_starts_iff.1 he
    refine ⟨hne, fun n hn => ?_⟩
    have hsegment : Import.IsSegment n := hpath n ((List.dropWhile_suffix _).subset (hpre.subset hn))
    exact ⟨hsegment.ne_empty, fun hslash => (hsegment.plain '/' hslash).2.2.2.2 rfl⟩
  constructor
  · -- names that lead out of what is mapped
    intro hout
    rw [if_pos hout] at hgroups
    exact search_of_no_groups hgroups
  · -- a start is known
    intro hne hexternal start hstart
    rw [if_neg (not_or.2 ⟨hne, hexternal⟩)] at hgroups
    rw [search_of_groups h hgroups (fun _ => rfl) hcandidates, hstart.find?_starts]
    rfl
  · -- no start is known
    intro hunknown
    by_cases hout : Import.moduleNames path = [] ∨ Import.AreExternal (Import.moduleNames path)
    · rw [if_pos hout] at hgroups
      exact search_of_no_groups hgroups
    · rw [if_neg hout] at hgroups
      have hfind : (Import.starts (Import.moduleNames path)).find? (fun e => m.knownAs e ≠ []) = none := by
        rw [List.find?_eq_none]
        intro e he
        rw [decide_eq_true_iff, not_not]
        exact hunknown e (Import.mem_starts_iff.1 he).2
      rw [search_of_groups h hgroups (fun _ => rfl) hcandidates, hfind]
      rfl

/-- **A path in a `use` statement refers to the longest known start of its names,** whatever the map. Files are known
as the ends of their paths without the extension, unless the map has a file of which no name is left. -/
theorem search_use (hm : Built root m) :
    AreFoundFor m.knownAs (Import.moduleNames path) (m.resolver.search statement) ∧
      ((∀ f ∈ m.files, f.HasNamedStem) →
        AreFoundFor m.endingIn (Import.moduleNames path) (m.resolver.search statement)) := by
  have hfound := areFoundFor_search hpath hstatement hm.tidy
  refine ⟨hfound, fun hstems => ?_⟩
  rw [← hm.tidy.knownAs_eq_endingIn hstems]
  exact hfound

end Search

/-- An item of a module: the name of the item leads to no file, and the names before it do. -/
theorem search_use_item :
    let m := ofDocuments ⟨"/r"⟩ [{ (default : Metadata) with path := ⟨"src/net/http.rs"⟩ },
      { (default : Metadata) with path := ⟨"src/net/mod.rs"⟩ },
      { (default : Metadata) with path := ⟨"http.py"⟩ }]
    Built ⟨"/r"⟩ m ∧ (∀ n ∈ ["crate", "net", "http", "Client"], Import.IsSegment n) ∧
      Import.IsUseOf ["crate", "net", "http", "Client"] "pub use crate::net::http::Client;" ∧
      (∀ f ∈ m.files, f.HasNamedStem) ∧
      AreFoundFor m.endingIn ["net", "http", "Client"] (m.resolver.search "pub use crate::net::http::Client;") ∧
      m.resolver.search "pub use crate::net::http::Client;" = m.endingIn ["net", "http"] ∧
      m.endingIn ["net", "http"] = [⟨"/r/src/net/http.rs"⟩] ∧ m.endingIn ["net"] = [⟨"/r/src/net/mod.rs"⟩] := by
  intro m
  have hbuilt : Built ⟨"/r"⟩ m := built_ofDocuments ⟨"/r"⟩ _
  have hpath : ∀ n ∈ ["crate", "net", "http", "Client"], Import.IsSegment n := by decide
  -- the files are in order already, and then they need not be sorted
  have hfiles : m.files = MapNode.listFiles [m.directory] [] :=
    List.mergeSort_of_pairwise (by decide +kernel)
  have hstems : ∀ f ∈ m.files, f.HasNamedStem := by
    rw [hfiles]
    decide +kernel
  have huse : Import.IsUseOf ["crate", "net", "http", "Client"] "pub use crate::net::http::Client;" :=
    Or.inr (by decide)
  refine ⟨hbuilt, hpath, huse, hstems, (search_use hpath huse hbuilt).2 hstems, ?_⟩
  rw [resolver_of_files hfiles, endingIn, endingIn, hfiles]
  decide +kernel

/-- A file whose name is three dots. Without the extension it is a step upwards, which is left out, so the file is
known as what its directory is called, although its path does not end so. -/
theorem search_use_dots :
    let m := ofDocuments ⟨"/r"⟩ [{ (default : Metadata) with path := ⟨"a/..."⟩ }]
    Built ⟨"/r"⟩ m ∧ Import.IsSegment "a" ∧ m.resolver.search "use a;" = [⟨"/r/a/..."⟩] ∧
      ¬AreFoundFor m.endingIn ["a"] (m.resolver.search "use a;") := by
  intro m
  have hfiles : m.files = MapNode.listFiles [m.directory] [] :=
    List.mergeSort_of_pairwise (by decide +kernel)
  have hsearch : m.resolver.search "use a;" = [⟨"/r/a/..."⟩] := by
    rw [resolver_of_files hfiles]
    decide +kernel
  refine ⟨built_ofDocuments ⟨"/r"⟩ _, by decide, hsearch, fun hfound => ?_⟩
  have hunknown : ∀ start ∈ ["a"].inits, m.endingIn start = [] := by
    unfold endingIn
    rw [hfiles]
    decide +kernel
  have hnone := hfound.of_unknown fun start hpre => hunknown start ((List.mem_inits start ["a"]).2 hpre)
  rw [hsearch] at hnone
  cases hnone

end CodeMap

end CodeSearch
