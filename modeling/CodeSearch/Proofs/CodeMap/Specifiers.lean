import CodeSearch.Proofs.CodeMap.Modules

/-!
# What quoted specifiers refer to

A specifier is a quoted path in an import. It may be written with the extension of the file or without, so
it is sought both ways: first without what stands behind the last dot of its last name, then as it stands,
and both times with fewer and fewer names from the front.

* `Import.quoted_specifier`, `Import.groups_specifier` — the path of a file without its extension, quoted in
  an import, gives one group of candidates: the ends of its names without an extension, then its ends;
* `CodeMap.mem_search_specifier_iff` — so the file is found if it is known as the longest end of the first
  kind as which any file is known.

The full path of a file need not find it, then. If the name of the file has a further dot, what comes
before that dot counts first, down to the last name alone, and any file that is called so is found instead:
`./src/app.component` leads to `src/shared/app.ts` and not to `src/app.component.ts`
(`CodeMap.search_specifier_app`). Where the name of the file has no further dot, nothing comes before the
full path, and the file is always found.
-/

namespace CodeSearch

namespace Import

/-! ### Quoted texts -/

/-- The path of a file as it is written in an import: without its last extension. -/
def specifier (place : List String) : String :=
  Text.join "/" (place.dropLast ++ (place.getLast?.map fun last => (Path.splitName last).1).toList)

theorem specifier_concat (before : List String) (last : String) :
    specifier (before ++ [last]) = Text.join "/" (before ++ [(Path.splitName last).1]) := by
  rw [specifier, List.dropLast_concat, List.getLast?_concat]
  rfl

theorem quotedFrom_cons {c : Char} (hblank : isBlank c = false) (hquote : isQuote c = false) (read r : List Char) :
    quotedFrom (some read) (c :: r) = quotedFrom (some (c :: read)) r := by
  cases read with
  | nil => simp [quotedFrom, hblank, hquote]
  | cons a b => simp [quotedFrom, hblank, hquote]

/-- A text without quotes and blanks is read up to the next quote. -/
theorem quotedFrom_append {s : List Char} (hs : ∀ c ∈ s, isBlank c = false ∧ isQuote c = false) (read r : List Char) :
    quotedFrom (some read) (s ++ r) = quotedFrom (some (s.reverse ++ read)) r := by
  induction s generalizing read with
  | nil => rfl
  | cons c s ih =>
    obtain ⟨hblank, hquote⟩ := hs c List.mem_cons_self
    rw [List.cons_append, quotedFrom_cons hblank hquote, ih fun d hd => hs d (List.mem_cons_of_mem _ hd),
      List.reverse_cons, List.append_assoc]
    rfl

/-- **A quoted text is read as it stands** if it has no blanks and quotes. -/
theorem quoted_specifier {s : List Char} (hs : ∀ c ∈ s, isBlank c = false ∧ isQuote c = false) (hne : s ≠ []) :
    quoted ("import x from '".toList ++ (s ++ ['\x27'])) = [s] := by
  calc quoted ("import x from '".toList ++ (s ++ ['\x27']))
      = quotedFrom (some []) (s ++ ['\x27']) := rfl
    _ = quotedFrom (some s.reverse) ['\x27'] := by rw [quotedFrom_append hs, List.append_nil]
    _ = [s] := by
        obtain ⟨c, r, hr⟩ := List.exists_cons_of_ne_nil (mt List.reverse_eq_nil_iff.1 hne)
        rw [hr]
        show [(c :: r).reverse] = [s]
        rw [← hr, List.reverse_reverse]

/-! ### The candidates -/

theorem findSome?_filter {α β : Type} {f : α → Option β} {p : α → Bool} {l : List α}
    (h : ∀ a ∈ l, p a = false → f a = none) : (l.filter p).findSome? f = l.findSome? f := by
  induction l with
  | nil => rfl
  | cons a l ih =>
    have hrest := ih fun b hb => h b (List.mem_cons_of_mem _ hb)
    cases hp : p a with
    | true => rw [List.filter_cons_of_pos hp, List.findSome?_cons, List.findSome?_cons, hrest]
    | false =>
      rw [List.filter_cons_of_neg (Bool.eq_false_iff.1 hp), List.findSome?_cons, h a List.mem_cons_self hp, hrest]

/-- **What is left out because it came before is not sought,** since it would have been found before. -/
theorem findSome?_eraseDups {α β : Type} [BEq α] [LawfulBEq α] (f : α → Option β) (l : List α) :
    l.eraseDups.findSome? f = l.findSome? f := by
  match l with
  | [] => rfl
  | a :: l =>
    rw [List.eraseDups_cons, List.findSome?_cons, List.findSome?_cons]
    cases ha : f a with
    | some b => rfl
    | none =>
      calc (l.filter fun b => !b == a).eraseDups.findSome? f
          = (l.filter fun b => !b == a).findSome? f := findSome?_eraseDups f _
        _ = l.findSome? f := by
            apply findSome?_filter
            -- what is left out is the first item again, for which nothing was found
            intro b _ hb
            obtain rfl : b = a := by simpa using hb
            exact ha
termination_by l.length
decreasing_by exact Nat.lt_succ_of_le (List.length_filter_le _ l)

/-- Names with slashes between them are found again by cutting. -/
theorem pieces_toList_join {names : List String} (hne : names ≠ []) (hnames : ∀ n ∈ names, '/' ∉ n.toList) :
    Chars.pieces '/' (Text.join "/" names).toList = names.map String.toList := by
  have hpieces := congrArg (List.map String.toList) (Text.pieces_join hne hnames)
  rw [Text.pieces, List.map_map] at hpieces
  rw [← hpieces]
  exact (List.map_id'' (fun _ => String.toList_ofList) _).symm

section Place

variable {place : List String} (hne : place ≠ []) (hplace : ∀ n ∈ place, Path.IsName n)

include hne hplace

/-- **The names of a specifier** are those of the path without the extension. -/
theorem names_specifier :
    (Chars.pieces '/' ("./".toList ++ (specifier place).toList)).filter
        (fun p => !p.isEmpty && p ≠ ['.'] && p ≠ ['.', '.']) =
      (withoutExtension place).map String.toList := by
  -- only the last name of the place has its extension cut off
  obtain ⟨before, last, rfl⟩ := (List.eq_nil_or_concat' place).resolve_left hne
  have hlast : Path.IsName last := hplace last (List.mem_append_right _ (List.mem_singleton_self last))
  obtain ⟨hstem, hslash⟩ := proper_stem ⟨hlast.ne_empty, hlast.not_mem⟩
  have hbefore : ∀ n ∈ before, Path.IsName n := fun n hn => hplace n (List.mem_append_left _ hn)
  have hpieces : Chars.pieces '/' (specifier (before ++ [last])).toList =
      (before ++ [(Path.splitName last).1]).map String.toList := by
    rw [specifier_concat]
    apply pieces_toList_join (List.append_ne_nil_of_right_ne_nil _ (List.cons_ne_nil _ _))
    exact List.forall_mem_append.2 ⟨fun n hn => (hbefore n hn).not_mem, List.forall_mem_singleton.2 hslash⟩
  -- a piece is left out if it is empty or a step that leads nowhere or upwards
  have hkept : ∀ n : String, (!n.toList.isEmpty && n.toList ≠ ['.'] && n.toList ≠ ['.', '.']) = true ↔
      n ≠ "" ∧ n ≠ "." ∧ n ≠ ".." := by
    intro n
    have hcurrent : n.toList = ['.'] ↔ n = "." := (String.toList_inj : n.toList = ".".toList ↔ n = ".")
    have hparent : n.toList = ['.', '.'] ↔ n = ".." := (String.toList_inj : n.toList = "..".toList ↔ n = "..")
    rw [Bool.and_eq_true, Bool.and_eq_true, Bool.not_eq_true', List.isEmpty_eq_false_iff, decide_eq_true_iff,
      decide_eq_true_iff, ne_eq, String.toList_eq_nil_iff, ne_eq, hcurrent, ne_eq, hparent, and_assoc]
  calc (Chars.pieces '/' ("./".toList ++ (specifier (before ++ [last])).toList)).filter
        (fun p => !p.isEmpty && p ≠ ['.'] && p ≠ ['.', '.'])
      = (['.'] :: (before ++ [(Path.splitName last).1]).map String.toList).filter
          (fun p => !p.isEmpty && p ≠ ['.'] && p ≠ ['.', '.']) := by
        rw [← hpieces]
        exact congrArg _ (Chars.pieces_append_cons ['.'] _)
    _ = ((before.map String.toList).filter fun p => !p.isEmpty && p ≠ ['.'] && p ≠ ['.', '.']) ++
          [(Path.splitName last).1.toList].filter fun p => !p.isEmpty && p ≠ ['.'] && p ≠ ['.', '.'] := by
        rw [List.filter_cons_of_neg (by decide), List.map_append, List.filter_append, List.map_singleton]
    _ = (withoutExtension (before ++ [last])).map String.toList := by
        rw [withoutExtension_concat, List.map_append]
        congr 1
        · -- the names before the last one are steps, so all of them are kept
          rw [List.filter_eq_self]
          intro s hs
          obtain ⟨n, hn, rfl⟩ := List.mem_map.1 hs
          exact (hkept n).2 ⟨(hbefore n hn).ne_empty, (hbefore n hn).ne_current, (hbefore n hn).ne_parent⟩
        · -- what is left of the last name may be no step
          by_cases hstep : (Path.splitName last).1 = "." ∨ (Path.splitName last).1 = ".."
          · rw [if_pos hstep, List.filter_cons_of_neg]
            · rfl
            · rw [hkept]
              exact fun ⟨_, hcurrent, hparent⟩ => hstep.elim hcurrent hparent
          · rw [if_neg hstep, List.filter_cons_of_pos]
            · rfl
            · rw [hkept]
              exact ⟨hstem, not_or.1 hstep⟩

/-- The group of a specifier: the ends of its names without an extension, then its ends. -/
theorem quotedGroup_specifier : quotedGroup ("./".toList ++ (specifier place).toList) =
    ((ends (withoutExtension (withoutExtension place)) ++ ends (withoutExtension place)).map key).eraseDups := by
  unfold quotedGroup
  dsimp only
  have hnames : ((withoutExtension place).map String.toList).map String.ofList = withoutExtension place := by
    rw [List.map_map]
    exact List.map_id'' (fun _ => String.ofList_toList) _
  rw [names_specifier hne hplace, hnames, ends_map, ends_map, ← List.map_append, List.map_map]
  rfl

/-- **An import of a specifier has one group of candidates.** -/
theorem groups_specifier (hplain : ∀ c ∈ (specifier place).toList, isBlank c = false ∧ isQuote c = false) :
    groups ("import x from './" ++ specifier place ++ "'") =
      [((ends (withoutExtension (withoutExtension place)) ++ ends (withoutExtension place)).map key).eraseDups] := by
  have hlist : ("import x from './" ++ specifier place ++ "'").toList =
      "import x from '".toList ++ ("./".toList ++ (specifier place).toList ++ ['\x27']) := by
    rw [String.toList_append, String.toList_append, List.append_assoc, List.append_assoc]
    rfl
  -- the statement begins with a letter and ends with a quote, so there is nothing to trim
  have htrim : Chars.trim ("import x from './" ++ specifier place ++ "'").toList =
      ("import x from './" ++ specifier place ++ "'").toList := by
    apply Chars.trim_eq_self
    · intro c hc
      rw [hlist] at hc
      obtain rfl : 'i' = c := Option.some.inj hc
      decide
    · intro c hc
      rw [hlist, ← List.append_assoc, List.getLast?_concat] at hc
      obtain rfl : '\x27' = c := Option.some.inj hc
      decide
  have hquoted : ∀ c ∈ "./".toList ++ (specifier place).toList, isBlank c = false ∧ isQuote c = false :=
    List.forall_mem_append.2 ⟨List.forall_mem_cons.2 ⟨by decide, List.forall_mem_singleton.2 (by decide)⟩, hplain⟩
  have hne' : "./".toList ++ (specifier place).toList ≠ [] :=
    List.append_ne_nil_of_left_ne_nil (List.cons_ne_nil _ _) _
  -- the statement is none of those that are told by how they begin
  have huse : Chars.after? "use ".toList (Chars.dropStart "pub ".toList
      ("import x from '".toList ++ ("./".toList ++ (specifier place).toList ++ ['\x27']))) = none := rfl
  have hfrom : Chars.after? "from ".toList
      ("import x from '".toList ++ ("./".toList ++ (specifier place).toList ++ ['\x27'])) = none := rfl
  unfold groups
  dsimp only
  rw [htrim, hlist, huse, hfrom, quoted_specifier hquoted hne']
  exact congrArg (fun group => [group]) (quotedGroup_specifier hne hplace)

end Place

end Import

namespace CodeMap

variable {m : CodeMap} {root : Path} {f : MapFile} {place : List String}

section Tidy

variable (h : m.Tidy)

include h

/-- An import of a specifier finds what is known as the first of its candidates. -/
theorem search_specifier (hplace : namesBelow? m.root f.path = some place)
    (hplain : ∀ c ∈ (Import.specifier place).toList, isBlank c = false ∧ Import.isQuote c = false) :
    m.resolver.search ("import x from './" ++ Import.specifier place ++ "'") =
      ((((Import.ends (Import.withoutExtension (Import.withoutExtension place))).find?
          fun e => m.knownAs e ≠ []).or
        ((Import.ends (Import.withoutExtension place)).find? fun e => m.knownAs e ≠ [])).map m.knownAs).getD [] := by
  have hnames : ∀ n ∈ place, Path.IsName n := fun n hn => isName_of_namesBelow? hplace hn
  have hgroups := Import.groups_specifier (namesBelow?_eq_some_iff.1 hplace).2 hnames hplain
  -- both halves of the candidates are ends of names that can be told apart
  have hproper : Import.AreProper (Import.withoutExtension place) :=
    (Import.areProper_of_isName hnames).withoutExtension
  rw [← List.find?_append]
  -- leaving out repeated candidates changes nothing in what is found first
  apply search_of_groups h hgroups
  · intro x
    rw [ModuleIndex.lookup, Import.findSome?_eraseDups, ModuleIndex.lookup]
  · intro e he
    rcases List.mem_append.1 he with he | he
    · obtain ⟨hne, hsuffix⟩ := Import.mem_ends_iff.1 he
      exact ⟨hne, hproper.withoutExtension.of_suffix hsuffix⟩
    · obtain ⟨hne, hsuffix⟩ := Import.mem_ends_iff.1 he
      exact ⟨hne, hproper.of_suffix hsuffix⟩

/-- The path of a file without its extension is the longest of its ends, and the file is known as it. -/
theorem isLongestKnown_module (hf : f ∈ m.files) (hplace : namesBelow? m.root f.path = some place)
    (hne : Import.withoutExtension place ≠ []) :
    f.IsKnownAs m.root (Import.withoutExtension place) ∧
      IsLongestKnown m.knownAs (· <:+ Import.withoutExtension place) (Import.withoutExtension place) := by
  have hknown : f.IsKnownAs m.root (Import.withoutExtension place) :=
    ⟨hne, place, hplace, Or.inl (List.suffix_refl _)⟩
  refine ⟨hknown, List.suffix_refl _, ?_, fun longer hsuffix hlt => ?_⟩
  · exact List.ne_nil_of_mem ((path_mem_knownAs_iff h hf).2 hknown)
  · exact absurd hsuffix.length_le (Nat.not_le_of_lt hlt)

end Tidy

/-- **The full specifier of a file** finds it exactly if something is left of the path of the file without its
extension, and the file is known as the longest end of what is left without a further extension as which any file is
known. So it is found if there is no further extension. -/
theorem mem_search_specifier_iff (hm : Built root m) (hf : f ∈ m.files) (hplace : namesBelow? root f.path = some place)
    (hplain : ∀ c ∈ (Import.specifier place).toList, isBlank c = false ∧ Import.isQuote c = false) :
    (f.path ∈ m.resolver.search ("import x from './" ++ Import.specifier place ++ "'") ↔
        Import.withoutExtension place ≠ [] ∧
          ∀ e, IsLongestKnown m.knownAs (· <:+ Import.withoutExtension (Import.withoutExtension place)) e →
            f.IsKnownAs root e) ∧
      (Import.withoutExtension place ≠ [] →
        Import.withoutExtension (Import.withoutExtension place) = Import.withoutExtension place →
          f.path ∈ m.resolver.search ("import x from './" ++ Import.specifier place ++ "'")) := by
  obtain rfl := hm.root_eq
  have h : m.Tidy := hm.tidy
  rw [search_specifier h hplace hplain]
  refine ⟨⟨fun hmem => ?_, fun ⟨hmodule, hknown⟩ => ?_⟩, fun hmodule hbare => ?_⟩
  · have hmodule : Import.withoutExtension place ≠ [] := by
      intro hnil
      -- there are no candidates at all
      rw [hnil] at hmem
      cases hmem
    refine ⟨hmodule, fun e he => ?_⟩
    rw [find?_ends_known_iff.2 he, Option.some_or] at hmem
    -- what is found is what is known as the longest end without the further extension
    exact (path_mem_knownAs_iff h hf).1 hmem
  · cases hfirst : (Import.ends (Import.withoutExtension (Import.withoutExtension place))).find?
        fun e => m.knownAs e ≠ [] with
    -- some end without the further extension is known
    | some e => exact (path_mem_knownAs_iff h hf).2 (hknown e (find?_ends_known_iff.1 hfirst))
    | none =>
      -- none is, so the file itself is known as the longest of the others
      obtain ⟨hmem, hlongest⟩ := isLongestKnown_module h hf hplace hmodule
      rw [Option.none_or, find?_ends_known_iff.2 hlongest]
      exact (path_mem_knownAs_iff h hf).2 hmem
  · -- without a further extension both halves are the same
    obtain ⟨hmem, hlongest⟩ := isLongestKnown_module h hf hplace hmodule
    rw [hbare, find?_ends_known_iff.2 hlongest, Option.some_or]
    exact (path_mem_knownAs_iff h hf).2 hmem

/-- A component of an application that nothing else is called like. -/
theorem mem_search_specifier_component :
    let m := ofDocuments ⟨"/r"⟩ [{ (default : Metadata) with path := ⟨"src/app.component.ts"⟩ },
      { (default : Metadata) with path := ⟨"src/shared/util.ts"⟩ }]
    let f : MapFile := { name := "app.component.ts", path := ⟨"/r/src/app.component.ts"⟩,
                         language := some .typescript, size := 0 }
    let place := ["src", "app.component.ts"]
    Built ⟨"/r"⟩ m ∧ f ∈ m.files ∧ namesBelow? ⟨"/r"⟩ f.path = some place ∧
      (∀ c ∈ (Import.specifier place).toList, isBlank c = false ∧ Import.isQuote c = false) ∧
      ((f.path ∈ m.resolver.search ("import x from './" ++ Import.specifier place ++ "'") ↔
          Import.withoutExtension place ≠ [] ∧
            ∀ e, IsLongestKnown m.knownAs (· <:+ Import.withoutExtension (Import.withoutExtension place)) e →
              f.IsKnownAs ⟨"/r"⟩ e) ∧
        (Import.withoutExtension place ≠ [] →
          Import.withoutExtension (Import.withoutExtension place) = Import.withoutExtension place →
            f.path ∈ m.resolver.search ("import x from './" ++ Import.specifier place ++ "'"))) ∧
      Import.specifier place = "src/app.component" ∧
      m.resolver.search "import x from './src/app.component'" = [f.path] := by
  intro m f place
  have hbuilt : Built ⟨"/r"⟩ m := built_ofDocuments ⟨"/r"⟩ _
  -- the files are in order already, and then they need not be sorted
  have hfiles : m.files = MapNode.listFiles [m.directory] [] :=
    List.mergeSort_of_pairwise (by decide +kernel)
  have hf : f ∈ m.files := by
    rw [hfiles]
    decide +kernel
  have hplace : namesBelow? ⟨"/r"⟩ f.path = some place := by decide
  have hall : ((Import.specifier place).toList.all fun c => isBlank c = false ∧ Import.isQuote c = false) = true := by
    decide
  have hplain : ∀ c ∈ (Import.specifier place).toList, isBlank c = false ∧ Import.isQuote c = false :=
    fun c hc => of_decide_eq_true (List.all_eq_true.1 hall c hc)
  refine ⟨hbuilt, hf, hplace, hplain, mem_search_specifier_iff hbuilt hf hplace hplain, by decide, ?_⟩
  rw [resolver_of_files hfiles]
  decide +kernel

/-- A component whose name without the further extension is that of another file: the other file is found. -/
theorem search_specifier_app :
    let m := ofDocuments ⟨"/r"⟩ [{ (default : Metadata) with path := ⟨"src/app.component.ts"⟩ },
      { (default : Metadata) with path := ⟨"src/shared/app.ts"⟩ }]
    Built ⟨"/r"⟩ m ∧ m.files.map MapFile.path = [⟨"/r/src/app.component.ts"⟩, ⟨"/r/src/shared/app.ts"⟩] ∧
      namesBelow? ⟨"/r"⟩ ⟨"/r/src/app.component.ts"⟩ = some ["src", "app.component.ts"] ∧
      Import.specifier ["src", "app.component.ts"] = "src/app.component" ∧
      m.resolver.search "import x from './src/app.component'" = [⟨"/r/src/shared/app.ts"⟩] := by
  intro m
  have hfiles : m.files = MapNode.listFiles [m.directory] [] :=
    List.mergeSort_of_pairwise (by decide +kernel)
  refine ⟨built_ofDocuments ⟨"/r"⟩ _, ?_⟩
  rw [resolver_of_files hfiles, hfiles]
  decide +kernel

end CodeMap

end CodeSearch
