import CodeSearch.Proofs.Glob.Names
import CodeSearch.Proofs.Selection.DepthFirst
import Mathlib.Data.List.Infix

/-!
# Walks that are restricted to some directories

A selector compares places as texts: a place is within a directory if it is the same text, or goes on with a slash
behind it. What is meant are directories, as the lists of the names that lead to them, and for these being within
another one is to have its names as a prefix:

* `Text.IsWrittenFor` — how an included directory may be written, with `./` before it and slashes around it;
* `Selector.isWithin_join_iff` — of places that are made of names the texts tell what the names tell, since there are
  no slashes in names. A name that only starts like another one is not mistaken for it;
* `Selector.directoryExcluded_eq_false_iff` — which directories a restricted selector does not pass over;
* `Selector.enters_of_included`, `Selector.not_enters_of_apart` — so it enters all that lies in an included directory,
  and nothing that is apart from all of them;
* `Selector.mem_listed_collect_iff` — a directory is listed if and only if none on the way to it is passed over.

So `Selector.mem_listed_includeDirs` says which directories a restricted walk lists. It is not enough that a directory
is included: the way to it leads through directories for which the rules are asked, and if one of these is excluded
the walk never gets there.
-/

namespace CodeSearch

namespace Chars

/-! ### How included directories are written -/

/-- However often a text says that it starts here, it starts with what follows. -/
theorem dropHere_replicate (here : Nat) (s : List Char) :
    dropHere ((List.replicate here ['.', '/']).flatten ++ s) = dropHere s := by
  induction here with
  | zero => rfl
  | succ here ih =>
    rw [List.replicate_succ, List.flatten_cons, List.append_assoc]
    exact ih

/-- Slashes around a text are stripped. -/
theorem stripBoth_slashes {s : List Char} (hne : s ≠ []) (hhead : s.head? ≠ some '/')
    (hlast : s.getLast? ≠ some '/') (front back : Nat) :
    stripBoth (· = '/') (List.replicate front '/' ++ (s ++ List.replicate back '/')) = s := by
  have hslashes : ∀ n, ∀ c ∈ List.replicate n '/', decide (c = '/') = true := fun n c hc =>
    decide_eq_true (List.eq_of_mem_replicate hc)
  have hstart : (s ++ List.replicate back '/').dropWhile (· = '/') = s ++ List.replicate back '/' :=
    List.dropWhile_beq_eq_self_of_head?_ne (by rwa [List.head?_append_of_ne_nil _ hne])
  have hend : s.reverse.dropWhile (· = '/') = s.reverse :=
    List.dropWhile_beq_eq_self_of_head?_ne (by rwa [List.head?_reverse])
  -- the front goes first, then the back of what is left
  rw [stripBoth, List.dropWhile_append_of_pos (hslashes front), hstart, List.reverse_append, List.reverse_replicate,
    List.dropWhile_append_of_pos (hslashes back), hend, List.reverse_reverse]

end Chars

namespace Text

/-- Whether a text is written for the directory to which names lead: the names with slashes between them, with any
number of `./` and then of slashes before them, and of slashes behind them. -/
structure IsWrittenFor (text : String) (names : List String) : Prop where
  ne_nil : names ≠ []
  each : ∀ n ∈ names, n ≠ "" ∧ n ≠ "." ∧ '/' ∉ n.toList
  written : ∃ here front back, text.toList = (List.replicate here ['.', '/']).flatten ++
    (List.replicate front '/' ++ ((join "/" names).toList ++ List.replicate back '/'))

section Written

variable {text : String} {names : List String}

/-- Names with slashes between them are written for themselves. -/
theorem isWrittenFor_join (hne : names ≠ []) (hnames : ∀ n ∈ names, Path.IsName n) :
    IsWrittenFor (join "/" names) names where
  ne_nil := hne
  each n hn := ⟨(hnames n hn).ne_empty, (hnames n hn).ne_current, (hnames n hn).not_mem⟩
  written := ⟨0, 0, 0, (List.append_nil _).symm⟩

/-- A name in a text has no separator. -/
theorem IsWrittenFor.not_mem (h : IsWrittenFor text names) : ∀ n ∈ names, '/' ∉ n.toList :=
  fun n hn => (h.each n hn).2.2

/-- **However it is written, an included directory is kept as its names** with slashes between them. -/
theorem IsWrittenFor.bareRelative_eq (h : IsWrittenFor text names) : bareRelative text = join "/" names := by
  have hnames : ∀ n ∈ names, n ≠ "" ∧ '/' ∉ n.toList := fun n hn => ⟨(h.each n hn).1, (h.each n hn).2.2⟩
  have hfirst : names.head? ≠ some "." := fun hhead => (h.each "." (List.mem_of_head? hhead)).2.1 rfl
  obtain ⟨hhere, hhead, hlast⟩ := bare_join h.ne_nil hnames hfirst
  have hempty : (join "/" names).toList ≠ [] :=
    mt String.toList_eq_nil_iff.1 (join_ne_empty h.ne_nil fun n hn => (hnames n hn).1)
  obtain ⟨here, front, back, htext⟩ := h.written
  -- behind what is written in front there is no other mark for the base
  have hslashes :
      ¬['.', '/'] <+: List.replicate front '/' ++ ((join "/" names).toList ++ List.replicate back '/') := by
    cases front with
    | zero => exact hhere _
    | succ front =>
      rintro ⟨r, hr⟩
      exact absurd (List.cons.inj hr).1 (by decide)
  rw [bareRelative, htext, Chars.bareRelative, Chars.dropHere_replicate, Chars.dropHere_eq_self hslashes,
    Chars.stripBoth_slashes hempty hhead hlast, String.ofList_toList]

end Written

end Text

namespace Selector

/-! ### Places within directories -/

section Within

variable {place directory : List String}

/-- **One place is within another one if and only if its names start with the names of the other.** -/
theorem isWithin_join_iff (hplace : place ≠ []) (hdirectory : directory ≠ [])
    (hplaceNames : ∀ n ∈ place, '/' ∉ n.toList) (hdirectoryNames : ∀ n ∈ directory, '/' ∉ n.toList) :
    isWithin (Text.join "/" place) (Text.join "/" directory) = true ↔ directory <+: place := by
  have hpieces := Text.pieces_join hplace hplaceNames
  have hpieces' := Text.pieces_join hdirectory hdirectoryNames
  unfold isWithin
  rw [Bool.or_eq_true, decide_eq_true_iff, Chars.startsWith, List.isPrefixOf_iff_prefix]
  constructor
  · -- either they are the same text, or the one goes on behind the other with a slash
    rintro (heq | ⟨t, ht⟩)
    · have hsame : place = directory := by rw [← hpieces, heq, hpieces']
      exact hsame ▸ List.prefix_refl _
    · -- what comes behind the slash are the names that lead on
      have hjoin : Text.join "/" directory ++ "/" ++ String.ofList t = Text.join "/" place := by
        rw [← String.toList_inj, ← ht, String.toList_append, String.toList_ofList, String.toList_append]
        rfl
      rw [← hpieces, ← hjoin, Text.pieces_append_slash, hpieces']
      exact List.prefix_append _ _
  · -- with no names more they are the same place
    rintro ⟨more, rfl⟩
    by_cases hmore : more = []
    · subst hmore
      exact Or.inl (congrArg _ (List.append_nil directory))
    · refine Or.inr ⟨(Text.join "/" more).toList, ?_⟩
      rw [Text.join_append hdirectory hmore, String.toList_append, String.toList_append]
      rfl

end Within

/-! ### What a restricted selector passes over -/

section Restricted

variable {st : SelectionSettings} {dirs : List (List String)}
  (hdirs : List.Forall₂ Text.IsWrittenFor st.includeDirs dirs)

include hdirs

/-- The included directories are kept in one spelling, and none is dropped. -/
theorem includeDirs_ofSettings : (ofSettings st).includeDirs = dirs.map (Text.join "/") := by
  have hkept : ∀ texts dirs, List.Forall₂ Text.IsWrittenFor texts dirs →
      (texts.map Text.bareRelative).filter (· ≠ "") = dirs.map (Text.join "/") := by
    intro texts dirs h
    induction h with
    | nil => rfl
    | cons hwritten _ ih =>
      have hne := Text.join_ne_empty hwritten.ne_nil fun n hn => (hwritten.each n hn).1
      rw [List.map_cons, hwritten.bareRelative_eq, List.filter_cons, if_pos (decide_eq_true hne), ih, List.map_cons]
  exact hkept _ _ hdirs

/-- What is asked of the kept texts is asked of the names of the included directories. -/
theorem any_includeDirs_iff {p : String → Bool} {q : List String → Prop}
    (h : ∀ text dir, Text.IsWrittenFor text dir → (p (Text.join "/" dir) = true ↔ q dir)) :
    (ofSettings st).includeDirs.any p = true ↔ ∃ dir ∈ dirs, q dir := by
  rw [includeDirs_ofSettings hdirs, List.any_map, List.any_eq_true]
  refine exists_congr fun dir => and_congr_right fun hdir => ?_
  obtain ⟨i, hi, rfl⟩ := List.getElem_of_mem hdir
  exact h _ _ (hdirs.get (hdirs.length_eq.symm ▸ hi) hi)

variable {names : List String} (hsome : st.includeDirs ≠ []) (hnames : ∀ n ∈ names, Path.IsName n)

include hsome hnames

/-- **Which directories a restricted selector does not pass over**: those at or below an included one, and those on
the way to one unless a rule excludes them. -/
theorem directoryExcluded_eq_false_iff (hne : names ≠ []) :
    (ofSettings st).directoryExcluded (Text.join "/" names) = false ↔
      (∃ dir ∈ dirs, dir <+: names) ∨ (∃ dir ∈ dirs, names <+: dir ∧ names ≠ dir) ∧
        (Glob.RuleSet.ofLines st.excludeDirs).excluded (Text.join "/" names) true = false := by
  have hslashes : ∀ n ∈ names, '/' ∉ n.toList := fun n hn => (hnames n hn).not_mem
  have hbare : Text.bareRelative (Text.join "/" names) = Text.join "/" names :=
    (Text.isWrittenFor_join hne hnames).bareRelative_eq
  -- a directory that is kept may have been written in any way
  have hbelow : (ofSettings st).includeDirs.any (isWithin (Text.join "/" names) ·) = true ↔
      ∃ dir ∈ dirs, dir <+: names :=
    any_includeDirs_iff hdirs fun _ _ hwritten =>
      isWithin_join_iff hne hwritten.ne_nil hslashes hwritten.not_mem
  have habove : (ofSettings st).includeDirs.any (isWithin · (Text.join "/" names)) = true ↔
      ∃ dir ∈ dirs, names <+: dir :=
    any_includeDirs_iff hdirs fun _ _ hwritten =>
      isWithin_join_iff hwritten.ne_nil hne hwritten.not_mem hslashes
  have hrestricted : (ofSettings st).includeDirs.isEmpty = false := by
    rw [includeDirs_ofSettings hdirs, List.isEmpty_eq_false_iff, ne_eq, List.map_eq_nil_iff]
    rintro rfl
    exact hsome (List.forall₂_nil_right_iff.1 hdirs)
  unfold directoryExcluded
  rw [hbare]
  -- first whether the place is at or below an included one
  by_cases hin : ∃ dir ∈ dirs, dir <+: names
  · -- at or below an included directory the rules are not asked
    rw [if_pos (hbelow.2 hin)]
    exact iff_of_true rfl (Or.inl hin)
  · rw [if_neg (mt hbelow.1 hin), hrestricted]
    by_cases hon : ∃ dir ∈ dirs, names <+: dir
    · -- a directory that is not included is not the one that it leads to
      obtain ⟨dir, hdir, htoward⟩ := hon
      have hproper : ∃ dir ∈ dirs, names <+: dir ∧ names ≠ dir :=
        ⟨dir, hdir, htoward, fun heq => hin ⟨dir, hdir, heq ▸ List.prefix_refl _⟩⟩
      rw [habove.2 ⟨dir, hdir, htoward⟩, if_neg (by decide)]
      exact ⟨fun h => Or.inr ⟨hproper, h⟩, fun h => (h.resolve_left hin).2⟩
    · -- apart from all included directories nothing else matters
      rw [Bool.eq_false_iff.2 (mt habove.1 hon), if_pos (by decide)]
      refine iff_of_false Bool.noConfusion ?_
      rintro (h | ⟨⟨dir, hdir, htoward, -⟩, -⟩)
      · exact hin h
      · exact hon ⟨dir, hdir, htoward⟩

end Restricted

/-! ### Where a restricted walk gets to -/

section Entered

variable {st : SelectionSettings} {dirs : List (List String)}
  (hdirs : List.Forall₂ Text.IsWrittenFor st.includeDirs dirs) (hsome : st.includeDirs ≠ [])
  {names : List RawText} (hnames : ∀ n ∈ names, Path.IsName n.text)

include hdirs hsome hnames

/-- What is included and the rules decide about every directory on the way. -/
theorem enters_ofSettings_iff :
    Entry.Enters (ofSettings st) [] names ↔ ∀ first, first ≠ [] → first <+: names.map RawText.text →
      (∃ dir ∈ dirs, dir <+: first) ∨ (∃ dir ∈ dirs, first <+: dir ∧ first ≠ dir) ∧
        (Glob.RuleSet.ofLines st.excludeDirs).excluded (Text.join "/" first) true = false := by
  -- what is shown of the first names of a way are names as well
  have hshown : ∀ first, first ≠ [] → first <+: names → (∀ n ∈ first.map RawText.text, Path.IsName n) ∧
      first.map RawText.text ≠ [] := fun first hne hstart =>
    ⟨List.forall_mem_map.2 fun n hn => hnames n (hstart.subset hn), mt List.map_eq_nil_iff.1 hne⟩
  constructor
  · rintro h _ hne hstart
    obtain ⟨first, hfrom, rfl⟩ := List.prefix_map_iff.1 hstart
    have hfirst : first ≠ [] := mt List.map_eq_nil_iff.2 hne
    exact (directoryExcluded_eq_false_iff hdirs hsome (hshown first hfirst hfrom).1 hne).1 (h first hfirst hfrom)
  · intro h first hfirst hstart
    obtain ⟨hfirstNames, hne⟩ := hshown first hfirst hstart
    exact (directoryExcluded_eq_false_iff hdirs hsome hfirstNames hne).2 (h _ hne (hstart.map _))

/-- **All that lies in an included directory is entered** if the directory itself is. -/
theorem enters_of_included {way : List RawText} (hdir : way.map RawText.text ∈ dirs)
    (h : Entry.Enters (ofSettings st) [] way) (hbelow : way <+: names) : Entry.Enters (ofSettings st) [] names := by
  intro first hfirst hstart
  -- the directory on the way leads to the included one, or lies in it
  rcases List.prefix_or_prefix_of_prefix hstart hbelow with hon | hin
  · exact h first hfirst hon
  · have hfirstNames : ∀ n ∈ first.map RawText.text, Path.IsName n :=
      List.forall_mem_map.2 fun n hn => hnames n (hstart.subset hn)
    exact (directoryExcluded_eq_false_iff hdirs hsome hfirstNames (mt List.map_eq_nil_iff.1 hfirst)).2
      (Or.inl ⟨_, hdir, hin.map _⟩)

/-- **Nothing is entered at or below a directory** that does not lie in an included one and does not lead to one. -/
theorem not_enters_of_apart
    (hapart : ∀ dir ∈ dirs, ¬dir <+: names.map RawText.text ∧ ¬names.map RawText.text <+: dir)
    (more : List RawText) : ¬Entry.Enters (ofSettings st) [] (names ++ more) := by
  intro h
  have hne : names ≠ [] := by
    -- the base leads to all that is included
    rintro rfl
    cases dirs with
    | nil => exact hsome (List.forall₂_nil_right_iff.1 hdirs)
    | cons dir _ => exact (hapart dir List.mem_cons_self).2 List.nil_prefix
  -- the name is free, so it lies in an included directory or on the way to one
  rcases (directoryExcluded_eq_false_iff hdirs hsome (List.forall_mem_map.2 hnames) (mt List.map_eq_nil_iff.1 hne)).1
    (h names hne (List.prefix_append _ _)) with ⟨dir, hdir, hin⟩ | ⟨⟨dir, hdir, hon, -⟩, -⟩
  · exact (hapart dir hdir).1 hin
  · exact (hapart dir hdir).2 hon

end Entered

/-! ### What a restricted walk lists -/

/-- **A directory is listed if and only if none on the way to it is passed over**, itself included. -/
theorem mem_listed_collect_iff (s : Selector) (base : Path) {l : Option (List (RawText × Entry))}
    (hnamed : (Entry.directory l).WellNamed) {names : List RawText} (hnames : ∀ n ∈ names, Path.IsName n.text) :
    base.belowRaw names ∈ (s.collect base (some (.directory l))).listed ↔
      (∃ l', (Entry.directory l).Leads names (.directory l')) ∧ Entry.Enters s [] names := by
  rw [s.listed_collect base hnamed, List.mem_map]
  constructor
  · rintro ⟨way, hway, hbelow⟩
    obtain ⟨l', hleads, henters⟩ := Entry.mem_ways.1 hway
    obtain rfl := Path.eq_of_components_belowRaw (hnamed _ _ hleads) hnames (congrArg Path.components hbelow)
    exact ⟨⟨l', hleads⟩, henters⟩
  · rintro ⟨⟨l', hleads⟩, henters⟩
    exact ⟨names, Entry.mem_ways.2 ⟨l', hleads, henters⟩, rfl⟩

/-- **What it means to include directories.** Of a directory whose entries have names, a walk that is restricted to some
directories lists

* a directory below the base if and only if every directory on the way to it, itself included, lies at or below an
  included one, or leads to an included one and is not excluded by a rule;
* so all that lies in an included directory that it gets to, whatever the rules say;
* and nothing at or below a directory that neither lies in an included one nor leads to one, even if it is called
  almost like it. -/
theorem mem_listed_includeDirs (st : SelectionSettings) {dirs : List (List String)} (hsome : st.includeDirs ≠ [])
    (hdirs : List.Forall₂ Text.IsWrittenFor st.includeDirs dirs) (base : Path)
    {l : Option (List (RawText × Entry))} (hnamed : (Entry.directory l).WellNamed) :
    (∀ names l', names ≠ [] → (Entry.directory l).Leads names (.directory l') →
      (base.belowRaw names ∈ ((ofSettings st).collect base (some (.directory l))).listed ↔
        ∀ first, first ≠ [] → first <+: names.map RawText.text →
          (∃ dir ∈ dirs, dir <+: first) ∨ (∃ dir ∈ dirs, first <+: dir ∧ first ≠ dir) ∧
            (Glob.RuleSet.ofLines st.excludeDirs).excluded (Text.join "/" first) true = false)) ∧
      (∀ way, way.map RawText.text ∈ dirs →
        base.belowRaw way ∈ ((ofSettings st).collect base (some (.directory l))).listed →
        ∀ names l', way <+: names → (Entry.directory l).Leads names (.directory l') →
          base.belowRaw names ∈ ((ofSettings st).collect base (some (.directory l))).listed) ∧
      ∀ names, (∀ dir ∈ dirs, ¬dir <+: names.map RawText.text ∧ ¬names.map RawText.text <+: dir) →
        ∀ more l', (Entry.directory l).Leads (names ++ more) (.directory l') →
          base.belowRaw (names ++ more) ∉ ((ofSettings st).collect base (some (.directory l))).listed := by
  refine ⟨fun names l' hne hleads => ?_, fun way hdir hlisted names l' hbelow hleads => ?_,
    fun names hapart more l' hleads hlisted => ?_⟩
  · -- the three parts are the rule for a way, for what lies below, and for what lies apart
    have hnames := hnamed _ _ hleads
    rw [mem_listed_collect_iff _ _ hnamed hnames, and_iff_right ⟨l', hleads⟩]
    exact enters_ofSettings_iff hdirs hsome hnames
  · have hnames := hnamed _ _ hleads
    have hwayNames : ∀ n ∈ way, Path.IsName n.text := fun n hn => hnames n (hbelow.subset hn)
    obtain ⟨-, henters⟩ := (mem_listed_collect_iff _ _ hnamed hwayNames).1 hlisted
    exact (mem_listed_collect_iff _ _ hnamed hnames).2
      ⟨⟨l', hleads⟩, enters_of_included hdirs hsome hnames hdir henters hbelow⟩
  · have hnames := hnamed _ _ hleads
    obtain ⟨-, henters⟩ := (mem_listed_collect_iff _ _ hnamed hnames).1 hlisted
    have hapartNames : ∀ n ∈ names, Path.IsName n.text := fun n hn => hnames n (List.mem_append_left _ hn)
    exact not_enters_of_apart hdirs hsome hapartNames hapart more henters

/-- Settings that restrict a walk to three directories and pass over `gen`. -/
def generatedSettings : SelectionSettings :=
  { includeDirs := ["./pkg/gen/", "gen/api", "././/docs"], excludeDirs := ["gen/"], excludeFiles := [],
    extensions := [] }

/-- Directories of which some are included, some are in the way, and some are only called like these. -/
def generatedSources : List (RawText × Entry) :=
  [("pkg", .directory (some [("gen", .directory (some [("gen", .directory none)])), ("general", .directory none)])),
    ("gen", .directory (some [("api", .directory none)])), ("docs2", .directory none)]

theorem wellNamed_generatedSources : (Entry.directory (some generatedSources)).WellNamed := by
  have hlocked : (Entry.directory none).WellNamed := Entry.wellNamed_leaf fun es h => by cases h
  have hgen : (Entry.directory (some [("gen", .directory none)])).WellNamed :=
    Entry.wellNamed_directory (by simpa [hlocked] using by decide)
  have hapi : (Entry.directory (some [("api", .directory none)])).WellNamed :=
    Entry.wellNamed_directory (by simpa [hlocked] using by decide)
  have hpkg : (Entry.directory (some [("gen", .directory (some [("gen", .directory none)])),
      ("general", .directory none)])).WellNamed :=
    Entry.wellNamed_directory (by simpa [hlocked, hgen] using by decide)
  exact Entry.wellNamed_directory (by simpa [generatedSources, hlocked, hpkg, hapi] using by decide)

/-- What lies in an included directory is listed although a rule excludes it. An included directory in an excluded one
is not, and neither are directories that are only called like included ones. -/
theorem mem_listed_generatedSources :
    ⟨"p/pkg/gen/gen"⟩ ∈
        ((ofSettings generatedSettings).collect ⟨"p"⟩ (some (.directory (some generatedSources)))).listed ∧
      ⟨"p/gen/api"⟩ ∉
        ((ofSettings generatedSettings).collect ⟨"p"⟩ (some (.directory (some generatedSources)))).listed ∧
      ⟨"p/pkg/general"⟩ ∉
        ((ofSettings generatedSettings).collect ⟨"p"⟩ (some (.directory (some generatedSources)))).listed ∧
      ⟨"p/docs2"⟩ ∉
        ((ofSettings generatedSettings).collect ⟨"p"⟩ (some (.directory (some generatedSources)))).listed := by
  -- the texts differ from the names by marks for the base and slashes
  have hdirs : List.Forall₂ Text.IsWrittenFor generatedSettings.includeDirs
      [["pkg", "gen"], ["gen", "api"], ["docs"]] :=
    .cons ⟨by decide, by decide, 1, 0, 1, by decide +kernel⟩
      (.cons ⟨by decide, by decide, 0, 0, 0, by decide +kernel⟩
        (.cons ⟨by decide, by decide, 2, 1, 0, by decide +kernel⟩ .nil))
  obtain ⟨hlisted, hwithin, hapart⟩ := mem_listed_includeDirs generatedSettings (List.cons_ne_nil _ _) hdirs ⟨"p"⟩
    wellNamed_generatedSources
  have hpkg : (Entry.directory (some generatedSources)).Leads ["pkg", "gen"]
      (.directory (some [("gen", .directory none)])) :=
    .step List.mem_cons_self (.step List.mem_cons_self (.refl _))
  have hgen : (Entry.directory (some generatedSources)).Leads ["pkg", "gen", "gen"] (.directory none) :=
    .step List.mem_cons_self (.step List.mem_cons_self (.step List.mem_cons_self (.refl _)))
  have hapi : (Entry.directory (some generatedSources)).Leads ["gen", "api"] (.directory none) :=
    .step (.tail _ List.mem_cons_self) (.step List.mem_cons_self (.refl _))
  have hgeneral : (Entry.directory (some generatedSources)).Leads ([.ofText "pkg", .ofText "general"] ++ [])
      (.directory none) :=
    .step List.mem_cons_self (.step (.tail _ List.mem_cons_self) (.refl _))
  have hdocs : (Entry.directory (some generatedSources)).Leads ([.ofText "docs2"] ++ []) (.directory none) :=
    .step (.tail _ (.tail _ List.mem_cons_self)) (.refl _)
  refine ⟨?_, ?_, ?_, ?_⟩
  · -- both directories on the way are included, and the last one is below them
    have hreached : ∀ first ∈ ["pkg", "gen"].inits, first ≠ [] →
        (∃ dir ∈ [["pkg", "gen"], ["gen", "api"], ["docs"]], dir <+: first) ∨
          (∃ dir ∈ [["pkg", "gen"], ["gen", "api"], ["docs"]], first <+: dir ∧ first ≠ dir) ∧
            (Glob.RuleSet.ofLines generatedSettings.excludeDirs).excluded (Text.join "/" first) true = false := by
      decide +kernel
    exact hwithin ["pkg", "gen"] List.mem_cons_self
      ((hlisted _ _ (List.cons_ne_nil _ _) hpkg).2 fun first hfirst hstart =>
        hreached first ((List.mem_inits _ _).2 hstart) hfirst) _ _ (by decide) hgen
  · -- on the way through the excluded one the rules are asked
    intro hmem
    have hexcluded := (hlisted _ _ (List.cons_ne_nil _ _) hapi).1 hmem ["gen"] (List.cons_ne_nil _ _) (by decide)
    exact absurd hexcluded (by decide +kernel)
  · -- a name that begins like an included one is another name
    exact hapart ["pkg", "general"] (by decide) [] _ hgeneral
  · exact hapart ["docs2"] (by decide) [] _ hdocs

end Selector

end CodeSearch
