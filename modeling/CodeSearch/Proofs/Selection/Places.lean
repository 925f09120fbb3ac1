import CodeSearch.Selection.Walk
import CodeSearch.Proofs.Paths

/-!
# The files that a walk finds

A walk keeps a list of directories and goes through it until it is empty. What it finds in the end does
not depend on the order in which it does so (`mem_files_walk`): it is what can be *found* from the
directory where it starts, by entering directories that are not passed over (`Finds`).

Names *lead* from a directory to what lies below it, through directories that can be read
(`Entry.Leads`). A file is found exactly if names lead to it that the selector lets *pass*
(`finds_iff`), and these are the paths that the selector accepts (`mem_files_collect_iff`).
-/

namespace CodeSearch

namespace Entry

/-- Names that lead from an entry to another one, through directories that can be read. -/
inductive Leads : Entry → List RawText → Entry → Prop where
  /-- No names lead to the entry itself. -/
  | refl (e : Entry) : Leads e [] e
  /-- A name in a directory, and what leads on from there. -/
  | step {es : List (RawText × Entry)} {n : RawText} {c e : Entry} {names : List RawText}
    (hc : (n, c) ∈ es) (h : Leads c names e) : Leads (.directory (some es)) (n :: names) e

/-- Whether all that lies below an entry is called by names. -/
def WellNamed (e : Entry) : Prop := ∀ names e', e.Leads names e' → ∀ n ∈ names, Path.IsName n.text

theorem mem_byName {es : List (RawText × Entry)} {x : RawText × Entry} : x ∈ byName es ↔ x ∈ es :=
  (List.mergeSort_perm es _).mem_iff

/-- The names of files are those of entries that are files. -/
theorem mem_files {es : List (RawText × Entry)} {n : RawText} :
    n ∈ files es ↔ ∃ e, (n, e) ∈ es ∧ e.isFile = true := by
  unfold files
  constructor
  · intro h
    obtain ⟨⟨m, e⟩, he, rfl⟩ := List.mem_map.1 h
    obtain ⟨hmem, hfile⟩ := List.mem_filter.1 he
    exact ⟨e, hmem, hfile⟩
  · rintro ⟨e, hmem, hfile⟩
    exact List.mem_map.2 ⟨(n, e), List.mem_filter.2 ⟨hmem, hfile⟩, rfl⟩

/-- The directories of a listing are its entries that are directories. -/
theorem mem_directories {es : List (RawText × Entry)} {n : RawText}
    {l : Option (List (RawText × Entry))} :
    (n, l) ∈ directories es ↔ (n, .directory l) ∈ es := by
  unfold directories
  constructor
  · intro h
    -- only directories have a listing
    obtain ⟨⟨m, e⟩, he, hl⟩ := List.mem_filterMap.1 h
    cases e with
    | directory k =>
      obtain ⟨rfl, rfl⟩ := Prod.mk.inj (Option.some.inj hl)
      exact he
    | file => cases hl
    | fileLink => cases hl
    | other => cases hl
  · intro h
    exact List.mem_filterMap.2 ⟨_, h, rfl⟩

end Entry

namespace Selector

/-! ### Walks -/

section Walk

variable (s : Selector)

/-- What is found from a directory. -/
inductive Finds : Pending → Path → Prop where
  /-- A file that is taken in the directory. -/
  | here {p : Pending} {path : Path} (h : path ∈ s.taken p) : Finds p path
  /-- What is found from a directory that is entered. -/
  | within {p d : Pending} {path : Path} (hd : d ∈ s.entered p) (h : Finds d path) : Finds p path

/-- What is found from a directory is in it, or is found from a directory in it. -/
theorem finds_iff_visit {p : Pending} {path : Path} :
    s.Finds p path ↔ path ∈ s.taken p ∨ ∃ d ∈ s.entered p, s.Finds d path := by
  constructor
  · intro h
    cases h with
    | here h => exact Or.inl h
    | within hd h => exact Or.inr ⟨_, hd, h⟩
  · rintro (h | ⟨d, hd, h⟩)
    · exact .here h
    · exact .within hd h

/-- **A walk takes what is found from the directories that it has yet to visit**, in whatever order it
visits them. -/
theorem mem_files_walk (pending : List Pending) (found : Selection) {path : Path} :
    path ∈ (s.walk pending found).files ↔
      path ∈ found.files ∨ ∃ p ∈ pending, s.Finds p path := by
  induction pending, found using walk.induct s with
  | case1 found =>
    rw [walk]
    exact ⟨Or.inl, fun h => h.resolve_right fun ⟨p, hp, _⟩ => List.not_mem_nil hp⟩
  | case2 found p ps ih =>
    -- a visit takes the files of the first directory and goes on with those below it
    have hvisit : path ∈ (s.visit p found).files ↔ path ∈ found.files ∨ path ∈ s.taken p :=
      List.mem_append
    rw [walk, ih, hvisit]
    constructor
    · rintro ((h | h) | ⟨d, hd, h⟩)
      · exact Or.inl h
      · exact Or.inr ⟨p, List.mem_cons_self, .here h⟩
      · rcases List.mem_append.1 hd with hd | hd
        · exact Or.inr ⟨p, List.mem_cons_self, .within hd h⟩
        · exact Or.inr ⟨d, List.mem_cons_of_mem _ hd, h⟩
    · -- what was pending is the directory that is visited, or still is
      rintro (h | ⟨d, hd, h⟩)
      · exact Or.inl (Or.inl h)
      · rcases List.mem_cons.1 hd with rfl | hd
        · rcases s.finds_iff_visit.1 h with h | ⟨d', hd', h⟩
          · exact Or.inl (Or.inr h)
          · exact Or.inr ⟨d', List.mem_append_left _ hd', h⟩
        · exact Or.inr ⟨d, List.mem_append_right _ hd, h⟩

end Walk

/-! ### Names that pass -/

section Passes

variable (s : Selector)

/-- Whether names pass that lead on from a place: no directory on the way is passed over, and the file
is taken. -/
def passes (place : String) (names : List String) : Bool :=
  (ancestors place names.dropLast).all (fun d => !s.directoryExcluded d) &&
    s.fileIncluded (names.foldl child place)

theorem passes_singleton (place n : String) :
    s.passes place [n] = s.fileIncluded (child place n) := Bool.true_and _

/-- Names pass if the first directory is not passed over and the others pass behind it. -/
theorem passes_cons (place d : String) {names : List String} (hne : names ≠ []) :
    s.passes place (d :: names) =
      (!s.directoryExcluded (child place d) && s.passes (child place d) names) := by
  rw [passes, List.dropLast_cons_of_ne_nil hne, ancestors, List.all_cons, Bool.and_assoc]
  rfl

/-- The place to which names lead. -/
theorem foldl_child {place : String} (hplace : place ≠ "") {names : List String} (hne : names ≠ []) :
    names.foldl child place = place ++ "/" ++ Text.join "/" names := by
  induction names generalizing place with
  | nil => exact absurd rfl hne
  | cons n names ih =>
    have hchild : child place n = place ++ "/" ++ n := if_neg hplace
    rw [List.foldl_cons, hchild]
    by_cases hnames : names = []
    · subst hnames
      rfl
    · -- the next place is not the base either
      have hne' : place ++ "/" ++ n ≠ "" := by
        intro h
        have hlen := congrArg String.length h
        rw [String.length_append, String.length_append] at hlen
        have hslash : "/".length = 1 := rfl
        rw [hslash, String.length_empty] at hlen
        omega
      rw [ih hne' hnames, Text.join_cons hnames]
      simp only [String.append_assoc]

/-- From the base, names lead to the place that is written with slashes between them. -/
theorem foldl_child_base {names : List String} (hne : names ≠ []) (h : ∀ n ∈ names, Path.IsName n) :
    names.foldl child "" = Text.join "/" names := by
  cases names with
  | nil => exact absurd rfl hne
  | cons n names =>
    rw [List.foldl_cons, child, if_pos rfl]
    by_cases hnames : names = []
    · subst hnames
      rfl
    · rw [foldl_child (h n List.mem_cons_self).ne_empty hnames, Text.join_cons hnames]

/-- **A selector accepts the paths to which names lead that pass.** -/
theorem accepts_of_components {base path : Path} {names : List RawText} (hne : names ≠ [])
    (h : ∀ n ∈ names, Path.IsName n.text)
    (hpath : path.components = base.components ++ names.map .normal) :
    s.accepts base path = s.passes "" (names.map RawText.text) := by
  have htexts : (names.map Path.Component.normal).map Path.Component.text = names.map RawText.text := List.map_map
  have hne' : names.map RawText.text ≠ [] := mt List.map_eq_nil_iff.1 hne
  obtain ⟨n, hn⟩ : ∃ n, (names.map RawText.text).getLast? = some n := by
    cases hl : (names.map RawText.text).getLast? with
    | none => exact absurd (List.getLast?_eq_none_iff.1 hl) hne'
    | some n => exact ⟨n, rfl⟩
  rw [accepts, Path.relativeTo?_of_components hpath]
  dsimp only
  -- the place is put together from the names behind the base
  rw [htexts, hn, passes, foldl_child_base hne' (List.forall_mem_map.2 h)]

/-! ### Names and walks -/

/-- The entries of a directory are those of its listing, if it has one. -/
theorem mem_entries {p : Pending} {x : RawText × Entry} :
    x ∈ p.entries ↔ ∃ es, p.listing = some es ∧ x ∈ es := by
  rw [Pending.entries, Entry.mem_byName]
  cases p.listing with
  | none =>
    constructor
    · intro h
      cases h
    · rintro ⟨es, h, -⟩
      cases h
  | some es =>
    constructor
    · intro h
      exact ⟨es, rfl, h⟩
    · rintro ⟨es', h, hx⟩
      cases h
      exact hx

/-- What is taken from a directory are its files that the selector includes. -/
theorem mem_taken {p : Pending} {path : Path} :
    path ∈ s.taken p ↔ ∃ es n e, p.listing = some es ∧ (n, e) ∈ es ∧ e.isFile = true ∧
      s.fileIncluded (child p.place n.text) = true ∧ path = p.path.join (.ofRaw n) := by
  unfold taken Pending.files
  -- from the path to the file, and from the file to the entry
  constructor
  · intro h
    obtain ⟨⟨n, place⟩, hf, rfl⟩ := List.mem_map.1 h
    obtain ⟨hmem, hinc⟩ := List.mem_filter.1 hf
    obtain ⟨m, hm, hpair⟩ := List.mem_map.1 hmem
    obtain ⟨rfl, rfl⟩ := Prod.mk.inj hpair
    obtain ⟨e, he, hfile⟩ := Entry.mem_files.1 hm
    obtain ⟨es, hl, hes⟩ := mem_entries.1 he
    exact ⟨es, m, e, hl, hes, hfile, hinc, rfl⟩
  · rintro ⟨es, n, e, hl, he, hfile, hinc, rfl⟩
    have hn : n ∈ Entry.files p.entries :=
      Entry.mem_files.2 ⟨e, mem_entries.2 ⟨es, hl, he⟩, hfile⟩
    exact List.mem_map.2 ⟨(n, child p.place n.text),
      List.mem_filter.2 ⟨List.mem_map.2 ⟨n, hn, rfl⟩, hinc⟩, rfl⟩

/-- What is entered from a directory are the directories in it that are not passed over. -/
theorem mem_entered {p d : Pending} :
    d ∈ s.entered p ↔ ∃ es n l, p.listing = some es ∧ (n, .directory l) ∈ es ∧
      s.directoryExcluded (child p.place n.text) = false ∧ d = p.child n l := by
  unfold entered Pending.directories
  -- from the directory to the entry
  constructor
  · intro h
    obtain ⟨hmem, hex⟩ := List.mem_filter.1 h
    obtain ⟨⟨n, l⟩, hn, rfl⟩ := List.mem_map.1 hmem
    obtain ⟨es, hl, hes⟩ := mem_entries.1 (Entry.mem_directories.1 hn)
    exact ⟨es, n, l, hl, hes, (Bool.not_eq_eq_eq_not).mp hex, rfl⟩
  · rintro ⟨es, n, l, hl, he, hex, rfl⟩
    have hn : (n, l) ∈ Entry.directories p.entries :=
      Entry.mem_directories.2 (mem_entries.2 ⟨es, hl, he⟩)
    exact List.mem_filter.2 ⟨List.mem_map.2 ⟨(n, l), hn, rfl⟩, (Bool.not_eq_eq_eq_not).mpr hex⟩

/-- **What is found from a directory** are the files to which names lead that pass. -/
theorem finds_iff {p : Pending} {path : Path} :
    s.Finds p path ↔ ∃ names e, names ≠ [] ∧ (Entry.directory p.listing).Leads names e ∧
      e.isFile = true ∧ s.passes p.place (names.map RawText.text) = true ∧ path = p.path.belowRaw names := by
  constructor
  · intro h
    -- one name for each directory that is entered, and one for the file
    induction h with
    | here h =>
      obtain ⟨es, n, e, hl, he, hfile, hinc, rfl⟩ := s.mem_taken.1 h
      refine ⟨[n], e, List.cons_ne_nil _ _, ?_, hfile, (s.passes_singleton _ n.text).trans hinc, rfl⟩
      rw [hl]
      exact .step he (.refl e)
    | within hd h ih =>
      obtain ⟨es, n, l, hl, he, hex, rfl⟩ := s.mem_entered.1 hd
      obtain ⟨names, e, hne, hleads, hfile, hpass, rfl⟩ := ih
      refine ⟨n :: names, e, List.cons_ne_nil _ _, ?_, hfile, ?_, rfl⟩
      · rw [hl]
        exact .step he hleads
      · rw [List.map_cons, s.passes_cons _ _ (mt List.map_eq_nil_iff.1 hne), hex]
        exact hpass
  · rintro ⟨names, e, hne, hleads, hfile, hpass, rfl⟩
    -- along the names from the other side
    induction names generalizing p with
    | nil => exact absurd rfl hne
    | cons n names ih =>
      generalize hlisting : p.listing = l at hleads
      cases hleads with
      | @step es _ c _ _ hc hleads =>
        by_cases hnames : names = []
        · -- the last name is that of the file
          subst hnames
          cases hleads
          rw [List.map_singleton, passes_singleton] at hpass
          exact .here (s.mem_taken.2 ⟨_, n, e, hlisting, hc, hfile, hpass, rfl⟩)
        · rw [List.map_cons, s.passes_cons _ _ (mt List.map_eq_nil_iff.1 hnames), Bool.and_eq_true,
            Bool.not_eq_true'] at hpass
          -- names lead on, so there is a directory
          obtain ⟨l', rfl⟩ : ∃ l', c = Entry.directory l' := by
            cases hleads with
            | refl => exact absurd rfl hnames
            | step _ _ => exact ⟨_, rfl⟩
          exact .within (s.mem_entered.2 ⟨_, n, l', hlisting, hc, hpass.1, rfl⟩)
            (ih hnames hleads hpass.2)

end Passes

/-- **The files that are selected from a directory** are those in it that the selector accepts. -/
theorem mem_files_collect_iff (s : Selector) (base : Path) {l : Option (List (RawText × Entry))}
    (hnamed : (Entry.directory l).WellNamed) {path : Path} :
    path ∈ (s.collect base (some (.directory l))).files ↔
      ∃ names e, names ≠ [] ∧ (Entry.directory l).Leads names e ∧ e.isFile = true ∧
        s.accepts base path = true ∧ path = base.belowRaw names := by
  have hwalk : path ∈ (s.collect base (some (.directory l))).files ↔
      s.Finds { path := base, place := "", listing := l } path := by
    change path ∈ (s.walk _ _).files ↔ _
    rw [mem_files_walk]
    simp
  rw [hwalk, finds_iff]
  refine exists_congr fun names => exists_congr fun e => ?_
  -- the selector looks at the path only, and the path tells the names
  refine and_congr_right fun hne => and_congr_right fun hleads => and_congr_right fun _ => ?_
  have hnames := hnamed names e hleads
  constructor
  · rintro ⟨hpass, rfl⟩
    exact ⟨(s.accepts_of_components hne hnames (base.components_belowRaw hnames)).trans hpass, rfl⟩
  · rintro ⟨hacc, rfl⟩
    exact ⟨(s.accepts_of_components hne hnames (base.components_belowRaw hnames)).symm.trans hacc, rfl⟩

/-- What is selected from a base that is a file is the base, if its name is taken. -/
theorem mem_files_collect_of_isFile (s : Selector) (base : Path) {e : Entry} (he : e.isFile = true)
    {path : Path} :
    path ∈ (s.collect base (some e)).files ↔
      s.fileIncluded ((base.fileName?.map RawText.text).getD "") = true ∧ path = base := by
  -- a base that is a file is not walked, its name alone is looked at
  have hmem : path ∈ (if s.fileIncluded ((base.fileName?.map RawText.text).getD "") then
      ({ files := [base], statistics := { filesVisited := 1, filesIncluded := 1 } } : Selection)
      else { statistics := { filesVisited := 1, filesExcluded := 1 } }).files ↔
      s.fileIncluded ((base.fileName?.map RawText.text).getD "") = true ∧ path = base := by
    split
    · next hinc => exact List.mem_singleton.trans (and_iff_right hinc).symm
    · next hinc => exact ⟨fun h => absurd h List.not_mem_nil, fun h => absurd h.1 hinc⟩
  cases e with
  | file => exact hmem
  | fileLink => exact hmem
  | directory l => cases he
  | other => cases he

end Selector

end CodeSearch
