import CodeSearch.Proofs.CodeMap.Tidy

/-!
# What an insertion leaves behind

A file is added by walking down its names, and directories that are missing are made on the way. So a
file that turns out to find no room could leave directories behind. It does not: below a directory that
was made there is nothing that could be in the way (`MapNode.place_empty`), so what is in the way is met
before anything is made, and a map that refuses a file is the map that it was
(`CodeMap.insert_leaves_no_trace`).

* `MapNode.placed_iff` — what can be in the way: a file above the place, or a directory at it;
* `MapNode.place_of_not_placed` — a file that finds no room changes nothing;
* `MapNode.find?_place_of_not_prefix` — a file that finds room changes nothing beside the way to it.
-/

namespace CodeSearch

namespace MapNode

variable {entries : Table MapNode} {base : Path} {name : String} {names ns : List String} {size : Nat}

/-- A directory is where names lead to one, -/
theorem what?_eq_directory_iff : what? names entries = some none ↔
    ∃ n path es, find? names entries = some (directory n path es) := by
  rw [what?, Option.map_eq_some_iff]
  constructor
  · rintro ⟨node, hfind, hnode⟩
    cases node with
    | file f => cases hnode
    | directory n path es => exact ⟨n, path, es, hfind⟩
  · rintro ⟨n, path, es, hfind⟩
    exact ⟨_, hfind, rfl⟩

/-- and a file is where they lead to one. -/
theorem what?_eq_file_iff {f : MapFile} :
    what? names entries = some (some f) ↔ find? names entries = some (file f) := by
  rw [what?, Option.map_eq_some_iff]
  constructor
  · rintro ⟨node, hfind, hnode⟩
    -- a place knows of a file only what the file is
    cases node with
    | file g =>
      obtain rfl := Option.some.inj hnode
      exact hfind
    | directory n path es => cases hnode
  · exact fun hfind => ⟨_, hfind, rfl⟩

/-! ### What is in the way -/

/-- **Nothing is in the way where nothing is.** -/
theorem place_empty (hne : names ≠ []) (size : Nat) (base : Path) : (place size base names []).2 = true := by
  apply place_placed (wellPlaced_empty base) hne
  · intro ns f _ _
    rw [what?_empty]
    nofun
  · rw [what?_empty]
    nofun

/-- A file that finds room meets no file on its way, and no directory at its place. -/
theorem free_of_placed (h : WellPlaced base entries) (hplaced : (place size base names entries).2 = true) :
    (∀ ns f, ns <+: names → ns ≠ names → what? ns entries ≠ some (some f)) ∧
      what? names entries ≠ some none := by
  induction names generalizing base entries with
  | nil => cases hplaced
  | cons name names ih =>
    by_cases hne : names = []
    · subst hne
      -- the file comes into the directory itself
      rcases place_singleton size with ⟨-, heq⟩ | ⟨hnot, -⟩
      · rw [heq] at hplaced
        cases hplaced
      · refine ⟨fun ns f hns hneq => ?_, hnot⟩
        -- only the directory itself lies above one of its entries
        rcases List.prefix_cons_iff.1 hns with rfl | ⟨rest, rfl, hrest⟩
        · nofun
        · exact absurd (by rw [List.prefix_nil.1 hrest]) hneq
    · -- the file comes into a directory below it
      rcases place_cons size h hne with ⟨-, heq⟩ | ⟨hnot, heq⟩
      · rw [heq] at hplaced
        cases hplaced
      · rw [heq] at hplaced
        obtain ⟨hway, hend⟩ := ih (h.within name) hplaced
        refine ⟨fun ns f hns hneq => ?_, by rwa [what?_cons hne]⟩
        rcases List.prefix_cons_iff.1 hns with rfl | ⟨rest, rfl, hrest⟩
        · nofun
        · by_cases hnil : rest = []
          · subst hnil
            exact hnot f
          · -- what is met further on was met in that directory
            rw [what?_cons hnil]
            exact hway rest f hrest fun he => hneq (by rw [he])

/-- **A file finds room** if it has a name, no file lies above its place and no directory at it. -/
theorem placed_iff (h : WellPlaced base entries) (size : Nat) : (place size base names entries).2 = true ↔
    names ≠ [] ∧ (∀ ns f, ns <+: names → ns ≠ names → what? ns entries ≠ some (some f)) ∧
      what? names entries ≠ some none := by
  constructor
  · intro hplaced
    refine ⟨?_, free_of_placed h hplaced⟩
    rintro rfl
    cases hplaced
  · rintro ⟨hne, hway, hend⟩
    exact place_placed h hne hway hend

/-! ### What is left as it was -/

/-- **A file that finds no room changes nothing.** -/
theorem place_of_not_placed (h : Tidy base entries) (hnot : (place size base names entries).2 = false) :
    (place size base names entries).1 = entries := by
  induction names generalizing base entries with
  | nil => rfl
  | cons name names ih =>
    by_cases hne : names = []
    · subst hne
      rcases place_singleton size with ⟨-, heq⟩ | ⟨-, heq⟩
      · -- something is at its place already
        rw [heq]
      · rw [heq] at hnot
        cases hnot
    · rcases place_cons size h.wellPlaced hne with ⟨-, heq⟩ | ⟨hway, heq⟩
      · -- a file is on the way
        rw [heq]
      · rw [heq] at hnot ⊢
        have hin : (place size (base.join ⟨name⟩) names (within (entries.get? name))).1 =
            within (entries.get? name) := ih (h.within name) hnot
        cases hget : entries.get? name with
        | none =>
          -- a directory that was made now would have had room for the file
          rw [hget, within_none, place_empty hne] at hnot
          cases hnot
        | some node =>
          cases node with
          | file f =>
            -- the node on the way is no file, as the file would not have come so far
            have hfile : what? [name] entries = some (some f) := what?_eq_file_iff.2 hget
            exact absurd hfile (hway f)
          | directory n path es =>
            obtain ⟨rfl, rfl⟩ := h.wellPlaced.directory hget
            -- what lies in the directory is put back as it was
            rw [hget] at hin
            change entries.insert n (directory n _ (place size _ names es).1) = entries
            rw [show (place size _ names es).1 = es from hin]
            exact Table.insert_of_get? h.sorted hget

/-- **A file that finds room changes nothing beside the way to it.** -/
theorem find?_place_of_not_prefix (h : WellPlaced base entries)
    (hplaced : (place size base names entries).2 = true) (hns : ¬ns <+: names) :
    find? ns (place size base names entries).1 = find? ns entries := by
  induction names generalizing base entries ns with
  | nil => cases hplaced
  | cons name names ih =>
    cases ns with
    -- names that do not lead to the file may lead along some of its way
    | nil => exact absurd List.nil_prefix hns
    | cons k ns =>
      have hsplit : k = name → ¬ns <+: names := fun hk hpre => hns (List.cons_prefix_cons.2 ⟨hk, hpre⟩)
      by_cases hne : names = []
      · subst hne
        rcases place_singleton size with ⟨-, heq⟩ | ⟨hend, heq⟩
        · rw [heq]
        · rw [heq, find?_insert]
          split
          · next hk =>
            -- nothing lies below a file, and nothing did, as there was no directory
            have hnil : ns ≠ [] := fun he => hsplit hk (he ▸ List.prefix_refl _)
            subst hk
            rw [if_neg hnil, within_file, find?_empty, find?_cons hnil]
            cases hget : entries.get? k with
            | none => rw [within_none, find?_empty]
            | some node =>
              cases node with
              | file f => rw [within_file, find?_empty]
              | directory n path es =>
                have hfind : find? [k] entries = some (directory n path es) := hget
                exact absurd (what?_eq_directory_iff.2 ⟨n, path, es, hfind⟩) hend
          · -- another entry stays as it is
            rfl
      · rcases place_cons size h hne with ⟨-, heq⟩ | ⟨-, heq⟩
        · rw [heq]
        · rw [heq] at hplaced ⊢
          -- the directory on the way is put back with the file in it
          rw [find?_insert]
          split
          · next hk =>
            -- what lies beside the file in it was there before
            have hnil : ns ≠ [] := fun he => hsplit hk (he ▸ List.nil_prefix)
            subst hk
            rw [if_neg hnil, within_directory, ih (h.within k) hplaced (hsplit rfl), find?_cons hnil]
          · rfl

end MapNode

/-! ### Maps -/

namespace CodeMap

open MapNode (find? what? place)

variable {m m' : CodeMap} {root path : Path} {names : List String} {size : Nat}

/-- What a map refuses a file for. -/
inductive Refuses (m : CodeMap) (path : Path) : Prop where
  /-- The path lies outside the root, or steps upwards. -/
  | outside (h : m.names? path = none)
  /-- The path is the root, so there is no name for the file. -/
  | unnamed (h : m.names? path = some [])
  /-- A file lies where a directory is needed. -/
  | fileAbove {names way : List String} {f : MapFile} (h : m.names? path = some names)
      (habove : way <+: names ∧ way ≠ names) (hfile : find? way m.entries = some (.file f))
  /-- A directory has the place of the file. -/
  | directoryAt {names : List String} {name : String} {here : Path} {es : Table MapNode}
      (h : m.names? path = some names) (hdirectory : find? names m.entries = some (.directory name here es))

/-- Whether a map is another one with a file added at the place to which names lead. -/
structure HasAdded (m : CodeMap) (names : List String) (size : Nat) (m' : CodeMap) : Prop where
  /-- The root is the same. -/
  root_eq : m'.root = m.root
  /-- The file is there, with nothing known about it but its size. -/
  file : find? names m'.entries = some (.file (.newAt m.root names size))
  /-- On the way to it there are directories. One that was there keeps its name and its path, and
  otherwise there was nothing. -/
  directories : ∀ way, way ≠ [] → way <+: names → way ≠ names → ∃ name es,
    way.getLast? = some name ∧ find? way m'.entries = some (.directory name (m.root.below way) es) ∧
      (find? way m.entries = none ∨ ∃ es', find? way m.entries = some (.directory name (m.root.below way) es'))
  /-- Every node that is not on the way is as it was, with all that lies in it, and where there was
  none there is none. -/
  others : ∀ ns, ¬ns <+: names → find? ns m'.entries = find? ns m.entries

/-- A path below the root is placed by its names. -/
theorem insert_of_names? (h : m.names? path = some names) (size : Nat) : m.insert path size =
    ({ m with entries := (place size m.root names m.entries).1 }, (place size m.root names m.entries).2) := by
  rw [CodeMap.insert, h]

/-- A path outside the root is refused. -/
theorem insert_of_outside (h : m.names? path = none) (size : Nat) : m.insert path size = (m, false) := by
  rw [CodeMap.insert, h]

/-- A file that is added has names that lead to it, and room. -/
theorem exists_names_of_insert (hplaced : (m.insert path size).2 = true) :
    ∃ names, m.names? path = some names ∧ (place size m.root names m.entries).2 = true := by
  cases hnames : m.names? path with
  | none =>
    rw [insert_of_outside hnames] at hplaced
    cases hplaced
  | some names =>
    rw [insert_of_names? hnames] at hplaced
    exact ⟨names, rfl, hplaced⟩

/-- **A map refuses a file for a reason.** -/
theorem insert_eq_false_iff (h : m.Tidy) (path : Path) (size : Nat) :
    (m.insert path size).2 = false ↔ m.Refuses path := by
  cases hnames : m.names? path with
  | none =>
    -- the path leads out of the root
    rw [insert_of_outside hnames]
    exact iff_of_true rfl (.outside hnames)
  | some names =>
    rw [insert_of_names? hnames, ← Bool.not_eq_true]
    change ¬(place size m.root names m.entries).2 = true ↔ _
    rw [MapNode.placed_iff (MapNode.Tidy.wellPlaced h)]
    constructor
    · intro hnot
      by_cases hne : names = []
      · exact .unnamed (hne ▸ hnames)
      · -- a directory is at its place
        by_cases hend : what? names m.entries = some none
        · obtain ⟨n, here, es, hfind⟩ := MapNode.what?_eq_directory_iff.1 hend
          exact .directoryAt hnames hfind
        · -- neither is there a directory nor are there no names, so a file is on the way
          have hway : ∃ ns f, ns <+: names ∧ ns ≠ names ∧ what? ns m.entries = some (some f) := by
            by_contra hnone
            push Not at hnone
            exact hnot ⟨hne, hnone, hend⟩
          obtain ⟨way, f, hpre, hneq, hfile⟩ := hway
          exact .fileAbove hnames ⟨hpre, hneq⟩ (MapNode.what?_eq_file_iff.1 hfile)
    · intro hrefuses ⟨hne, hway, hend⟩
      -- each reason stands in the way of the placing
      cases hrefuses with
      | outside h => rw [hnames] at h; cases h
      | unnamed h => rw [hnames] at h; exact hne (Option.some.inj h)
      | fileAbove h habove hfile =>
        obtain rfl := Option.some.inj (hnames.symm.trans h)
        exact hway _ _ habove.1 habove.2 (MapNode.what?_eq_file_iff.2 hfile)
      | directoryAt h hdirectory =>
        obtain rfl := Option.some.inj (hnames.symm.trans h)
        exact hend (MapNode.what?_eq_directory_iff.2 ⟨_, _, _, hdirectory⟩)

/-- A file that finds room is added. -/
theorem Tidy.hasAdded (h : m.Tidy) (hnames : m.names? path = some names)
    (hplaced : (place size m.root names m.entries).2 = true) :
    m.HasAdded names size (m.insert path size).1 := by
  have hw := MapNode.Tidy.wellPlaced h
  have hafter : MapNode.Tidy m.root (place size m.root names m.entries).1 :=
    MapNode.Tidy.place h (fun n hn => isName_of_names? hnames hn) size
  have hwhat := MapNode.what?_place hw hplaced
  rw [insert_of_names? hnames]
  refine ⟨rfl, ?_, ?_, ?_⟩
  · -- at its place there is the file
    apply MapNode.what?_eq_file_iff.1
    rw [hwhat, if_pos rfl]
  · -- on the way there are directories, and one that was there is still the same
    intro way hne hpre hneq
    obtain ⟨name, here, es, hfind⟩ : ∃ name here es,
        find? way (place size m.root names m.entries).1 = some (.directory name here es) := by
      apply MapNode.what?_eq_directory_iff.1
      rw [hwhat, if_neg hneq, if_pos ⟨hne, hpre⟩]
    -- names and paths of directories are those of their places, before and after
    obtain ⟨-, hpath, hlast⟩ := hafter.find? hfind
    change here = m.root.below way at hpath
    subst hpath
    refine ⟨name, es, hlast, hfind, ?_⟩
    cases hbefore : find? way m.entries with
    | none => exact Or.inl rfl
    | some node =>
      cases node with
      | file f =>
        -- the file would have been on the way
        have hfree := (MapNode.free_of_placed hw hplaced).1 way f hpre hneq
        exact absurd (MapNode.what?_eq_file_iff.2 hbefore) hfree
      | directory name' here' es' =>
        obtain ⟨-, hpath', hlast'⟩ := MapNode.Tidy.find? h hbefore
        change here' = m.root.below way at hpath'
        rw [hlast, Option.some.injEq] at hlast'
        change name = name' at hlast'
        subst hpath' hlast'
        exact Or.inr ⟨es', rfl⟩
  · exact fun ns hns => MapNode.find?_place_of_not_prefix hw hplaced hns

/-- **An insertion leaves no trace if it is refused,** and it is refused only for what is in the way. If
it is not, it adds the file with the directories that are missing above it, and nothing else. -/
theorem insert_leaves_no_trace (hm : Built root m) (path : Path) (size : Nat) :
    ((m.insert path size).2 = false ↔ m.Refuses path) ∧
      ((m.insert path size).2 = false → (m.insert path size).1 = m) ∧
      ((m.insert path size).2 = true →
        ∃ names, m.names? path = some names ∧ m.HasAdded names size (m.insert path size).1) := by
  have h := hm.tidy
  refine ⟨insert_eq_false_iff h path size, ?_, ?_⟩
  · intro hnot
    -- a path outside the root is not even looked up
    cases hnames : m.names? path with
    | none => rw [insert_of_outside hnames]
    | some names =>
      rw [insert_of_names? hnames] at hnot ⊢
      rw [MapNode.place_of_not_placed h hnot]
  · -- a path that is accepted has names, which lead to the file
    intro hplaced
    obtain ⟨names, hnames, hroom⟩ := exists_names_of_insert hplaced
    exact ⟨names, hnames, h.hasAdded hnames hroom⟩

/-- Below a file no file is added, nor any directory; beside it there is room. -/
theorem insert_below_file :
    let m := (CodeMap.insert { root := ⟨"/r"⟩ } ⟨"pkg/mod.py"⟩ 10).1
    (m.insert ⟨"pkg/mod.py/x/y.py"⟩ 3).2 = false ∧ (m.insert ⟨"pkg/mod.py/x/y.py"⟩ 3).1 = m ∧
      (m.insert ⟨"pkg"⟩ 3).2 = false ∧ (m.insert ⟨"pkg"⟩ 3).1 = m ∧
      (m.insert ⟨"pkg/x/y.py"⟩ 3).2 = true ∧
      m.HasAdded ["pkg", "x", "y.py"] 3 (m.insert ⟨"pkg/x/y.py"⟩ 3).1 := by
  intro m
  have hm : Built ⟨"/r"⟩ m := .insert .empty _ _
  have hfile : (m.insert ⟨"pkg/mod.py/x/y.py"⟩ 3).2 = false := by decide
  have hdirectory : (m.insert ⟨"pkg"⟩ 3).2 = false := by decide
  have hroom : (m.insert ⟨"pkg/x/y.py"⟩ 3).2 = true := by decide
  obtain ⟨names, hnames, hadded⟩ := (insert_leaves_no_trace hm ⟨"pkg/x/y.py"⟩ 3).2.2 hroom
  have hnames' : m.names? ⟨"pkg/x/y.py"⟩ = some ["pkg", "x", "y.py"] := by decide
  obtain rfl := Option.some.inj (hnames.symm.trans hnames')
  exact ⟨hfile, (insert_leaves_no_trace hm _ _).2.1 hfile, hdirectory,
    (insert_leaves_no_trace hm _ _).2.1 hdirectory, hroom, hadded⟩

end CodeMap

end CodeSearch
