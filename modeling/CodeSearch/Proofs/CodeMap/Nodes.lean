import CodeSearch.CodeMap.Basic
import CodeSearch.Proofs.Paths

/-!
# What lies where in a map

Names lead from the root of a map to a file, to a directory or to nothing (`MapNode.what?`). The writes to a map
are told by what they do to that:

* `what?_place` — a file that was added lies where it was added, directories lie on the way to it, and all else
  is as it was;
* `place_placed` — there is room for a file unless a file is in the way or a directory has its place;
* `what?_change?` — a change shows in the file that was changed and nowhere else.

Every node has the name and the path of its place (`MapNode.WellPlaced`), and the writes keep it so. This is why
a file that is added gets the path to which its names lead, whether or not the directories on the way were there
before.
-/

namespace CodeSearch

/-- A file of which nothing is known but its size, at the place to which names lead. -/
def MapFile.newAt (base : Path) (names : List String) (size : Nat) : MapFile :=
  .new (base.below names.dropLast) (names.getLast?.getD "") size

namespace MapFile

/-- Names lead on from a directory as they lead from its own. -/
theorem newAt_cons (base : Path) (name : String) {names : List String} (hne : names ≠ []) (size : Nat) :
    newAt base (name :: names) size = newAt (base.join ⟨name⟩) names size := by
  rw [newAt, newAt, List.dropLast_cons_of_ne_nil hne, List.getLast?_cons_of_ne_nil hne, Path.below_cons]

end MapFile

namespace MapNode

/-! ### Looking up -/

/-- The name of a node. -/
def name : MapNode → String
  | file f => f.name
  | directory name _ _ => name

/-- The entries in a node; there are none in a file, nor where there is no node. -/
def within (node? : Option MapNode) : Table MapNode := (node?.bind directory?).elim [] MapDirectory.entries

/-- What names lead to: a file, a directory (`some none`) or nothing. -/
def what? (names : List String) (entries : Table MapNode) : Option (Option MapFile) :=
  (find? names entries).map file?

variable {entries : Table MapNode} {node : MapNode} {base : Path} {name k : String} {names ns : List String}

@[simp] theorem within_directory (n : String) (path : Path) (inner : Table MapNode) :
    within (some (directory n path inner)) = inner := rfl

@[simp] theorem within_file (f : MapFile) : within (some (file f)) = [] := rfl

@[simp] theorem within_none : within none = [] := rfl

@[simp] theorem find?_empty (names : List String) : find? names ([] : Table MapNode) = none := by
  cases names with
  | nil => rfl
  | cons name names => cases names <;> rfl

@[simp] theorem what?_empty (names : List String) : what? names ([] : Table MapNode) = none :=
  congrArg (Option.map file?) (find?_empty names)

theorem find?_cons (hne : names ≠ []) :
    find? (name :: names) entries = find? names (within (entries.get? name)) := by
  rw [find?, within]
  · cases (entries.get? name).bind directory? with
    | none => exact (find?_empty names).symm
    | some d => rfl
  · exact hne

/-- The first of some names leads to an entry, and the others lead on from there. -/
theorem what?_cons (hne : names ≠ []) :
    what? (name :: names) entries = what? names (within (entries.get? name)) :=
  congrArg (Option.map file?) (find?_cons hne)

/-- A node that is put into a directory is found there, with all that it holds. -/
theorem find?_insert (ns : List String) : find? (k :: ns) (entries.insert name node) =
    if k = name then (if ns = [] then some node else find? ns (within (some node)))
    else find? (k :: ns) entries := by
  by_cases hns : ns = []
  · subst hns
    exact Table.get?_insert entries name k node
  · rw [find?_cons hns, find?_cons hns, Table.get?_insert, if_neg hns]
    split <;> rfl

/-- Of what names lead to, a new entry changes only what begins with its name. -/
theorem what?_insert (ns : List String) : what? (k :: ns) (entries.insert name node) =
    if k = name then (if ns = [] then some node.file? else what? ns (within (some node)))
    else what? (k :: ns) entries := by
  rw [what?, find?_insert]
  split
  · split <;> rfl
  · rfl

/-! ### Names and paths of nodes -/

/-- Whether every node has the path to which names lead from a base, and the last of the names. -/
def WellPlaced (base : Path) (entries : Table MapNode) : Prop :=
  ∀ names node, find? names entries = some node →
    node.path = base.below names ∧ names.getLast? = some node.name

theorem wellPlaced_empty (base : Path) : WellPlaced base [] := by
  intro names node h
  rw [find?_empty] at h
  cases h

/-- A directory has the name and the path of its entry. -/
theorem WellPlaced.directory (h : WellPlaced base entries) {n : String} {path : Path} {inner : Table MapNode}
    (hget : entries.get? name = some (directory n path inner)) : n = name ∧ path = base.join ⟨name⟩ := by
  obtain ⟨hpath, hname⟩ := h [name] _ hget
  exact ⟨(Option.some.inj hname).symm, hpath⟩

/-- What lies in an entry stands below the path of the entry. -/
theorem WellPlaced.within (h : WellPlaced base entries) (name : String) :
    WellPlaced (base.join ⟨name⟩) (within (entries.get? name)) := by
  intro names node hfind
  have hne : names ≠ [] := by
    rintro rfl
    cases hfind
  rw [← find?_cons hne] at hfind
  obtain ⟨hpath, hname⟩ := h _ _ hfind
  exact ⟨hpath, (List.getLast?_cons_of_ne_nil hne).symm.trans hname⟩

/-- A new entry with the name and the path of its place keeps all nodes at their places. -/
theorem WellPlaced.insert (h : WellPlaced base entries) (hpath : node.path = base.join ⟨name⟩)
    (hname : node.name = name) (hin : WellPlaced (base.join ⟨name⟩) (MapNode.within (some node))) :
    WellPlaced base (entries.insert name node) := by
  intro names other hfind
  cases names with
  | nil => cases hfind
  | cons k ns =>
    rw [find?_insert] at hfind
    -- only names that begin with the new entry lead to something new
    by_cases hk : k = name
    · rw [if_pos hk] at hfind
      by_cases hns : ns = []
      · rw [if_pos hns] at hfind
        obtain rfl := Option.some.inj hfind
        -- they lead to the entry itself
        rw [hk, hns, hname]
        exact ⟨hpath, rfl⟩
      · rw [if_neg hns] at hfind
        -- they lead on into it
        obtain ⟨hp, hn⟩ := hin ns other hfind
        rw [hk]
        exact ⟨hp, (List.getLast?_cons_of_ne_nil hns).trans hn⟩
    · rw [if_neg hk] at hfind
      exact h _ _ hfind

/-! ### Adding files -/

section Place

variable {size : Nat}

/-- A file takes the place of another one, but not that of a directory. -/
theorem place_singleton (size : Nat) :
    (∃ n path inner, entries.get? name = some (directory n path inner)) ∧
        place size base [name] entries = (entries, false) ∨
      what? [name] entries ≠ some none ∧
        place size base [name] entries = (entries.insert name (file (.new base name size)), true) := by
  rw [place]
  change _ ∨ (entries.get? name).map file? ≠ some none ∧ _
  cases entries.get? name with
  -- the place is free
  | none => exact Or.inr ⟨by simp, rfl⟩
  | some node =>
    cases node with
    | file f => exact Or.inr ⟨by simp [file?], rfl⟩
    | directory n path inner => exact Or.inl ⟨⟨n, path, inner, rfl⟩, rfl⟩

/-- On the way to a place there must be no file. A directory that is there is kept, and one that is missing is
added. -/
theorem place_cons (size : Nat) (h : WellPlaced base entries) (hne : names ≠ []) :
    (∃ f, entries.get? name = some (file f)) ∧
        place size base (name :: names) entries = (entries, false) ∨
      (∀ f, what? [name] entries ≠ some (some f)) ∧
        place size base (name :: names) entries =
          (entries.insert name (directory name (base.join ⟨name⟩)
              (place size (base.join ⟨name⟩) names (within (entries.get? name))).1),
            (place size (base.join ⟨name⟩) names (within (entries.get? name))).2) := by
  rw [place]
  · change _ ∨ (∀ f, (entries.get? name).map file? ≠ some (some f)) ∧ _
    cases hget : entries.get? name with
    -- nothing is there, so an empty directory is added for the rest of the names
    | none => exact Or.inr ⟨by simp, rfl⟩
    | some node =>
      cases node with
      | file f => exact Or.inl ⟨⟨f, rfl⟩, rfl⟩
      | directory n path inner =>
        -- a directory that is there has the name and the path of a new one
        obtain ⟨rfl, rfl⟩ := h.directory hget
        exact Or.inr ⟨by simp [file?], rfl⟩
  · exact hne

/-- Adding a file gives every node that is added the name and the path of its place. -/
theorem WellPlaced.place (h : WellPlaced base entries) :
    WellPlaced base (place size base names entries).1 := by
  -- the induction is on the names, for every base and every table
  induction names generalizing base entries with
  | nil => exact h
  | cons name names ih =>
    by_cases hne : names = []
    · subst hne
      rcases place_singleton size with ⟨-, hplace⟩ | ⟨-, hplace⟩
      · rw [hplace]
        exact h
      · rw [hplace]
        -- a file has no entries that could be out of place
        exact h.insert rfl rfl (wellPlaced_empty _)
    · rcases place_cons size h hne with ⟨-, hplace⟩ | ⟨-, hplace⟩
      · rw [hplace]
        exact h
      · rw [hplace]
        exact h.insert rfl rfl (ih (h.within name))

/-- **There is room for a file** unless a file is in the way or a directory has its place. -/
theorem place_placed (h : WellPlaced base entries) (hne : names ≠ [])
    (hway : ∀ ns f, ns <+: names → ns ≠ names → what? ns entries ≠ some (some f))
    (hplace : what? names entries ≠ some none) : (place size base names entries).2 = true := by
  -- one name after another: the last one names the file, the others its directories
  induction names generalizing base entries with
  | nil => exact absurd rfl hne
  | cons name names ih =>
    by_cases hnames : names = []
    · subst hnames
      rcases place_singleton size with ⟨⟨n, path, inner, hget⟩, -⟩ | ⟨-, heq⟩
      · -- a directory has the place of the file
        exact absurd (congrArg (Option.map file?) hget) hplace
      · rw [heq]
    · rcases place_cons size h hnames with ⟨⟨f, hget⟩, -⟩ | ⟨-, heq⟩
      · have hfirst : [name] ≠ name :: names := fun he => hnames (List.cons.inj he).2.symm
        -- a file is in the way at the first name
        exact absurd (congrArg (Option.map file?) hget)
          (hway [name] f (List.prefix_append [name] names) hfirst)
      · rw [heq]
        -- the rest of the names has the same room in the entry
        refine ih (h.within name) hnames (fun ns f hns hneq => ?_) ?_
        · by_cases hnil : ns = []
          · subst hnil
            nofun
          · rw [← what?_cons hnil]
            exact hway _ f (List.cons_prefix_cons.2 ⟨rfl, hns⟩) fun he => hneq (List.cons.inj he).2
        · rw [← what?_cons hnames]
          exact hplace

/-- **What an added file changes**: it lies at its place, directories lie on the way to it, and all else is as it
was. -/
theorem what?_place (h : WellPlaced base entries) (hplaced : (place size base names entries).2 = true)
    (ns : List String) : what? ns (place size base names entries).1 =
      if ns = names then some (some (.newAt base names size))
      else if ns ≠ [] ∧ ns <+: names then some none
      else what? ns entries := by
  induction names generalizing base entries ns with
  | nil => cases hplaced
  | cons name names ih =>
    -- the names that are looked up go down along with those of the file
    cases ns with
    | nil => rfl
    | cons k ns =>
      simp only [List.cons.injEq, List.cons_prefix_cons, ne_eq, List.cons_ne_nil, not_false_eq_true, true_and]
      by_cases hnames : names = []
      · subst hnames
        rcases place_singleton size with ⟨-, heq⟩ | ⟨hnot, heq⟩
        · rw [heq] at hplaced
          cases hplaced
        · rw [heq, what?_insert]
          by_cases hk : k = name
          · subst hk
            by_cases hns : ns = []
            · rw [if_pos rfl, if_pos hns, if_pos ⟨rfl, hns⟩]
              rfl
            · -- nothing lies below a file
              have hnone : what? (k :: ns) entries = none := by
                rw [what?_cons hns]
                change (entries.get? k).map file? ≠ some none at hnot
                cases hget : entries.get? k with
                | none => exact what?_empty ns
                | some node =>
                  cases node with
                  | file f => exact what?_empty ns
                  | directory n path inner =>
                    rw [hget] at hnot
                    exact absurd rfl hnot
              rw [if_pos rfl, if_neg hns, if_neg fun he => hns he.2,
                if_neg fun he => hns (List.prefix_nil.1 he.2), hnone]
              exact what?_empty ns
          · rw [if_neg hk, if_neg fun he => hk he.1, if_neg fun he => hk he.1]
      · rcases place_cons size h hnames with ⟨-, heq⟩ | ⟨-, heq⟩
        · -- nothing was added there, so this is not the case at hand
          rw [heq] at hplaced
          cases hplaced
        · rw [heq] at hplaced ⊢
          rw [what?_insert]
          by_cases hk : k = name
          · subst hk
            by_cases hns : ns = []
            · subst hns
              -- the entry itself is a directory now
              rw [if_pos rfl, if_pos rfl, if_neg fun he => hnames he.2.symm,
                if_pos ⟨rfl, List.nil_prefix⟩]
              rfl
            · rw [if_pos rfl, if_neg hns, within_directory, ih (h.within k) hplaced,
                -- below the entry the rest of the names decides
                MapFile.newAt_cons base k hnames, what?_cons hns]
              simp only [true_and, ne_eq, hns, not_false_eq_true]
          · rw [if_neg hk, if_neg fun he => hk he.1, if_neg fun he => hk he.1]

end Place

/-! ### Changing files -/

section Change

variable {f : MapFile → MapFile} {entries' : Table MapNode}

/-- A change below the first name is a change in a directory that has this name. -/
theorem change?_cons (hne : names ≠ []) (h : change? f (name :: names) entries = some entries') :
    ∃ n path inner, change? f names (within (entries.get? name)) = some inner ∧
      entries.get? name = some (directory n path (within (entries.get? name))) ∧
      entries' = entries.insert name (directory n path inner) := by
  -- the entry is a directory, and the change is made in what lies in it
  rw [change?] at h
  · obtain ⟨d, hd, h⟩ := Option.bind_eq_some_iff.1 h
    obtain ⟨inner, hinner, rfl⟩ := Option.map_eq_some_iff.1 h
    obtain ⟨node, hget, hnode⟩ := Option.bind_eq_some_iff.1 hd
    cases node with
    | file old => cases hnode
    | directory n path es =>
      obtain rfl := Option.some.inj hnode
      rw [hget]
      exact ⟨n, path, inner, hinner, rfl, rfl⟩
  · exact hne

/-- A change of files that keeps their names and paths keeps all nodes at their places. -/
theorem WellPlaced.change? (hf : ∀ old, (f old).path = old.path ∧ (f old).name = old.name)
    (h : WellPlaced base entries) (hchange : change? f names entries = some entries') :
    WellPlaced base entries' := by
  induction names generalizing base entries entries' with
  | nil => cases hchange
  | cons name names ih =>
    by_cases hne : names = []
    · -- the change is made at this place
      subst hne
      obtain ⟨old, hold, rfl⟩ := Option.map_eq_some_iff.1 hchange
      obtain ⟨node, hget, hnode⟩ := Option.bind_eq_some_iff.1 hold
      cases node with
      | directory n path inner => cases hnode
      | file g =>
        obtain rfl := Option.some.inj hnode
        obtain ⟨hpath, hname⟩ := h [name] _ hget
        exact h.insert ((hf g).1.trans hpath) ((hf g).2.trans (Option.some.inj hname).symm)
          (wellPlaced_empty _)
    · obtain ⟨n, path, inner, hinner, hget, rfl⟩ := change?_cons hne hchange
      -- the change is made in a directory, which stays what it was
      obtain ⟨rfl, rfl⟩ := h.directory hget
      exact h.insert rfl rfl (ih (h.within _) hinner)

/-- **What a change changes**: the file to which the names lead. -/
theorem what?_change? (hchange : change? f names entries = some entries') :
    ∃ old, what? names entries = some (some old) ∧ ∀ ns, what? ns entries' =
      if ns = names then some (some (f old)) else what? ns entries := by
  induction names generalizing entries entries' with
  | nil => cases hchange
  | cons name names ih =>
    by_cases hne : names = []
    · subst hne
      -- the file is an entry of this table
      obtain ⟨old, hold, rfl⟩ := Option.map_eq_some_iff.1 hchange
      obtain ⟨node, hget, hnode⟩ := Option.bind_eq_some_iff.1 hold
      cases node with
      | directory n path inner => cases hnode
      | file g =>
        obtain rfl := Option.some.inj hnode
        refine ⟨g, congrArg (Option.map file?) hget, fun ns => ?_⟩
        cases ns with
        | nil => rfl
        | cons k ns =>
          rw [what?_insert]
          by_cases hk : k = name
          · subst hk
            by_cases hns : ns = []
            · subst hns
              -- the names are those of the changed file
              rw [if_pos rfl, if_pos rfl, if_pos rfl]
              rfl
            · -- below a file there is nothing, neither before nor after
              rw [if_pos rfl, if_neg hns, if_neg fun he => hns (List.cons.inj he).2, what?_cons hns, hget]
              rfl
          · rw [if_neg hk, if_neg fun he => hk (List.cons.inj he).1]
    · obtain ⟨n, path, inner, hinner, hget, rfl⟩ := change?_cons hne hchange
      -- the file lies deeper, and the directory on the way to it stays
      obtain ⟨old, hold, hrest⟩ := ih hinner
      refine ⟨old, (what?_cons hne).trans hold, fun ns => ?_⟩
      cases ns with
      | nil => rfl
      | cons k ns =>
        rw [what?_insert]
        by_cases hk : k = name
        · subst hk
          by_cases hns : ns = []
          · subst hns
            -- the directory itself is no file
            rw [if_pos rfl, if_pos rfl, if_neg fun he => hne (List.cons.inj he).2.symm]
            exact (congrArg (Option.map file?) hget).symm
          · rw [if_pos rfl, if_neg hns, within_directory, hrest, what?_cons hns]
            simp only [List.cons.injEq, true_and]
        · rw [if_neg hk, if_neg fun he => hk (List.cons.inj he).1]

/-- A file can be changed. -/
theorem exists_change? (f : MapFile → MapFile) {old : MapFile} (h : what? names entries = some (some old)) :
    ∃ entries', change? f names entries = some entries' := by
  induction names generalizing entries with
  | nil => cases h
  | cons name names ih =>
    by_cases hne : names = []
    · subst hne
      obtain ⟨node, hget, hnode⟩ := Option.map_eq_some_iff.1 h
      exact ⟨_, by rw [change?, show entries.get? name = some node from hget, Option.bind_some, hnode]; rfl⟩
    · -- the names lead on from the entry, so it is a directory
      rw [what?_cons hne] at h
      obtain ⟨inner, hinner⟩ := ih h
      rw [change?]
      · cases hget : entries.get? name with
        | none =>
          rw [hget] at h
          cases (what?_empty names).symm.trans h
        | some node =>
          cases node with
          | file g =>
            rw [hget] at h
            cases (what?_empty names).symm.trans h
          | directory n path es =>
            rw [hget] at hinner
            exact ⟨_, congrArg (Option.map _) hinner⟩
      · exact hne

end Change

end MapNode

end CodeSearch
