import CodeSearch.Proofs.CodeMap.Nodes
import Mathlib.Data.List.Induction

/-!
# The map of documents

A document has its place below the root of a map by the names that lead to its path (`namesBelow?`). If no
document lies below another one (`CodeMap.LiesApart`), every document finds room, whatever was added before it,
and the map is told by its documents alone (`CodeMap.charts_ofDocuments`):

* where documents lie there is a file with the facts about the last of them (`file?_ofDocuments`);
* on the way to documents there are directories;
* anywhere else there is nothing.
-/

namespace CodeSearch

/-- The file of a document at the place to which names lead. -/
def MapFile.ofDocument (root : Path) (names : List String) (d : Metadata) : MapFile :=
  (MapFile.newAt root names d.size).describe d

namespace MapFile

variable {root : Path} {names : List String} {d : Metadata}

/-- The path of a file is that to which its names lead. -/
theorem path_ofDocument (hne : names ≠ []) : (ofDocument root names d).path = root.below names := by
  obtain ⟨way, n, rfl⟩ := (List.eq_nil_or_concat names).resolve_left hne
  rw [List.concat_eq_append, Path.below_concat]
  change (root.below (way ++ [n]).dropLast).join ⟨(way ++ [n]).getLast?.getD ""⟩ = _
  rw [List.dropLast_concat, List.getLast?_concat]
  rfl

/-- A file has all the facts about its document. -/
theorem describe_ofDocument : (ofDocument root names d).describe d = ofDocument root names d := by
  change ({ ofDocument root names d with
    language := d.language <|> (d.language <|> (newAt root names d.size).language) } : MapFile) = _
  cases hl : d.language <;> simp [ofDocument, describe, hl]

end MapFile

namespace CodeMap

open MapNode (what? WellPlaced place)

/-- Whether no document of a list lies below another one. -/
def LiesApart (root : Path) (ds : List Metadata) : Prop :=
  ∀ d ∈ ds, ∀ d' ∈ ds, ∀ names names', namesBelow? root d.path = some names →
    namesBelow? root d'.path = some names' → names <+: names' → names = names'

/-- The last of the documents to which names lead. -/
def last? (root : Path) (ds : List Metadata) (names : List String) : Option Metadata :=
  ds.reverse.find? fun d => namesBelow? root d.path = some names

/-- Whether names are on the way to a document. -/
def onWay (root : Path) (ds : List Metadata) (names : List String) : Bool :=
  ds.any fun d => (namesBelow? root d.path).any names.isPrefixOf

/-- What names lead to in the map of documents. -/
def chart? (root : Path) (ds : List Metadata) (names : List String) : Option (Option MapFile) :=
  match last? root ds names with
  | some d => some (some (.ofDocument root names d))
  | none => if names ≠ [] ∧ onWay root ds names = true then some none else none

/-- Whether a map is that of documents. -/
structure Charts (root : Path) (ds : List Metadata) (m : CodeMap) : Prop where
  root_eq : m.root = root
  wellPlaced : WellPlaced root m.entries
  what : ∀ names, what? names m.entries = chart? root ds names

variable {root : Path} {ds : List Metadata} {d : Metadata} {m : CodeMap} {names ns : List String}

/-- A file is found where the names of its path lead to. -/
theorem file?_eq {path : Path} :
    m.file? path = (m.names? path).bind fun names => (what? names m.entries).join := by
  unfold file? what?
  congr
  funext names
  cases MapNode.find? names m.entries <;> rfl

/-! ### Documents at a place -/

/-- The last document counts if it has the place. -/
theorem last?_concat : last? root (ds ++ [d]) names =
    if namesBelow? root d.path = some names then some d else last? root ds names := by
  rw [last?, List.reverse_append]
  change List.find? _ (d :: ds.reverse) = _
  rw [List.find?_cons]
  by_cases h : namesBelow? root d.path = some names
  · rw [if_pos h, decide_eq_true h]
  · rw [if_neg h, decide_eq_false h]
    rfl

/-- The last document at a place is one of them and lies there. -/
theorem last?_eq_some (h : last? root ds names = some d) : d ∈ ds ∧ namesBelow? root d.path = some names := by
  unfold last? at h
  have hnames := List.find?_some h
  exact ⟨List.mem_reverse.1 (List.mem_of_find?_eq_some h), by simpa using hnames⟩

/-- At the place of a document there is a last one. -/
theorem exists_last? (hd : d ∈ ds) (h : namesBelow? root d.path = some names) :
    ∃ d', last? root ds names = some d' :=
  Option.isSome_iff_exists.1 (List.find?_isSome.2 ⟨d, List.mem_reverse.2 hd, decide_eq_true h⟩)

/-- Names are on the way if they are the start of those of a document. -/
theorem onWay_iff : onWay root ds names = true ↔
    ∃ d ∈ ds, ∃ names', namesBelow? root d.path = some names' ∧ names <+: names' := by
  simp only [onWay, List.any_eq_true, Option.any_eq_true, List.isPrefixOf_iff_prefix]

/-- One more document adds its own way. -/
theorem onWay_concat : onWay root (ds ++ [d]) names = true ↔
    onWay root ds names = true ∨ ∃ names', namesBelow? root d.path = some names' ∧ names <+: names' := by
  simp only [onWay_iff, List.mem_append, List.mem_singleton, or_and_right, exists_or, exists_eq_left]

/-- Fewer documents lie apart as well. -/
theorem LiesApart.of_concat (h : LiesApart root (ds ++ [d])) : LiesApart root ds :=
  fun a ha b hb => h a (List.mem_append_left _ ha) b (List.mem_append_left _ hb)

/-! ### Adding documents -/

/-- A document that is outside the root, or is the root, is passed over. -/
theorem addDocument_of_outside (h : namesBelow? m.root d.path = none) : m.addDocument d = m := by
  have hinsert : m.insert d.path d.size = (m, false) := by
    rw [CodeMap.insert]
    -- a path outside the root is refused
    cases hnames : m.names? d.path with
    | none => rfl
    | some names =>
      -- a path without names is the root itself, which is refused
      cases names with
      | nil => rfl
      | cons n names =>
        rw [namesBelow?_eq_some_iff.2 ⟨hnames, List.cons_ne_nil n names⟩] at h
        cases h
  rw [addDocument, hinsert]
  rfl

/-- The file to which the path of a document leads is described. -/
theorem describe?_eq {entries : Table MapNode} (hnames : m.names? d.path = some names)
    (hchange : MapNode.change? (·.describe d) names m.entries = some entries) :
    m.describe? d = some { m with entries } := by
  rw [describe?, hnames, Option.bind_some, hchange]
  rfl

/-- **A document for which there is room** lies at its place, directories lie on the way to it, and all else is
as it was. -/
theorem addDocument_of_placed (hw : WellPlaced m.root m.entries)
    (hnames : namesBelow? m.root d.path = some names)
    (hplaced : (place d.size m.root names m.entries).2 = true) :
    (m.addDocument d).root = m.root ∧ WellPlaced m.root (m.addDocument d).entries ∧
      ∀ ns, what? ns (m.addDocument d).entries =
        if ns = names then some (some (.ofDocument m.root names d))
        else if ns ≠ [] ∧ ns <+: names then some none
        else what? ns m.entries := by
  -- the names of the path are found again
  have hlead : m.names? d.path = some names := (namesBelow?_eq_some_iff.1 hnames).1
  have hadded := MapNode.what?_place hw hplaced
  have hfile : what? names (place d.size m.root names m.entries).1 =
      some (some (.newAt m.root names d.size)) := by
    rw [hadded, if_pos rfl]
  obtain ⟨entries, hchange⟩ := MapNode.exists_change? (·.describe d) hfile
  -- the file that was added is the one that is described
  have hadd : m.addDocument d = { m with entries } := by
    have hinsert : m.insert d.path d.size =
        ({ m with entries := (place d.size m.root names m.entries).1 }, true) := by
      rw [CodeMap.insert, hlead, ← hplaced]
    have hdescribe : ({ m with entries := (place d.size m.root names m.entries).1 } : CodeMap).describe? d =
        some { m with entries } := describe?_eq hlead hchange
    rw [addDocument, hinsert]
    change (CodeMap.describe? _ d).getD _ = _
    rw [hdescribe, Option.getD_some]
  obtain ⟨old, hold, hchanged⟩ := MapNode.what?_change? hchange
  obtain rfl : MapFile.newAt m.root names d.size = old :=
    Option.some.inj (Option.some.inj (hfile.symm.trans hold))
  have hw' : WellPlaced m.root entries := hw.place.change? (f := (·.describe d)) (fun _ => ⟨rfl, rfl⟩) hchange
  rw [hadd]
  refine ⟨rfl, hw', fun ns => ?_⟩
  rw [hchanged, hadded]
  by_cases hns : ns = names
  · rw [if_pos hns, if_pos hns]
    rfl
  · rw [if_neg hns, if_neg hns, if_neg hns]

/-- A document finds room in the map of documents that lie apart from it. -/
theorem Charts.placed (h : Charts root ds m) (hapart : LiesApart root (ds ++ [d]))
    (hnames : namesBelow? root d.path = some names) (size : Nat) :
    (place size root names m.entries).2 = true := by
  have hd : d ∈ ds ++ [d] := List.mem_append_right _ List.mem_cons_self
  refine MapNode.place_placed h.wellPlaced (namesBelow?_eq_some_iff.1 hnames).2 (fun ns f hns hne hfile => ?_)
    fun hdirectory => ?_
  · -- a file on the way is that of a document, which lies above this one
    rw [h.what, chart?] at hfile
    split at hfile
    · next d' hlast =>
      obtain ⟨hd', hns'⟩ := last?_eq_some hlast
      exact hne (hapart d' (List.mem_append_left _ hd') d hd ns names hns' hnames hns)
    · split at hfile
      · cases Option.some.inj hfile
      · cases hfile
  · -- a directory at the place is on the way to a document, which lies below this one
    rw [h.what, chart?] at hdirectory
    split at hdirectory
    · cases Option.some.inj hdirectory
    · next hlast =>
      split at hdirectory
      · next hway =>
        obtain ⟨d', hd', names', hnames', hstart⟩ := onWay_iff.1 hway.2
        obtain rfl := hapart d hd d' (List.mem_append_left _ hd') names names' hnames hnames' hstart
        obtain ⟨d'', hlast'⟩ := exists_last? hd' hnames'
        rw [hlast] at hlast'
        cases hlast'
      · cases hdirectory

/-- A document that lies apart from the others is charted with them. -/
theorem Charts.addDocument (h : Charts root ds m) (hapart : LiesApart root (ds ++ [d])) :
    Charts root (ds ++ [d]) (m.addDocument d) := by
  obtain ⟨rfl, hw, hwhat⟩ := h
  cases hnames : namesBelow? m.root d.path with
  | none =>
    -- a document outside the root adds no place and no way
    rw [addDocument_of_outside hnames]
    refine ⟨rfl, hw, fun ns => ?_⟩
    have hway : onWay m.root (ds ++ [d]) ns = onWay m.root ds ns := by
      rw [Bool.eq_iff_iff, onWay_concat, hnames]
      exact or_iff_left fun ⟨_, he, _⟩ => nomatch he
    have hlast : last? m.root (ds ++ [d]) ns = last? m.root ds ns := by
      rw [last?_concat, hnames, if_neg nofun]
    rw [hwhat, chart?, chart?, hlast, hway]
  | some names =>
    obtain ⟨hroot, hw', hwhat'⟩ := addDocument_of_placed hw hnames
      (Charts.placed ⟨rfl, hw, hwhat⟩ hapart hnames d.size)
    refine ⟨hroot, hw', fun ns => ?_⟩
    rw [hwhat', chart?, last?_concat, hnames]
    -- at its own place the document is the last one
    by_cases hns : ns = names
    · rw [if_pos hns, if_pos (congrArg some hns.symm), hns]
    · rw [if_neg hns, if_neg fun he => hns (Option.some.inj he).symm, hwhat, chart?]
      cases hlast : last? m.root ds ns with
      | some d' =>
        -- no document lies above this one
        obtain ⟨hd', hns'⟩ := last?_eq_some hlast
        rw [if_neg fun hstart => hns (hapart d' (List.mem_append_left _ hd') d
          (List.mem_append_right _ List.mem_cons_self) ns names hns' hnames hstart.2)]
      | none =>
        have hway : onWay m.root (ds ++ [d]) ns = true ↔ onWay m.root ds ns = true ∨ ns <+: names := by
          rw [onWay_concat, hnames]
          simp only [Option.some.injEq, exists_eq_left']
        -- elsewhere it lies on the way to the document, or has nothing to do with it
        by_cases hstart : ns <+: names
        · by_cases hnil : ns = []
          · simp [hnil]
          · rw [if_pos ⟨hnil, hstart⟩, if_pos ⟨hnil, hway.2 (Or.inr hstart)⟩]
        · rw [if_neg fun he => hstart he.2]
          simp only [hway, hstart, or_false]

/-- **The map of documents of which none lies below another one** is told by the documents alone. -/
theorem charts_ofDocuments (h : LiesApart root ds) : Charts root ds (ofDocuments root ds) := by
  induction ds using List.reverseRecOn with
  | nil =>
    refine ⟨rfl, MapNode.wellPlaced_empty root, fun ns => ?_⟩
    exact (MapNode.what?_empty ns).trans (if_neg fun he => Bool.false_ne_true he.2).symm
  | append_singleton ds d ih =>
    have hstep : ofDocuments root (ds ++ [d]) = (ofDocuments root ds).addDocument d :=
      List.foldl_append
    rw [hstep]
    exact (ih h.of_concat).addDocument h

/-- **Where documents lie there is a file** with the facts about the last of them. -/
theorem file?_ofDocuments (h : LiesApart root ds) {path : Path} (hnames : namesBelow? root path = some names) :
    (ofDocuments root ds).file? path = (last? root ds names).map (.ofDocument root names) := by
  obtain ⟨hroot, -, hwhat⟩ := charts_ofDocuments h
  have hlead : (ofDocuments root ds).names? path = some names := by
    rw [names?, hroot]
    exact (namesBelow?_eq_some_iff.1 hnames).1
  rw [file?_eq, hlead, Option.bind_some, hwhat, chart?]
  cases last? root ds names with
  | some d => rfl
  | none =>
    dsimp only
    split <;> rfl

end CodeMap

end CodeSearch
