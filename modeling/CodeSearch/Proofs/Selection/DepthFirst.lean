import CodeSearch.Proofs.Selection.Places
import Mathlib.Data.List.Nodup

/-!
# The order of a walk

A walk keeps the directories that it has yet to visit in a list. What it does with them has a shorter
description, by recursion over the tree (`Entry.gather`): first what a directory gives itself, and then what
the directories in it give, by name, unless the selector passes them over.

* `Selector.walk_invariant` — what every visit keeps, a walk keeps, and in the end it has visited the directories
  that it had yet to visit, each with all that is gathered below it;
* `Selector.walk_gathers` — so whatever every visit adds to, a walk adds what is gathered from these directories,
  one after the other;
* `Entry.mem_gather` — what is gathered comes from the directories to which names lead, such that the selector
  passes none of the directories on the way over;
* `Entry.nodup_ways` — no directory is come to twice.

So `Selector.collect_depthFirst` says which directories are listed, and in which order files are selected.
Directories are told by the names that lead to them from the base, and places are these names with slashes
between them. A file that is judged by its path alone, without a walk, is judged as the walk does it
(`Selector.accepts_iff_mem_files_collect`).
-/

namespace CodeSearch

namespace Text

/-- A name that is added to some goes after another separator. -/
theorem join_concat {names : List String} (hne : names ≠ []) (n : String) :
    join "/" (names ++ [n]) = join "/" names ++ "/" ++ n :=
  join_append hne (List.cons_ne_nil n [])

/-- The text of names is not empty unless there are none. -/
theorem join_ne_empty {names : List String} (hne : names ≠ []) (h : ∀ n ∈ names, n ≠ "") :
    join "/" names ≠ "" := by
  cases names with
  | nil => exact absurd rfl hne
  | cons n names =>
    by_cases hnames : names = []
    · subst hnames
      exact h n List.mem_cons_self
    · -- the separator alone makes a text of two names longer than the empty one
      rw [join_cons hnames]
      intro hempty
      have hlength := congrArg String.length hempty
      rw [String.length_append, String.length_append, String.length_empty] at hlength
      have hslash : "/".length = 1 := rfl
      omega

end Text

/-- Names lead to the base only if there are none. -/
theorem RawText.place_ne_empty {way : List RawText} (hne : way ≠ []) (h : ∀ n ∈ way, Path.IsName n.text) :
    place way ≠ "" :=
  Text.join_ne_empty (mt List.map_eq_nil_iff.1 hne) (List.forall_mem_map.2 fun n hn => (h n hn).ne_empty)

/-- Things that have names, by what is shown of these; those that look the same keep their order. -/
def inNameOrder {α : Type} (xs : List (RawText × α)) : List (RawText × α) :=
  xs.mergeSort fun a b => decide (a.1.text ≤ b.1.text)

@[simp] theorem inNameOrder_nil {α : Type} : inNameOrder ([] : List (RawText × α)) = [] :=
  List.mergeSort_nil

theorem perm_inNameOrder {α : Type} (xs : List (RawText × α)) : (inNameOrder xs).Perm xs :=
  List.mergeSort_perm xs _

/-- What things are does not matter for their order. -/
theorem inNameOrder_map {α β : Type} (f : RawText × α → β) (xs : List (RawText × α)) :
    inNameOrder (xs.map fun x => (x.1, f x)) = (inNameOrder xs).map fun x => (x.1, f x) := by
  unfold inNameOrder
  refine (List.map_mergeSort ?_).symm
  intro a _ b _
  rfl

namespace Entry

/-- A directory is listed in the order of the names that are shown. -/
theorem byName_eq (es : List (RawText × Entry)) : byName es = inNameOrder es := by
  unfold byName inNameOrder
  congr 1
  funext a b
  rw [← decide_not]
  rfl

/-- An entry of a listing weighs no more than the listing. -/
theorem weight_le_of_mem {es : List (RawText × Entry)} {x : RawText × Entry} (h : x ∈ es) :
    x.2.weight ≤ listingWeight es := by
  induction es with
  | nil => cases h
  | cons y r ih =>
    rw [listingWeight]
    rcases List.mem_cons.1 h with rfl | h
    · exact Nat.le_add_right _ _
    · exact Nat.le_trans (ih h) (Nat.le_add_left _ _)

/-- **Induction over a tree.** What holds of a directory if it holds of its entries, of a directory that cannot
be read, and of everything that is no directory, holds of every entry. -/
theorem induction {motive : Entry → Prop} (other : ∀ e, e.listing? = none → motive e)
    (unreadable : motive (.directory none))
    (directory : ∀ es, (∀ x ∈ es, motive x.2) → motive (.directory (some es))) (e : Entry) :
    motive e := by
  match e with
  | .directory (some es) =>
    refine directory es fun x hx => ?_
    -- an entry weighs less than its directory
    have hlt : x.2.weight < (Entry.directory (some es)).weight := by
      rw [weight_directory_some]
      exact Nat.lt_succ_of_le (weight_le_of_mem hx)
    exact induction other unreadable directory x.2
  | .directory none => exact unreadable
  | .file => exact other _ rfl
  | .fileLink => exact other _ rfl
  | .other => exact other _ rfl
termination_by e.weight

/-! ### Trees with names -/

/-- Whether no directory of a tree has two entries whose names look the same. -/
def Distinct (e : Entry) : Prop :=
  ∀ names es, e.Leads names (.directory (some es)) → (es.map fun x => x.1.text).Nodup

section Listing

/-- Whatever is no directory that can be read has no names that could be wrong. -/
theorem wellNamed_leaf {e : Entry} (he : ∀ es, e ≠ .directory (some es)) : e.WellNamed := by
  intro names e' hleads n hn
  cases hleads with
  | refl => cases hn
  | step hc h => exact absurd rfl (he _)

/-- Whatever is no directory that can be read has no names that could be alike. -/
theorem distinct_leaf {e : Entry} (he : ∀ es, e ≠ .directory (some es)) : e.Distinct := by
  intro names es hleads
  cases hleads with
  | refl => exact absurd rfl (he es)
  | step hc h => exact absurd rfl (he _)

variable {es : List (RawText × Entry)} {x : RawText × Entry}

theorem WellNamed.isName (h : (directory (some es)).WellNamed) (hx : x ∈ es) : Path.IsName x.1.text :=
  h [x.1] x.2 (.step hx (.refl x.2)) x.1 List.mem_cons_self

theorem WellNamed.of_mem (h : (directory (some es)).WellNamed) (hx : x ∈ es) : x.2.WellNamed :=
  fun names e' hleads n hn =>
    h (x.1 :: names) e' (.step hx hleads) n (List.mem_cons_of_mem _ hn)

theorem wellNamed_directory (h : ∀ x ∈ es, Path.IsName x.1.text ∧ x.2.WellNamed) :
    (directory (some es)).WellNamed := by
  intro names e' hleads n hn
  cases hleads with
  | refl => cases hn
  | step hc hleads =>
    obtain ⟨hname, hbelow⟩ := h _ hc
    rcases List.mem_cons.1 hn with rfl | hn
    · exact hname
    · exact hbelow _ _ hleads n hn

theorem Distinct.nodup (h : (directory (some es)).Distinct) : (es.map fun x => x.1.text).Nodup :=
  h [] es (.refl _)

theorem Distinct.of_mem (h : (directory (some es)).Distinct) (hx : x ∈ es) : x.2.Distinct :=
  fun names es' hleads => h (x.1 :: names) es' (.step hx hleads)

theorem distinct_directory (hn : (es.map fun x => x.1.text).Nodup) (h : ∀ x ∈ es, x.2.Distinct) :
    (directory (some es)).Distinct := by
  intro names es' hleads
  cases hleads with
  | refl => exact hn
  | step hc hleads => exact h _ hc _ _ hleads

/-- **Names that look the same lead to the same entry**, if no two entries of a directory do. -/
theorem Distinct.eq_of_leads {e e₁ e₂ : Entry} (h : e.Distinct) {names names' : List RawText}
    (h₁ : e.Leads names e₁) (h₂ : e.Leads names' e₂) (heq : names.map RawText.text = names'.map RawText.text) :
    names = names' ∧ e₁ = e₂ := by
  induction h₁ generalizing names' with
  | refl e =>
    obtain rfl := List.map_eq_nil_iff.1 heq.symm
    cases h₂
    exact ⟨rfl, rfl⟩
  | @step es n c e₁ names hc _ ih =>
    obtain ⟨n', names', rfl, hn, hnames⟩ := List.map_eq_cons_iff.1 heq.symm
    -- the first names look the same, so they are of one entry
    cases h₂ with
    | @step _ _ c' _ _ hc' h₂ =>
      obtain ⟨rfl, rfl⟩ := Prod.mk.inj (List.inj_on_of_nodup_map h.nodup hc hc' hn.symm)
      obtain ⟨rfl, rfl⟩ := ih (h.of_mem hc) h₂ hnames.symm
      exact ⟨rfl, rfl⟩

end Listing

/-! ### What is gathered from a tree -/

section Gather

variable {α : Type} (s : Selector) (own : List RawText → Option (List (RawText × Entry)) → List α)

mutual

/-- What is gathered from an entry to which names lead: what a directory gives itself, and then what its
entries give, by name. -/
def gather (way : List RawText) : Entry → List α
  | .directory (some es) => own way (some es) ++ (inNameOrder (gatherBelow way es)).flatMap Prod.snd
  | .directory none => own way none
  | .file | .fileLink | .other => []

/-- What is gathered from each entry of a listing, with its name. A directory that is passed over gives
nothing. -/
def gatherBelow (way : List RawText) : List (RawText × Entry) → List (RawText × List α)
  | [] => []
  | (n, e) :: r =>
    (n, if s.directoryExcluded (RawText.place (way ++ [n])) then [] else gather (way ++ [n]) e) ::
      gatherBelow way r

end

/-- Nothing is gathered from what is no directory. -/
theorem gather_of_listing? {e : Entry} (he : e.listing? = none) (way : List RawText) :
    e.gather s own way = [] := by
  cases e with
  | directory l => cases he
  | file => rfl
  | fileLink => rfl
  | other => rfl

/-- What is gathered from an entry of a directory to which names lead. -/
def gatherFrom (way : List RawText) (x : RawText × Entry) : List α :=
  if s.directoryExcluded (RawText.place (way ++ [x.1])) then [] else x.2.gather s own (way ++ [x.1])

theorem gatherBelow_eq (way : List RawText) (es : List (RawText × Entry)) :
    gatherBelow s own way es = es.map fun x => (x.1, gatherFrom s own way x) := by
  induction es with
  | nil => rfl
  | cons x r ih =>
    rw [gatherBelow, ih]
    rfl

/-- **A directory gives what it has itself, and then what its entries give**, by name. -/
theorem gather_directory (way : List RawText) (l : Option (List (RawText × Entry))) :
    (directory l).gather s own way =
      own way l ++ (inNameOrder (l.getD [])).flatMap (gatherFrom s own way) := by
  cases l with
  | none =>
    rw [gather, Option.getD_none, inNameOrder_nil, List.flatMap_nil, List.append_nil]
  | some es =>
    rw [gather, gatherBelow_eq, inNameOrder_map, List.flatMap_map, Option.getD_some]

/-- What is made of all that is gathered can be made directory by directory. -/
theorem gather_flatMap {β : Type} (f : α → List β) (way : List RawText) (e : Entry) :
    e.gather s (fun way l => (own way l).flatMap f) way = (e.gather s own way).flatMap f := by
  induction e using Entry.induction generalizing way with
  | other e he => rw [gather_of_listing? s _ he, gather_of_listing? s _ he, List.flatMap_nil]
  | unreadable => rfl
  | directory es ih =>
    -- directory by directory, whatever is in one
    rw [gather_directory, gather_directory, List.flatMap_append, List.flatMap_assoc, Option.getD_some]
    refine congrArg _ (List.flatMap_congr fun x hx => ?_)
    have hx' : x ∈ es := (perm_inNameOrder es).mem_iff.1 hx
    rw [gatherFrom, gatherFrom]
    split
    · rfl
    · exact ih x hx' _

end Gather

/-! ### Where it comes from -/

/-- Whether the selector passes over none of the directories to which names lead that continue a way, the
last one included. -/
def Enters (s : Selector) (way names : List RawText) : Prop :=
  ∀ first, first ≠ [] → first <+: names → s.directoryExcluded (RawText.place (way ++ first)) = false

section Enters

variable {s : Selector} {way names : List RawText} {n : RawText}

theorem enters_nil : Enters s way [] :=
  fun _ hne h => absurd (List.prefix_nil.1 h) hne

/-- A way is free if its first directory is not passed over and the rest of it is free. -/
theorem enters_cons : Enters s way (n :: names) ↔
    s.directoryExcluded (RawText.place (way ++ [n])) = false ∧ Enters s (way ++ [n]) names := by
  constructor
  · intro h
    refine ⟨h [n] (List.cons_ne_nil _ _) ⟨names, rfl⟩, fun first hne hfirst => ?_⟩
    have hcons : n :: first <+: n :: names := List.cons_prefix_cons.2 ⟨rfl, hfirst⟩
    have hentered := h (n :: first) (List.cons_ne_nil _ _) hcons
    rwa [List.append_cons] at hentered
  · rintro ⟨hn, h⟩ first hne hfirst
    -- a first part of the way is empty, the one directory, or goes further
    obtain rfl | ⟨rest, rfl, hrest⟩ := List.prefix_cons_iff.1 hfirst
    · exact absurd rfl hne
    · by_cases hnil : rest = []
      · subst hnil
        exact hn
      · rw [List.append_cons]
        exact h rest hnil hrest

end Enters

section Mem

variable {α : Type} {s : Selector} {own : List RawText → Option (List (RawText × Entry)) → List α}

/-- What is gathered from a directory is what it gives itself, or comes from an entry that is not passed over.
-/
theorem mem_gather_directory {way : List RawText} {l : Option (List (RawText × Entry))} {y : α} :
    y ∈ (directory l).gather s own way ↔ y ∈ own way l ∨ ∃ es, l = some es ∧ ∃ x ∈ es,
      s.directoryExcluded (RawText.place (way ++ [x.1])) = false ∧
        y ∈ x.2.gather s own (way ++ [x.1]) := by
  -- an entry that is passed over gives nothing
  have hfrom : ∀ x, y ∈ gatherFrom s own way x ↔
      s.directoryExcluded (RawText.place (way ++ [x.1])) = false ∧
        y ∈ x.2.gather s own (way ++ [x.1]) := by
    intro x
    unfold gatherFrom
    cases s.directoryExcluded (RawText.place (way ++ [x.1])) <;> simp
  rw [gather_directory, List.mem_append, List.mem_flatMap]
  refine or_congr_right ?_
  constructor
  · rintro ⟨x, hx, hy⟩
    have hx' : x ∈ l.getD [] := (perm_inNameOrder _).mem_iff.1 hx
    cases l with
    | none => cases hx'
    | some es => exact ⟨es, rfl, x, hx', (hfrom x).1 hy⟩
  · rintro ⟨es, rfl, x, hx, hy⟩
    exact ⟨x, (perm_inNameOrder _).mem_iff.2 hx, (hfrom x).2 hy⟩

/-- **What is gathered** is what the directories give to which names lead, unless a directory on the way is
passed over. -/
theorem mem_gather {e : Entry} {way : List RawText} {y : α} :
    y ∈ e.gather s own way ↔ ∃ names l, e.Leads names (.directory l) ∧ Enters s way names ∧
      y ∈ own (way ++ names) l := by
  constructor
  · intro h
    -- what comes from an entry has a way that begins with its name
    induction e using Entry.induction generalizing way with
    | other e he =>
      rw [gather_of_listing? s own he] at h
      cases h
    | unreadable => exact ⟨[], none, .refl _, enters_nil, (List.append_nil way).symm ▸ h⟩
    | directory es ih =>
      rcases mem_gather_directory.1 h with h | ⟨es', hes, x, hx, hex, h⟩
      · exact ⟨[], some es, .refl _, enters_nil, (List.append_nil way).symm ▸ h⟩
      · cases hes
        obtain ⟨names, l, hleads, henters, hy⟩ := ih x hx h
        refine ⟨x.1 :: names, l, .step hx hleads, enters_cons.2 ⟨hex, henters⟩, ?_⟩
        rwa [List.append_cons]
  · rintro ⟨names, l, hleads, henters, hy⟩
    -- along the way from the other side
    induction names generalizing e way with
    | nil =>
      cases hleads
      rw [List.append_nil] at hy
      exact mem_gather_directory.2 (Or.inl hy)
    | cons n names ih =>
      cases hleads with
      | step hc hleads =>
        obtain ⟨hex, henters⟩ := enters_cons.1 henters
        rw [List.append_cons] at hy
        exact mem_gather_directory.2 (Or.inr ⟨_, rfl, _, hc, hex, ih hleads henters hy⟩)

end Mem

/-- The directories of a tree that are not passed over, with the ways to them and what is listed of them, in the
order in which a walk comes to them. -/
def visited (s : Selector) (way : List RawText) (e : Entry) :
    List (List RawText × Option (List (RawText × Entry))) :=
  e.gather s (fun way l => [(way, l)]) way

/-- The ways to the directories of a tree that are not passed over, in the order in which a walk comes to
them. -/
def ways (s : Selector) (way : List RawText) (e : Entry) : List (List RawText) :=
  e.gather s (fun way _ => [way]) way

section Visited

variable {s : Selector} {e : Entry}

/-- What is gathered is what the visited directories give, one after the other. -/
theorem gather_eq_flatMap {α : Type} (s : Selector)
    (own : List RawText → Option (List (RawText × Entry)) → List α) (way : List RawText) (e : Entry) :
    e.gather s own way = (e.visited s way).flatMap fun w => own w.1 w.2 := by
  rw [visited, ← gather_flatMap]
  simp only [List.flatMap_singleton]

theorem map_fst_visited (way : List RawText) : (e.visited s way).map Prod.fst = e.ways s way := by
  rw [ways, gather_eq_flatMap, List.map_eq_flatMap]

/-- **The visited directories** are those to which names lead, unless a directory on the way is passed over. -/
theorem mem_visited {w : List RawText × Option (List (RawText × Entry))} :
    w ∈ e.visited s [] ↔ e.Leads w.1 (.directory w.2) ∧ Enters s [] w.1 := by
  unfold visited
  rw [mem_gather]
  constructor
  · rintro ⟨way, l, hleads, henters, hmem⟩
    rw [List.mem_singleton.1 hmem]
    exact ⟨hleads, henters⟩
  · rintro ⟨hleads, henters⟩
    exact ⟨w.1, w.2, hleads, henters, List.mem_singleton.2 rfl⟩

/-- The ways are those to directories that are not passed over. -/
theorem mem_ways {names : List RawText} :
    names ∈ e.ways s [] ↔ ∃ l, e.Leads names (.directory l) ∧ Enters s [] names := by
  rw [← map_fst_visited, List.mem_map]
  constructor
  · rintro ⟨w, hw, rfl⟩
    exact ⟨w.2, mem_visited.1 hw⟩
  · rintro ⟨l, h⟩
    exact ⟨(names, l), mem_visited.2 h, rfl⟩

end Visited

/-- **No directory is come to twice.** -/
theorem nodup_ways {s : Selector} {e : Entry} (he : e.Distinct) (way : List RawText) :
    (e.ways s way).Nodup := by
  induction e using Entry.induction generalizing way with
  | other e hother =>
    rw [ways, gather_of_listing? s _ hother]
    exact List.nodup_nil
  | unreadable => exact List.nodup_singleton way
  | directory es ih =>
    -- the way to whatever lies in an entry goes on with the name of the entry
    have hway : ∀ x, ∀ w ∈ gatherFrom s (fun way _ => [way]) way x, ∃ names, w = way ++ x.1 :: names := by
      intro x w hw
      unfold gatherFrom at hw
      split at hw
      · cases hw
      · obtain ⟨names, l, -, -, hmem⟩ := mem_gather.1 hw
        refine ⟨names, ?_⟩
        rw [List.mem_singleton.1 hmem, List.append_assoc]
        rfl
    unfold ways
    rw [gather_directory, List.nodup_append]
    refine ⟨List.nodup_singleton way, ?_, ?_⟩
    · rw [List.nodup_flatMap]
      constructor
      · intro x hx
        have hx' : x ∈ es := (perm_inNameOrder es).mem_iff.1 hx
        unfold gatherFrom
        split
        · exact List.nodup_nil
        · -- two ways through one entry differ further on
          exact ih x hx' (he.of_mem hx') _
      · -- entries of one directory differ in their names
        have hnodup : ((inNameOrder es).map fun x => x.1.text).Nodup :=
          ((perm_inNameOrder es).map fun x => x.1.text).nodup_iff.2 he.nodup
        refine (List.pairwise_map.1 hnodup).imp fun {x y} hne w hx hy => ?_
        obtain ⟨names, rfl⟩ := hway x w hx
        obtain ⟨names', hnames⟩ := hway y _ hy
        exact hne (congrArg RawText.text (List.cons.inj (List.append_cancel_left hnames)).1)
    · -- the directory itself is not below one of its entries
      intro w hw w' hw' heq
      obtain ⟨x, -, hmem⟩ := List.mem_flatMap.1 hw'
      obtain ⟨names, rfl⟩ := hway x w' hmem
      rw [List.mem_singleton.1 hw] at heq
      exact List.cons_ne_nil _ _ (List.self_eq_append_right.1 heq)

end Entry

namespace Selector

variable (s : Selector) (base : Path)

/-- The directory to which names lead from a base, as a walk keeps it. -/
def pendingAt (way : List RawText) (l : Option (List (RawText × Entry))) : Pending :=
  { path := base.belowRaw way, place := RawText.place way, listing := l }

/-- The files that are taken from the directory to which names lead from a base, by name. -/
def filesIn (way : List RawText) (l : Option (List (RawText × Entry))) : List Path :=
  ((inNameOrder (l.getD [])).filter fun x =>
    x.2.isFile && s.fileIncluded (RawText.place (way ++ [x.1]))).map fun x =>
      base.belowRaw (way ++ [x.1])

/-- The directory that an entry is, with the way to it, unless it is passed over. -/
def onwardEntry (way : List RawText) (x : RawText × Entry) :
    Option (List RawText × Option (List (RawText × Entry))) :=
  if s.directoryExcluded (RawText.place (way ++ [x.1])) then none
  else x.2.listing?.map fun l => (way ++ [x.1], l)

/-- The directories in the directory to which names lead that are not passed over, by name, with the ways
to them. -/
def onward (way : List RawText) (l : Option (List (RawText × Entry))) :
    List (List RawText × Option (List (RawText × Entry))) :=
  (inNameOrder (l.getD [])).filterMap (s.onwardEntry way)

/-! ### One visit -/

section Visit

variable {way : List RawText} (hway : ∀ n ∈ way, Path.IsName n.text)

include hway

/-- The place of an entry is made of the names that lead to it. -/
theorem child_place (n : RawText) : child (RawText.place way) n.text = RawText.place (way ++ [n]) := by
  have happend : RawText.place (way ++ [n]) = Text.join "/" (way.map RawText.text ++ [n.text]) :=
    congrArg (Text.join "/") List.map_append
  by_cases hnil : way = []
  · subst hnil
    rfl
  · have hnil' : way.map RawText.text ≠ [] := mt List.map_eq_nil_iff.1 hnil
    rw [child, if_neg (RawText.place_ne_empty hnil hway), happend, Text.join_concat hnil']
    rfl

variable (l : Option (List (RawText × Entry)))

theorem taken_pendingAt : s.taken (pendingAt base way l) = s.filesIn base way l := by
  unfold taken filesIn Pending.files Pending.entries Entry.files pendingAt
  dsimp only
  rw [Entry.byName_eq, List.map_map, List.filter_map, List.filter_filter, List.map_map]
  simp only [Function.comp_def, child_place hway, ← Path.belowRaw_concat]
  refine congrArg _ (List.filter_congr fun x _ => ?_)
  exact Bool.and_comm _ _

theorem directories_pendingAt :
    (pendingAt base way l).directories =
      (Entry.directories (inNameOrder (l.getD []))).map fun d => pendingAt base (way ++ [d.1]) d.2 := by
  unfold Pending.directories Pending.entries
  rw [Entry.byName_eq]
  refine List.map_congr_left fun d _ => ?_
  change Pending.child _ d.1 d.2 = _
  rw [Pending.child, pendingAt, pendingAt, child_place hway, Path.belowRaw_concat]

/-- The directories that a visit puts in line are those in it that are not passed over. -/
theorem entered_pendingAt :
    s.entered (pendingAt base way l) = (s.onward way l).map fun w => pendingAt base w.1 w.2 := by
  rw [entered, directories_pendingAt base hway, onward, Entry.directories]
  induction inNameOrder (l.getD []) with
  | nil => rfl
  | cons x r ih =>
    have hplace : ∀ l', (pendingAt base (way ++ [x.1]) l').place = RawText.place (way ++ [x.1]) :=
      fun _ => rfl
    rw [List.filterMap_cons, List.filterMap_cons, onwardEntry]
    cases x.2.listing? with
    -- what is no directory is put in line by neither
    | none => cases s.directoryExcluded (RawText.place (way ++ [x.1])) <;> exact ih
    | some l' =>
      rw [Option.map_some, List.map_cons, List.filter_cons, hplace]
      cases s.directoryExcluded (RawText.place (way ++ [x.1])) with
      | true => exact ih
      | false => exact congrArg (pendingAt base (way ++ [x.1]) l' :: ·) ih

end Visit

/-- What is gathered from the entries of a directory is what is gathered from the directories in it. -/
theorem flatMap_onward {α : Type} (own : List RawText → Option (List (RawText × Entry)) → List α)
    (way : List RawText) (l : Option (List (RawText × Entry))) :
    (s.onward way l).flatMap (fun w => (Entry.directory w.2).gather s own w.1) =
      (inNameOrder (l.getD [])).flatMap (Entry.gatherFrom s own way) := by
  unfold onward
  induction inNameOrder (l.getD []) with
  | nil => rfl
  | cons x r ih =>
    rw [List.filterMap_cons, onwardEntry, List.flatMap_cons, Entry.gatherFrom]
    -- an entry that is passed over gives nothing, and neither does one that is no directory
    cases s.directoryExcluded (RawText.place (way ++ [x.1])) with
    | true => exact ih
    | false =>
      obtain ⟨n, e⟩ := x
      cases e with
      | directory l' => exact congrArg _ ih
      | file => exact ih
      | fileLink => exact ih
      | other => exact ih

/-- What is put in line is an entry of the directory, under its name. -/
theorem mem_onward {way : List RawText} {l : Option (List (RawText × Entry))}
    {w : List RawText × Option (List (RawText × Entry))} (hw : w ∈ s.onward way l) :
    ∃ es n, l = some es ∧ (n, .directory w.2) ∈ es ∧ w.1 = way ++ [n] := by
  obtain ⟨⟨n, e⟩, hx, honward⟩ := List.mem_filterMap.1 hw
  have hx' : (n, e) ∈ l.getD [] := (perm_inNameOrder _).mem_iff.1 hx
  unfold onwardEntry at honward
  split at honward
  · cases honward
  · cases l with
    | none => cases hx'
    | some es =>
      cases e with
      | directory l' =>
        obtain rfl := Option.some.inj honward
        exact ⟨es, n, rfl, hx', rfl⟩
      | file => cases honward
      | fileLink => cases honward
      | other => cases honward

/-! ### Whole walks -/

/-- Whether a directory that has yet to be visited, and all that lies below it, is come to by names. -/
def Named (w : List RawText × Option (List (RawText × Entry))) : Prop :=
  (∀ n ∈ w.1, Path.IsName n.text) ∧ (Entry.directory w.2).WellNamed

/-- Names lead on from a directory to the directories in it. -/
theorem Named.onward {w : List RawText × Option (List (RawText × Entry))} (hw : Named w) :
    ∀ w' ∈ s.onward w.1 w.2, Named w' := by
  obtain ⟨way, l⟩ := w
  obtain ⟨hway, hnamed⟩ := hw
  intro w' hw'
  -- a name is added to the names that led to the directory
  obtain ⟨es, n, rfl, hmem, hway'⟩ := s.mem_onward hw'
  refine ⟨?_, hnamed.of_mem hmem⟩
  rw [hway']
  intro m hm
  rcases List.mem_append.1 hm with hm | hm
  · exact hway m hm
  · rw [List.mem_singleton.1 hm]
    exact hnamed.isName hmem

/-- A directory is visited before the directories in it, and with each of these all that lies below it. -/
theorem visited_directory (way : List RawText) (l : Option (List (RawText × Entry))) :
    (Entry.directory l).visited s way =
      [(way, l)] ++ (s.onward way l).flatMap fun w => (Entry.directory w.2).visited s w.1 := by
  unfold Entry.visited
  rw [Entry.gather_directory, ← flatMap_onward]

/-- **What every visit keeps, a walk keeps.** A visit takes the first of the directories that have yet to be
visited, and puts those in it that are not passed over in its place. In the end nothing is left, and visited were
the directories that were to be visited with those that were come to from them. -/
theorem walk_invariant
    {P : List (List RawText × Option (List (RawText × Entry))) →
      List (List RawText × Option (List (RawText × Entry))) → Selection → Prop}
    (hvisit : ∀ visited w rest found, (∀ n ∈ w.1, Path.IsName n.text) → P visited (w :: rest) found →
      P (visited ++ [w]) (s.onward w.1 w.2 ++ rest) (s.visit (pendingAt base w.1 w.2) found))
    {visited ws : List (List RawText × Option (List (RawText × Entry)))} (hws : ∀ w ∈ ws, Named w)
    {found : Selection} (h : P visited ws found) :
    P (visited ++ ws.flatMap fun w => (Entry.directory w.2).visited s w.1) []
      (s.walk (ws.map fun w => pendingAt base w.1 w.2) found) := by
  -- along the recursion of the walk, with whatever was visited and found before
  generalize hpending : (ws.map fun w => pendingAt base w.1 w.2) = pending
  induction pending, found using walk.induct s generalizing ws visited with
  | case1 found =>
    obtain rfl := List.map_eq_nil_iff.1 hpending
    rw [walk, List.flatMap_nil, List.append_nil]
    exact h
  | case2 found p ps ih =>
    -- the first in line is visited, and the directories in it come before the others
    obtain ⟨w, rest, rfl, rfl, rfl⟩ := List.map_eq_cons_iff.1 hpending
    obtain ⟨hw, hrest⟩ := List.forall_mem_cons.1 hws
    have hnext := ih (List.forall_mem_append.2 ⟨hw.onward s, hrest⟩) (hvisit _ _ _ _ hw.1 h)
      (by rw [List.map_append, s.entered_pendingAt base hw.1])
    rw [List.flatMap_append, ← List.append_assoc, List.append_assoc visited] at hnext
    rw [walk, List.flatMap_cons, visited_directory, ← List.append_assoc]
    exact hnext

/-- **What a walk adds to.** If every visit adds what its directory gives, then a walk adds what is gathered
from the directories that it has yet to visit. -/
theorem walk_gathers {α : Type} (out : Selection → List α)
    (own : List RawText → Option (List (RawText × Entry)) → List α)
    (hvisit : ∀ way l found, (∀ n ∈ way, Path.IsName n.text) →
      out (s.visit (pendingAt base way l) found) = out found ++ own way l)
    (ws : List (List RawText × Option (List (RawText × Entry)))) (hws : ∀ w ∈ ws, Named w)
    (found : Selection) :
    out (s.walk (ws.map fun w => pendingAt base w.1 w.2) found) =
      out found ++ ws.flatMap fun w => (Entry.directory w.2).gather s own w.1 := by
  -- nothing was visited before
  have hbegin : out found = out found ++ ([] : List (List RawText × Option (List (RawText × Entry)))).flatMap
      fun w => own w.1 w.2 := (List.append_nil _).symm
  have hwalk := s.walk_invariant base
    (P := fun visited _ found' => out found' = out found ++ visited.flatMap fun w => own w.1 w.2)
    (fun visited w rest found' hway h => by
      rw [hvisit _ _ _ hway, h, List.flatMap_append, List.flatMap_singleton, List.append_assoc])
    hws hbegin
  rw [hwalk, List.nil_append, List.flatMap_assoc]
  exact congrArg _ (List.flatMap_congr fun w _ => (Entry.gather_eq_flatMap s own w.1 _).symm)

/-! ### What is selected from a directory -/

section Collect

variable {l : Option (List (RawText × Entry))} (hnamed : (Entry.directory l).WellNamed)

include hnamed

/-- What a walk from a directory adds to is gathered from the tree below it. -/
theorem walk_eq_gather {α : Type} (out : Selection → List α)
    (own : List RawText → Option (List (RawText × Entry)) → List α) (hempty : out {} = [])
    (hvisit : ∀ way l found, (∀ n ∈ way, Path.IsName n.text) →
      out (s.visit (pendingAt base way l) found) = out found ++ own way l) :
    out (s.walk [{ path := base, place := "", listing := l }] {}) =
      (Entry.directory l).gather s own [] := by
  have hwalk := s.walk_gathers base out own hvisit [([], l)]
    (List.forall_mem_singleton.2 ⟨fun n hn => absurd hn List.not_mem_nil, hnamed⟩) {}
  rw [hempty, List.nil_append, List.flatMap_singleton] at hwalk
  exact hwalk

theorem files_collect :
    (s.collect base (some (.directory l))).files =
      (Entry.directory l).gather s (s.filesIn base) [] := by
  refine s.walk_eq_gather base hnamed Selection.files _ rfl fun way l' found hway => ?_
  rw [← s.taken_pendingAt base hway l']
  rfl

/-- A directory without directories gives the files in it that are taken. -/
theorem files_collect_of_flat (hflat : ∀ x ∈ l.getD [], x.2.listing? = none) :
    (s.collect base (some (.directory l))).files = s.filesIn base [] l := by
  rw [s.files_collect base hnamed, Entry.gather_directory, List.flatMap_eq_nil_iff.2, List.append_nil]
  intro x hx
  rw [Entry.gatherFrom, Entry.gather_of_listing? s _ (hflat x ((perm_inNameOrder _).mem_iff.1 hx)), ite_self]

theorem listed_collect :
    (s.collect base (some (.directory l))).listed = ((Entry.directory l).ways s []).map base.belowRaw := by
  have hgather : (s.collect base (some (.directory l))).listed =
      (Entry.directory l).gather s (fun way _ => [base.belowRaw way]) [] :=
    s.walk_eq_gather base hnamed Selection.listed _ rfl fun _ _ _ _ => rfl
  rw [hgather, Entry.gather_eq_flatMap, ← Entry.map_fst_visited, List.map_map, List.map_eq_flatMap]
  rfl

/-- **A walk is the recursion over the tree.** Of a directory whose entries have names, each of its own:

* the files that are selected are gathered directory by directory, where each directory gives its own files
  that are taken, by name, and then what the directories in it give, by name;
* no directory is listed twice, and the listed ones are those to which names lead through directories that can
  be read and are not passed over. -/
theorem collect_depthFirst (hdistinct : (Entry.directory l).Distinct) :
    (s.collect base (some (.directory l))).files =
        (Entry.directory l).gather s (s.filesIn base) [] ∧
      ((s.collect base (some (.directory l))).listed.map Path.components).Nodup ∧
      ∀ path, path ∈ (s.collect base (some (.directory l))).listed ↔
        ∃ names l', (Entry.directory l).Leads names (.directory l') ∧ Entry.Enters s [] names ∧
          path = base.belowRaw names := by
  refine ⟨s.files_collect base hnamed, ?_, fun path => ?_⟩
  · -- each directory is listed for one way
    rw [s.listed_collect base hnamed, List.map_map]
    refine List.Nodup.map_on (fun way hway way' hway' heq => ?_) (Entry.nodup_ways hdistinct [])
    obtain ⟨l', hleads, -⟩ := Entry.mem_ways.1 hway
    obtain ⟨l'', hleads', -⟩ := Entry.mem_ways.1 hway'
    -- the names are found again in the components of the path
    exact Path.eq_of_components_belowRaw (hnamed _ _ hleads) (hnamed _ _ hleads') heq
  · rw [s.listed_collect base hnamed, List.mem_map]
    constructor
    · rintro ⟨way, hway, rfl⟩
      obtain ⟨l', hleads, henters⟩ := Entry.mem_ways.1 hway
      exact ⟨way, l', hleads, henters, rfl⟩
    · rintro ⟨way, l', hleads, henters, rfl⟩
      exact ⟨way, Entry.mem_ways.2 ⟨l', hleads, henters⟩, rfl⟩

end Collect

/-- A selector that takes Rust files and passes over `out`. -/
def rustSelector : Selector :=
  .ofSettings { excludeDirs := ["out/"], excludeFiles := [], extensions := ["rs"] }

/-- A directory with a link to a file and a directory that cannot be read. -/
def binSources : List (RawText × Entry) :=
  [("x", .directory none), ("main.rs", .fileLink), ("notes", .file)]

/-- Some files in directories, of which one is passed over. -/
def rustSources : List (RawText × Entry) :=
  [("lib.rs", .file), ("out", .directory (some [("gen.rs", .file)])),
    ("bin", .directory (some binSources)), ("pipe", .other)]

theorem bin_mem_rustSources : (.ofText "bin", .directory (some binSources)) ∈ rustSources :=
  .tail _ (.tail _ List.mem_cons_self)

theorem wellNamed_rustSources : (Entry.directory (some rustSources)).WellNamed := by
  have hfile : Entry.file.WellNamed := Entry.wellNamed_leaf fun es h => by cases h
  have hlink : Entry.fileLink.WellNamed := Entry.wellNamed_leaf fun es h => by cases h
  have hother : Entry.other.WellNamed := Entry.wellNamed_leaf fun es h => by cases h
  have hlocked : (Entry.directory none).WellNamed := Entry.wellNamed_leaf fun es h => by cases h
  have hout : (Entry.directory (some [("gen.rs", .file)])).WellNamed :=
    Entry.wellNamed_directory (by simpa [hfile] using by decide)
  have hbin : (Entry.directory (some binSources)).WellNamed :=
    Entry.wellNamed_directory (by simpa [binSources, hlocked, hlink, hfile] using by decide)
  exact Entry.wellNamed_directory (by simpa [rustSources, hfile, hout, hbin, hother] using by decide)

theorem distinct_rustSources : (Entry.directory (some rustSources)).Distinct := by
  have hfile : Entry.file.Distinct := Entry.distinct_leaf fun es h => by cases h
  have hlink : Entry.fileLink.Distinct := Entry.distinct_leaf fun es h => by cases h
  have hother : Entry.other.Distinct := Entry.distinct_leaf fun es h => by cases h
  have hlocked : (Entry.directory none).Distinct := Entry.distinct_leaf fun es h => by cases h
  have hout : (Entry.directory (some [("gen.rs", .file)])).Distinct :=
    Entry.distinct_directory (by decide) (by simpa using hfile)
  have hbin : (Entry.directory (some binSources)).Distinct :=
    Entry.distinct_directory (by decide) (by simp [binSources, hlocked, hlink, hfile])
  exact Entry.distinct_directory (by decide) (by simp [rustSources, hfile, hout, hbin, hother])

theorem inNameOrder_rustSources : inNameOrder rustSources =
    ([("bin", .directory (some binSources)), ("lib.rs", .file), ("out", .directory (some [("gen.rs", .file)])),
      ("pipe", .other)] : List (RawText × Entry)) := by
  simp [rustSources, inNameOrder, List.mergeSort]

theorem inNameOrder_binSources :
    inNameOrder binSources =
      ([("main.rs", .fileLink), ("notes", .file), ("x", .directory none)] : List (RawText × Entry)) := by
  simp [binSources, inNameOrder, List.mergeSort]

/-- The directory that is passed over is not visited, and the one that cannot be read is. -/
theorem visited_rustSources : (Entry.directory (some rustSources)).visited rustSelector [] =
    [([], some rustSources), ([.ofText "bin"], some binSources), ([.ofText "bin", .ofText "x"], none)] := by
  have hout : rustSelector.directoryExcluded "out" = true := by
    decide +kernel
  have hbin : rustSelector.directoryExcluded "bin" = false := by
    decide +kernel
  have hx : rustSelector.directoryExcluded (RawText.place [.ofText "bin", .ofText "x"]) = false := by
    decide +kernel
  -- no more than these directories are put in line
  have honward : rustSelector.onward [] (some rustSources) = [([.ofText "bin"], some binSources)] := by
    simp [onward, inNameOrder_rustSources, onwardEntry, hout, hbin, Entry.listing?]
  have honwardBin : rustSelector.onward [.ofText "bin"] (some binSources) =
      [([.ofText "bin", .ofText "x"], none)] := by
    simp [onward, inNameOrder_binSources, onwardEntry, hx, Entry.listing?]
  have honwardNone : rustSelector.onward [.ofText "bin", .ofText "x"] none = [] := by
    simp [onward]
  rw [visited_directory, honward, List.flatMap_singleton, visited_directory, honwardBin, List.flatMap_singleton,
    visited_directory, honwardNone]
  rfl

theorem filesIn_rustSources : rustSelector.filesIn ⟨"p"⟩ [] (some rustSources) = [⟨"p/lib.rs"⟩] := by
  rw [filesIn, Option.getD_some, inNameOrder_rustSources]
  decide +kernel

theorem filesIn_binSources : rustSelector.filesIn ⟨"p"⟩ ["bin"] (some binSources) = [⟨"p/bin/main.rs"⟩] := by
  rw [filesIn, Option.getD_some, inNameOrder_binSources]
  decide +kernel

theorem gather_rustSources :
    (Entry.directory (some rustSources)).gather rustSelector (rustSelector.filesIn ⟨"p"⟩) [] =
      [⟨"p/lib.rs"⟩, ⟨"p/bin/main.rs"⟩] := by
  have hnone : rustSelector.filesIn ⟨"p"⟩ ["bin", "x"] none = [] := by
    simp [filesIn]
  rw [Entry.gather_eq_flatMap, visited_rustSources, List.flatMap_cons, List.flatMap_cons, List.flatMap_singleton,
    filesIn_rustSources, filesIn_binSources, hnone]
  rfl

/-- What is passed over is not found, and a directory that cannot be read is still asked for. -/
theorem collect_rustSources :
    (rustSelector.collect ⟨"p"⟩ (some (.directory (some rustSources)))).files =
        [⟨"p/lib.rs"⟩, ⟨"p/bin/main.rs"⟩] ∧
      ⟨"p/bin/x"⟩ ∈ (rustSelector.collect ⟨"p"⟩ (some (.directory (some rustSources)))).listed := by
  obtain ⟨hfiles, -, hlisted⟩ :=
    collect_depthFirst rustSelector ⟨"p"⟩ wellNamed_rustSources distinct_rustSources
  refine ⟨hfiles.trans gather_rustSources, (hlisted _).2 ⟨["bin", "x"], none, ?_, ?_, ?_⟩⟩
  · exact .step bin_mem_rustSources (.step List.mem_cons_self (.refl _))
  · exact Entry.enters_cons.2 ⟨by decide +kernel,
      Entry.enters_cons.2 ⟨by decide +kernel, Entry.enters_nil⟩⟩
  · decide +kernel

/-! ### Judging a file by its path -/

/-- **A selector accepts the files that a walk from the base finds**, and no other file to which names lead
from there. -/
theorem accepts_iff_mem_files_collect {l : Option (List (RawText × Entry))}
    (hnamed : (Entry.directory l).WellNamed) {names : List RawText} {e : Entry}
    (hleads : (Entry.directory l).Leads names e) (hfile : e.isFile = true) :
    s.accepts base (base.belowRaw names) = true ↔
      base.belowRaw names ∈ (s.collect base (some (.directory l))).files := by
  -- on both sides it is whether the selector accepts the path
  rw [s.mem_files_collect_iff base hnamed]
  constructor
  · intro haccepts
    refine ⟨names, e, ?_, hleads, hfile, haccepts, rfl⟩
    -- no names lead to the directory itself, which is no file
    rintro rfl
    cases hleads
    cases hfile
  · rintro ⟨_, _, _, _, _, haccepts, _⟩
    exact haccepts

/-- The same is said of a file that is taken and of one below a directory that is passed over. -/
theorem accepts_rustSources :
    ⟨"p/bin/main.rs"⟩ ∈ (rustSelector.collect ⟨"p"⟩ (some (.directory (some rustSources)))).files ∧
      ⟨"p/out/gen.rs"⟩ ∉ (rustSelector.collect ⟨"p"⟩ (some (.directory (some rustSources)))).files := by
  have hmain : (Entry.directory (some rustSources)).Leads ["bin", "main.rs"] .fileLink :=
    .step bin_mem_rustSources (.step (.tail _ List.mem_cons_self) (.refl _))
  have hgen : (Entry.directory (some rustSources)).Leads ["out", "gen.rs"] .file :=
    .step (.tail _ List.mem_cons_self) (.step List.mem_cons_self (.refl _))
  have htaken := accepts_iff_mem_files_collect rustSelector ⟨"p"⟩ wellNamed_rustSources hmain rfl
  have hleft := accepts_iff_mem_files_collect rustSelector ⟨"p"⟩ wellNamed_rustSources hgen rfl
  have hmainPath : Path.belowRaw ⟨"p"⟩ ["bin", "main.rs"] = ⟨"p/bin/main.rs"⟩ := by decide +kernel
  have hgenPath : Path.belowRaw ⟨"p"⟩ ["out", "gen.rs"] = ⟨"p/out/gen.rs"⟩ := by decide +kernel
  rw [hmainPath] at htaken
  rw [hgenPath] at hleft
  refine ⟨htaken.1 (by decide +kernel), fun h => absurd (hleft.2 h) (by decide +kernel)⟩

end Selector

end CodeSearch
