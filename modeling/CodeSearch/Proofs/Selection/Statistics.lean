import CodeSearch.Proofs.Selection.DepthFirst
import CodeSearch.Proofs.Tables
import Mathlib.Algebra.GroupWithZero.Nat

/-!
# The statistics of a selection add up

A walk counts at different moments: a directory that is passed over when it is seen and any other one when it is
visited, a file when it is seen, and the files that are taken when their directory is finished. So directories do not
balance while some are pending, and what every visit keeps (`Selector.Tallied.visit`) speaks of these too: every
directory that was seen, and the base, was visited, was passed over or is pending. In the end nothing is pending
(`Selector.tallied_collect`).

The files that are taken are counted once more directory by directory, in a table, where a count takes the place of
one that has the same key. That no count is lost (`Selector.perm_takenCounts`) needs that no directory is visited
twice, and that no two directories have one place: what is shown of the names is found again in a place
(`Selector.placeOf_inj`), since there are no slashes in names and no directory is called by the dot that stands for the
base, and no two entries of a directory look the same.

`Selector.statistics_collect` puts this together.
-/

namespace CodeSearch

namespace Entry

/-- How many of the entries of a directory are directories. One that cannot be read counts as empty. -/
def directoryCount (l : Option (List (RawText × Entry))) : Nat :=
  (l.getD []).countP fun x => x.2.listing?.isSome

/-- How many of the entries of a directory are files. -/
def fileCount (l : Option (List (RawText × Entry))) : Nat := (l.getD []).countP fun x => x.2.isFile

/-- There are as many directories as entries that have a listing. -/
theorem length_directories (es : List (RawText × Entry)) :
    (directories es).length = es.countP fun x => x.2.listing?.isSome := by
  rw [directories, List.length_filterMap_eq_countP]
  refine List.countP_congr fun x _ => ?_
  rw [Option.isSome_map]

/-- There are as many files as entries that are files. -/
theorem length_files (es : List (RawText × Entry)) : (files es).length = es.countP fun x => x.2.isFile := by
  rw [files, List.length_map, List.countP_eq_length_filter]

end Entry

namespace Selector

variable (s : Selector) (base : Path)

/-- The place of a directory as its files are counted: a dot is the base. -/
def placeOf (way : List RawText) : String := if way = [] then "." else RawText.place way

/-- How many files are taken from each of some directories, those that give none left out. -/
def takenCounts (visited : List (List RawText × Option (List (RawText × Entry)))) : List (String × Nat) :=
  (visited.filter fun w => !(s.filesIn base w.1 w.2).isEmpty).map fun w =>
    (placeOf w.1, (s.filesIn base w.1 w.2).length)

/-! ### What every visit keeps -/

/-- The files of a directory are counted before the selector is asked. -/
theorem length_files_pendingAt (way : List RawText) (l : Option (List (RawText × Entry))) :
    (pendingAt base way l).files.length = Entry.fileCount l := by
  rw [Pending.files, List.length_map, Entry.length_files, Pending.entries, Entry.byName_eq]
  exact (perm_inNameOrder _).countP_eq _

/-- The directories in a directory are counted before the selector is asked. -/
theorem length_directories_pendingAt (way : List RawText) (l : Option (List (RawText × Entry))) :
    (pendingAt base way l).directories.length = Entry.directoryCount l := by
  rw [Pending.directories, List.length_map, Entry.length_directories, Pending.entries, Entry.byName_eq]
  exact (perm_inNameOrder _).countP_eq _

/-- The place of a directory is the key under which a walk counts its files. -/
theorem key_pendingAt {way : List RawText} (hway : ∀ n ∈ way, Path.IsName n.text)
    (l : Option (List (RawText × Entry))) :
    (if (pendingAt base way l).place = "" then "." else (pendingAt base way l).place) = placeOf way := by
  unfold placeOf pendingAt
  by_cases hnil : way = []
  · subst hnil
    rfl
  · rw [if_neg hnil, if_neg (RawText.place_ne_empty hnil hway)]

/-- What a walk has counted when some directories are visited and others are pending. -/
structure Tallied (visited pending : List (List RawText × Option (List (RawText × Entry)))) (found : Selection) :
    Prop where
  listed : found.listed = visited.map fun w => base.belowRaw w.1
  files : found.files = visited.flatMap fun w => s.filesIn base w.1 w.2
  filesVisited : found.statistics.filesVisited = (visited.map fun w => Entry.fileCount w.2).sum
  filesIncluded : found.statistics.filesIncluded = found.files.length
  /-- Every file that was seen was taken or left out. -/
  balance : found.statistics.filesVisited = found.statistics.filesIncluded + found.statistics.filesExcluded
  dirsVisited : found.statistics.dirsVisited = visited.length
  /-- Every directory that was seen, and the base, was visited, passed over, or is pending. -/
  directories : visited.length + pending.length + found.statistics.dirsExcluded =
    1 + (visited.map fun w => Entry.directoryCount w.2).sum
  dirErrors : found.statistics.dirErrors = visited.countP fun w => w.2.isNone
  includedPerDir : found.statistics.includedPerDir = Table.ofList (s.takenCounts base visited)

section Tallied

variable {s base} {visited pending : List (List RawText × Option (List (RawText × Entry)))}
  {w : List RawText × Option (List (RawText × Entry))} {found : Selection}

theorem tallied_base (l : Option (List (RawText × Entry))) : Tallied s base [] [([], l)] {} := by
  constructor <;> rfl

/-- What one more directory gives is counted behind the others, unless it gives nothing. -/
theorem takenCounts_concat : s.takenCounts base (visited ++ [w]) = s.takenCounts base visited ++
    if (s.filesIn base w.1 w.2).isEmpty then [] else [(placeOf w.1, (s.filesIn base w.1 w.2).length)] := by
  rw [takenCounts, List.filter_append, List.map_append, List.filter_singleton, takenCounts]
  cases (s.filesIn base w.1 w.2).isEmpty <;> rfl

/-- **A visit keeps what was counted right**: its directory is visited, and pending are those in it that are not
passed over. -/
theorem Tallied.visit (h : Tallied s base visited (w :: pending) found) (hway : ∀ n ∈ w.1, Path.IsName n.text) :
    Tallied s base (visited ++ [w]) (s.onward w.1 w.2 ++ pending)
      (s.visit (pendingAt base w.1 w.2) found) := by
  obtain ⟨way, l⟩ := w
  have htaken := s.taken_pendingAt base hway l
  have hkey := key_pendingAt base hway l
  have hfiles := length_files_pendingAt base way l
  have hdirectories := length_directories_pendingAt base way l
  have hentered : (s.entered (pendingAt base way l)).length = (s.onward way l).length := by
    rw [s.entered_pendingAt base hway, List.length_map]
  -- no more is taken and entered than there is
  have hfilesLe : (s.filesIn base way l).length ≤ Entry.fileCount l := by
    rw [← htaken, ← hfiles, taken, List.length_map]
    exact List.length_filter_le _ _
  have hdirectoriesLe : (s.onward way l).length ≤ Entry.directoryCount l := by
    rw [← hentered, ← hdirectories]
    exact List.length_filter_le _ _
  constructor
  case listed =>
    rw [List.map_append, ← h.listed]
    rfl
  case files =>
    rw [List.flatMap_append, ← h.files, List.flatMap_singleton, ← htaken]
    rfl
  case filesVisited =>
    -- the sum over the directories has one number more
    rw [List.map_append, List.sum_append, ← h.filesVisited, List.map_singleton, List.sum_singleton, ← hfiles]
    rfl
  case filesIncluded =>
    change _ = (found.files ++ _).length
    rw [List.length_append, ← h.filesIncluded]
    rfl
  case balance =>
    -- what is taken and what is not make up what there is
    have hbalance := h.balance
    simp only [Selector.visit, htaken, hfiles]
    omega
  case dirsVisited =>
    rw [List.length_append, ← h.dirsVisited]
    rfl
  case directories =>
    -- the visited directory is no longer pending, and those in it are now pending or were passed over
    have hbefore := h.directories
    simp only [Selector.visit, List.length_append, List.length_cons, List.length_nil, List.map_append,
      List.sum_append, List.map_singleton, List.sum_singleton, hdirectories, hentered] at hbefore ⊢
    omega
  case dirErrors =>
    -- a directory without a listing is one that could not be read
    rw [List.countP_append, ← h.dirErrors]
    cases l <;> rfl
  case includedPerDir =>
    -- only a directory that gives files is put into the table
    have hbefore := h.includedPerDir
    rw [takenCounts_concat]
    simp only [Selector.visit, htaken, hkey, hbefore]
    cases (s.filesIn base way l).isEmpty with
    | true => rw [if_pos rfl, if_pos rfl, List.append_nil]
    | false =>
      rw [if_neg Bool.false_ne_true, if_neg Bool.false_ne_true, Table.ofList_concat]

/-- **What is counted in the end**, when nothing is pending. -/
theorem tallied_collect {l : Option (List (RawText × Entry))} (hnamed : (Entry.directory l).WellNamed) :
    Tallied s base ((Entry.directory l).visited s []) [] (s.collect base (some (.directory l))) := by
  have hbase : ∀ w ∈ [(([] : List RawText), l)], Named w :=
    List.forall_mem_singleton.2 ⟨fun n hn => absurd hn List.not_mem_nil, hnamed⟩
  have hwalk := s.walk_invariant base (P := Tallied s base) (fun _ _ _ _ hway h => h.visit hway) hbase
    (tallied_base l)
  rw [List.nil_append, List.flatMap_singleton] at hwalk
  -- warnings count nothing
  exact { hwalk with }

end Tallied

/-! ### The files of each directory -/

/-- **The counts of all directories make up the number of all files.** -/
theorem sum_takenCounts (visited : List (List RawText × Option (List (RawText × Entry)))) :
    ((s.takenCounts base visited).map Prod.snd).sum =
      (visited.flatMap fun w => s.filesIn base w.1 w.2).length := by
  induction visited with
  | nil => rfl
  | cons w visited ih =>
    -- a directory that gives nothing is left out and would have counted for nothing
    rw [List.flatMap_cons, List.length_append, ← ih, takenCounts, List.filter_cons]
    cases hempty : (s.filesIn base w.1 w.2).isEmpty with
    | true =>
      rw [List.isEmpty_iff.1 hempty, List.length_nil, Nat.zero_add]
      rfl
    | false => rfl

/-- What is shown of the names that lead to a directory is found again in its place. -/
theorem placeOf_inj {way way' : List RawText} (hway : ∀ n ∈ way, Path.IsName n.text)
    (hway' : ∀ n ∈ way', Path.IsName n.text) (h : placeOf way = placeOf way') :
    way.map RawText.text = way'.map RawText.text := by
  -- the names are found again between the slashes
  have hpieces : ∀ ns : List RawText, (∀ n ∈ ns, Path.IsName n.text) →
      Text.pieces '/' (placeOf ns) = if ns = [] then ["."] else ns.map RawText.text := by
    intro ns hns
    unfold placeOf
    split
    · rfl
    · next hne =>
      exact Text.pieces_join (mt List.map_eq_nil_iff.1 hne) (List.forall_mem_map.2 fun n hn => (hns n hn).not_mem)
  -- a name is never the mark by which the base is shown
  have hdot : ∀ ns : List RawText, (∀ n ∈ ns, Path.IsName n.text) → ns.map RawText.text ≠ ["."] := by
    intro ns hns heq
    obtain ⟨n, hn, hdot⟩ := List.mem_map.1 (heq ▸ List.mem_singleton.2 rfl : "." ∈ ns.map RawText.text)
    exact (hns n hn).ne_current hdot
  have heq := hpieces way hway
  rw [h, hpieces way' hway'] at heq
  -- one of them is the base, or none is
  split at heq <;> split at heq
  · next hnil hnil' => rw [hnil, hnil']
  · exact absurd heq.symm (hdot way hway)
  · exact absurd heq (hdot way' hway')
  · exact heq.symm

section Collect

variable {l : Option (List (RawText × Entry))} (hnamed : (Entry.directory l).WellNamed)

include hnamed

/-- No two directories share a place. -/
theorem nodup_places (hdistinct : (Entry.directory l).Distinct) :
    (((Entry.directory l).visited s []).map fun w => placeOf w.1).Nodup := by
  have hmap : (((Entry.directory l).visited s []).map fun w => placeOf w.1) =
      ((Entry.directory l).ways s []).map placeOf := by
    rw [← Entry.map_fst_visited, List.map_map]
    rfl
  rw [hmap]
  refine List.Nodup.map_on (fun way hway way' hway' heq => ?_) (Entry.nodup_ways hdistinct [])
  obtain ⟨l₁, hleads, -⟩ := Entry.mem_ways.1 hway
  obtain ⟨l₂, hleads', -⟩ := Entry.mem_ways.1 hway'
  -- directories with one place have ways that look the same, and so have one way
  exact (hdistinct.eq_of_leads hleads hleads' (placeOf_inj (hnamed _ _ hleads) (hnamed _ _ hleads') heq)).1

/-- **No count is lost**: the table of the counts holds that of every directory that gave files. -/
theorem perm_takenCounts (hdistinct : (Entry.directory l).Distinct) :
    (Table.ofList (s.takenCounts base ((Entry.directory l).visited s []))).Perm
      (s.takenCounts base ((Entry.directory l).visited s [])) := by
  refine Table.perm_ofList ?_
  rw [takenCounts, List.map_map]
  exact (s.nodup_places hnamed hdistinct).sublist (List.filter_sublist.map _)

end Collect

/-- What the statistics of a selection from a base say of the directories that were visited. -/
structure AddsUp (visited : List (List RawText × Option (List (RawText × Entry)))) (found : Selection) : Prop where
  /-- The visited directories are those whose listings were asked for. -/
  listed : found.listed = visited.map fun w => base.belowRaw w.1
  /-- The files are those that the visited directories gave. -/
  taken : found.files = visited.flatMap fun w => s.filesIn base w.1 w.2
  /-- Every file that was seen was taken or left out. -/
  files : found.statistics.filesVisited = found.statistics.filesIncluded + found.statistics.filesExcluded
  seen : found.statistics.filesVisited = (visited.map fun w => Entry.fileCount w.2).sum
  included : found.statistics.filesIncluded = found.files.length
  /-- The counts of the directories make up the number of files. -/
  perDir : (Table.values found.statistics.includedPerDir).sum = found.statistics.filesIncluded
  /-- Counted are the directories that gave files, -/
  mem_keys : ∀ place, place ∈ Table.keys found.statistics.includedPerDir ↔
    ∃ w ∈ visited, s.filesIn base w.1 w.2 ≠ [] ∧ place = placeOf w.1
  /-- each with as many as it gave. -/
  count : ∀ w ∈ visited, s.filesIn base w.1 w.2 ≠ [] →
    Table.get? found.statistics.includedPerDir (placeOf w.1) = some (s.filesIn base w.1 w.2).length
  dirsVisited : found.statistics.dirsVisited = visited.length
  /-- The base, and every directory in a listing that was read, was visited or passed over. -/
  directories : found.statistics.dirsVisited + found.statistics.dirsExcluded =
    1 + (visited.map fun w => Entry.directoryCount w.2).sum
  /-- The errors are the directories that could not be read. -/
  errors : found.statistics.dirErrors = visited.countP fun w => w.2.isNone

theorem mem_takenCounts {visited : List (List RawText × Option (List (RawText × Entry)))} {x : String × Nat} :
    x ∈ s.takenCounts base visited ↔ ∃ w ∈ visited, s.filesIn base w.1 w.2 ≠ [] ∧
      x = (placeOf w.1, (s.filesIn base w.1 w.2).length) := by
  unfold takenCounts
  rw [List.mem_map]
  refine exists_congr fun w => ?_
  rw [List.mem_filter, and_assoc, Bool.not_eq_true', List.isEmpty_eq_false_iff, eq_comm]

/-- **The statistics of a selection add up.** Of a directory whose entries have names, each of its own, a walk visits
once every directory to which names lead through directories that can be read and are not passed over, and counts
these and their files. -/
theorem statistics_collect {l : Option (List (RawText × Entry))} (hnamed : (Entry.directory l).WellNamed)
    (hdistinct : (Entry.directory l).Distinct) :
    ((Entry.directory l).visited s []).Nodup ∧
      (∀ w, w ∈ (Entry.directory l).visited s [] ↔
        (Entry.directory l).Leads w.1 (.directory w.2) ∧ Entry.Enters s [] w.1) ∧
      AddsUp s base ((Entry.directory l).visited s []) (s.collect base (some (.directory l))) := by
  have htallied : Tallied s base _ [] _ := tallied_collect hnamed
  have hperm := s.perm_takenCounts base hnamed hdistinct
  have hnodup : (((Entry.directory l).visited s []).map Prod.fst).Nodup := by
    rw [Entry.map_fst_visited]
    exact Entry.nodup_ways hdistinct []
  refine ⟨hnodup.of_map, fun w => Entry.mem_visited, ?_⟩
  constructor
  case listed => exact htallied.listed
  case taken => exact htallied.files
  case files => exact htallied.balance
  case seen => exact htallied.filesVisited
  case included => exact htallied.filesIncluded
  case perDir =>
    -- the table has one row for each directory that gives files, in another order
    rw [htallied.includedPerDir, Table.values, (hperm.map Prod.snd).sum_nat, sum_takenCounts, ← htallied.files,
      htallied.filesIncluded]
  case mem_keys =>
    intro place
    rw [htallied.includedPerDir, Table.keys, (hperm.map Prod.fst).mem_iff, List.mem_map]
    constructor
    · rintro ⟨x, hx, rfl⟩
      obtain ⟨w, hw, hne, rfl⟩ := (s.mem_takenCounts base).1 hx
      exact ⟨w, hw, hne, rfl⟩
    · rintro ⟨w, hw, hne, rfl⟩
      exact ⟨_, (s.mem_takenCounts base).2 ⟨w, hw, hne, rfl⟩, rfl⟩
  case count =>
    -- each place is counted once, so its row is the one that is found
    intro w hw hne
    rw [htallied.includedPerDir, Table.get?_eq_some_iff (Table.sorted_ofList _), hperm.mem_iff]
    exact (s.mem_takenCounts base).2 ⟨w, hw, hne, rfl⟩
  case dirsVisited => exact htallied.dirsVisited
  case directories =>
    rw [htallied.dirsVisited]
    exact htallied.directories
  case errors => exact htallied.dirErrors

/-- Two files are taken, one from each directory that can be read, and one is left out. Of the four directories one
is passed over and one cannot be read. -/
theorem statistics_rustSources : ∃ st : SelectionStatistics,
    (rustSelector.collect ⟨"p"⟩ (some (.directory (some rustSources)))).statistics = st ∧
      st.filesIncluded = 2 ∧ st.filesExcluded = 1 ∧ st.dirsVisited = 3 ∧ st.dirsExcluded = 1 ∧
      st.dirErrors = 1 ∧ Table.get? st.includedPerDir "." = some 1 ∧ Table.get? st.includedPerDir "bin" = some 1 ∧
      (Table.values st.includedPerDir).sum = 2 := by
  obtain ⟨-, -, h⟩ := statistics_collect rustSelector ⟨"p"⟩ wellNamed_rustSources distinct_rustSources
  rw [visited_rustSources] at h
  have hincluded := h.included
  rw [rustSelector.files_collect ⟨"p"⟩ wellNamed_rustSources, gather_rustSources] at hincluded
  have hseen : _ = 3 := h.seen
  have hfiles := h.files
  have hvisited : _ = 3 := h.dirsVisited
  have hdirectories : _ = 4 := h.directories
  have hbase := h.count _ List.mem_cons_self (by rw [filesIn_rustSources]; exact List.cons_ne_nil _ _)
  have hbin := h.count _ (List.mem_cons_of_mem _ List.mem_cons_self)
    (by rw [filesIn_binSources]; exact List.cons_ne_nil _ _)
  rw [filesIn_rustSources] at hbase
  rw [filesIn_binSources] at hbin
  refine ⟨_, rfl, hincluded, ?_, hvisited, ?_, h.errors, hbase, hbin, h.perDir.trans hincluded⟩
  · -- three files were seen, so one is left
    rw [hseen, hincluded] at hfiles
    exact (Nat.add_left_cancel hfiles).symm
  · -- of four directories three were visited, so one was passed over
    rw [hvisited] at hdirectories
    exact Nat.add_left_cancel hdirectories

end Selector

end CodeSearch
