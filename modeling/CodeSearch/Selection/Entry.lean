import CodeSearch.Path

/-!
# What a walk finds

A walk sees files, directories and other things. A directory has a listing, unless it cannot be read.
The listing of a directory may come in any order; a walk takes it by name.

* `weight_directories_le` — the directories of a listing weigh no more than the listing, which bounds a
  walk.
-/

namespace CodeSearch

/-- A thing that has a name in a directory. -/
inductive Entry where
  /-- A file. -/
  | file
  /-- A link to a file. A walk takes it for a file. -/
  | fileLink
  /-- A directory with its entries, if it can be read. -/
  | directory (listing : Option (List (RawText × Entry)))
  /-- A link to a directory, a socket or a device. A walk passes it over. -/
  | other
  deriving Inhabited, Repr

namespace Entry

mutual

/-- How many directories an entry holds, itself included. -/
def weight : Entry → Nat
  | .directory (some es) => listingWeight es + 1
  | .directory none => 1
  | .file | .fileLink | .other => 0

/-- How many directories the entries of a listing hold. -/
def listingWeight : List (RawText × Entry) → Nat
  | [] => 0
  | (_, e) :: r => weight e + listingWeight r

end

/-- The listing of an entry that is a directory. -/
def listing? : Entry → Option (Option (List (RawText × Entry)))
  | .directory l => some l
  | .file | .fileLink | .other => none

/-- Whether an entry is taken for a file. -/
def isFile : Entry → Bool
  | .file | .fileLink => true
  | .directory _ | .other => false

/-- The directories of a listing, with their own listings. -/
def directories (es : List (RawText × Entry)) : List (RawText × Option (List (RawText × Entry))) :=
  es.filterMap fun e => e.2.listing?.map fun l => (e.1, l)

/-- The names of the files of a listing. -/
def files (es : List (RawText × Entry)) : List RawText :=
  (es.filter fun e => e.2.isFile).map Prod.fst

/-- The entries of a listing by what is shown of their names; entries that look the same keep their
order. -/
def byName (es : List (RawText × Entry)) : List (RawText × Entry) :=
  es.mergeSort fun a b => !decide (b.1.text < a.1.text)

theorem weight_directory_some (es : List (RawText × Entry)) :
    weight (.directory (some es)) = listingWeight es + 1 := rfl

theorem weight_directory_none : weight (.directory none) = 1 := rfl

theorem listingWeight_append (es fs : List (RawText × Entry)) :
    listingWeight (es ++ fs) = listingWeight es + listingWeight fs := by
  induction es with
  | nil => simp [listingWeight]
  | cons e r ih =>
    rw [List.cons_append, listingWeight, listingWeight, ih, Nat.add_assoc]

/-- The order of a listing does not matter for its weight. -/
theorem listingWeight_perm {es fs : List (RawText × Entry)} (h : es.Perm fs) :
    listingWeight es = listingWeight fs := by
  induction h with
  | nil => rfl
  | cons e _ ih => rw [listingWeight, listingWeight, ih]
  | swap e f r =>
    simp only [listingWeight]
    exact Nat.add_left_comm _ _ _
  | trans _ _ ih ih' => exact ih.trans ih'

/-- Putting a listing in order does not change its weight. -/
theorem listingWeight_byName (es : List (RawText × Entry)) :
    listingWeight (byName es) = listingWeight es :=
  listingWeight_perm (List.mergeSort_perm es _)

/-- The names of a listing do not matter for its weight. -/
theorem listingWeight_congr {es fs : List (RawText × Entry)}
    (h : es.map Prod.snd = fs.map Prod.snd) : listingWeight es = listingWeight fs := by
  induction es generalizing fs with
  | nil =>
    cases fs with
    | nil => rfl
    | cons f r => cases h
  | cons e r ih =>
    cases fs with
    | nil => cases h
    | cons f s =>
      obtain ⟨he, hr⟩ := List.cons.inj h
      rw [listingWeight, listingWeight, ih hr]
      exact congrArg (weight · + listingWeight s) he

theorem weight_of_listing? {e : Entry} {l : Option (List (RawText × Entry))}
    (h : e.listing? = some l) : (Entry.directory l).weight = e.weight := by
  cases e with
  | directory m => cases h; rfl
  | file => cases h
  | fileLink => cases h
  | other => cases h

/-- **The directories of a listing weigh no more than the listing.** -/
theorem weight_directories_le (es : List (RawText × Entry)) :
    listingWeight ((directories es).map fun d => (d.1, .directory d.2)) ≤ listingWeight es := by
  unfold directories
  induction es with
  | nil => exact Nat.le_refl 0
  | cons e r ih =>
    rw [List.filterMap_cons]
    cases h : e.2.listing? with
    | none => exact Nat.le_trans ih (Nat.le_add_left _ _)
    | some l =>
      rw [Option.map_some, List.map_cons, listingWeight, weight_of_listing? h, listingWeight]
      exact Nat.add_le_add_left ih _

end Entry

end CodeSearch
