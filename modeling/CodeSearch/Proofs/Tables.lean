import CodeSearch.Table
import Mathlib.Data.List.Nodup

/-!
# Looking up in tables

What a look-up finds in a table that was made from another one: by changing its values, by leaving
entries out, or from a list of entries.

* `Table.get?_eq_some_iff` — in a table with its keys in order a look-up finds exactly its entries;
* `Table.get?_map`, `Table.get?_filter`, `Table.get?_filterMap` — changing and leaving out entries, seen
  through look-ups;
* `Table.mem_of_get?_ofList`, `Table.isSome_get?_ofList` — a table made from a list answers for
  exactly the keys of the list, with an entry of the list (`Table.get?_ofList_of_mem`), and holds the list
  itself if no key is given twice (`Table.perm_ofList`).
-/

namespace CodeSearch

namespace Table

variable {α β : Type}

/-- What is looked up is an entry. -/
theorem mem_of_get? {t : Table α} {k : String} {v : α} (h : get? t k = some v) : (k, v) ∈ t := by
  induction t with
  | nil => simp at h
  | cons e r ih =>
    rw [get?_cons] at h
    split at h
    · next hk =>
      obtain rfl := Option.some.inj h
      exact hk ▸ List.mem_cons_self
    · exact List.mem_cons_of_mem _ (ih h)

/-- **A look-up finds exactly the entries** of a table whose keys are in order. -/
theorem get?_eq_some_iff {t : Table α} (ht : Sorted t) {k : String} {v : α} :
    get? t k = some v ↔ (k, v) ∈ t := by
  refine ⟨mem_of_get?, fun h => ?_⟩
  induction t with
  | nil => cases h
  | cons e r ih =>
    have hr := List.pairwise_cons.1 ht
    rw [get?_cons]
    rcases List.mem_cons.1 h with rfl | h
    · -- the first entry is found, and all others have greater keys
      exact if_pos rfl
    · have hne : k ≠ e.1 := fun hk => String.lt_irrefl e.1 (hk ▸ hr.1 (k, v) h)
      rw [if_neg hne]
      exact ih hr.2 h

/-- The keys of a table are those under which something is found. -/
theorem mem_keys_iff {t : Table α} {k : String} : k ∈ keys t ↔ (get? t k).isSome := by
  induction t with
  | nil => simp [keys]
  | cons e r ih =>
    rw [get?_cons]
    by_cases hk : k = e.1
    · simp [keys, hk]
    · have : k ∈ keys (e :: r) ↔ k ∈ keys r := by simp [keys, hk]
      rw [this, ih, if_neg hk]

/-- A value that is put where it is already changes nothing. -/
theorem insert_of_get? {t : Table α} (ht : Sorted t) {k : String} {v : α} (h : get? t k = some v) :
    insert t k v = t := by
  apply ext_of_get? (sorted_insert ht k v) ht
  intro k'
  rw [get?_insert]
  split
  · next hk => rw [hk, h]
  · rfl

/-- Changing the values of a table changes what its look-ups find, and not where. -/
theorem get?_map (f : String → α → β) (t : Table α) (k : String) :
    get? (t.map fun e => (e.1, f e.1 e.2)) k = (get? t k).map (f k) := by
  induction t with
  | nil => rfl
  | cons e r ih =>
    rw [List.map_cons, get?_cons, get?_cons, ih]
    by_cases hk : k = e.1
    · simp [hk]
    · simp [hk]

/-- Leaving entries out of a table leaves them out of its look-ups. -/
theorem get?_filter {t : Table α} (ht : Sorted t) (p : String × α → Bool) (k : String) :
    get? (t.filter p) k = (get? t k).filter fun v => p (k, v) := by
  induction t with
  | nil => rfl
  | cons e r ih =>
    have hr := List.pairwise_cons.1 ht
    rw [get?_cons]
    by_cases hk : k = e.1
    · -- no entry after this one has its key, so nothing takes its place
      have hnone : get? r k = none := get?_eq_none_of_lt fun d hd => hk ▸ hr.1 d hd
      have he : p (k, e.2) = p e := by rw [hk]
      by_cases hp : p e
      · rw [List.filter_cons_of_pos hp, get?_cons, if_pos hk, if_pos hk, Option.filter_some, he,
          if_pos hp]
      · rw [List.filter_cons_of_neg hp, ih hr.2, hnone, if_pos hk, Option.filter_some, he,
          if_neg hp, Option.filter_none]
    · -- an entry with another key is not found, whether it stays or not
      rw [if_neg hk, ← ih hr.2]
      by_cases hp : p e
      · rw [List.filter_cons_of_pos hp, get?_cons, if_neg hk]
      · rw [List.filter_cons_of_neg hp]

/-- Leaving entries out keeps the keys in order. -/
theorem sorted_filter {t : Table α} (ht : Sorted t) (p : String × α → Bool) :
    Sorted (t.filter p) :=
  ht.sublist List.filter_sublist

/-- A table with its values read, those left out that cannot be. -/
theorem get?_filterMap {t : Table α} (ht : Sorted t) (f : α → Option β) (k : String) :
    get? (t.filterMap fun e => (f e.2).map (e.1, ·)) k = (get? t k).bind f := by
  induction t with
  | nil => rfl
  | cons e r ih =>
    have hr := List.pairwise_cons.1 ht
    rw [get?_cons, List.filterMap_cons]
    -- if the value cannot be read, nothing else has the key
    by_cases hk : k = e.1
    · have hnone : get? r k = none := get?_eq_none_of_lt fun d hd => hk ▸ hr.1 d hd
      cases hf : f e.2 with
      | none =>
        rw [if_pos hk, Option.bind_some, hf]
        exact (ih hr.2).trans (by rw [hnone, Option.bind_none])
      | some b =>
        rw [if_pos hk, Option.bind_some, hf]
        exact (get?_cons _ _ _).trans (if_pos hk)
    · rw [if_neg hk, ← ih hr.2]
      cases f e.2 with
      | none => rfl
      | some b => exact (get?_cons _ _ _).trans (if_neg hk)

/-- Reading values keeps the keys in order, -/
theorem sorted_filterMap {t : Table α} (ht : Sorted t) (f : α → Option β) :
    Sorted (t.filterMap fun e => (f e.2).map (e.1, ·)) := by
  refine List.Pairwise.filterMap _ (fun a b hab c hc d hd => ?_) ht
  obtain ⟨v, -, rfl⟩ := Option.map_eq_some_iff.1 hc
  obtain ⟨u, -, rfl⟩ := Option.map_eq_some_iff.1 hd
  exact hab

/-- and so does replacing them. -/
theorem sorted_map {t : Table α} (ht : Sorted t) (f : α → β) :
    Sorted (t.map fun e => (e.1, f e.2)) :=
  List.pairwise_map.2 ht

/-! ### Tables made from lists -/

/-- Making a table of entries inserts the last one last. -/
theorem ofList_concat (es : List (String × α)) (e : String × α) :
    ofList (es ++ [e]) = insert (ofList es) e.1 e.2 := by
  unfold ofList
  rw [List.foldl_append]
  rfl

/-- What is found after some insertions was inserted or had been there before. -/
theorem mem_of_get?_foldl (es : List (String × α)) {t : Table α} {k : String} {v : α}
    (h : get? (es.foldl (fun t e => insert t e.1 e.2) t) k = some v) :
    (k, v) ∈ es ∨ get? t k = some v := by
  induction es generalizing t with
  | nil => exact Or.inr h
  | cons e r ih =>
    rcases ih h with h | h
    · exact Or.inl (List.mem_cons_of_mem _ h)
    · -- the entry that was inserted first may have the key
      rw [get?_insert] at h
      split at h
      · next hk =>
        obtain rfl := Option.some.inj h
        exact Or.inl (hk ▸ List.mem_cons_self)
      · exact Or.inr h

/-- What is found in a table that is made of entries is one of these. -/
theorem mem_of_get?_ofList {es : List (String × α)} {k : String} {v : α}
    (h : get? (ofList es) k = some v) : (k, v) ∈ es :=
  (mem_of_get?_foldl es h).resolve_right (by simp)

/-- After some insertions there is something under every key that was inserted or had been there before. -/
theorem isSome_get?_foldl (es : List (String × α)) {t : Table α} {k : String}
    (h : (get? t k).isSome ∨ ∃ v, (k, v) ∈ es) :
    (get? (es.foldl (fun t e => insert t e.1 e.2) t) k).isSome := by
  induction es generalizing t with
  | nil => exact h.resolve_right (by simp)
  | cons e r ih =>
    refine ih ?_
    rw [get?_insert]
    rcases h with h | ⟨v, h⟩
    · left
      split
      · rfl
      · exact h
    · rcases List.mem_cons.1 h with rfl | h
      · exact Or.inl (by simp)
      · exact Or.inr ⟨v, h⟩

/-- There is something under the key of every entry that a table is made of. -/
theorem isSome_get?_ofList {es : List (String × α)} {k : String} {v : α} (h : (k, v) ∈ es) :
    (get? (ofList es) k).isSome :=
  isSome_get?_foldl es (Or.inr ⟨v, h⟩)

/-- A list that gives each key once gives it its value. -/
theorem get?_ofList_of_mem {es : List (String × α)} (hn : (es.map Prod.fst).Nodup) {k : String} {v : α}
    (h : (k, v) ∈ es) : get? (ofList es) k = some v := by
  obtain ⟨u, hu⟩ := Option.isSome_iff_exists.1 (isSome_get?_ofList h)
  have hsame : (k, u) = (k, v) := List.inj_on_of_nodup_map hn (mem_of_get?_ofList hu) h rfl
  rw [hu, (Prod.mk.inj hsame).2]

/-- **A list that gives each key once is kept as it is**, in the order of the keys. -/
theorem perm_ofList {es : List (String × α)} (hn : (es.map Prod.fst).Nodup) : (ofList es).Perm es := by
  have hsorted := sorted_ofList es
  have hnodup : (ofList es).Nodup := hsorted.imp fun {a b} hlt heq => by
    rw [heq] at hlt
    exact String.lt_irrefl b.1 hlt
  refine (List.perm_ext_iff_of_nodup hnodup hn.of_map).2 fun e => ?_
  rw [← get?_eq_some_iff hsorted]
  exact ⟨mem_of_get?_ofList, get?_ofList_of_mem hn⟩

end Table

end CodeSearch
