/-!
# Tables

A finite map from texts to values, kept as a list of entries in strictly ascending order of their keys.
Two tables that answer every look-up alike are then the same list (`ext_of_get?`), so a table shows
nothing of the order in which it was filled.

* `get?_insert`, `get?_erase` — what a write does to a look-up;
* `sorted_insert`, `sorted_erase` — every write keeps the order.
-/

namespace CodeSearch

/-- Entries in ascending order of their keys. -/
abbrev Table (α : Type) := List (String × α)

namespace Table

variable {α β : Type}

/-- The keys of a table in order. -/
def keys (t : Table α) : List String := t.map Prod.fst

/-- The values of a table in the order of their keys. -/
def values (t : Table α) : List α := t.map Prod.snd

/-- The value of a key. -/
def get? (t : Table α) (k : String) : Option α := t.lookup k

/-- Whether a key has a value. -/
def contains (t : Table α) (k : String) : Bool := (get? t k).isSome

/-- Gives a key a value, in place of the one it may have. -/
def insert : Table α → String → α → Table α
  | [], k, v => [(k, v)]
  | (k', v') :: r, k, v =>
    if k < k' then (k, v) :: (k', v') :: r
    else if k = k' then (k, v) :: r
    else (k', v') :: insert r k v

/-- Takes a key out. -/
def erase (t : Table α) (k : String) : Table α := t.filter fun e => e.1 ≠ k

/-- The table of a list of entries; of two for one key the later one counts. -/
def ofList (es : List (String × α)) : Table α := es.foldl (fun t e => insert t e.1 e.2) []

/-- The value of a key, and a value for a key that has none. -/
def getD (t : Table α) (k : String) (default : α) : α := (get? t k).getD default

/-- Strictly ascending keys. -/
def Sorted (t : Table α) : Prop := t.Pairwise fun a b => a.1 < b.1

@[simp] theorem get?_nil (k : String) : get? ([] : Table α) k = none := rfl

theorem get?_cons (e : String × α) (t : Table α) (k : String) :
    get? (e :: t) k = if k = e.1 then some e.2 else get? t k := by
  rw [get?, List.lookup_cons]
  by_cases h : k = e.1
  · rw [if_pos h, beq_iff_eq.2 h]
  · rw [if_neg h, beq_eq_false_iff_ne.2 h, get?]

/-! ### Writing and looking up -/

/-- **A write shows at its key and nowhere else.** -/
theorem get?_insert (t : Table α) (k k' : String) (v : α) :
    get? (insert t k v) k' = if k' = k then some v else get? t k' := by
  induction t with
  | nil => simp [insert, get?_cons]
  | cons e r ih =>
    obtain ⟨a, b⟩ := e
    rw [insert]
    split
    · rw [get?_cons]
    · split
      · rename_i h
        subst h
        simp only [get?_cons]
        split <;> rfl
      · rename_i h
        simp only [get?_cons, ih]
        by_cases h' : k' = k
        · subst h'
          simp [h]
        · simp [h']

/-- **An erased key is gone and no other.** -/
theorem get?_erase (t : Table α) (k k' : String) :
    get? (erase t k) k' = if k' = k then none else get? t k' := by
  induction t with
  | nil => simp [erase]
  | cons e r ih =>
    by_cases h : e.1 = k
    · have : erase (e :: r) k = erase r k := by simp [erase, h]
      rw [this, ih, get?_cons]
      by_cases h' : k' = k
      · simp [h']
      · have : ¬k' = e.1 := fun he => h' (he.trans h)
        simp [h', this]
    · have : erase (e :: r) k = e :: erase r k := by simp [erase, h]
      rw [this, get?_cons, get?_cons, ih]
      by_cases h' : k' = e.1
      · have : ¬k' = k := fun he => h (h'.symm.trans he)
        simp [h', h]
      · simp [h']

/-! ### Order -/

theorem mem_insert {t : Table α} {k : String} {v : α} {e : String × α} (h : e ∈ insert t k v) :
    e = (k, v) ∨ e ∈ t := by
  induction t with
  | nil => exact Or.inl (List.mem_singleton.1 h)
  | cons d r ih =>
    rw [insert] at h
    split at h
    · exact List.mem_cons.1 h
    · split at h
      · exact (List.mem_cons.1 h).imp_right (List.mem_cons_of_mem _)
      · rcases List.mem_cons.1 h with h | h
        · exact Or.inr (h ▸ List.mem_cons_self)
        · exact (ih h).imp_right (List.mem_cons_of_mem _)

theorem sorted_nil : Sorted ([] : Table α) := List.Pairwise.nil

theorem sorted_insert {t : Table α} (h : Sorted t) (k : String) (v : α) : Sorted (insert t k v) := by
  induction t with
  | nil => exact List.pairwise_singleton _ _
  | cons d r ih =>
    have hd := List.pairwise_cons.1 h
    rw [insert]
    split
    · rename_i hk
      refine List.pairwise_cons.2 ⟨fun e he => ?_, h⟩
      rcases List.mem_cons.1 he with rfl | he
      · exact hk
      · exact String.lt_trans hk (hd.1 e he)
    · split
      · rename_i hk
        exact List.pairwise_cons.2 ⟨fun e he => hk ▸ hd.1 e he, hd.2⟩
      · rename_i hk hne
        refine List.pairwise_cons.2 ⟨fun e he => ?_, ih hd.2⟩
        rcases mem_insert he with rfl | he
        · rcases Std.lt_trichotomy d.1 k with hlt | heq | hgt
          · exact hlt
          · exact absurd heq.symm hne
          · exact absurd hgt hk
        · exact hd.1 e he

theorem sorted_erase {t : Table α} (h : Sorted t) (k : String) : Sorted (erase t k) :=
  h.sublist List.filter_sublist

theorem sorted_ofList (es : List (String × α)) : Sorted (ofList es) := by
  suffices h : ∀ t : Table α, Sorted t → Sorted (es.foldl (fun t e => insert t e.1 e.2) t) from
    h [] sorted_nil
  induction es with
  | nil => exact fun t h => h
  | cons e r ih => exact fun t h => ih _ (sorted_insert h _ _)

/-! ### Extensionality -/

theorem get?_eq_none_of_lt {t : Table α} {k : String} (h : ∀ e ∈ t, k < e.1) : get? t k = none := by
  induction t with
  | nil => rfl
  | cons e r ih =>
    have hk : ¬k = e.1 := by
      intro heq
      have := h e List.mem_cons_self
      rw [heq] at this
      exact String.lt_irrefl _ this
    rw [get?_cons, if_neg hk]
    exact ih fun d hd => h d (List.mem_cons_of_mem _ hd)

/-- **Two tables that answer alike are the same.** -/
theorem ext_of_get? {s t : Table α} (hs : Sorted s) (ht : Sorted t)
    (h : ∀ k, get? s k = get? t k) : s = t := by
  induction s generalizing t with
  | nil =>
    cases t with
    | nil => rfl
    | cons e r =>
      have := h e.1
      simp [get?_cons] at this
  | cons d q ih =>
    cases t with
    | nil =>
      have := h d.1
      simp [get?_cons] at this
    | cons e r =>
      have hd := List.pairwise_cons.1 hs
      have he := List.pairwise_cons.1 ht
      have hkey : d.1 = e.1 := by
        rcases Std.lt_trichotomy d.1 e.1 with hlt | heq | hgt
        · have hnone : get? (e :: r) d.1 = none := by
            refine get?_eq_none_of_lt fun c hc => ?_
            rcases List.mem_cons.1 hc with rfl | hc
            · exact hlt
            · exact String.lt_trans hlt (he.1 c hc)
          have := h d.1
          rw [hnone, get?_cons, if_pos rfl] at this
          exact absurd this (by simp)
        · exact heq
        · have hnone : get? (d :: q) e.1 = none := by
            refine get?_eq_none_of_lt fun c hc => ?_
            rcases List.mem_cons.1 hc with rfl | hc
            · exact hgt
            · exact String.lt_trans hgt (hd.1 c hc)
          have := h e.1
          rw [hnone, get?_cons, if_pos rfl] at this
          exact absurd this.symm (by simp)
      have hval : d.2 = e.2 := by
        have := h d.1
        rw [get?_cons, if_pos rfl, get?_cons, if_pos hkey] at this
        exact Option.some.inj this
      have hrest : q = r := by
        refine ih hd.2 he.2 fun k => ?_
        by_cases hk : k = d.1
        · subst hk
          rw [get?_eq_none_of_lt hd.1, get?_eq_none_of_lt fun c hc => hkey ▸ he.1 c hc]
        · have := h k
          rw [get?_cons, if_neg hk, get?_cons, if_neg (hkey ▸ hk)] at this
          exact this
      rw [hrest, Prod.ext hkey hval]

end Table

end CodeSearch
