import CodeSearch.Proofs.VectorStore.Lawful
import CodeSearch.VectorStore.Memory

/-!
# The store in memory is lawful

Every collection of a store in memory is a table, so a point is found by looking up its id. A valid
store keeps its tables in order (`Memory.InOrder.sorted`), which is what makes leaving points out of a
table the same as leaving them out of its look-ups, and all vectors of a collection at the length it was
made with (`Memory.InOrder.lengths`). There is a collection for every length, and a payload is kept as it
is.
-/

namespace CodeSearch

namespace Memory

/-- Tables in order, and vectors of the right length. -/
structure InOrder (m : Memory) : Prop where
  /-- The points of a collection are in the order of their ids. -/
  sorted : ∀ {name c}, m.collection? name = some c → Table.Sorted c.points
  /-- The vectors of a collection have its length. -/
  lengths : ∀ {name c}, m.collection? name = some c → ∀ e ∈ c.points, e.2.1.length = c.size

/-- What the collections hold. -/
def held (m : Memory) : Holdings :=
  { size? := fun name => (m.collection? name).map Collection.size
    held? := fun name id => (m.collection? name).bind fun c => Table.get? c.points id }

/-- A collection that has a length is there. -/
theorem exists_collection {m : Memory} {name : String} {n : Nat} (h : m.held.size? name = some n) :
    ∃ c, m.collection? name = some c ∧ c.size = n :=
  Option.map_eq_some_iff.1 h

/-- What is held in a collection is found in its table. -/
theorem held?_of_collection {m : Memory} {name : String} {c : Collection}
    (hc : m.collection? name = some c) : m.held.held? name = fun id => Table.get? c.points id := by
  funext id
  change (m.collection? name).bind _ = _
  rw [hc, Option.bind_some]

/-- A collection is found where it was put, and the others are as before. -/
theorem collection?_set (m : Memory) (name name' : String) (c : Collection) :
    (m.set name c).collection? name' = if name' = name then some c else m.collection? name' :=
  Table.get?_insert _ _ _ _

/-- The collections stay in order when one is put that is. -/
theorem InOrder.set {m : Memory} (hm : m.InOrder) {name : String} {c : Collection}
    (hs : Table.Sorted c.points) (hl : ∀ e ∈ c.points, e.2.1.length = c.size) :
    (m.set name c).InOrder where
  sorted := by
    intro name' c' h
    rw [collection?_set] at h
    split at h
    · -- the one that was put, or another one
      obtain rfl := Option.some.inj h
      exact hs
    · exact hm.sorted h
  lengths := by
    intro name' c' h
    rw [collection?_set] at h
    split at h
    · obtain rfl := Option.some.inj h
      exact hl
    · exact hm.lengths h

/-- A collection that takes the place of another one of the same length changes nothing but points. -/
theorem held_set {m : Memory} {name : String} {c c' : Collection}
    (h : m.collection? name = some c) (hsize : c'.size = c.size) :
    (m.set name c').held =
      { m.held with held? := Function.update m.held.held? name fun id => Table.get? c'.points id } := by
  simp only [held, collection?_set]
  congr 1
  · -- neither the lengths nor other collections change
    funext name'
    by_cases hn : name' = name
    · simp [hn, h, hsize]
    · simp [hn]
  · funext name'
    by_cases hn : name' = name
    · simp [hn]
    · simp [hn]

/-! ### Making collections -/

/-- A collection is made unless it is there. -/
theorem ensure_run (name : String) (size : Nat) (m : Memory) :
    (ensure name size).run m = match m.collection? name with
      | none => .ok () (m.set name { size, points := [] })
      | some c => if c.size ≠ size then .error (.dimension name c.size size) m else .ok () m := by
  cases h : m.collection? name with
  | none =>
    simp only [ensure, EStateM.run, bind, EStateM.bind, get_apply, h]
    rfl
  | some c =>
    simp only [ensure, EStateM.run, bind, EStateM.bind, get_apply, h]
    -- one that is there has the length, or it is an error
    by_cases hs : c.size = size
    · simp only [ne_eq, hs, not_true_eq_false, if_false]
      rfl
    · simp only [ne_eq, hs, not_false_eq_true, if_true]
      rfl

/-- The collections stay in order when an empty one is made. -/
theorem InOrder.make {m : Memory} (hm : m.InOrder) (name : String) (size : Nat) :
    (m.set name { size, points := [] }).InOrder :=
  hm.set Table.sorted_nil (by simp)

/-- To make a collection adds its length, and no points. -/
theorem held_make {m : Memory} {name : String} (h : m.collection? name = none) (size : Nat) :
    (m.set name { size, points := [] }).held = m.held.make name size := by
  simp only [held, Holdings.make, collection?_set]
  congr 1
  · funext name'
    by_cases hn : name' = name
    · simp [hn]
    · simp [hn]
  · funext name' id
    by_cases hn : name' = name
    · -- an empty collection holds nothing, and neither did one that was not there
      simp [hn, h]
    · simp [hn]

/-! ### Writing points -/

/-- Points are put in the order of their ids. -/
theorem sorted_foldl_put {c : Collection} (hs : Table.Sorted c.points) (ps : List Point) :
    Table.Sorted (ps.foldl Collection.put c).points := by
  induction ps generalizing c with
  | nil => exact hs
  | cons p r ih => exact ih (c := c.put p) (Table.sorted_insert hs _ _)

@[simp] theorem size_foldl_put (c : Collection) (ps : List Point) :
    (ps.foldl Collection.put c).size = c.size := by
  induction ps generalizing c with
  | nil => rfl
  | cons p r ih => exact ih (c.put p)

/-- All vectors have the length of the collection if those that are put have. -/
theorem lengths_foldl_put {c : Collection} {n : Nat} (hl : ∀ e ∈ c.points, e.2.1.length = n)
    {ps : List Point} (hps : ∀ p ∈ ps, p.vector.length = n) :
    ∀ e ∈ (ps.foldl Collection.put c).points, e.2.1.length = n := by
  induction ps generalizing c with
  | nil => exact hl
  | cons p r ih =>
    refine ih (c := c.put p) (fun e he => ?_) fun q hq => hps q (List.mem_cons_of_mem _ hq)
    rcases Table.mem_insert he with rfl | he
    · exact hps p List.mem_cons_self
    · exact hl e he

/-- A table that answers as a collection does still does so when points are written to both. -/
theorem get?_foldl_put {name : String} {c : Collection} {h : Holdings}
    (hc : ∀ id, Table.get? c.points id = h.held? name id) (ps : List Point) (id : String) :
    Table.get? (ps.foldl Collection.put c).points id = (h.putAll name ps).held? name id := by
  induction ps generalizing c h with
  | nil => exact hc id
  | cons p r ih =>
    refine ih (c := c.put p) (h := h.put name p) fun id => ?_
    rw [Collection.put, Table.get?_insert, Holdings.held?_put, hc]
    simp

/-- To put points one after the other is to write them all. -/
theorem held_putAll {m : Memory} {name : String} {c : Collection} (h : m.collection? name = some c)
    (ps : List Point) :
    (m.set name (ps.foldl Collection.put c)).held = m.held.putAll name ps := by
  have hc : ∀ id, Table.get? c.points id = m.held.held? name id :=
    fun id => (congrFun (held?_of_collection h) id).symm
  rw [held_set h (size_foldl_put c ps)]
  ext1
  · simp
  · funext name' id
    by_cases hn : name' = name
    · -- only in this collection are there other points
      subst hn
      simpa using get?_foldl_put hc ps id
    · rw [Holdings.held?_putAll_of_ne _ hn]
      simp [hn]

theorem upsert_run {m : Memory} {name : String} {c : Collection} (h : m.collection? name = some c)
    {ps : List Point} (hps : ∀ p ∈ ps, p.vector.length = c.size) :
    (upsert name ps).run m = .ok () (m.set name (ps.foldl Collection.put c)) := by
  have hcheck := checkDimensions_points name hps
  simp only [upsert, EStateM.run, bind, EStateM.bind, get_apply, h, hcheck]
  rfl

/-! ### Taking points out -/

theorem sorted_foldl_erase {t : Table PointBody} (ht : Table.Sorted t) (ids : List String) :
    Table.Sorted (ids.foldl Table.erase t) := by
  induction ids generalizing t with
  | nil => exact ht
  | cons i r ih => exact ih (Table.sorted_erase ht i)

/-- What is left after points were erased was there before. -/
theorem mem_of_mem_foldl_erase {t : Table PointBody} {ids : List String} {e : String × PointBody}
    (h : e ∈ ids.foldl Table.erase t) : e ∈ t := by
  induction ids generalizing t with
  | nil => exact h
  | cons i r ih => exact (List.mem_filter.1 (ih h)).1

/-- What was erased is not found any more. -/
theorem get?_foldl_erase (t : Table PointBody) (ids : List String) (id : String) :
    Table.get? (ids.foldl Table.erase t) id =
      (Table.get? t id).filter fun _ => !ids.contains id := by
  induction ids generalizing t with
  | nil =>
    rw [List.foldl_nil]
    cases Table.get? t id <;> rfl
  | cons i r ih =>
    rw [List.foldl_cons, ih, Table.get?_erase]
    -- either this id is erased now, or it is up to the others
    by_cases hi : id = i
    · rw [if_pos hi]
      cases Table.get? t id <;> simp [hi]
    · rw [if_neg hi]
      cases Table.get? t id <;> simp [hi]

theorem deleteIds_run_memory {m : Memory} {name : String} {c : Collection}
    (h : m.collection? name = some c) {ids : List String} (hne : ids ≠ []) :
    (deleteIds name ids).run m =
      .ok () (m.set name { c with points := ids.foldl Table.erase c.points }) := by
  have : ids.isEmpty = false := by simpa using hne
  simp only [deleteIds, this, Bool.false_eq_true, if_false, EStateM.run, bind, EStateM.bind,
    get_apply, h]
  rfl

/-- A deletion counts what it takes away, and has nothing to do in a collection that is not there. -/
theorem deleteWhere_run_memory (name : String) (f : Filter) (m : Memory) :
    (deleteWhere name f).run m = match m.collection? name with
      | none => .ok 0 m
      | some c =>
        .ok (c.points.length - (c.points.filter fun (_, _, payload) => !f.accepts payload).length)
          (m.set name
            { c with points := c.points.filter fun (_, _, payload) => !f.accepts payload }) := by
  cases h : m.collection? name with
  | none =>
    simp only [deleteWhere, EStateM.run, bind, EStateM.bind, get_apply, h]
    rfl
  | some c =>
    simp only [deleteWhere, EStateM.run, bind, EStateM.bind, get_apply, h]
    rfl

/-- Leaving out no point changes nothing. -/
theorem held_cut_of_none {m : Memory} {name : String} (h : m.collection? name = none)
    (gone : String → PointBody → Bool) : m.held.cut name gone = m.held := by
  have : (fun id => (m.held.held? name id).filter fun b => !gone id b) = m.held.held? name := by
    funext id
    simp [held, h]
  rw [Holdings.cut, this, Function.update_eq_self]

/-! ### Leaving out a collection -/

theorem collection?_erase (m : Memory) (name name' : String) :
    ({ collections := m.collections.erase name } : Memory).collection? name' =
      if name' = name then none else m.collection? name' :=
  Table.get?_erase _ _ _

/-- The collections stay in order when one is dropped. -/
theorem InOrder.drop {m : Memory} (hm : m.InOrder) (name : String) :
    ({ collections := m.collections.erase name } : Memory).InOrder where
  sorted := by
    intro name' c h
    rw [collection?_erase] at h
    split at h
    · -- what is still there was there before
      cases h
    · exact hm.sorted h
  lengths := by
    intro name' c h
    rw [collection?_erase] at h
    split at h
    · cases h
    · exact hm.lengths h

/-- To drop a collection is to drop what it holds. -/
theorem held_drop (m : Memory) (name : String) :
    ({ collections := m.collections.erase name } : Memory).held = m.held.drop name := by
  simp only [held, Holdings.drop, collection?_erase]
  congr 1
  · funext name'
    by_cases hn : name' = name <;> simp [hn]
  · funext name' id
    by_cases hn : name' = name <;> simp [hn]

/-! ### The instance -/

theorem scroll_run {m : Memory} {name : String} {c : Collection} (h : m.collection? name = some c)
    (field : String) :
    m.scroll name field =
      .ok (Table.ofList (c.toList.filterMap (Payload.textsUnder? ·.payload field))) := by
  simp only [scroll, h]

/-- What a scroll gives is what is held. -/
theorem mem_scrolled {c : Collection} (hs : Table.Sorted c.points) {field : String}
    {e : String × Table String} :
    e ∈ c.toList.filterMap (Payload.textsUnder? ·.payload field) ↔
      ∃ id b, Table.get? c.points id = some b ∧ Payload.textsUnder? b.2 field = some e := by
  constructor
  · -- between entries and points, in both directions
    intro he
    obtain ⟨p, hp, he⟩ := List.mem_filterMap.1 he
    obtain ⟨⟨id, b⟩, hb, rfl⟩ := List.mem_map.1 hp
    exact ⟨id, b, (Table.get?_eq_some_iff hs).2 hb, he⟩
  · rintro ⟨id, b, hb, he⟩
    refine List.mem_filterMap.2 ⟨{ id, vector := b.1, payload := b.2 }, ?_, he⟩
    exact List.mem_map.2 ⟨(id, b), (Table.get?_eq_some_iff hs).1 hb, rfl⟩

theorem inOrder_empty : (VectorStore.empty : Memory).InOrder where
  sorted h := by cases h
  lengths h := by cases h

/-- **The store in memory is lawful.** -/
instance : LawfulVectorStore Memory where
  Ordered := InOrder
  holdings := held
  fits _ := true
  kept j := j
  legible _ := true
  str?_kept _ := rfl
  legible_kept _ := rfl
  ordered_empty := inOrder_empty
  holdings_empty := rfl
  contains_eq m name := by
    change (m.collection? name).isSome = ((m.collection? name).map Collection.size).isSome
    cases m.collection? name <;> rfl
  fits_of_size? _ _ := rfl
  size?_of_held? := by
    intro m name id b hm h
    cases hc : m.collection? name with
    | none => simp [held, hc] at h
    | some c =>
      have hb : Table.get? c.points id = some b := by simpa [held, hc] using h
      simpa [held, hc] using (hm.lengths hc _ (Table.mem_of_get? hb)).symm
  scroll_eq := by
    intro m name n field hm h _
    obtain ⟨c, hc, -⟩ := exists_collection h
    have hget := congrFun (held?_of_collection hc)
    refine ⟨_, scroll_run hc field, fun key texts hk => ?_, fun id b key texts hb ht => ?_⟩
    · obtain ⟨id, b, hb, ht⟩ := (mem_scrolled (hm.sorted hc)).1 (Table.mem_of_get?_ofList hk)
      exact ⟨id, b, (hget id).trans hb, ht⟩
    · exact Table.isSome_get?_ofList
        ((mem_scrolled (hm.sorted hc)).2 ⟨id, b, (hget id).symm.trans hb, ht⟩)
  ensure_refused := by
    intro m name n e _ h
    change (ensure name n).run m = _
    rw [ensure_run]
    cases hc : m.collection? name with
    | none => simp [Holdings.refusal?, held, hc] at h
    | some c =>
      by_cases hn : c.size = n
      · simp [Holdings.refusal?, held, hc, hn] at h
      · have he : StoreError.dimension name c.size n = e := by
          simpa [Holdings.refusal?, held, hc, hn] using h
        simp only [ne_eq, hn, not_false_eq_true, if_true, he]
  ensure_taken := by
    intro m name n hm h
    change ∃ s', (ensure name n).run m = _ ∧ _
    rw [ensure_run]
    cases hc : m.collection? name with
    | none => exact ⟨_, rfl, hm.make name n, held_make hc n⟩
    | some c =>
      -- a collection that is not refused has that length already
      have hn : c.size = n := by
        by_contra hn
        simp [Holdings.refusal?, held, hc, hn] at h
      refine ⟨m, by simp [hn], hm, ?_⟩
      have : m.held.size? name = some n := by simp [held, hc, hn]
      change m.held = _
      rw [Holdings.make, ← this, Function.update_eq_self]
  upsert_fitting := by
    intro m name n ps hm h hps
    obtain ⟨c, hc, rfl⟩ := exists_collection h
    refine ⟨_, upsert_run hc hps, hm.set (sorted_foldl_put (hm.sorted hc) ps) ?_, ?_⟩
    · rw [size_foldl_put]
      exact lengths_foldl_put (hm.lengths hc) hps
    · have hsame : ps.map (Point.keptBy fun j => j) = ps := by
        rw [List.map_congr_left (g := id) fun p _ => by simp [Point.keptBy], List.map_id]
      rw [hsame]
      exact held_putAll hc ps
  drop_run name hm := ⟨_, rfl, hm.drop name, held_drop _ name⟩
  deleteIds_run := by
    intro m name n ids hm h
    obtain ⟨c, hc, -⟩ := exists_collection h
    cases ids with
    | nil =>
      -- no ids, and nothing is done
      refine ⟨m, rfl, hm, ?_⟩
      have hall : (fun id => (m.held.held? name id).filter fun _ => true) = m.held.held? name := by
        funext id
        cases m.held.held? name id <;> rfl
      change m.held = _
      simp only [Holdings.cut, List.contains_nil, Bool.not_false, hall, Function.update_eq_self]
    | cons i r =>
      refine ⟨_, deleteIds_run_memory hc (List.cons_ne_nil i r),
        hm.set (sorted_foldl_erase (hm.sorted hc) _) fun e he =>
          hm.lengths hc e (mem_of_mem_foldl_erase he), ?_⟩
      refine (held_set hc (by rfl)).trans ?_
      simp only [Holdings.cut, get?_foldl_erase, held?_of_collection hc]
  deleteWhere_run := by
    intro m name f hm _
    change ∃ n s', (deleteWhere name f).run m = _ ∧ _
    rw [deleteWhere_run_memory]
    cases hc : m.collection? name with
    | none => exact ⟨0, m, rfl, hm, (held_cut_of_none hc _).symm⟩
    | some c =>
      refine ⟨_, _, rfl, hm.set (Table.sorted_filter (hm.sorted hc) _) fun e he =>
        hm.lengths hc e (List.mem_filter.1 he).1, ?_⟩
      refine (held_set hc (by rfl)).trans ?_
      simp only [Holdings.cut, held?_of_collection hc]
      congr 2
      funext id
      exact Table.get?_filter (hm.sorted hc) (fun e => !f.accepts e.2.2) id

end Memory

end CodeSearch
