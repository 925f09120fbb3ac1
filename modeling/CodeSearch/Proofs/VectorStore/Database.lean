import CodeSearch.Proofs.Steps
import CodeSearch.Proofs.VectorStore.Lawful
import CodeSearch.VectorStore.Database
import Mathlib.Data.List.Nodup

/-!
# The store in database tables is lawful

A point of a database is found among its rows. In a database in good order no two rows are those of one
point (`Database.InOrder.nodup`), so it does not matter which row is found first and taking out the rows
of some ids takes out exactly the points under them. Every row belongs to a collection that is there and
has a vector of its length (`Database.InOrder.lengths`).

A payload that was written can be read again if no more lists and objects are open in it at once than the reader
takes (`Database.isLegible_iff`).
-/

namespace CodeSearch

/-! ### Depth -/

namespace Json

mutual

/-- How many lists and objects are open at once in a value, at most. -/
def depth : Json → Nat
  | .arr items => itemsDepth items + 1
  | .obj fields => fieldsDepth fields + 1
  | _ => 0

/-- The same for the items of a list. -/
def itemsDepth : List Json → Nat
  | [] => 0
  | v :: r => max v.depth (itemsDepth r)

/-- The same for the fields of an object. -/
def fieldsDepth : List (String × Json) → Nat
  | [] => 0
  | (_, v) :: r => max v.depth (fieldsDepth r)

end

mutual

/-- **Nothing goes too far** if there are levels enough, wherever the text stands. -/
theorem tooDeep?_eq_none_iff (levels before : Nat) :
    ∀ j : Json, j.tooDeep? levels before = none ↔ j.depth ≤ levels
  | .null | .bool _ | .int _ | .float _ | .str _ => iff_of_true rfl (Nat.zero_le _)
  | .arr items => by
    cases levels with
    | zero => simp [tooDeep?, depth]
    | succ levels =>
      -- a list takes one level, and its items have those that are left
      rw [tooDeep?, itemsTooDeep?_eq_none_iff levels (before + 1) items, depth, Nat.add_le_add_iff_right]
  | .obj fields => by
    cases levels with
    | zero => simp [tooDeep?, depth]
    | succ levels =>
      rw [tooDeep?, fieldsTooDeep?_eq_none_iff levels (before + 1) fields, depth, Nat.add_le_add_iff_right]

/-- The same for the items of a list. -/
theorem itemsTooDeep?_eq_none_iff (levels before : Nat) :
    ∀ items : List Json, itemsTooDeep? levels before items = none ↔ itemsDepth items ≤ levels
  | [] => iff_of_true rfl (Nat.zero_le _)
  | v :: r => by
    rw [itemsTooDeep?, Option.or_eq_none_iff, tooDeep?_eq_none_iff levels before v,
      itemsTooDeep?_eq_none_iff levels _ r, itemsDepth, Nat.max_le]

/-- The same for the fields of an object. -/
theorem fieldsTooDeep?_eq_none_iff (levels before : Nat) :
    ∀ fields : List (String × Json), fieldsTooDeep? levels before fields = none ↔ fieldsDepth fields ≤ levels
  | [] => iff_of_true rfl (Nat.zero_le _)
  | (k, v) :: r => by
    rw [fieldsTooDeep?, Option.or_eq_none_iff, tooDeep?_eq_none_iff levels _ v,
      fieldsTooDeep?_eq_none_iff levels _ r, fieldsDepth, Nat.max_le]

end

/-- Fields that hold neither lists nor objects open none. -/
theorem fieldsDepth_eq_zero {fields : List (String × Json)} (h : ∀ e ∈ fields, e.2.IsFlat) :
    fieldsDepth fields = 0 := by
  induction fields with
  | nil => rfl
  | cons e r ih =>
    obtain ⟨k, v⟩ := e
    obtain ⟨hv, hr⟩ := List.forall_mem_cons.1 h
    rw [fieldsDepth, ih hr, Nat.max_zero]
    cases v with
    | arr items | obj fields => cases hv
    | null | bool _ | int _ | float _ | str _ => rfl

end Json

namespace Database

/-- What tells the row of a point from all others. -/
def Row.key (r : Row) : String × String := (r.collection, r.point.id)

/-- One row for each point, in a collection for vectors of its length. -/
structure InOrder (d : Database) : Prop where
  /-- No two rows are those of one point. -/
  nodup : (d.rows.map Row.key).Nodup
  /-- The vector of a row has the length of its collection. -/
  lengths : ∀ r ∈ d.rows, Table.get? d.sizes r.collection = some r.point.vector.length
  /-- The lengths of all collections can be held. -/
  fits : ∀ {name n}, Table.get? d.sizes name = some n → n ≤ greatestSize

/-- What the rows hold. -/
def held (d : Database) : Holdings :=
  { size? := Table.get? d.sizes
    held? := fun name id => (d.rows.find? (·.isAt name id)).map fun r =>
      (r.point.vector, r.point.payload) }

/-- A row is at the place that its key tells. -/
theorem Row.isAt_iff (r : Row) (name id : String) : r.isAt name id = true ↔ r.key = (name, id) := by
  simp [Row.isAt, Row.key]

/-- A row that is found has the key that was looked for. -/
theorem key_of_find? {rows : List Row} {name id : String} {r : Row}
    (h : rows.find? (·.isAt name id) = some r) : r.key = (name, id) := by
  have hr := List.find?_some h
  exact (r.isAt_iff name id).1 hr

/-- **A point is held if there is a row for it.** -/
theorem held?_eq_some_iff {d : Database} (hd : d.InOrder) {name id : String} {b : PointBody} :
    d.held.held? name id = some b ↔
      ∃ r ∈ d.rows, r.key = (name, id) ∧ b = (r.point.vector, r.point.payload) := by
  constructor
  · -- the row that is found is one of the rows
    intro h
    obtain ⟨r, hr, rfl⟩ := Option.map_eq_some_iff.1 h
    exact ⟨r, List.mem_of_find?_eq_some hr, key_of_find? hr, rfl⟩
  · rintro ⟨r, hr, hk, rfl⟩
    -- the row that is found first has the same key, so it is that row
    obtain ⟨q, hq⟩ : ∃ q, d.rows.find? (·.isAt name id) = some q := by
      refine Option.isSome_iff_exists.1 (List.find?_isSome.2 ⟨r, hr, ?_⟩)
      exact (r.isAt_iff _ _).2 hk
    have hqk : q.key = r.key := (key_of_find? hq).trans hk.symm
    have hqr : q = r := List.inj_on_of_nodup_map hd.nodup (List.mem_of_find?_eq_some hq) hr hqk
    change (d.rows.find? (·.isAt name id)).map _ = _
    rw [hq, hqr]
    rfl

/-! ### Taking out rows -/

/-- A row that is removed is not found any more, and any other one is found as before. -/
theorem find?_remove (rows : List Row) (name name' id id' : String) :
    (rows.filter (!·.isAt name id)).find? (·.isAt name' id') =
      if name' = name ∧ id' = id then none else rows.find? (·.isAt name' id') := by
  induction rows with
  | nil => simp
  | cons r rows ih =>
    by_cases hr : r.isAt name id = true
    · rw [List.filter_cons_of_neg (by simp [hr]), ih]
      by_cases he : name' = name ∧ id' = id
      · rw [if_pos he, if_pos he]
      · -- the row that is left out is not the one that is looked for
        have hr' : ¬r.isAt name' id' = true := fun hr' => he <| by
          have := ((r.isAt_iff _ _).1 hr').symm.trans ((r.isAt_iff _ _).1 hr)
          simpa using this
        rw [if_neg he, if_neg he, List.find?_cons_of_neg (by simpa using hr')]
    · rw [List.filter_cons_of_pos (by simp [hr])]
      by_cases hr' : r.isAt name' id' = true
      · -- a row that stays is not at the place that is cleared
        have he : ¬(name' = name ∧ id' = id) := by
          rintro ⟨rfl, rfl⟩
          exact hr hr'
        rw [if_neg he, List.find?_cons_of_pos (by simpa using hr'),
          List.find?_cons_of_pos (by simpa using hr')]
      · rw [List.find?_cons_of_neg (by simpa using hr'),
          List.find?_cons_of_neg (by simpa using hr'), ih]

/-- What is removed is no longer held, and nothing else changes. -/
theorem held?_remove (d : Database) (name id name' id' : String) :
    (d.remove name id).held.held? name' id' =
      if name' = name ∧ id' = id then none else d.held.held? name' id' := by
  change ((d.rows.filter _).find? _).map _ = _
  rw [find?_remove]
  split
  · rfl
  · rfl

theorem InOrder.remove {d : Database} (hd : d.InOrder) (name id : String) :
    (d.remove name id).InOrder where
  nodup := hd.nodup.sublist (List.filter_sublist.map _)
  lengths r hr := hd.lengths r (List.mem_filter.1 hr).1
  fits := hd.fits

theorem InOrder.removeAll {d : Database} (hd : d.InOrder) (name : String) (ids : List String) :
    (ids.foldl (Database.remove name) d).InOrder := by
  induction ids generalizing d with
  | nil => exact hd
  | cons i r ih => exact ih (hd.remove name i)

/-- To remove some points one after the other is to cut them out at once. -/
theorem held_removeAll (d : Database) (name : String) (ids : List String) :
    (ids.foldl (remove name) d).held = d.held.cut name fun id _ => ids.contains id := by
  ext1
  · -- removing rows leaves the sizes as they are
    induction ids generalizing d with
    | nil => rfl
    | cons i r ih => exact ih (d.remove name i)
  · -- for each point, whether its id is one of those that are removed
    funext name' id
    rw [Holdings.held?_cut]
    induction ids generalizing d with
    | nil =>
      rw [List.foldl_nil]
      by_cases hn : name' = name
      · rw [if_pos hn, hn]
        cases d.held.held? name id <;> rfl
      · rw [if_neg hn]
    | cons i r ih =>
      rw [List.foldl_cons, ih]
      by_cases hn : name' = name
      · subst hn
        rw [if_pos rfl, if_pos rfl, held?_remove]
        by_cases hi : id = i
        · rw [if_pos ⟨rfl, hi⟩]
          cases d.held.held? name' id <;> simp [hi]
        · rw [if_neg fun he => hi he.2]
          cases d.held.held? name' id <;> simp [hi]
      · rw [if_neg hn, if_neg hn, held?_remove, if_neg fun he => hn he.1]

/-! ### Writing rows -/

/-- To put a row is to put the point, with a payload as it will be read. -/
theorem held_put (d : Database) (name : String) (p : Point) :
    (put name d p).held = d.held.put name (p.keptBy Json.reread) := by
  ext1
  · rfl
  · funext name' id
    rw [Holdings.held?_put]
    change ((d.rows.filter _ ++ [_]).find? _).map _ = _
    rw [List.find?_append, find?_remove]
    by_cases he : name' = name ∧ id = p.id
    · -- the old row is left out, so the one at the end is found
      obtain ⟨rfl, rfl⟩ := he
      rw [if_pos ⟨rfl, rfl⟩, if_pos ⟨rfl, rfl⟩, Option.none_or]
      rw [List.find?_cons_of_pos (by simp [Row.isAt])]
      rfl
    · -- the row at the end is that of another point
      have hnew : ∀ b, (⟨name, { p with payload := b }⟩ : Row).isAt name' id = false := by
        intro b
        rw [Bool.eq_false_iff]
        intro h
        have := (Row.isAt_iff _ _ _).1 h
        exact he ⟨(congrArg Prod.fst this).symm, (congrArg Prod.snd this).symm⟩
      have he' : ¬(name' = name ∧ id = (p.keptBy Json.reread).id) := he
      rw [if_neg he, if_neg he', List.find?_cons, hnew, List.find?_nil, Option.or_none]
      rfl

/-- The rows stay in order when one of the right length is put. -/
theorem InOrder.put {d : Database} (hd : d.InOrder) {name : String} {p : Point}
    (hp : Table.get? d.sizes name = some p.vector.length) : (put name d p).InOrder where
  nodup := by
    change ((d.rows.filter _ ++ [_]).map Row.key).Nodup
    rw [List.map_append, List.map_singleton]
    -- the row at the end has no other one with its key
    refine List.Nodup.append (hd.nodup.sublist (List.filter_sublist.map _)) (List.nodup_singleton _) ?_
    intro k hk hk'
    obtain ⟨r, hr, rfl⟩ := List.mem_map.1 hk
    have hne : r.isAt name p.id = false := by simpa using (List.mem_filter.1 hr).2
    rw [Bool.eq_false_iff] at hne
    exact hne ((r.isAt_iff _ _).2 (List.mem_singleton.1 hk'))
  lengths := by
    intro r hr
    rcases List.mem_append.1 hr with hr | hr
    · exact hd.lengths r (List.mem_filter.1 hr).1
    · obtain rfl := List.mem_singleton.1 hr
      exact hp
  fits := hd.fits

/-- The same for one point after the other. -/
theorem putAll_spec {d : Database} (hd : d.InOrder) {name : String} {n : Nat}
    (hn : Table.get? d.sizes name = some n) {ps : List Point}
    (hps : ∀ p ∈ ps, p.vector.length = n) :
    (ps.foldl (put name) d).InOrder ∧
      (ps.foldl (put name) d).held = d.held.putAll name (ps.map (Point.keptBy Json.reread)) := by
  induction ps generalizing d with
  | nil => exact ⟨hd, rfl⟩
  | cons p r ih =>
    -- every point has the length that the collection had from the start
    have hp : Table.get? d.sizes name = some p.vector.length := by
      rw [hps p List.mem_cons_self, hn]
    have hr := ih (hd.put hp) hn fun q hq => hps q (List.mem_cons_of_mem _ hq)
    rw [held_put] at hr
    exact hr

theorem upsert_run {d : Database} {name : String} {n : Nat} (h : Table.get? d.sizes name = some n)
    {ps : List Point} (hps : ∀ p ∈ ps, p.vector.length = n) :
    (upsert name ps).run d = .ok () (ps.foldl (put name) d) := by
  have hcheck := checkDimensions_points name hps
  simp only [upsert, EStateM.run, bind, EStateM.bind, get_apply, h, hcheck]
  rfl

/-! ### Making collections -/

/-- A collection is made unless it is there, with a length that is not too large. -/
theorem ensure_run (name : String) (size : Nat) (d : Database) :
    (ensure name size).run d =
      if greatestSize < size then .error .sizeTooLarge d
      else match Table.get? d.sizes name with
        | none => .ok () { d with sizes := d.sizes.insert name size }
        | some stored =>
          if stored ≠ size then .error (.dimension name stored size) d else .ok () d := by
  -- the bound is looked at before the collections
  by_cases hg : greatestSize < size
  · simp only [ensure, hg, if_true, EStateM.run, bind, EStateM.bind]
    rfl
  · simp only [ensure, hg, if_false, EStateM.run, bind, EStateM.bind, get_apply]
    cases h : Table.get? d.sizes name with
    | none => rfl
    | some stored =>
      by_cases hs : stored = size
      · simp only [ne_eq, hs, not_true_eq_false, if_false]
        rfl
      · simp only [ne_eq, hs, not_false_eq_true, if_true]
        rfl

/-- The database refuses what the contents refuse. -/
theorem refusal?_held (d : Database) (name : String) (n : Nat) :
    d.held.refusal? (fun n => decide (n ≤ greatestSize)) name n =
      if greatestSize < n then some .sizeTooLarge
      else match Table.get? d.sizes name with
        | none => none
        | some m => if m = n then none else some (.dimension name m n) := by
  by_cases hg : greatestSize < n
  · simp [Holdings.refusal?, hg, Nat.not_le.2 hg]
  · have hle : n ≤ greatestSize := Nat.le_of_not_lt hg
    simp only [Holdings.refusal?, hg, hle, decide_true, if_true, if_false]
    rfl

/-- The rows stay in order when a collection is made that was not there. -/
theorem InOrder.make {d : Database} (hd : d.InOrder) {name : String} {n : Nat}
    (h : Table.get? d.sizes name = none) (hn : n ≤ greatestSize) :
    ({ d with sizes := d.sizes.insert name n } : Database).InOrder where
  nodup := hd.nodup
  lengths := by
    intro r hr
    have hl := hd.lengths r hr
    -- a row of that collection would have had its length there
    have hne : r.collection ≠ name := by
      intro he
      rw [he, h] at hl
      cases hl
    rw [Table.get?_insert, if_neg hne, hl]
  fits := by
    intro name' m hm
    rw [Table.get?_insert] at hm
    split at hm
    · obtain rfl := Option.some.inj hm
      exact hn
    · exact hd.fits hm

/-! ### Reading payloads -/

/-- Whether a payload can be read again: its lists and objects are not nested too deeply. -/
def isLegible (p : Payload) : Bool := (Json.tooDeep? Json.greatestDepth 0 (.obj p)).isNone

/-- **A payload can be read** if so many of its lists and objects, and itself, are open at once at most. -/
theorem isLegible_iff (p : Payload) : isLegible p = true ↔ (Json.obj p).depth ≤ Json.greatestDepth := by
  rw [isLegible, Option.isNone_iff_eq_none, Json.tooDeep?_eq_none_iff]

/-- A payload that holds single values only can be read. -/
theorem isLegible_of_isFlat {p : Payload} (h : ∀ e ∈ p, e.2.IsFlat) : isLegible p = true := by
  rw [isLegible_iff, Json.depth, Json.fieldsDepth_eq_zero h]
  decide

/-- A value without lists and objects is read as another such one. -/
theorem isFlat_reread {j : Json} (h : j.IsFlat) : j.reread.IsFlat := by
  cases j with
  | arr items | obj fields => cases h
  | null | bool _ | int _ | float _ | str _ => trivial

/-- Whatever is not too deep is read as it is. -/
theorem legible_of_isLegible {r : Row} (h : isLegible r.point.payload = true) : r.legible = .ok r := by
  rw [Row.legible, Option.isNone_iff_eq_none.1 h]

/-- Rows whose payloads can be read are read one after the other. -/
theorem mapM_legible {rows : List Row} (h : ∀ r ∈ rows, isLegible r.point.payload = true) :
    rows.mapM Row.legible = .ok rows :=
  (mapM_eq_ok (f := Row.legible) (g := id) fun r hr => legible_of_isLegible (h r hr)).trans
    (congrArg Except.ok rows.map_id)

/-- Whatever is read is not too deep. -/
theorem isLegible_of_legible {r r' : Row} (h : r.legible = .ok r') : isLegible r.point.payload = true := by
  rw [Row.legible] at h
  split at h
  · cases h
  · next hnone => exact Option.isNone_iff_eq_none.2 hnone

/-- One payload that cannot be read stops the reading. -/
theorem exists_mapM_legible_error {rows : List Row} (h : ¬∀ r ∈ rows, isLegible r.point.payload = true) :
    ∃ e, rows.mapM Row.legible = .error e := by
  cases hrows : rows.mapM Row.legible with
  | error e => exact ⟨e, rfl⟩
  | ok rows' =>
    refine absurd (fun r hr => ?_) h
    obtain ⟨r', hr'⟩ := exists_ok_of_mapM hrows r hr
    exact isLegible_of_legible hr'

theorem legible_points {d : Database} (hd : d.InOrder) {name : String}
    (h : ∀ id b, d.held.held? name id = some b → isLegible b.2 = true) :
    ∀ r ∈ d.points name, isLegible r.point.payload = true := by
  intro r hr
  obtain ⟨hr, hn⟩ := List.mem_filter.1 hr
  have hn : r.collection = name := by simpa using hn
  exact h r.point.id _ ((held?_eq_some_iff hd).2 ⟨r, hr, by rw [Row.key, hn], rfl⟩)

/-! ### Reading all texts -/

theorem scroll_of_legible {d : Database} {name : String}
    (h : ∀ r ∈ d.points name, isLegible r.point.payload = true) (field : String) :
    d.scroll name field =
      .ok (.ofList ((d.points name).filterMap (Payload.textsUnder? ·.point.payload field))) := by
  rw [scroll, mapM_legible h]
  rfl

/-- What a scroll gives is what is held. -/
theorem mem_scrolled {d : Database} (hd : d.InOrder) {name field : String}
    {e : String × Table String} :
    e ∈ (d.points name).filterMap (Payload.textsUnder? ·.point.payload field) ↔
      ∃ id b, d.held.held? name id = some b ∧ Payload.textsUnder? b.2 field = some e := by
  -- between rows and points, in both directions
  constructor
  · intro he
    obtain ⟨r, hr, he⟩ := List.mem_filterMap.1 he
    obtain ⟨hr, hn⟩ := List.mem_filter.1 hr
    have hn : r.collection = name := by simpa using hn
    exact ⟨r.point.id, _, (held?_eq_some_iff hd).2 ⟨r, hr, by rw [Row.key, hn], rfl⟩, he⟩
  · rintro ⟨id, b, hb, he⟩
    obtain ⟨r, hr, hk, rfl⟩ := (held?_eq_some_iff hd).1 hb
    have hn : r.collection = name := congrArg Prod.fst hk
    exact List.mem_filterMap.2 ⟨r, List.mem_filter.2 ⟨hr, beq_iff_eq.2 hn⟩, he⟩

/-- A deletion that reads all rows deletes those that the filter accepts. -/
theorem deleteWhere_run_database {d : Database} {name : String}
    (h : ∀ r ∈ d.points name, isLegible r.point.payload = true) (f : Filter) :
    (deleteWhere name f).run d =
      let doomed := (d.points name).filter (f.accepts ·.point.payload)
      .ok doomed.length ((doomed.map (·.point.id)).foldl (remove name) d) := by
  simp only [deleteWhere, EStateM.run, bind, EStateM.bind, get_apply, mapM_legible h]
  rfl

/-- A deletion that meets a row that cannot be read deletes nothing. -/
theorem deleteWhere_run_of_not_legible {d : Database} {name : String}
    (h : ¬∀ r ∈ d.points name, isLegible r.point.payload = true) (f : Filter) :
    ∃ e, (deleteWhere name f).run d = .error e d := by
  obtain ⟨e, he⟩ := exists_mapM_legible_error h
  refine ⟨e, ?_⟩
  simp only [deleteWhere, EStateM.run, bind, EStateM.bind, get_apply, he]
  rfl

/-- The ids of the rows that a filter accepts are those of the points that it accepts. -/
theorem mem_doomed {d : Database} (hd : d.InOrder) {name : String} {f : Filter} {id : String}
    {b : PointBody} (hb : d.held.held? name id = some b) :
    id ∈ ((d.points name).filter (f.accepts ·.point.payload)).map (·.point.id) ↔
      f.accepts b.2 = true := by
  obtain ⟨q, hq, hk, rfl⟩ := (held?_eq_some_iff hd).1 hb
  have hqn : q.collection = name := congrArg Prod.fst hk
  have hqi : q.point.id = id := congrArg Prod.snd hk
  constructor
  · intro h
    obtain ⟨r, hr, hi⟩ := List.mem_map.1 h
    obtain ⟨hr, ha⟩ := List.mem_filter.1 hr
    obtain ⟨hr, hn⟩ := List.mem_filter.1 hr
    have hn : r.collection = name := by simpa using hn
    -- there is one row with this id
    have hrq : r.key = q.key := by rw [hk, Row.key, hn, hi]
    obtain rfl : r = q := List.inj_on_of_nodup_map hd.nodup hr hq hrq
    exact ha
  · intro ha
    refine List.mem_map.2 ⟨q, List.mem_filter.2 ⟨List.mem_filter.2 ⟨hq, ?_⟩, ha⟩, hqi⟩
    simpa using hqn

/-! ### Leaving out a collection -/

/-- The rows stay in order when a collection is dropped. -/
theorem InOrder.drop {d : Database} (hd : d.InOrder) (name : String) :
    ({ sizes := d.sizes.erase name, rows := d.rows.filter (·.collection ≠ name) } :
      Database).InOrder where
  nodup := hd.nodup.sublist (List.filter_sublist.map _)
  lengths := by
    intro r hr
    obtain ⟨hr, hn⟩ := List.mem_filter.1 hr
    have hn : r.collection ≠ name := by simpa using hn
    rw [Table.get?_erase, if_neg hn]
    exact hd.lengths r hr
  fits := by
    intro name' m hm
    rw [Table.get?_erase] at hm
    split at hm
    · cases hm
    · exact hd.fits hm

/-- To drop a collection is to drop what it holds. -/
theorem held_drop (d : Database) (name : String) :
    ({ sizes := d.sizes.erase name, rows := d.rows.filter (·.collection ≠ name) } :
      Database).held = d.held.drop name := by
  ext1
  · funext name'
    rw [Holdings.size?_drop]
    exact Table.get?_erase _ _ _
  · funext name' id
    rw [Holdings.held?_drop]
    change ((d.rows.filter _).find? _).map _ = _
    rw [List.find?_filter]
    split
    · next hn =>
      rw [List.find?_eq_none.2 fun r _ => ?_]
      · rfl
      · -- the rows that are left are those of other collections
        by_cases hr : r.collection = name <;> simp [Row.isAt, hn, hr]
    · next hn =>
      -- no row that is left out is looked for
      refine congrArg (Option.map _) (congrArg (List.find? · d.rows) (funext fun r => ?_))
      by_cases hr : r.collection = name'
      · have hne : r.collection ≠ name := hr ▸ hn
        simp [hne]
      · simp [Row.isAt, hr]

/-! ### The instance -/

theorem str?_reread (j : Json) : j.reread.str? = j.str? := by
  cases j <;> simp [Json.reread, Json.str?]

/-- **The store in database tables is lawful.** -/
instance : LawfulVectorStore Database where
  Ordered := InOrder
  holdings := held
  fits n := decide (n ≤ greatestSize)
  kept := Json.reread
  legible := isLegible
  str?_kept := str?_reread
  legible_kept := by
    intro p hp
    refine isLegible_of_isFlat fun e he => ?_
    obtain ⟨written, hwritten, rfl⟩ := List.mem_map.1 he
    exact isFlat_reread (hp written hwritten)
  ordered_empty := ⟨List.nodup_nil, by rintro r ⟨⟩, by rintro _ _ ⟨⟩⟩
  holdings_empty := rfl
  contains_eq _ _ := rfl
  fits_of_size? hd h := decide_eq_true (hd.fits h)
  size?_of_held? := by
    intro d name id b hd h
    obtain ⟨r, hr, hk, rfl⟩ := (held?_eq_some_iff hd).1 h
    obtain rfl : r.collection = name := congrArg Prod.fst hk
    exact hd.lengths r hr
  scroll_eq := by
    intro d name n field hd _ hlegible
    refine ⟨_, scroll_of_legible (legible_points hd hlegible) field, fun key texts hk => ?_,
      fun id b key texts hb ht => ?_⟩
    · exact (mem_scrolled hd).1 (Table.mem_of_get?_ofList hk)
    · exact Table.isSome_get?_ofList ((mem_scrolled hd).2 ⟨id, b, hb, ht⟩)
  ensure_refused := by
    intro d name n e _ h
    change (ensure name n).run d = _
    rw [refusal?_held] at h
    rw [ensure_run]
    split at h
    · next hg => rw [if_pos hg, Option.some.inj h]
    · next hg =>
      rw [if_neg hg]
      cases hs : Table.get? d.sizes name with
      | none => simp [hs] at h
      | some m =>
        by_cases hm : m = n
        · simp [hs, hm] at h
        · have he : StoreError.dimension name m n = e := by simpa [hs, hm] using h
          simp [hm, he]
  ensure_taken := by
    intro d name n hd h
    change ∃ s', (ensure name n).run d = _ ∧ _
    rw [refusal?_held] at h
    rw [ensure_run]
    split at h
    · cases h
    · next hg =>
      rw [if_neg hg]
      cases hs : Table.get? d.sizes name with
      | none =>
        refine ⟨_, rfl, hd.make hs (Nat.le_of_not_lt hg), ?_⟩
        ext1
        · funext name'
          rw [Holdings.size?_make]
          exact Table.get?_insert _ _ _ _
        · rfl
      | some m =>
        -- a collection that is not refused has that length already
        obtain rfl : m = n := by
          by_contra hm
          simp [hs, hm] at h
        refine ⟨d, by simp, hd, ?_⟩
        have : d.held.size? name = some m := hs
        change d.held = _
        rw [Holdings.make, ← this, Function.update_eq_self]
  upsert_fitting hd h hps :=
    ⟨_, upsert_run h hps, (putAll_spec hd h hps).1, (putAll_spec hd h hps).2⟩
  drop_run name hd := ⟨_, rfl, hd.drop name, held_drop _ name⟩
  deleteIds_run := by
    intro d name n ids hd _
    exact ⟨_, rfl, hd.removeAll name ids, held_removeAll d name ids⟩
  deleteWhere_run := by
    intro d name f hd hlegible
    refine ⟨_, _, deleteWhere_run_database (legible_points hd hlegible) f, hd.removeAll name _,
      (held_removeAll d name _).trans ?_⟩
    ext1
    · rfl
    · funext name' id
      rw [Holdings.held?_cut, Holdings.held?_cut]
      split
      · cases hb : d.held.held? name id with
        | none => rfl
        | some b =>
          simp only [Option.filter_some]
          have := mem_doomed hd (f := f) hb
          by_cases ha : f.accepts b.2 = true
          · rw [List.contains_iff_mem.2 (this.2 ha), ha]
          · have hnot := mt this.1 ha
            rw [Bool.eq_false_iff.2 ha, Bool.eq_false_iff.2 (mt List.contains_iff_mem.1 hnot)]
      · rfl

end Database

end CodeSearch
