import CodeSearch.Proofs.VectorStore.Database
import CodeSearch.Proofs.VectorStore.Memory

/-!
# Vector stores that show what they hold

`LawfulVectorStore` is about what operations leave in a store. A *transparent* store is one whose answers
are determined by what it holds as well. It lists the points of each collection, in an order of its own;
what is found, read and counted is told by that list, and since hits are ranked the order of the list
does not show (`Hit.ranked_eq_of_perm`).

Values that are no floating point numbers are kept as they are. A store may keep vectors and payloads that it
cannot read back, so the laws about reading ask for `readable` vectors and `legible` payloads. The store in
memory reads all of them. The one in database tables reads the vectors whose components are all finite numbers
(`Database.nullColumn?_eq_none_iff`) and the payloads that are not nested too deeply.
-/

namespace CodeSearch

/-! ### Ranking -/

namespace Hit

/-- A hit precedes another one by its score, or by its id at the same score. -/
theorem precedes_iff {a b : Hit} :
    a.precedes b = true ↔ b.score.rank < a.score.rank ∨ a.score.rank = b.score.rank ∧ a.id ≤ b.id := by
  rw [precedes, Bool.or_eq_true, Bool.and_eq_true, decide_eq_true_iff, decide_eq_true_iff, beq_iff_eq]

/-- Of two hits one precedes the other. -/
theorem precedes_total (a b : Hit) : (a.precedes b || b.precedes a) = true := by
  rw [Bool.or_eq_true, precedes_iff, precedes_iff]
  -- by the ids first, which decide where the scores are the same
  rcases String.le_total a.id b.id with h | h
  · rcases Int.lt_trichotomy a.score.rank b.score.rank with hr | hr | hr
    · exact Or.inr (Or.inl hr)
    · exact Or.inl (Or.inr ⟨hr, h⟩)
    · exact Or.inl (Or.inl hr)
  · rcases Int.lt_trichotomy a.score.rank b.score.rank with hr | hr | hr
    · exact Or.inr (Or.inl hr)
    · exact Or.inr (Or.inr ⟨hr.symm, h⟩)
    · exact Or.inl (Or.inl hr)

/-- What a hit precedes, it precedes with all that follows. -/
theorem precedes_trans (a b c : Hit) (hab : a.precedes b = true) (hbc : b.precedes c = true) :
    a.precedes c = true := by
  rw [precedes_iff] at hab hbc ⊢
  rcases hab with hab | ⟨hab, hid⟩
  · left
    rcases hbc with hbc | ⟨hbc, -⟩ <;> omega
  · rcases hbc with hbc | ⟨hbc, hid'⟩
    · left
      omega
    · exact Or.inr ⟨hab.trans hbc, String.le_trans hid hid'⟩

/-- Hits that may stand in front of each other have one id. -/
theorem id_eq_of_precedes {a b : Hit} (hab : a.precedes b = true) (hba : b.precedes a = true) :
    a.id = b.id := by
  rw [precedes_iff] at hab hba
  rcases hab with hab | ⟨hr, hab⟩ <;> rcases hba with hba | ⟨hr', hba⟩
  · omega
  · omega
  · omega
  · exact String.le_antisymm hab hba

theorem pairwise_ranked (hits : List Hit) : (ranked hits).Pairwise fun a b => a.precedes b = true :=
  List.pairwise_mergeSort precedes_trans precedes_total hits

/-- **The order in which hits come does not show in their ranking**, if each has an id of its own. -/
theorem ranked_eq_of_perm {hits hits' : List Hit} (h : hits.Perm hits')
    (hn : (hits.map Hit.id).Nodup) : ranked hits = ranked hits' := by
  have hperm : (ranked hits).Perm (ranked hits') :=
    (perm_ranked hits).trans (h.trans (perm_ranked hits').symm)
  refine List.Perm.eq_of_pairwise ?_ (pairwise_ranked hits) (pairwise_ranked hits') hperm
  intro a b ha hb hab hba
  have ha' : a ∈ hits := (perm_ranked hits).mem_iff.1 ha
  have hb' : b ∈ hits := h.mem_iff.2 ((perm_ranked hits').mem_iff.1 hb)
  exact List.inj_on_of_nodup_map hn ha' hb' (id_eq_of_precedes hab hba)

end Hit

/-! ### The laws -/

/-- Whether a value is a text, a truth value or a whole number, or none at all. -/
def Json.IsPlain : Json → Prop
  | .null | .bool _ | .int _ | .str _ => True
  | .float _ | .arr _ | .obj _ => False

/-- Stores whose answers are determined by what they hold. -/
class TransparentVectorStore (σ : Type) [VectorStore σ] [LawfulVectorStore σ] where
  kept_of_isPlain : ∀ {j : Json}, j.IsPlain → LawfulVectorStore.kept σ j = j
  /-- Whether a vector that is stored can be read. -/
  readable : Embedding → Bool
  /-- The points of a collection. -/
  points : σ → String → List Point
  nodup_points : ∀ {s : σ} (c : String), Ordered s → ((points s c).map Point.id).Nodup
  mem_points : ∀ {s : σ} {c : String} {p : Point}, Ordered s →
    (p ∈ points s c ↔ (holdings s).held? c p.id = some (p.vector, p.payload))
  search_eq : ∀ {s : σ} {c : String} {n : Nat} (query : Embedding) (k : Nat) (f : Filter),
    (holdings s).size? c = some n →
    (∀ p ∈ points s c, readable p.vector = true ∧ LawfulVectorStore.legible σ p.payload = true) →
    VectorStore.search s c query k f =
      if query.length = n then
        .ok (Hit.best k (((points s c).filter (f.accepts ·.payload)).map (·.hit query)))
      else .error (.dimension c n query.length)
  get_eq : ∀ {s : σ} {c id : String}, (∀ b, (holdings s).held? c id = some b →
      readable b.1 = true ∧ LawfulVectorStore.legible σ b.2 = true) →
    VectorStore.get s c [id] =
      .ok (((holdings s).held? c id).toList.map fun b => { id, vector := b.1, payload := b.2 })
  sorted_scroll : ∀ {s : σ} {c field : String} {t : Table (Table String)},
    VectorStore.scroll s c field = .ok t → t.Sorted
  count_deleteWhere : ∀ {s s' : σ} {c : String} {f : Filter} {n : Nat}, Ordered s →
    (VectorStore.deleteWhere c f).run s = .ok n s' →
      n = ((points s c).filter (f.accepts ·.payload)).length

export TransparentVectorStore (readable points)

section Points

variable {σ τ : Type} [VectorStore σ] [LawfulVectorStore σ] [TransparentVectorStore σ]
  [VectorStore τ] [LawfulVectorStore τ] [TransparentVectorStore τ] {s : σ} {t : τ}

/-- **Stores that hold the same list the same points.** -/
theorem perm_points (hs : Ordered s) (ht : Ordered t) {c : String}
    (h : (holdings s).held? c = (holdings t).held? c) : (points s c).Perm (points t c) := by
  have hn := (TransparentVectorStore.nodup_points c hs).of_map
  have hn' := (TransparentVectorStore.nodup_points c ht).of_map
  rw [List.perm_ext_iff_of_nodup hn hn']
  intro p
  rw [TransparentVectorStore.mem_points hs, TransparentVectorStore.mem_points ht, h]

/-- The payloads of a valid store can be read. -/
theorem Valid.legible_of_mem (hs : Valid s) {c : String} {p : Point} (hp : p ∈ points s c) :
    LawfulVectorStore.legible σ p.payload = true :=
  hs.legible c p.id _ ((TransparentVectorStore.mem_points hs.ordered).1 hp)

end Points

theorem checkDimensions_singleton (c : String) (n : Nat) (v : Embedding) :
    checkDimensions c n [v] = if v.length = n then .ok () else .error (.dimension c n v.length) := by
  rw [checkDimensions, List.find?_cons]
  by_cases h : v.length = n
  · simp [h]
  · simp [h]

/-! ### The store in memory -/

namespace Memory

/-- The points of a collection that may not be there. -/
def pointsOf (m : Memory) (name : String) : List Point := (m.collection? name).elim [] Collection.toList

/-- The points of a collection are the entries of its table. -/
theorem pointsOf_of_collection {m : Memory} {name : String} {c : Collection}
    (hc : m.collection? name = some c) : m.pointsOf name = c.toList := by
  rw [pointsOf, hc, Option.elim_some]

/-- A point is listed if it is found under its id. -/
theorem mem_toList {c : Collection} {p : Point} (hc : Table.Sorted c.points) :
    p ∈ c.toList ↔ Table.get? c.points p.id = some (p.vector, p.payload) := by
  rw [Table.get?_eq_some_iff hc, Collection.toList, List.mem_map]
  constructor
  · rintro ⟨e, he, rfl⟩
    exact he
  · exact fun hp => ⟨_, hp, rfl⟩

/-- Ids ascend, so none comes twice. -/
theorem nodup_ids {c : Collection} (hc : Table.Sorted c.points) : (c.toList.map Point.id).Nodup := by
  rw [Collection.toList, List.map_map]
  refine List.Pairwise.map _ (fun a b hab heq => ?_) hc
  have hsame : a.1 = b.1 := heq
  rw [hsame] at hab
  exact String.lt_irrefl b.1 hab

/-- What is left of a collection and what is taken out make it up. -/
theorem length_sub_length_filter (c : Collection) (f : Filter) :
    c.points.length - (c.points.filter fun e => !f.accepts e.2.2).length =
      (c.points.filter fun e => f.accepts e.2.2).length := by
  have hsplit := List.length_eq_length_filter_add (l := c.points) fun e => f.accepts e.2.2
  omega

/-- **The store in memory is transparent.** -/
instance : TransparentVectorStore Memory where
  kept_of_isPlain _ := rfl
  readable _ := true
  points := pointsOf
  nodup_points := by
    intro m name hm
    cases hc : m.collection? name with
    | none => simp [pointsOf, hc]
    | some c =>
      rw [pointsOf_of_collection hc]
      exact nodup_ids (hm.sorted hc)
  mem_points := by
    intro m name p hm
    change _ ↔ m.held.held? name p.id = _
    cases hc : m.collection? name with
    | none => simp [pointsOf, held, hc]
    | some c =>
      rw [pointsOf_of_collection hc, held?_of_collection hc]
      exact mem_toList (hm.sorted hc)
  search_eq := by
    intro m name n query k f h _
    obtain ⟨c, hc, rfl⟩ := exists_collection h
    change m.search name query k f = _
    simp only [search, hc, pointsOf_of_collection hc, checkDimensions_singleton]
    by_cases hq : query.length = c.size
    · rw [if_pos hq, if_pos hq]
      rfl
    · rw [if_neg hq, if_neg hq]
      rfl
  get_eq := by
    intro m name id _
    change Except.ok (m.get name [id]) = .ok ((m.held.held? name id).toList.map _)
    cases hc : m.collection? name with
    | none => simp [get, held, hc]
    | some c =>
      rw [held?_of_collection hc]
      cases hp : Table.get? c.points id <;> simp [get, hc, hp]
  sorted_scroll := by
    intro m name field t h
    change m.scroll name field = .ok t at h
    rw [scroll] at h
    split at h
    · cases h
    · obtain rfl := Except.ok.inj h
      exact Table.sorted_ofList _
  count_deleteWhere := by
    intro m m' name f n hm h
    change (deleteWhere name f).run m = _ at h
    rw [deleteWhere_run_memory] at h
    cases hc : m.collection? name with
    | none =>
      rw [hc] at h
      cases h
      simp [pointsOf, hc]
    | some c =>
      rw [hc] at h
      cases h
      rw [pointsOf_of_collection hc, Collection.toList, List.filter_map, List.length_map]
      exact length_sub_length_filter c f

end Memory

/-! ### The store in database tables -/

namespace Database

/-- A vector can be read if its components are finite numbers. -/
theorem nullColumn?_eq_none_iff (before : Nat) (v : Embedding) :
    Embedding.nullColumn? before v = none ↔ ∀ x ∈ v, x.isFinite = true := by
  induction v generalizing before with
  | nil => simp [Embedding.nullColumn?]
  | cons x xs ih =>
    rw [Embedding.nullColumn?, List.forall_mem_cons]
    by_cases hx : x.isFinite = true
    · rw [if_pos hx, ih, and_iff_right hx]
    · rw [if_neg hx]
      simp [hx]

/-- Whether the vector and the payload of a point can be read. -/
def IsReadable (p : Point) : Prop := (∀ x ∈ p.vector, x.isFinite = true) ∧ isLegible p.payload = true

/-- A row that is readable is read as it is. -/
theorem read_of_isReadable {r : Row} (h : IsReadable r.point) : r.read = .ok r.point := by
  rw [Row.read, (nullColumn?_eq_none_iff 1 _).2 h.1, legible_of_isLegible h.2]
  rfl

/-- If all rows are readable, all are read. -/
theorem mapM_read {rows : List Row} (h : ∀ r ∈ rows, IsReadable r.point) :
    rows.mapM Row.read = .ok (rows.map Row.point) :=
  mapM_eq_ok fun r hr => read_of_isReadable (h r hr)

/-- Only what is readable is read. -/
theorem isReadable_of_read {r : Row} {p : Point} (h : r.read = .ok p) : IsReadable r.point := by
  rw [Row.read] at h
  split at h
  · cases h
  · next hnone =>
    -- the vector is looked at first, and then the payload
    refine ⟨(nullColumn?_eq_none_iff 1 _).1 hnone, ?_⟩
    cases hlegible : r.legible with
    | error e =>
      rw [hlegible] at h
      cases h
    | ok r' => exact isLegible_of_legible hlegible

/-- **A search that succeeds has read all points of its collection.** -/
theorem isReadable_of_search {d : Database} {name : String} {query : Embedding} {k : Nat} {f : Filter}
    {hits : List Hit} (h : d.search name query k f = .ok hits) : ∀ r ∈ d.points name, IsReadable r.point := by
  intro r hr
  rw [search] at h
  split at h
  · cases h
  · obtain ⟨-, -, h⟩ := exists_of_bind_eq_ok h
    obtain ⟨ps, hrows, -⟩ := exists_of_bind_eq_ok h
    obtain ⟨p, hread⟩ := exists_ok_of_mapM hrows r hr
    exact isReadable_of_read hread

/-- Plain values come back from a column as they were. -/
theorem reread_of_isPlain {j : Json} (h : j.IsPlain) : j.reread = j := by
  cases j <;> first | exact h.elim | rfl

/-- **The store in database tables is transparent.** -/
instance : TransparentVectorStore Database where
  kept_of_isPlain := reread_of_isPlain
  readable v := v.all fun x => x.isFinite
  points d name := (d.points name).map Row.point
  nodup_points := by
    intro d name hd
    rw [List.map_map]
    -- rows of one collection differ in the ids of their points
    have hkeys := hd.nodup.sublist (List.filter_sublist (p := fun r => r.collection == name) |>.map _)
    refine List.Nodup.of_map (fun id => (name, id)) ?_
    rw [List.map_map]
    convert hkeys using 1
    refine List.map_congr_left fun r hr => ?_
    have hname : r.collection = name := beq_iff_eq.1 (List.mem_filter.1 hr).2
    simp [Row.key, hname]
  mem_points := by
    intro d name p hd
    change _ ↔ d.held.held? name p.id = _
    rw [held?_eq_some_iff hd, List.mem_map]
    constructor
    · rintro ⟨r, hr, rfl⟩
      obtain ⟨hr, hname⟩ := List.mem_filter.1 hr
      exact ⟨r, hr, by rw [Row.key, beq_iff_eq.1 hname], rfl⟩
    · rintro ⟨r, hr, hkey, hbody⟩
      obtain ⟨hname, hid⟩ := Prod.mk.inj hkey
      obtain ⟨hvector, hpayload⟩ := Prod.mk.inj hbody
      refine ⟨r, List.mem_filter.2 ⟨hr, beq_iff_eq.2 hname⟩, ?_⟩
      cases hp : r.point
      cases p
      simp_all
  search_eq := by
    intro d name n query k f h hread
    have hreadable : ∀ r ∈ d.points name, IsReadable r.point := fun r hr =>
      (hread r.point (List.mem_map_of_mem hr)).imp_left List.all_eq_true.1
    change d.search name query k f = _
    change d.sizes.get? name = some n at h
    simp only [search, h, checkDimensions_singleton, mapM_read hreadable]
    by_cases hq : query.length = n
    · rw [if_pos hq, if_pos hq]
      rfl
    · rw [if_neg hq, if_neg hq]
      rfl
  get_eq := by
    intro d name id hread
    change d.get name [id] = .ok ((d.held.held? name id).toList.map _)
    change ∀ b, d.held.held? name id = some b → _ at hread
    have hheld : d.held.held? name id = (d.rows.find? (·.isAt name id)).map fun r =>
        (r.point.vector, r.point.payload) := rfl
    rw [hheld] at hread ⊢
    rw [get, List.filterMap_cons, List.filterMap_nil]
    cases hr : d.rows.find? (·.isAt name id) with
    | none => rfl
    | some r =>
      rw [hr] at hread
      have hreadable : IsReadable r.point := (hread _ rfl).imp_left List.all_eq_true.1
      have hid : r.point.id = id := congrArg Prod.snd (key_of_find? hr)
      rw [List.mapM_cons, read_of_isReadable hreadable]
      subst hid
      rfl
  sorted_scroll := by
    intro d name field t h
    change d.scroll name field = .ok t at h
    rw [scroll] at h
    cases hrows : (d.points name).mapM Row.legible with
    | error e =>
      rw [hrows] at h
      cases h
    | ok rows =>
      rw [hrows] at h
      obtain rfl := Except.ok.inj h
      exact Table.sorted_ofList _
  count_deleteWhere := by
    intro d d' name f n hd h
    change (deleteWhere name f).run d = _ at h
    have hlegible : ∀ r ∈ d.points name, isLegible r.point.payload = true := by
      by_contra hnot
      obtain ⟨cause, hcause⟩ := deleteWhere_run_of_not_legible hnot f
      rw [hcause] at h
      cases h
    rw [deleteWhere_run_database hlegible] at h
    cases h
    rw [List.filter_map, List.length_map]
    rfl

end Database

end CodeSearch
