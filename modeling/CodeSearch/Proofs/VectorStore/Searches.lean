import CodeSearch.Proofs.Embedding.Scaling
import CodeSearch.Proofs.Embedding.Stored
import CodeSearch.Proofs.VectorStore.Requests

/-!
# Searches are exact

A store may keep the points of a collection in any order, and it comes by them in many ways. Neither shows in what
a search finds: that is the beginning of the *ranking* of all points that pass the filter (`IsRanking`), and the set
of points has only one ranking for a query and a filter (`IsRanking.unique`).

* There is only one, as hits are compared by a strict order in which two ids always differ (`Hit.Outranks`). Scores
  have a place in the total order of single precision numbers, whatever they are (`Single.Below`): it puts the
  negative zero below the positive one, and numbers that are not defined below or above all others, as their signs
  say, and apart from each other by their other bits. Where numbers can be compared it is their order
  (`Score.below_of_lt`).
* So a search is told by the set of points (`searchesExactly`). How a history made them is not asked.

The points are those that are listed in the store itself, after any requests from the first one on. In database
tables they need not be those that were written: a payload may be kept that reads as another one, or that cannot be
read at all, and then no search in its collection succeeds (`not_searchesExactly_as_written`).
-/

namespace CodeSearch

/-! ### The order of hits -/

/-- Whether the first of two stored numbers is below the second one in the total order of single precision numbers,
told by their bits. The highest bit is the sign: negative numbers are below the others, and further below the larger
the rest of their bits is. -/
def Single.Below (m n : Nat) : Prop := if 2 ^ 31 ≤ m then n < 2 ^ 31 ∨ n < m else n < 2 ^ 31 ∧ m < n

namespace Score

/-- One score is below another one in the order of the bits if it has the lower rank. -/
theorem below_iff {s t : Score} : Single.Below s.bits t.bits ↔ s.rank < t.rank := by
  unfold Single.Below rank
  split <;> split <;> split <;> omega

/-- **Smaller numbers are below larger ones.** -/
theorem below_of_lt {s t : Score} (h : s.value < t.value) : Single.Below s.bits t.bits :=
  below_iff.2 (rank_lt_of_value_lt h)

end Score

namespace Hit

variable {a b c : Hit}

/-- Whether a hit has to stand before another one: its score is higher, or is the same and its id is smaller. -/
def Outranks (a b : Hit) : Prop :=
  Single.Below b.score.bits a.score.bits ∨ a.score.bits = b.score.bits ∧ a.id < b.id

theorem outranks_iff : a.Outranks b ↔
    b.score.rank < a.score.rank ∨ a.score.rank = b.score.rank ∧ a.id < b.id := by
  rw [Outranks, Score.below_iff, Score.rank_eq_iff]

/-- **Hits are in the order of the cosines**, as these are stored. -/
theorem outranks_hit_iff {query : Embedding} {p q : Point} : (p.hit query).Outranks (q.hit query) ↔
    Single.Below (Embedding.cosine query q.vector).bits.toNat (Embedding.cosine query p.vector).bits.toNat ∨
      Embedding.cosine query p.vector = Embedding.cosine query q.vector ∧ p.id < q.id := by
  have hbits : ∀ r : Point, (r.hit query).score.bits = (Embedding.cosine query r.vector).bits.toNat := fun r =>
    Embedding.bits_similarity query r.vector
  rw [Outranks, hbits, hbits, UInt32.toNat_inj, Single.ext_iff]
  rfl

/-- What is not defined with the sign set is below every number. -/
example : Outranks (Point.hit [1] { id := "b", vector := [-1], payload := [] })
    (Point.hit [1] { id := "a", vector := [⟨0xffc00000⟩], payload := [] }) := by
  rw [outranks_iff]
  decide +kernel

/-- No hit outranks itself. -/
theorem Outranks.irrefl (a : Hit) : ¬a.Outranks a := by
  rw [outranks_iff]
  rintro (h | ⟨-, h⟩)
  · exact Int.lt_irrefl _ h
  · exact String.lt_irrefl _ h

/-- What a hit outranks, it outranks with all that follows. -/
theorem Outranks.trans (hab : a.Outranks b) (hbc : b.Outranks c) : a.Outranks c := by
  rw [outranks_iff] at *
  rcases hab with hab | ⟨hab, hid⟩
  · rcases hbc with hbc | ⟨hbc, -⟩
    · exact Or.inl (Int.lt_trans hbc hab)
    · exact Or.inl (hbc ▸ hab)
  · rcases hbc with hbc | ⟨hbc, hid'⟩
    · exact Or.inl (hab ▸ hbc)
    · exact Or.inr ⟨hab.trans hbc, String.lt_trans hid hid'⟩

/-- Of two hits with different ids, the one that may stand in front has to. -/
theorem outranks_of_precedes (h : a.precedes b = true) (hne : a.id ≠ b.id) : a.Outranks b := by
  rw [outranks_iff]
  rcases precedes_iff.1 h with h | ⟨hrank, hid⟩
  · exact Or.inl h
  · exact Or.inr ⟨hrank, String.not_le.1 fun hle => hne (String.le_antisymm hid hle)⟩

/-- Hits in strict order are all different. -/
theorem nodup_of_pairwise {hits : List Hit} (h : hits.Pairwise Outranks) : hits.Nodup := by
  refine h.imp fun {a b} hab he => ?_
  rw [he] at hab
  exact Outranks.irrefl b hab

/-- Ranked hits with ids of their own are in strict order. -/
theorem pairwise_outranks {hits : List Hit} (hn : (hits.map Hit.id).Nodup) :
    (ranked hits).Pairwise Outranks := by
  -- two ids are never the same, so of two hits one always has to come first
  have hids : (ranked hits).Pairwise fun a b => a.id ≠ b.id :=
    List.pairwise_map.1 (((perm_ranked hits).map Hit.id).nodup_iff.2 hn)
  exact (pairwise_ranked hits).imp₂ (fun _ _ => outranks_of_precedes) hids

end Hit

/-! ### Rankings -/

/-- Whether hits are all that a query makes of the points of a set that pass a filter, in the order of hits. -/
structure IsRanking (ps : Set Point) (query : Embedding) (f : Filter) (hits : List Hit) : Prop where
  /-- A hit comes before those that it outranks. -/
  sorted : hits.Pairwise Hit.Outranks
  /-- A point makes a hit if every wanted condition holds for its payload and no unwanted one does. -/
  mem_iff : ∀ h, h ∈ hits ↔ ∃ p ∈ ps, (∀ c ∈ f.must, c.holds p.payload = true) ∧
    (∀ c ∈ f.mustNot, c.holds p.payload = false) ∧ p.hit query = h

/-- **A set of points has one ranking** for a query and a filter. -/
theorem IsRanking.unique {ps : Set Point} {query : Embedding} {f : Filter} {hits hits' : List Hit}
    (h : IsRanking ps query f hits) (h' : IsRanking ps query f hits') : hits = hits' := by
  have hperm : hits.Perm hits' := by
    rw [List.perm_ext_iff_of_nodup (Hit.nodup_of_pairwise h.sorted) (Hit.nodup_of_pairwise h'.sorted)]
    exact fun x => (h.mem_iff x).trans (h'.mem_iff x).symm
  -- no two hits outrank each other
  refine List.Perm.eq_of_pairwise (fun a b _ _ hab hba => ?_) h.sorted h'.sorted hperm
  exact absurd (hab.trans hba) (Hit.Outranks.irrefl a)

/-! ### Searches -/

section Searches

variable {σ τ : Type} [VectorStore σ] [LawfulVectorStore σ] [AtomicVectorStore σ] [TransparentVectorStore σ]
  [VectorStore τ] [LawfulVectorStore τ] [AtomicVectorStore τ] [TransparentVectorStore τ]
  {l : Logged σ} {l' : Logged τ} {c : String} {n : Nat}

/-- The points that a store has under the name of a collection. -/
def pointsIn (s : σ) (c : String) : Set Point := {p | (c, p) ∈ AtomicVectorStore.points s}

/-- Whether searches in a collection for vectors of some length are exact. -/
structure SearchesExactly (l : Logged σ) (c : String) (n : Nat) : Prop where
  /-- A search finds the first points of the ranking of those that pass the filter. -/
  best : ∀ query f, query.length = n → ∃ hits, IsRanking (pointsIn l.store c) query f hits ∧
    ∀ k, VectorStore.search l.store c query k f = .ok (hits.take k)
  /-- With a smaller limit it finds the first of what it finds with a larger one. -/
  fewer : ∀ query f k k' hits hits', k ≤ k' → VectorStore.search l.store c query k f = .ok hits →
    VectorStore.search l.store c query k' f = .ok hits' → hits <+: hits'
  /-- It finds what it finds after any other requests by which there are the same points. -/
  independent : ∀ rs : List StoreRequest, (Logged.afterAll rs : Logged σ).made c = some n →
    pointsIn (Logged.afterAll rs : Logged σ).store c = pointsIn l.store c →
    ∀ query k f, VectorStore.search (Logged.afterAll rs : Logged σ).store c query k f =
      VectorStore.search l.store c query k f

variable (σ) in
/-- Whether a store can read the vector and the payload of a point that it keeps. -/
def IsReadable (p : Point) : Prop := readable σ p.vector = true ∧ LawfulVectorStore.legible σ p.payload = true

/-- The two listings of a collection have the same points. -/
theorem Standing.mem_points_iff (h : Standing l) {p : Point} :
    p ∈ points l.store c ↔ p ∈ pointsIn l.store c := by
  rw [TransparentVectorStore.mem_points h.ordered]
  exact (AtomicVectorStore.mem_points_iff h.ordered h.listed).symm

/-- The points that pass a filter, as a store finds them, are ranked by it. -/
theorem Standing.isRanking (h : Standing l) (query : Embedding) (f : Filter) :
    IsRanking (pointsIn l.store c) query f
      (Hit.ranked (((points l.store c).filter (f.accepts ·.payload)).map (·.hit query))) where
  sorted := by
    -- no two points have one id, so the order is strict
    refine Hit.pairwise_outranks ?_
    rw [List.map_map]
    exact (TransparentVectorStore.nodup_points c h.ordered).sublist (List.filter_sublist.map _)
  mem_iff x := by
    -- the hits are those of the points that are kept and pass
    rw [(Hit.perm_ranked _).mem_iff, List.mem_map]
    refine exists_congr fun p => ?_
    rw [List.mem_filter, h.mem_points_iff, Filter.accepts_iff, and_assoc, and_assoc]

/-- What a search finds, in terms of the one ranking that there is. -/
theorem Standing.exists_ranking (h : Standing l) (hc : l.made c = some n)
    (hr : ∀ p ∈ pointsIn l.store c, IsReadable σ p) (query : Embedding) (f : Filter) :
    ∃ hits, IsRanking (pointsIn l.store c) query f hits ∧ ∀ k, VectorStore.search l.store c query k f =
      if query.length = n then .ok (hits.take k) else .error (.dimension c n query.length) := by
  have hsize : (holdings l.store).size? c = some n := by rw [h.made, hc]
  exact ⟨_, h.isRanking query f, fun k =>
    TransparentVectorStore.search_eq query k f hsize fun p hp => hr p (h.mem_points_iff.1 hp)⟩

/-- **Two stores with the same points find the same**, whatever became of them before. -/
theorem search_eq_of_points (h : Standing l) (h' : Standing l') (hc : l.made c = some n) (hc' : l'.made c = some n)
    (hr : ∀ p ∈ pointsIn l.store c, IsReadable σ p) (hr' : ∀ p ∈ pointsIn l'.store c, IsReadable τ p)
    (hpoints : pointsIn l'.store c = pointsIn l.store c) (query : Embedding) (k : Nat) (f : Filter) :
    VectorStore.search l'.store c query k f = VectorStore.search l.store c query k f := by
  obtain ⟨hits, hranking, hsearch⟩ := h.exists_ranking hc hr query f
  obtain ⟨hits', hranking', hsearch'⟩ := h'.exists_ranking hc' hr' query f
  -- both are rankings of one set of points
  rw [hpoints] at hranking'
  rw [hsearch, hsearch', hranking'.unique hranking]

/-- **Searches are exact** if all points can be read. -/
theorem searchesExactly (h : Standing l) (hc : l.made c = some n)
    (hr : ∀ p ∈ pointsIn l.store c, IsReadable σ p) : SearchesExactly l c n where
  best query f hquery := by
    -- the best ones come first in all that there is to find
    obtain ⟨hits, hranking, hsearch⟩ := h.exists_ranking hc hr query f
    refine ⟨hits, hranking, fun k => ?_⟩
    rw [hsearch, if_pos hquery]
  fewer query f k k' found found' hk hfound hfound' := by
    obtain ⟨hits, -, hsearch⟩ := h.exists_ranking hc hr query f
    -- both searches cut the same ranking
    rw [hsearch] at hfound hfound'
    split at hfound
    · next hquery =>
      rw [if_pos hquery] at hfound'
      obtain rfl := Except.ok.inj hfound
      obtain rfl := Except.ok.inj hfound'
      exact List.take_prefix_take_left hk
    · cases hfound
  independent rs hc' hpoints :=
    search_eq_of_points h (standing_afterAll rs) hc hc' hr (fun p hp => hr p (hpoints ▸ hp)) hpoints

end Searches

/-! ### The two stores -/

/-- Whether all components of the points of a collection are finite numbers. -/
def Database.HasFinitePoints (d : Database) (c : String) : Prop :=
  ∀ p ∈ pointsIn d c, ∀ x ∈ p.vector, x.isFinite = true

/-- Whether the payloads of a collection are not nested more deeply than they can be read. -/
def Database.HasShallowPoints (d : Database) (c : String) : Prop :=
  ∀ p ∈ pointsIn d c, (Json.obj p.payload).depth ≤ Json.greatestDepth

theorem Database.isReadable_of_mem {d : Database} {c : String} (hfinite : d.HasFinitePoints c)
    (hshallow : d.HasShallowPoints c) : ∀ p ∈ pointsIn d c, CodeSearch.IsReadable Database p := fun p hp =>
  ⟨List.all_eq_true.2 (hfinite p hp), (isLegible_iff p.payload).2 (hshallow p hp)⟩

/-- **A search is exact and shows nothing but the points of its collection.** This holds of the store in memory after
any requests, and of the one in database tables if the components are finite numbers and the payloads are not nested
too deeply; and then it is the same search in both. -/
theorem searchesExactly_afterAll (rs : List StoreRequest) (c : String) (n : Nat) :
    ((Logged.afterAll rs : Logged Memory).made c = some n →
      SearchesExactly (Logged.afterAll rs : Logged Memory) c n) ∧
    ((Logged.afterAll rs : Logged Database).made c = some n →
      (Logged.afterAll rs : Logged Database).store.HasFinitePoints c →
      (Logged.afterAll rs : Logged Database).store.HasShallowPoints c →
      SearchesExactly (Logged.afterAll rs : Logged Database) c n ∧
        ∀ rs', (Logged.afterAll rs' : Logged Memory).made c = some n →
          pointsIn (Logged.afterAll rs' : Logged Memory).store c =
            pointsIn (Logged.afterAll rs : Logged Database).store c →
          ∀ query k f, VectorStore.search (Logged.afterAll rs' : Logged Memory).store c query k f =
            VectorStore.search (Logged.afterAll rs : Logged Database).store c query k f) := by
  -- in memory every point can be read
  have hmemory : ∀ (m : Memory), ∀ p ∈ pointsIn m c, IsReadable Memory p := fun _ _ _ => ⟨rfl, rfl⟩
  refine ⟨fun hc => searchesExactly (standing_afterAll rs) hc (hmemory _), fun hc hfinite hshallow => ?_⟩
  have hdatabase := Database.isReadable_of_mem hfinite hshallow
  refine ⟨searchesExactly (standing_afterAll rs) hc hdatabase, fun rs' hc' hpoints => ?_⟩
  exact search_eq_of_points (standing_afterAll rs) (standing_afterAll rs') hc hc' hdatabase (hmemory _) hpoints

/-- Two points that are as alike to every query, written one after the other, and written the other way round with
one between them that is taken out again. -/
theorem searchesExactly_twins :
    let a : Point := { id := "a", vector := [1], payload := [] }
    let b : Point := { id := "b", vector := [1], payload := [] }
    let rs : List StoreRequest := [.ensure "c" 1, .upsert "c" [a, b]]
    let rs' : List StoreRequest := [.ensure "c" 1, .upsert "c" [b, { b with id := "x" }, a], .deleteIds "c" ["x"]]
    SearchesExactly (Logged.afterAll rs : Logged Memory) "c" 1 ∧
      SearchesExactly (Logged.afterAll rs : Logged Database) "c" 1 ∧
      ∀ query k f, VectorStore.search (Logged.afterAll rs' : Logged Memory).store "c" query k f =
        VectorStore.search (Logged.afterAll rs : Logged Database).store "c" query k f := by
  intro a b rs rs'
  have hpoints : AtomicVectorStore.points (Logged.afterAll rs : Logged Database).store =
      [("c", a), ("c", b)] := rfl
  have hwritten : [b, { b with id := "x" }, a].foldl Memory.Collection.put { size := 1, points := [] } =
      { size := 1, points := [("a", [1], []), ("b", [1], []), ("x", [1], [])] } := by
    -- the table is kept by id, whichever point is written first
    have hab : "a" < "b" := by decide
    have hxb : ¬"x" < "b" := by decide
    simp only [a, b, List.foldl_cons, List.foldl_nil, Memory.Collection.put, Table.insert, hab, hxb, String.reduceEq,
      if_true, if_false]
  -- the third point is written and erased again
  have hpoints' : AtomicVectorStore.points (Logged.afterAll rs' : Logged Memory).store =
      [("c", a), ("c", b)] := by
    change Memory.points ((Memory.mk []).set "c"
      { size := 1, points := ["x"].foldl Table.erase ([b, { b with id := "x" }, a].foldl Memory.Collection.put
          { size := 1, points := [] }).points }) = _
    rw [hwritten]
    rfl
  have hlisted : ∀ p ∈ pointsIn (Logged.afterAll rs : Logged Database).store "c",
      p.vector = [1] ∧ p.payload = [] := by
    intro p hp
    have hp' : ("c", p) ∈ [("c", a), ("c", b)] := hpoints ▸ hp
    -- both points are the same apart from their ids
    rcases List.mem_cons.1 hp' with he | he
    · rw [(Prod.mk.inj he).2]
      exact ⟨rfl, rfl⟩
    · rw [(Prod.mk.inj (List.mem_singleton.1 he)).2]
      exact ⟨rfl, rfl⟩
  have hfinite : (Logged.afterAll rs : Logged Database).store.HasFinitePoints "c" := by
    intro p hp x hx
    rw [(hlisted p hp).1, List.mem_singleton] at hx
    rw [hx]
    decide
  have hshallow : (Logged.afterAll rs : Logged Database).store.HasShallowPoints "c" := by
    intro p hp
    rw [(hlisted p hp).2]
    decide
  obtain ⟨hmemory, hdatabase⟩ := searchesExactly_afterAll rs "c" 1
  obtain ⟨hexact, hsame⟩ := hdatabase rfl hfinite hshallow
  -- what the two stores list is the same, so what they find is
  refine ⟨hmemory rfl, hexact, hsame rs' rfl ?_⟩
  -- both list the same points
  rw [pointsIn, pointsIn, hpoints, hpoints']

/-! ### Payloads that are not read as they were written -/

/-- A payload with lists nested in each other. -/
def nestedLists : Nat → Json
  | 0 => .null
  | n + 1 => .arr [nestedLists n]

/-- Each list is one level more. -/
theorem depth_nestedLists (n : Nat) : (nestedLists n).depth = n := by
  induction n with
  | zero => rfl
  | succ n ih => rw [nestedLists, Json.depth, Json.itemsDepth, Json.itemsDepth, ih, Nat.max_zero]

/-- Lists alone are read again as they were written. -/
theorem reread_nestedLists (n : Nat) : (nestedLists n).reread = nestedLists n := by
  induction n with
  | zero => rfl
  | succ n ih => rw [nestedLists, Json.reread, Json.rereadItems, Json.rereadItems, ih]

/-- A point that says one thing of itself. -/
def sayingPoint (said : Json) : Point := { id := "a", vector := [1], payload := [("k", said)] }

/-- A collection with one point. -/
def sayingRequests (said : Json) : List StoreRequest := [.ensure "c" 1, .upsert "c" [sayingPoint said]]

/-- The bits of the number that a hit says of itself. -/
def saidBits (h : Hit) : Option UInt64 :=
  match h.payload with
  | [(_, .float x)] => some x.toBits
  | _ => none

theorem hasFinitePoints_saying (said : Json) :
    (Logged.afterAll (sayingRequests said) : Logged Database).store.HasFinitePoints "c" := by
  intro p hp x hx
  have hpoints : AtomicVectorStore.points (Logged.afterAll (sayingRequests said) : Logged Database).store =
      [("c", (sayingPoint said).keptBy Json.reread)] := rfl
  have hp' : ("c", p) ∈ [("c", (sayingPoint said).keptBy Json.reread)] := hpoints ▸ hp
  rw [(Prod.mk.inj (List.mem_singleton.1 hp')).2] at hx
  rw [List.mem_singleton.1 hx]
  decide

/-- **Finite components are not enough in database tables.** A search that comes to a payload that is nested too
deeply fails. And one that comes to the payload of a small number finds another number, so it is not the search in
memory after the same requests. -/
theorem not_searchesExactly_as_written :
    (¬∀ (rs : List StoreRequest) (c : String) (n : Nat), (Logged.afterAll rs : Logged Database).made c = some n →
      (Logged.afterAll rs : Logged Database).store.HasFinitePoints c →
      SearchesExactly (Logged.afterAll rs : Logged Database) c n) ∧
    ¬∀ (rs : List StoreRequest) (c : String) (n : Nat), (Logged.afterAll rs : Logged Database).made c = some n →
      (Logged.afterAll rs : Logged Database).store.HasFinitePoints c →
      ∀ query k f, VectorStore.search (Logged.afterAll rs : Logged Database).store c query k f =
        VectorStore.search (Logged.afterAll rs : Logged Memory).store c query k f := by
  constructor
  · intro h
    obtain ⟨hits, -, hsearch⟩ := (h (sayingRequests (nestedLists 127)) "c" 1 rfl
      (hasFinitePoints_saying _)).best [1] {} rfl
    -- the row of the point is read with the others
    have hrow : ⟨"c", (sayingPoint (nestedLists 127)).keptBy Json.reread⟩ ∈
        (Logged.afterAll (sayingRequests (nestedLists 127)) : Logged Database).store.points "c" :=
      List.mem_singleton_self _
    have hread := (Database.isReadable_of_search (hsearch 1) _ hrow).2
    -- with the payload itself there is one level too many
    rw [Database.isLegible_iff] at hread
    change max (nestedLists 127).reread.depth 0 + 1 ≤ 127 at hread
    rw [reread_nestedLists, depth_nestedLists] at hread
    exact absurd hread (by decide)
  · intro h
    -- here the payload is flat, but its number is read as another one
    have hsame := h (sayingRequests (.float 1e-25)) "c" 1 rfl (hasFinitePoints_saying _) [1] 1 {}
    have hbits := congrArg (Except.map fun hits => hits.map saidBits) hsame
    revert hbits
    decide +kernel

end CodeSearch
