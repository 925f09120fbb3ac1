import CodeSearch.Proofs.VectorStore.Transparent
import Mathlib.Data.List.Induction

/-!
# What a store keeps whatever it is asked

Comparing two vectors of different lengths would silently compare a part of the longer one, so a store
has to see to it that all vectors of a collection have one length. Here a store is asked anything, in any
order: to make, drop and change collections, and to read them (`StoreRequest`). Some requests are
answered and some refused. Beside the store stands what its history says (`Logged.made`): the length
that each collection was made with, where a collection may be dropped and made anew with another one.

The proof is in two steps.

* One request (`settles_perform`): it is answered by a store whose collections have the lengths that the
  history now says, or it is refused by the very store that it was put to.
* Any sequence of requests (`standing_afterAll`), by induction from its end.

Which points there are is read off the store itself (`points`), not off its look-ups: every table and
every row is listed. The two stores keep them so differently that each has to show for itself that the
listing is the one its look-ups answer from (`AtomicVectorStore`). The engine of a database is taken to
carry out every statement that it is given; what is refused is refused by the store.
-/

namespace CodeSearch

/-! ### Requests -/

/-- What a store may be asked. -/
inductive StoreRequest where
  /-- To make a collection for vectors of some length. -/
  | ensure (collection : String) (size : Nat)
  /-- To drop a collection. -/
  | drop (collection : String)
  /-- To write points. -/
  | upsert (collection : String) (points : List Point)
  /-- To take out the points with the given ids. -/
  | deleteIds (collection : String) (ids : List String)
  /-- To take out the points that pass a filter. -/
  | deleteWhere (collection : String) (filter : Filter)
  /-- To find the best points for a query. -/
  | search (collection : String) (query : Embedding) (limit : Nat) (filter : Filter)
  /-- To read the points with the given ids. -/
  | get (collection : String) (ids : List String)
  /-- To read the texts of all payloads. -/
  | scroll (collection field : String)

/-- What a store answers. -/
inductive StoreAnswer where
  /-- It is done. -/
  | done
  /-- The number of points that it was done to. -/
  | count (n : Nat)
  /-- The points that were found. -/
  | hits (found : List Hit)
  /-- The points that were read. -/
  | points (read : List Point)
  /-- The texts that were read. -/
  | texts (read : Table (Table String))

section Perform

variable {σ : Type} [VectorStore σ]

/-- What reads the store, as an action on it. -/
def reading {α : Type} (f : σ → Except StoreError α) : StoreAction σ α := do
  MonadExcept.ofExcept (f (← EStateM.get))

/-- What is done about a request. -/
def StoreRequest.perform : StoreRequest → StoreAction σ StoreAnswer
  | .ensure c n => do
    VectorStore.ensure c n
    return .done
  | .drop c => do
    VectorStore.drop c
    return .done
  | .upsert c ps => do
    VectorStore.upsert c ps
    return .done
  | .deleteIds c ids => do
    VectorStore.deleteIds c ids
    return .done
  | .deleteWhere c f => return .count (← VectorStore.deleteWhere c f)
  | .search c query limit f => return .hits (← reading (VectorStore.search · c query limit f))
  | .get c ids => return .points (← reading (VectorStore.get · c ids))
  | .scroll c field => return .texts (← reading (VectorStore.scroll · c field))

/-- The lengths that collections were made with, after a request that was answered: a collection that is
there already stays the one that it is. -/
def StoreRequest.making (made : String → Option Nat) : StoreRequest → String → Option Nat
  | .ensure c n => if (made c).isSome then made else Function.update made c (some n)
  | .drop c => Function.update made c none
  | _ => made

/-- A store, and what its history says. -/
structure Logged (σ : Type) where
  /-- The store. -/
  store : σ
  /-- The length that each collection was made with, if there is one of that name. -/
  made : String → Option Nat

/-- The store after a request, with its history: one that is refused makes and drops nothing. -/
def Logged.after (l : Logged σ) (r : StoreRequest) : Logged σ :=
  match r.perform.run l.store with
  | .ok _ s => { store := s, made := r.making l.made }
  | .error _ s => { store := s, made := l.made }

/-- The store after requests, the first of which is put to a store without collections. -/
def Logged.afterAll (rs : List StoreRequest) : Logged σ :=
  rs.foldl Logged.after { store := VectorStore.empty, made := fun _ => none }

theorem Logged.afterAll_append (rs : List StoreRequest) (r : StoreRequest) :
    (Logged.afterAll (rs ++ [r]) : Logged σ) = (Logged.afterAll rs).after r :=
  List.foldl_append

end Perform

/-! ### Stores whose points can be listed -/

/-- Stores of which all points can be listed, and which refuse without leaving a trace. -/
class AtomicVectorStore (σ : Type) [VectorStore σ] [LawfulVectorStore σ] where
  /-- All points with the collections that they are kept under. -/
  points : σ → List (String × Point)
  /-- Whether the listing is the one that look-ups answer from. -/
  Listed : σ → Prop
  listed_empty : Listed VectorStore.empty
  listed_perform : ∀ {s s' : σ} {a} (r : StoreRequest), Listed s → r.perform.run s = .ok a s' →
    Listed s'
  mem_points_iff : ∀ {s : σ} {c p}, Ordered s → Listed s →
    ((c, p) ∈ points s ↔ (holdings s).held? c p.id = some (p.vector, p.payload))
  nodup_points : ∀ {s : σ}, Ordered s → Listed s → ((points s).map fun e => (e.1, e.2.id)).Nodup
  upsert_missing : ∀ {s : σ} {c} (ps : List Point), Ordered s → (holdings s).size? c = none →
    ∃ e, (VectorStore.upsert c ps).run s = .error e s
  upsert_unfit : ∀ {s : σ} {c n p} {ps : List Point}, Ordered s → (holdings s).size? c = some n →
    p ∈ ps → p.vector.length ≠ n →
    ∃ m, m ≠ n ∧ (VectorStore.upsert c ps).run s = .error (.dimension c n m) s
  deleteIds_missing : ∀ {s : σ} {c} (ids : List String), Ordered s → (holdings s).size? c = none →
    (VectorStore.deleteIds c ids).run s = .ok () s ∨
      ∃ e, (VectorStore.deleteIds c ids).run s = .error e s
  deleteWhere_illegible : ∀ {s : σ} {c id b} (f : Filter), Ordered s →
    (holdings s).held? c id = some b → LawfulVectorStore.legible σ b.2 = false →
    ∃ e, (VectorStore.deleteWhere c f).run s = .error e s

/-- What a store keeps, whatever it was asked. -/
structure Dimensioned {σ : Type} [VectorStore σ] [LawfulVectorStore σ] [AtomicVectorStore σ]
    (l : Logged σ) : Prop where
  /-- There are the collections that were made and not dropped since. -/
  contains_eq : ∀ c, VectorStore.contains l.store c = (l.made c).isSome
  /-- A point belongs to a collection that is there, and its vector has the length that the collection
  was made with. -/
  lengths : ∀ c p, (c, p) ∈ AtomicVectorStore.points l.store → l.made c = some p.vector.length
  /-- A collection has at most one point under an id. -/
  nodup : ((AtomicVectorStore.points l.store).map fun e => (e.1, e.2.id)).Nodup
  /-- A request that is refused leaves the store as it is. -/
  refused : ∀ (r : StoreRequest) e s, r.perform.run l.store = .error e s → s = l.store
  /-- One vector of another length, and nothing of what was to be written is. -/
  batch : ∀ c n ps, l.made c = some n → ∀ p ∈ ps, p.vector.length ≠ n →
    ∃ m, m ≠ n ∧ (VectorStore.upsert c ps).run l.store = .error (.dimension c n m) l.store

/-! ### One request -/

section Step

variable {σ α β : Type} [VectorStore σ] [LawfulVectorStore σ] {s : σ} {made : String → Option Nat}

/-- The action is carried out, and leaves a store in good order behind whose collections have the given lengths;
or it fails, and leaves the store as it is. -/
def Settles (a : StoreAction σ α) (s : σ) (made : String → Option Nat) : Prop :=
  (∃ x s', a.run s = .ok x s' ∧ Ordered s' ∧ (holdings s').size? = made) ∨ ∃ e, a.run s = .error e s

/-- An action settles as before if a value is made of its result. -/
theorem Settles.map {a : StoreAction σ α} (h : Settles a s made) (f : α → β) :
    Settles (a >>= fun x => pure (f x)) s made := by
  have hbind : (a >>= fun x => pure (f x)).run s = EStateM.bind a (fun x => pure (f x)) s := rfl
  rcases h with ⟨x, s', hrun, hv, hsize⟩ | ⟨e, hrun⟩
  · refine Or.inl ⟨f x, s', ?_, hv, hsize⟩
    rw [hbind, EStateM.bind, show a s = .ok x s' from hrun]
    rfl
  · refine Or.inr ⟨e, ?_⟩
    rw [hbind, EStateM.bind, show a s = .error e s from hrun]

/-- What only reads changes nothing. -/
theorem settles_reading (hs : Ordered s) (f : σ → Except StoreError α) :
    Settles (reading f) s (holdings s).size? := by
  have hrun : (reading f).run s = (MonadExcept.ofExcept (f s) : StoreAction σ α) s := rfl
  unfold Settles
  rw [hrun]
  cases f s with
  | ok x => exact Or.inl ⟨x, s, rfl, hs, rfl⟩
  | error e => exact Or.inr ⟨e, rfl⟩

/-- To make a collection settles what its length is. -/
theorem settles_ensure (hs : Ordered s) (c : String) (n : Nat) :
    Settles (VectorStore.ensure c n) s
      ((StoreRequest.ensure c n).making (holdings s).size?) := by
  cases hr : (holdings s).refusal? (LawfulVectorStore.fits σ) c n with
  | some e => exact Or.inr ⟨e, LawfulVectorStore.ensure_refused hs hr⟩
  | none =>
    obtain ⟨s', hrun, hv, hh⟩ := LawfulVectorStore.ensure_taken hs hr
    refine Or.inl ⟨(), s', hrun, hv, ?_⟩
    rw [hh, StoreRequest.making, Holdings.make]
    -- it stands in the history unless it was there before
    split
    · -- a collection that is there has the length that is asked for
      next hc =>
      obtain ⟨m, hm⟩ := Option.isSome_iff_exists.1 hc
      obtain rfl := ((Holdings.refusal?_eq_none_iff _ _ _ _).1 hr).2 m hm
      rw [← hm, Function.update_eq_self]
    · rfl

variable [AtomicVectorStore σ]

/-- To write points makes no collection. -/
theorem settles_upsert (hs : Ordered s) (c : String) (ps : List Point) :
    Settles (VectorStore.upsert c ps) s (holdings s).size? := by
  cases hc : (holdings s).size? c with
  | none => exact Or.inr (AtomicVectorStore.upsert_missing ps hs hc)
  | some n =>
    by_cases hps : ∀ p ∈ ps, p.vector.length = n
    · obtain ⟨s', hrun, hv, hh⟩ := LawfulVectorStore.upsert_fitting hs hc hps
      refine Or.inl ⟨(), s', hrun, hv, ?_⟩
      rw [hh, Holdings.size?_putAll]
    · -- a vector of another length is refused
      push Not at hps
      obtain ⟨p, hp, hlen⟩ := hps
      obtain ⟨m, -, hrun⟩ := AtomicVectorStore.upsert_unfit hs hc hp hlen
      exact Or.inr ⟨_, hrun⟩

theorem settles_deleteIds (hs : Ordered s) (c : String) (ids : List String) :
    Settles (VectorStore.deleteIds c ids) s (holdings s).size? := by
  cases hc : (holdings s).size? c with
  | none =>
    rcases AtomicVectorStore.deleteIds_missing ids hs hc with hrun | hrun
    · exact Or.inl ⟨(), s, hrun, hs, rfl⟩
    · exact Or.inr hrun
  | some n =>
    obtain ⟨s', hrun, hv, hh⟩ := LawfulVectorStore.deleteIds_run ids hs hc
    exact Or.inl ⟨(), s', hrun, hv, by rw [hh, Holdings.size?_cut]⟩

/-- To delete points drops no collection. -/
theorem settles_deleteWhere (hs : Ordered s) (c : String) (f : Filter) :
    Settles (VectorStore.deleteWhere c f) s (holdings s).size? := by
  by_cases hlegible : ∀ id b, (holdings s).held? c id = some b → LawfulVectorStore.legible σ b.2 = true
  · obtain ⟨n, s', hrun, hv, hh⟩ := LawfulVectorStore.deleteWhere_run c f hs hlegible
    exact Or.inl ⟨n, s', hrun, hv, by rw [hh, Holdings.size?_cut]⟩
  · push Not at hlegible
    obtain ⟨id, b, hb, hnot⟩ := hlegible
    exact Or.inr (AtomicVectorStore.deleteWhere_illegible f hs hb (Bool.eq_false_iff.2 hnot))

/-- **A request is answered, and collections then have the lengths that the history says; or it is
refused by the very store that it was put to.** -/
theorem settles_perform (hs : Ordered s) (r : StoreRequest) :
    Settles r.perform s (r.making (holdings s).size?) := by
  cases r with
  -- what a request answers beside does not matter
  | ensure c n => exact (settles_ensure hs c n).map _
  | drop c =>
    obtain ⟨s', hrun, hv, hh⟩ := LawfulVectorStore.drop_run c hs
    have hdrop : Settles (VectorStore.drop c) s ((StoreRequest.drop c).making (holdings s).size?) :=
      Or.inl ⟨(), s', hrun, hv, by rw [hh]; rfl⟩
    exact hdrop.map _
  | upsert c ps => exact (settles_upsert hs c ps).map _
  | deleteIds c ids => exact (settles_deleteIds hs c ids).map _
  | deleteWhere c f => exact (settles_deleteWhere hs c f).map _
  -- the last three read only
  | search c query limit f => exact (settles_reading hs _).map _
  | get c ids => exact (settles_reading hs _).map _
  | scroll c field => exact (settles_reading hs _).map _

end Step

/-! ### Any sequence of requests -/

section Run

variable {σ : Type} [VectorStore σ] [LawfulVectorStore σ] [AtomicVectorStore σ]

/-- A store that is in good order and has the collections that its history says. -/
structure Standing (l : Logged σ) : Prop where
  ordered : Ordered l.store
  listed : AtomicVectorStore.Listed l.store
  made : (holdings l.store).size? = l.made

/-- A new store stands as its history says, for there is none. -/
theorem standing_empty :
    Standing ({ store := VectorStore.empty, made := fun _ => none } : Logged σ) where
  ordered := LawfulVectorStore.ordered_empty
  listed := AtomicVectorStore.listed_empty
  made := by rw [LawfulVectorStore.holdings_empty]; rfl

/-- A store stands after a request if it stood before. -/
theorem Standing.after {l : Logged σ} (h : Standing l) (r : StoreRequest) : Standing (l.after r) := by
  rw [Logged.after]
  rcases settles_perform h.ordered r with ⟨a, s', hrun, hv, hsize⟩ | ⟨e, hrun⟩
  · rw [hrun]
    rw [h.made] at hsize
    exact ⟨hv, AtomicVectorStore.listed_perform r h.listed hrun, hsize⟩
  · rw [hrun]
    exact h

/-- A store stands after any requests. -/
theorem standing_afterAll (rs : List StoreRequest) : Standing (Logged.afterAll rs : Logged σ) := by
  induction rs using List.reverseRecOn with
  | nil => exact standing_empty
  | append_singleton rs r ih =>
    rw [Logged.afterAll_append]
    exact ih.after r

/-- A store that stands as its history says keeps to the lengths. -/
theorem Standing.dimensioned {l : Logged σ} (h : Standing l) : Dimensioned l where
  contains_eq c := by rw [LawfulVectorStore.contains_eq, h.made]
  lengths c p hp := by
    rw [AtomicVectorStore.mem_points_iff h.ordered h.listed] at hp
    rw [← h.made]
    exact LawfulVectorStore.size?_of_held? h.ordered hp
  nodup := AtomicVectorStore.nodup_points h.ordered h.listed
  refused r e s hrun := by
    -- either a request is answered, or its error leaves the store as it is
    rcases settles_perform h.ordered r with ⟨a, s', hok, -⟩ | ⟨e', herr⟩
    · rw [hok] at hrun
      cases hrun
    · rw [herr] at hrun
      injection hrun with _ hs
      exact hs.symm
  batch c n ps hc p hp hlen := by
    rw [← h.made] at hc
    exact AtomicVectorStore.upsert_unfit h.ordered hc hp hlen

end Run

/-! ### The two stores -/

/-- A vector that does not fit is found, though it may be another one than the first. -/
theorem checkDimensions_unfit (c : String) {n : Nat} {ps : List Point} {p : Point} (hp : p ∈ ps)
    (hlen : p.vector.length ≠ n) :
    ∃ m, m ≠ n ∧ checkDimensions c n (ps.map Point.vector) = .error (.dimension c n m) := by
  unfold checkDimensions
  have hsome : ((ps.map Point.vector).find? (·.length ≠ n)).isSome := by
    rw [List.find?_isSome]
    exact ⟨p.vector, List.mem_map_of_mem hp, by simpa using hlen⟩
  obtain ⟨v, hv⟩ := Option.isSome_iff_exists.1 hsome
  refine ⟨v.length, by simpa using List.find?_some hv, ?_⟩
  rw [hv]

/-! ### What an action keeps -/

section Keeps

variable {σ α β : Type} {P : σ → Prop}

/-- An action that is carried out on a store with a property leaves one with it behind. -/
def Keeps (P : σ → Prop) (a : StoreAction σ α) : Prop :=
  ∀ s x s', P s → a.run s = .ok x s' → P s'

theorem keeps_pure (x : α) : Keeps P (pure x : StoreAction σ α) := by
  intro s y s' hs hrun
  cases hrun
  exact hs

theorem keeps_throw (e : StoreError) : Keeps P (throw e : StoreAction σ α) := by
  intro s x s' hs hrun
  cases hrun

theorem keeps_modify {f : σ → σ} (hf : ∀ s, P s → P (f s)) :
    Keeps P (modify f : StoreAction σ Unit) := by
  intro s x s' hs hrun
  cases hrun
  exact hf s hs

theorem Keeps.bind {a : StoreAction σ α} {f : α → StoreAction σ β} (ha : Keeps P a)
    (hf : ∀ x, Keeps P (f x)) : Keeps P (a >>= f) := by
  intro s y s' hs hrun
  obtain ⟨x, s₁, h₁, h₂⟩ := exists_of_run_bind hrun
  exact hf x s₁ y s' (ha s x s₁ hs h₁) h₂

theorem keeps_get : Keeps P (EStateM.get : StoreAction σ σ) := by
  intro s x s' hs hrun
  cases hrun
  exact hs

theorem keeps_reading [VectorStore σ] (f : σ → Except StoreError α) : Keeps P (reading f) := by
  refine keeps_get.bind fun s => ?_
  cases f s with
  | ok x => exact keeps_pure x
  | error e => exact keeps_throw e

end Keeps

namespace Memory

/-- All points, collection by collection. -/
def points (m : Memory) : List (String × Point) :=
  m.collections.flatMap fun (name, c) => c.toList.map (name, ·)

/-- The collections are in the order of their names. -/
def Listed (m : Memory) : Prop := Table.Sorted m.collections

/-- In memory a point is listed if it is held. -/
theorem mem_points_iff {m : Memory} (hm : m.InOrder) (hl : m.Listed) {name : String} {p : Point} :
    (name, p) ∈ m.points ↔ m.held.held? name p.id = some (p.vector, p.payload) := by
  -- a point is held in the collection of that name
  have hheld : m.held.held? name p.id = some (p.vector, p.payload) ↔
      ∃ c, m.collection? name = some c ∧ p ∈ c.toList := by
    change (m.collection? name).bind _ = _ ↔ _
    rw [Option.bind_eq_some_iff]
    refine exists_congr fun c => and_congr_right fun hc => ?_
    exact (mem_toList (hm.sorted hc)).symm
  rw [hheld, points, List.mem_flatMap]
  constructor
  · rintro ⟨⟨name', c⟩, hc, hp⟩
    obtain ⟨q, hq, he⟩ := List.mem_map.1 hp
    obtain ⟨rfl, rfl⟩ := Prod.mk.inj he
    exact ⟨c, (Table.get?_eq_some_iff hl).2 hc, hq⟩
  · rintro ⟨c, hc, hp⟩
    exact ⟨(name, c), (Table.get?_eq_some_iff hl).1 hc, List.mem_map_of_mem hp⟩

/-- In memory no point is listed twice. -/
theorem nodup_points {m : Memory} (hm : m.InOrder) (hl : m.Listed) :
    (m.points.map fun e => (e.1, e.2.id)).Nodup := by
  have hkeys : (m.points.map fun e => (e.1, e.2.id)) =
      m.collections.flatMap fun e => e.2.points.map fun q => (e.1, q.1) := by
    rw [points, List.map_flatMap]
    refine List.flatMap_congr fun e _ => ?_
    rw [List.map_map, Collection.toList, List.map_map]
    rfl
  rw [hkeys, List.nodup_flatMap]
  constructor
  · -- ids within a collection ascend
    intro e he
    have hs : Table.Sorted e.2.points := hm.sorted ((Table.get?_eq_some_iff hl).2 he)
    refine List.pairwise_map.2 (hs.imp fun hlt heq => ?_)
    rw [(Prod.mk.inj heq).2] at hlt
    exact String.lt_irrefl _ hlt
  · -- and so do the names of collections
    refine hl.imp fun hlt => ?_
    show List.Disjoint _ _
    intro k ha hb
    obtain ⟨q, -, rfl⟩ := List.mem_map.1 ha
    obtain ⟨q', -, he⟩ := List.mem_map.1 hb
    rw [(Prod.mk.inj he).1] at hlt
    exact String.lt_irrefl _ hlt

theorem keeps_set (name : String) (c : Memory → Collection) :
    Keeps Listed (modify fun m => m.set name (c m) : StoreAction Memory Unit) :=
  keeps_modify fun _ hm => Table.sorted_insert hm _ _

theorem keeps_ensure (name : String) (size : Nat) : Keeps Listed (ensure name size) := by
  refine keeps_get.bind fun m => ?_
  cases m.collection? name with
  | none => exact keeps_set name _
  | some c =>
    dsimp only
    split
    · exact keeps_throw _
    · exact keeps_pure ()

/-- To write points puts a collection in the place of one with the same name. -/
theorem keeps_upsert (name : String) (ps : List Point) : Keeps Listed (upsert name ps) := by
  refine keeps_get.bind fun m => ?_
  cases m.collection? name with
  | none => exact keeps_throw _
  | some c =>
    -- points of the wrong length are refused before any is put
    cases hcheck : checkDimensions name c.size (ps.map Point.vector) with
    | error e =>
      simp only [hcheck]
      exact keeps_throw e
    | ok u =>
      simp only [hcheck]
      exact keeps_set name _

theorem keeps_deleteIds (name : String) (ids : List String) : Keeps Listed (deleteIds name ids) := by
  unfold deleteIds
  split
  · exact keeps_pure ()
  · refine keeps_get.bind fun m => ?_
    cases m.collection? name with
    | none => exact keeps_throw _
    | some c => exact keeps_set name _

theorem keeps_deleteWhere (name : String) (f : Filter) : Keeps Listed (deleteWhere name f) := by
  refine keeps_get.bind fun m => ?_
  cases m.collection? name with
  | none => exact keeps_pure 0
  | some c => exact (keeps_set name _).bind fun _ => keeps_pure _

/-- Whatever is asked of a store in memory, its collections stay in the order of their names. -/
theorem keeps_perform (r : StoreRequest) : Keeps Listed (r.perform : StoreAction Memory StoreAnswer) := by
  cases r with
  | ensure name size => exact (keeps_ensure name size).bind fun _ => keeps_pure _
  | drop name =>
    refine Keeps.bind ?_ fun _ => keeps_pure _
    exact keeps_modify fun _ hm => Table.sorted_erase hm name
  -- a request does what one action does, and then answers
  | upsert name ps => exact (keeps_upsert name ps).bind fun _ => keeps_pure _
  | deleteIds name ids => exact (keeps_deleteIds name ids).bind fun _ => keeps_pure _
  | deleteWhere name f => exact (keeps_deleteWhere name f).bind fun _ => keeps_pure _
  | search name query limit f => exact (keeps_reading _).bind fun _ => keeps_pure _
  | get name ids => exact (keeps_reading _).bind fun _ => keeps_pure _
  | scroll name field => exact (keeps_reading _).bind fun _ => keeps_pure _

/-- No collection, no length. -/
theorem collection?_eq_none {m : Memory} {name : String} (h : m.held.size? name = none) :
    m.collection? name = none :=
  Option.map_eq_none_iff.1 h

/-- **A store in memory refuses without leaving a trace.** -/
instance : AtomicVectorStore Memory where
  points := points
  Listed := Listed
  listed_empty := Table.sorted_nil
  listed_perform r hm hrun := keeps_perform r _ _ _ hm hrun
  mem_points_iff hm hl := mem_points_iff hm hl
  nodup_points hm hl := nodup_points hm hl
  upsert_missing := by
    intro m name ps _ h
    refine ⟨.missing .upsert name, ?_⟩
    change (upsert name ps).run m = _
    simp only [upsert, EStateM.run, bind, EStateM.bind, get_apply, collection?_eq_none h]
    rfl
  upsert_unfit := by
    intro m name n p ps _ h hp hlen
    obtain ⟨c, hc, rfl⟩ := exists_collection h
    obtain ⟨k, hk, hcheck⟩ := checkDimensions_unfit name hp hlen
    refine ⟨k, hk, ?_⟩
    change (upsert name ps).run m = _
    simp only [upsert, EStateM.run, bind, EStateM.bind, get_apply, hc, hcheck]
    rfl
  deleteIds_missing := by
    intro m name ids _ h
    change (deleteIds name ids).run m = _ ∨ ∃ e, (deleteIds name ids).run m = _
    cases ids with
    | nil => exact Or.inl rfl
    | cons i ids =>
      refine Or.inr ⟨.missing .delete name, ?_⟩
      have hempty : (i :: ids).isEmpty = false := rfl
      simp only [deleteIds, hempty, Bool.false_eq_true, if_false, EStateM.run, bind, EStateM.bind,
        get_apply, collection?_eq_none h]
      rfl
  deleteWhere_illegible _ _ _ h := by cases h

end Memory

namespace Database

/-- All points, row by row. -/
def listing (d : Database) : List (String × Point) := d.rows.map fun r => (r.collection, r.point)

/-- In the database a point is listed if it is held. -/
theorem mem_listing_iff {d : Database} (hd : d.InOrder) {name : String} {p : Point} :
    (name, p) ∈ d.listing ↔ d.held.held? name p.id = some (p.vector, p.payload) := by
  rw [held?_eq_some_iff hd, listing, List.mem_map]
  constructor
  · rintro ⟨r, hr, he⟩
    obtain ⟨rfl, rfl⟩ := Prod.mk.inj he
    exact ⟨r, hr, rfl, rfl⟩
  · rintro ⟨⟨name', q⟩, hr, hk, hb⟩
    -- id, vector and payload are all there is to a point
    obtain ⟨rfl, hid⟩ := Prod.mk.inj hk
    obtain ⟨hv, hp⟩ := Prod.mk.inj hb
    refine ⟨⟨name', q⟩, hr, ?_⟩
    cases p
    cases q
    simp_all

/-- A collection that is not there has no rows. -/
theorem removeAll_of_missing {d : Database} (hd : d.InOrder) {name : String}
    (h : Table.get? d.sizes name = none) (ids : List String) : ids.foldl (remove name) d = d := by
  -- a row of the collection would have its length on record
  have hother : ∀ r ∈ d.rows, r.collection ≠ name := by
    intro r hr he
    have hlen := hd.lengths r hr
    rw [he, h] at hlen
    cases hlen
  -- so no row is at the place of any of the points
  have hremove : ∀ id, remove name d id = d := by
    intro id
    have hrows : d.rows.filter (!·.isAt name id) = d.rows := by
      refine List.filter_eq_self.2 fun r hr => ?_
      simp [Row.isAt, hother r hr]
    rw [remove, hrows]
  induction ids with
  | nil => rfl
  | cons id ids ih => rw [List.foldl_cons, hremove, ih]

/-- **A database refuses without leaving a trace.** -/
instance : AtomicVectorStore Database where
  points := listing
  Listed _ := True
  listed_empty := trivial
  listed_perform _ _ _ := trivial
  mem_points_iff hd _ := mem_listing_iff hd
  nodup_points := by
    intro d hd _
    rw [listing, List.map_map]
    exact hd.nodup
  upsert_missing := by
    intro d name ps _ h
    have hname : Table.get? d.sizes name = none := h
    refine ⟨.missing .upsert name, ?_⟩
    change (upsert name ps).run d = _
    simp only [upsert, EStateM.run, bind, EStateM.bind, get_apply, hname]
    rfl
  upsert_unfit := by
    intro d name n p ps _ h hp hlen
    have hname : Table.get? d.sizes name = some n := h
    obtain ⟨k, hk, hcheck⟩ := checkDimensions_unfit name hp hlen
    refine ⟨k, hk, ?_⟩
    change (upsert name ps).run d = _
    simp only [upsert, EStateM.run, bind, EStateM.bind, get_apply, hname, hcheck]
    rfl
  deleteIds_missing := by
    intro d name ids hd h
    -- there is no row to take out
    left
    change EStateM.Result.ok () (ids.foldl (remove name) d) = _
    rw [removeAll_of_missing hd h]
  deleteWhere_illegible := by
    intro d name id b f hd hb hnot
    obtain ⟨r, hr, hkey, rfl⟩ := (held?_eq_some_iff hd).1 hb
    have hpoint : r ∈ d.points name :=
      List.mem_filter.2 ⟨hr, beq_iff_eq.2 (congrArg Prod.fst hkey : r.collection = name)⟩
    exact deleteWhere_run_of_not_legible (fun h => Bool.eq_false_iff.1 hnot (h r hpoint)) f

end Database

/-- **Whatever a store is asked, it keeps the length that each collection was made with and one point to
an id, and a request that it refuses changes nothing.** -/
theorem dimensioned_afterAll (rs : List StoreRequest) :
    Dimensioned (Logged.afterAll rs : Logged Memory) ∧
      Dimensioned (Logged.afterAll rs : Logged Database) :=
  ⟨(standing_afterAll rs).dimensioned, (standing_afterAll rs).dimensioned⟩

/-- A collection is made anew with another length once it was dropped, and not before. -/
example :
    (Logged.afterAll [.ensure "c" 3, .ensure "c" 2] : Logged Memory).made "c" = some 3 ∧
    (Logged.afterAll [.ensure "c" 3, .drop "c", .ensure "c" 2] : Logged Memory).made "c" = some 2 := by
  decide

end CodeSearch
