import CodeSearch.Proofs.Tables
import CodeSearch.VectorStore.Basic
import Mathlib.Logic.Function.Basic

/-!
# Lawful vector stores

`VectorStore` says what can be done with a store and leaves open what it does. A *lawful* store is one
whose operations are determined by what the store holds, its `Holdings`: the lengths of the vectors of
its collections, and the vector and payload under each id. Every law is about a store that is `Ordered`,
which a store without collections is and which every operation preserves.

The laws have three parameters besides, in which stores may differ: the lengths for which there can be a
collection (`fits`), what becomes of a payload value that is written (`kept`), and the payloads that can be
read again (`legible`). A text is always kept as it is. A payload is legible if it holds single values only,
and where one is not, what reads all payloads fails.

So a store is `Valid` if it is ordered and its payloads are legible. That is what operations preserve that
write single values only (`Valid.upsert_fitting` and its neighbours).

Actions are run on stores and reasoned about on holdings. `Ends a s r h` says that the action `a` on the
store `s` ends with the result `r`, a value or an error, and leaves a valid store behind that holds `h`;
it is put together from the parts of `a` by `Ends.bind` and `Ends.stop` and read off a run by
`Ends.of_ok` and `Ends.of_error`.
-/

namespace CodeSearch

/-- The vector and the payload of a point. -/
abbrev PointBody := Embedding × Payload

/-- What a store holds. -/
@[ext] structure Holdings where
  /-- The length of the vectors of a collection, if there is one of that name. -/
  size? : String → Option Nat
  /-- The vector and the payload under an id of a collection. -/
  held? : String → String → Option PointBody

namespace Holdings

/-- No collection and no point. -/
def empty : Holdings := { size? := fun _ => none, held? := fun _ _ => none }

/-- The holdings with a collection for vectors of some length. -/
def make (h : Holdings) (c : String) (n : Nat) : Holdings :=
  { h with size? := Function.update h.size? c (some n) }

/-- The holdings with a point written to a collection. -/
def put (h : Holdings) (c : String) (p : Point) : Holdings :=
  let collection := Function.update (h.held? c) p.id (some (p.vector, p.payload))
  { h with held? := Function.update h.held? c collection }

/-- The holdings with points written to a collection one after another. -/
def putAll (h : Holdings) (c : String) (ps : List Point) : Holdings := ps.foldl (·.put c) h

/-- The holdings without some of the points of a collection. -/
def cut (h : Holdings) (c : String) (gone : String → PointBody → Bool) : Holdings :=
  { h with held? := Function.update h.held? c fun id => (h.held? c id).filter fun b => !gone id b }

/-- The holdings without a collection. -/
def drop (h : Holdings) (c : String) : Holdings :=
  { size? := Function.update h.size? c none, held? := Function.update h.held? c fun _ => none }

/-- Why there can be no collection of that name for vectors of some length, if so. -/
def refusal? (h : Holdings) (fits : Nat → Bool) (c : String) (n : Nat) : Option StoreError :=
  if fits n then
    match h.size? c with
    | none => none
    | some m => if m = n then none else some (.dimension c m n)
  else some .sizeTooLarge

variable (h : Holdings) (c c' : String)

@[simp] theorem size?_make (n : Nat) :
    (h.make c n).size? c' = if c' = c then some n else h.size? c' := by
  simp [make, Function.update_apply]

@[simp] theorem held?_make (n : Nat) : (h.make c n).held? = h.held? := rfl

@[simp] theorem size?_put (p : Point) : (h.put c p).size? = h.size? := rfl

theorem held?_put (p : Point) (id : String) :
    (h.put c p).held? c' id =
      if c' = c ∧ id = p.id then some (p.vector, p.payload) else h.held? c' id := by
  by_cases hc : c' = c
  · subst hc
    by_cases hi : id = p.id <;> simp [put, hi]
  · simp [put, hc]

@[simp] theorem held?_put_self (p : Point) :
    (h.put c p).held? c p.id = some (p.vector, p.payload) := by
  rw [held?_put, if_pos ⟨rfl, rfl⟩]

@[simp] theorem size?_putAll (ps : List Point) : (h.putAll c ps).size? = h.size? := by
  induction ps generalizing h with
  | nil => rfl
  | cons p r ih => exact ih (h.put c p)

@[simp] theorem size?_cut (gone : String → PointBody → Bool) : (h.cut c gone).size? = h.size? := rfl

/-- What is left of a collection are the points that are not gone, and other collections stay. -/
theorem held?_cut (gone : String → PointBody → Bool) (id : String) :
    (h.cut c gone).held? c' id =
      if c' = c then (h.held? c id).filter (fun b => !gone id b) else h.held? c' id := by
  by_cases hc : c' = c
  · subst hc
    simp [cut]
  · simp [cut, hc]

theorem held?_drop (id : String) :
    (h.drop c).held? c' id = if c' = c then none else h.held? c' id := by
  by_cases hc : c' = c
  · subst hc
    simp [drop]
  · simp [drop, hc]

theorem size?_drop : (h.drop c).size? c' = if c' = c then none else h.size? c' := by
  simp [drop, Function.update_apply]

/-- A collection that is written to stays apart from the others. -/
theorem held?_putAll_of_ne {c c' : String} (hc : c' ≠ c) (ps : List Point) (id : String) :
    (h.putAll c ps).held? c' id = h.held? c' id := by
  induction ps generalizing h with
  | nil => rfl
  | cons p r ih =>
    rw [putAll, List.foldl_cons, ← putAll, ih, held?_put, if_neg fun hp => hc hp.1]

/-- Ids that no written point has keep what is under them. -/
theorem held?_putAll_of_forall_ne {ps : List Point} {id : String} (hi : ∀ p ∈ ps, p.id ≠ id) :
    (h.putAll c ps).held? c' id = h.held? c' id := by
  induction ps generalizing h with
  | nil => rfl
  | cons p r ih =>
    have hp : id ≠ p.id := (hi p List.mem_cons_self).symm
    rw [putAll, List.foldl_cons, ← putAll, ih _ fun q hq => hi q (List.mem_cons_of_mem _ hq),
      held?_put, if_neg fun he => hp he.2]

/-- **Of points with ids of their own each is found under its id.** -/
theorem held?_putAll_of_mem {ps : List Point} (hn : (ps.map Point.id).Nodup) {p : Point}
    (hp : p ∈ ps) : (h.putAll c ps).held? c p.id = some (p.vector, p.payload) := by
  induction ps generalizing h with
  | nil => cases hp
  | cons q r ih =>
    obtain ⟨hq, hr⟩ := List.nodup_cons.1 hn
    rw [putAll, List.foldl_cons, ← putAll]
    -- no later point takes the place of the first one
    rcases List.mem_cons.1 hp with rfl | hp
    · have hne : ∀ q ∈ r, q.id ≠ p.id := fun q hqr he => hq (he ▸ List.mem_map_of_mem hqr)
      rw [held?_putAll_of_forall_ne _ _ _ hne, held?_put_self]
    · exact ih _ hr hp

/-- What is found in a collection after points were written was written, or was there before. -/
theorem held?_putAll_cases {ps : List Point} {id : String} {b : PointBody}
    (hb : (h.putAll c ps).held? c id = some b) :
    (∃ p ∈ ps, p.id = id ∧ b = (p.vector, p.payload)) ∨ h.held? c id = some b := by
  induction ps generalizing h with
  | nil => exact Or.inr hb
  | cons p ps ih =>
    -- a later point with the same id goes before the first one
    rcases ih (h.put c p) hb with ⟨q, hq, hi, rfl⟩ | hb
    · exact Or.inl ⟨q, List.mem_cons_of_mem _ hq, hi, rfl⟩
    · -- what was found before the others may be the first point itself
      rw [held?_put] at hb
      split at hb
      · next he =>
        obtain rfl := Option.some.inj hb
        exact Or.inl ⟨p, List.mem_cons_self, he.2.symm, rfl⟩
      · exact Or.inr hb

/-- A collection is not refused if its length fits and no other one is there under its name. -/
theorem refusal?_eq_none_iff (fits : Nat → Bool) (n : Nat) :
    h.refusal? fits c n = none ↔ fits n = true ∧ ∀ m, h.size? c = some m → m = n := by
  unfold refusal?
  cases hs : h.size? c with
  | none => by_cases hn : fits n <;> simp [hn]
  | some m => by_cases hn : fits n <;> by_cases hm : m = n <;> simp [hn, hm]

end Holdings

/-! ### Payloads that are kept -/

/-- The text in a field of a payload. -/
def Payload.text? (p : Payload) (field : String) : Option String := (Table.get? p field).bind Json.str?

/-- The fields of a payload that hold texts. -/
def Payload.texts (p : Payload) : Table String := p.filterMap fun (k, v) => v.str?.map (k, ·)

/-- What stands under a text in a payload is its text with all texts. -/
theorem Payload.textsUnder?_eq (p : Payload) (field : String) :
    Payload.textsUnder? p field = (Payload.text? p field).map fun key => (key, Payload.texts p) := rfl

/-- A point as a store keeps it that changes its values. -/
def Point.keptBy (kept : Json → Json) (p : Point) : Point :=
  { p with payload := p.payload.map fun e => (e.1, kept e.2) }

@[simp] theorem Point.id_keptBy (kept : Json → Json) (p : Point) : (p.keptBy kept).id = p.id := rfl

@[simp] theorem Point.vector_keptBy (kept : Json → Json) (p : Point) :
    (p.keptBy kept).vector = p.vector := rfl

section Kept

variable {kept : Json → Json} (hkept : ∀ j, (kept j).str? = j.str?)

include hkept

theorem Payload.text?_keptBy (p : Point) (field : String) :
    Payload.text? (p.keptBy kept).payload field = Payload.text? p.payload field := by
  have h := Table.get?_map (fun _ => kept) p.payload field
  rw [Payload.text?, Payload.text?, Point.keptBy, h]
  cases Table.get? p.payload field with
  | none => rfl
  | some v => exact hkept v

end Kept

/-- Whether a value is neither a list nor an object. -/
def Json.IsFlat : Json → Prop
  | .arr _ | .obj _ => False
  | .null | .bool _ | .int _ | .float _ | .str _ => True

/-- Whether a point comes with single values only. -/
def Point.IsFlat (p : Point) : Prop := ∀ e ∈ p.payload, e.2.IsFlat

/-- Points pass the check of a store if their vectors all have the right length. -/
theorem checkDimensions_points (name : String) {n : Nat} {ps : List Point}
    (hps : ∀ p ∈ ps, p.vector.length = n) :
    checkDimensions name n (ps.map Point.vector) = .ok () := by
  rw [checkDimensions_eq_ok_iff]
  intro v hv
  obtain ⟨p, hp, rfl⟩ := List.mem_map.1 hv
  exact hps p hp

/-- Whether a payload has a text in a field. -/
theorem Filter.accepts_textIs (field value : String) (p : Payload) :
    (Filter.textIs field value).accepts p = true ↔ Payload.text? p field = some value := by
  simp only [Filter.textIs, Filter.accepts, List.all_cons, List.all_nil, Bool.and_true,
    Condition.holds, Payload.text?]
  cases Table.get? p field with
  | none => simp
  | some v => simp [FieldValue.isValueOf]

/-! ### The laws -/

/-- Stores that do what they are asked to. -/
class LawfulVectorStore (σ : Type) [VectorStore σ] where
  /-- Whether a store is in good order. -/
  Ordered : σ → Prop
  /-- What a store holds. -/
  holdings : σ → Holdings
  /-- For which lengths there can be a collection. -/
  fits : Nat → Bool
  /-- What becomes of a value that is written. -/
  kept : Json → Json
  /-- Which payloads can be read again. -/
  legible : Payload → Bool
  str?_kept : ∀ j, (kept j).str? = j.str?
  legible_kept : ∀ {p : Point}, p.IsFlat → legible (p.keptBy kept).payload = true
  ordered_empty : Ordered VectorStore.empty
  holdings_empty : holdings VectorStore.empty = Holdings.empty
  contains_eq : ∀ s c, VectorStore.contains s c = ((holdings s).size? c).isSome
  fits_of_size? : ∀ {s c n}, Ordered s → (holdings s).size? c = some n → fits n = true
  /-- Every vector has the length that its collection was made with. -/
  size?_of_held? : ∀ {s c id b}, Ordered s → (holdings s).held? c id = some b →
    (holdings s).size? c = some b.1.length
  /-- Reading all texts finds those of one point for each text in the field, and no others. -/
  scroll_eq : ∀ {s c n} (field : String), Ordered s → (holdings s).size? c = some n →
    (∀ id b, (holdings s).held? c id = some b → legible b.2 = true) →
    ∃ t, VectorStore.scroll s c field = .ok t ∧
      (∀ key texts, Table.get? t key = some texts → ∃ id b, (holdings s).held? c id = some b ∧
        Payload.textsUnder? b.2 field = some (key, texts)) ∧
      ∀ id b key texts, (holdings s).held? c id = some b →
        Payload.textsUnder? b.2 field = some (key, texts) → (Table.get? t key).isSome
  /-- A collection is not made if there cannot be one. -/
  ensure_refused : ∀ {s c n e}, Ordered s → (holdings s).refusal? fits c n = some e →
    (VectorStore.ensure c n).run s = .error e s
  ensure_taken : ∀ {s c n}, Ordered s → (holdings s).refusal? fits c n = none →
    ∃ s', (VectorStore.ensure c n).run s = .ok () s' ∧ Ordered s' ∧
      holdings s' = (holdings s).make c n
  upsert_fitting : ∀ {s c n} {ps : List Point}, Ordered s → (holdings s).size? c = some n →
    (∀ p ∈ ps, p.vector.length = n) →
    ∃ s', (VectorStore.upsert c ps).run s = .ok () s' ∧ Ordered s' ∧
      holdings s' = (holdings s).putAll c (ps.map (Point.keptBy kept))
  drop_run : ∀ {s} (c : String), Ordered s →
    ∃ s', (VectorStore.drop c).run s = .ok () s' ∧ Ordered s' ∧ holdings s' = (holdings s).drop c
  deleteIds_run : ∀ {s c n} (ids : List String), Ordered s → (holdings s).size? c = some n →
    ∃ s', (VectorStore.deleteIds c ids).run s = .ok () s' ∧ Ordered s' ∧
      holdings s' = (holdings s).cut c fun id _ => ids.contains id
  deleteWhere_run : ∀ {s} (c : String) (f : Filter), Ordered s →
    (∀ id b, (holdings s).held? c id = some b → legible b.2 = true) →
    ∃ n s', (VectorStore.deleteWhere c f).run s = .ok n s' ∧ Ordered s' ∧
      holdings s' = (holdings s).cut c fun _ b => f.accepts b.2

export LawfulVectorStore (Ordered holdings)

open LawfulVectorStore (fits kept legible)

section Valid

variable {σ : Type} [VectorStore σ] [LawfulVectorStore σ]

/-- A store in good order of which all payloads can be read. -/
structure Valid (s : σ) : Prop where
  ordered : Ordered s
  legible : ∀ c id b, (holdings s).held? c id = some b → legible σ b.2 = true

/-- A new store is valid. -/
theorem valid_empty : Valid (VectorStore.empty : σ) where
  ordered := LawfulVectorStore.ordered_empty
  legible c id b hb := by
    rw [LawfulVectorStore.holdings_empty] at hb
    cases hb

variable {s s' : σ}

/-- A store that holds nothing else than a valid one is valid. -/
theorem Valid.of_held? (hs : Valid s) (hs' : Ordered s')
    (h : ∀ c id b, (holdings s').held? c id = some b → (holdings s).held? c id = some b) : Valid s' where
  ordered := hs'
  legible c id b hb := hs.legible c id b (h c id b hb)

/-- To cut some points out leaves a store valid. -/
theorem Valid.of_cut (hs : Valid s) (hs' : Ordered s') {c : String} {gone : String → PointBody → Bool}
    (h : holdings s' = (holdings s).cut c gone) : Valid s' := by
  refine hs.of_held? hs' fun c' id b hb => ?_
  rw [h, Holdings.held?_cut] at hb
  split at hb
  · next hc => rw [hc, (Option.filter_eq_some_iff.1 hb).1]
  · exact hb

/-! ### Operations on a valid store -/

/-- A collection is made unless it is refused. -/
theorem Valid.ensure_taken (hs : Valid s) {c : String} {n : Nat}
    (h : (holdings s).refusal? (fits σ) c n = none) :
    ∃ s', (VectorStore.ensure c n).run s = .ok () s' ∧ Valid s' ∧ holdings s' = (holdings s).make c n := by
  obtain ⟨s', hrun, hs', hh⟩ := LawfulVectorStore.ensure_taken hs.ordered h
  refine ⟨s', hrun, hs.of_held? hs' fun c' id b hb => ?_, hh⟩
  rwa [hh, Holdings.held?_make] at hb

/-- **Points with single values are written**, and then all payloads can still be read. -/
theorem Valid.upsert_fitting (hs : Valid s) {c : String} {n : Nat} (hc : (holdings s).size? c = some n)
    {ps : List Point} (hps : ∀ p ∈ ps, p.vector.length = n) (hflat : ∀ p ∈ ps, p.IsFlat) :
    ∃ s', (VectorStore.upsert c ps).run s = .ok () s' ∧ Valid s' ∧
      holdings s' = (holdings s).putAll c (ps.map (Point.keptBy (kept σ))) := by
  obtain ⟨s', hrun, hs', hh⟩ := LawfulVectorStore.upsert_fitting hs.ordered hc hps
  refine ⟨s', hrun, ⟨hs', fun c' id b hb => ?_⟩, hh⟩
  rw [hh] at hb
  by_cases hc' : c' = c
  · -- what is found was written or was there before
    subst hc'
    rcases Holdings.held?_putAll_cases _ _ hb with ⟨q, hq, -, rfl⟩ | hb
    · obtain ⟨p, hp, rfl⟩ := List.mem_map.1 hq
      exact LawfulVectorStore.legible_kept (hflat p hp)
    · exact hs.legible c' id b hb
  · -- other collections are as they were
    rw [Holdings.held?_putAll_of_ne _ hc'] at hb
    exact hs.legible c' id b hb

/-- To drop a collection always succeeds. -/
theorem Valid.drop_run (hs : Valid s) (c : String) :
    ∃ s', (VectorStore.drop c).run s = .ok () s' ∧ Valid s' ∧ holdings s' = (holdings s).drop c := by
  obtain ⟨s', hrun, hs', hh⟩ := LawfulVectorStore.drop_run c hs.ordered
  refine ⟨s', hrun, hs.of_held? hs' fun c' id b hb => ?_, hh⟩
  rw [hh, Holdings.held?_drop] at hb
  split at hb
  · cases hb
  · exact hb

/-- Points are deleted by their ids if their collection is there. -/
theorem Valid.deleteIds_run (hs : Valid s) {c : String} {n : Nat} (ids : List String)
    (hc : (holdings s).size? c = some n) :
    ∃ s', (VectorStore.deleteIds c ids).run s = .ok () s' ∧ Valid s' ∧
      holdings s' = (holdings s).cut c fun id _ => ids.contains id := by
  obtain ⟨s', hrun, hs', hh⟩ := LawfulVectorStore.deleteIds_run ids hs.ordered hc
  exact ⟨s', hrun, hs.of_cut hs' hh, hh⟩

/-- Points are deleted by what a filter accepts. -/
theorem Valid.deleteWhere_run (hs : Valid s) (c : String) (f : Filter) :
    ∃ n s', (VectorStore.deleteWhere c f).run s = .ok n s' ∧ Valid s' ∧
      holdings s' = (holdings s).cut c fun _ b => f.accepts b.2 := by
  obtain ⟨n, s', hrun, hs', hh⟩ := LawfulVectorStore.deleteWhere_run c f hs.ordered (hs.legible c)
  exact ⟨n, s', hrun, hs.of_cut hs' hh, hh⟩

end Valid

/-! ### What actions leave behind -/

section Ends

variable {σ ε α β : Type}

/-- An action that reads the store gets the store and leaves it as it is. -/
theorem get_apply (s : σ) : (EStateM.get : EStateM ε σ σ) s = .ok s s := rfl

/-- A value that is at hand is handed on. -/
theorem ofExcept_ok_bind (x : α) (f : α → EStateM ε σ β) :
    (MonadExcept.ofExcept (.ok x : Except ε α) >>= f) = f x := rfl

/-- An action that succeeds has succeeded in its first part and then in the rest. -/
theorem exists_of_run_bind {a : EStateM ε σ α} {f : α → EStateM ε σ β} {y : β}
    {s s' : σ} (h : (a >>= f).run s = .ok y s') :
    ∃ x s₁, a.run s = .ok x s₁ ∧ (f x).run s₁ = .ok y s' := by
  change EStateM.bind a f s = _ at h
  rw [EStateM.bind] at h
  -- an action that fails at first does not go on
  cases ha : a s with
  | error e s₁ =>
    rw [ha] at h
    cases h
  | ok x s₁ =>
    rw [ha] at h
    exact ⟨x, s₁, ha, h⟩

variable [VectorStore σ] [LawfulVectorStore σ]

/-- The action ends with the result, and the valid store that it leaves behind holds `h`. -/
def Ends (a : EStateM ε σ α) (s : σ) (r : Except ε α) (h : Holdings) : Prop :=
  ∃ s', Valid s' ∧ holdings s' = h ∧
    a.run s = match r with
      | .ok x => .ok x s'
      | .error e => .error e s'

variable {s s' : σ} {h h' : Holdings} {r : Except ε α}

theorem Ends.pure (hs : Valid s) (hh : holdings s = h) (x : α) :
    Ends (Pure.pure x : EStateM ε σ α) s (.ok x) h :=
  ⟨s, hs, hh, rfl⟩

theorem Ends.throw (hs : Valid s) (e : ε) :
    Ends (throw e : EStateM ε σ α) s (.error e) (holdings s) :=
  ⟨s, hs, rfl, rfl⟩

theorem Ends.ofExcept (hs : Valid s) (r : Except ε α) :
    Ends (MonadExcept.ofExcept r : EStateM ε σ α) s r (holdings s) := by
  cases r with
  | ok x => exact ⟨s, hs, rfl, rfl⟩
  | error e => exact ⟨s, hs, rfl, rfl⟩

/-- What a first action leaves behind is what a second one starts from. -/
theorem Ends.bind {a : EStateM ε σ α} {f : α → EStateM ε σ β} {x : α} {r : Except ε β}
    (ha : Ends a s (.ok x) h)
    (hf : ∀ s', Valid s' → holdings s' = h → Ends (f x) s' r h') : Ends (a >>= f) s r h' := by
  obtain ⟨s₁, hv, hh, ha⟩ := ha
  -- the second action starts where the first one has come to
  obtain ⟨s₂, hv₂, hh₂, hf⟩ := hf s₁ hv hh
  refine ⟨s₂, hv₂, hh₂, ?_⟩
  have hbind : (a >>= f).run s = (f x).run s₁ := by
    change EStateM.bind a f s = _
    rw [EStateM.bind, show a s = .ok x s₁ from ha]
    rfl
  rw [hbind, hf]

/-- Nothing happens after an action that fails. -/
theorem Ends.stop {a : EStateM ε σ α} {f : α → EStateM ε σ β} {e : ε}
    (ha : Ends a s (.error e) h) : Ends (a >>= f) s (.error e) h := by
  obtain ⟨s₁, hv, hh, ha⟩ := ha
  refine ⟨s₁, hv, hh, ?_⟩
  change EStateM.bind a f s = _
  rw [EStateM.bind, show a s = .error e s₁ from ha]

/-- What an action that succeeds leaves behind is what it ends with. -/
theorem Ends.of_ok {a : EStateM ε σ α} {x : α} (ha : Ends a s r h) (hrun : a.run s = .ok x s') :
    r = .ok x ∧ Valid s' ∧ holdings s' = h := by
  obtain ⟨s₁, hv, hh, ha⟩ := ha
  cases r with
  | ok y =>
    rw [hrun] at ha
    cases ha
    exact ⟨rfl, hv, hh⟩
  | error e => rw [hrun] at ha; cases ha

/-- What an action that fails leaves behind is what it ends with. -/
theorem Ends.of_error {a : EStateM ε σ α} {e : ε} (ha : Ends a s r h)
    (hrun : a.run s = .error e s') : r = .error e ∧ Valid s' ∧ holdings s' = h := by
  obtain ⟨s₁, hv, hh, ha⟩ := ha
  cases r with
  | ok y => rw [hrun] at ha; cases ha
  | error e' =>
    rw [hrun] at ha
    cases ha
    exact ⟨rfl, hv, hh⟩

end Ends

end CodeSearch
