import CodeSearch.CodeMap.Resolver
import CodeSearch.Proofs.CodeMap.Tidy

/-!
# Which files are related

The files that a file imports are found in two ways: anew from its imports, and in the tables that a
module index has noted once. The files that import a file are found in the tables only. So being related,
which is read off the tables, goes both ways only if the two tables mirror each other, and it is about
what files import only if they mirror the imports (`CodeMap.mem_related_iff`).

All passes over a map come down to one list of references, pairs of a file and a file that one of its
imports refers to (`ModuleIndex.references`), in the order in which they are found:

* noting them one after another (`foldl_addImports`), both tables hold exactly the references, read
  forwards in one and backwards in the other (`notes_foldl_note`), however often they are found;
* that references are found at all has to do with what files are known under, which the second pass
  leaves alone.

Paths are compared by their components in all of this, so that one path can stand for another one. That
no path of a map can (`CodeMap.Built.tidy`) makes every set of paths of the map a set of files: a section
about such sets comes first, over any paths of which no two are for one place (`Apart`).
-/

namespace CodeSearch

/-! ### Sets of paths that stand for themselves -/

/-- Whether no two of some paths are for one place. -/
def Apart (K : Path → Prop) : Prop := ∀ p q, K p → K q → p.same q = true → p = q

section Sets

variable {K : Path → Prop} {s : PathSet} {ps : List Path} {p q x : Path}

/-- In a set to which a path was added there is nothing else that is new. -/
theorem PathSet.mem_insert (h : x ∈ s.insert p) : x = p ∨ x ∈ s := by
  induction s with
  | nil => exact Or.inl (List.mem_singleton.1 h)
  | cons q s ih =>
    rw [PathSet.insert] at h
    split at h
    · exact List.mem_cons.1 h
    · exact Or.inr h
    · rcases List.mem_cons.1 h with rfl | h
      · exact Or.inr List.mem_cons_self
      · exact (ih h).imp_right (List.mem_cons_of_mem _)

/-- A set that is in order stays in order. -/
theorem PathSet.pairwise_insert (h : s.Pairwise fun p q => p.compare q = .lt) (p : Path) :
    (s.insert p).Pairwise fun p q => p.compare q = .lt := by
  induction s with
  | nil => exact List.pairwise_singleton _ _
  | cons q s ih =>
    obtain ⟨hq, hs⟩ := List.pairwise_cons.1 h
    rw [PathSet.insert]
    cases hc : p.compare q with
    | lt =>
      -- the new path comes first, and all others come after the path that it is put before
      refine List.pairwise_cons.2 ⟨fun x hx => ?_, h⟩
      rcases List.mem_cons.1 hx with rfl | hx
      · exact hc
      · exact Std.TransCmp.lt_trans hc (hq x hx)
    | eq => exact h
    | gt =>
      -- the new path goes further back
      refine List.pairwise_cons.2 ⟨fun x hx => ?_, ih hs⟩
      rcases PathSet.mem_insert hx with rfl | hx
      · exact Std.OrientedCmp.lt_of_gt hc
      · exact hq x hx

/-- A set that is in order stays in order when paths are added. -/
theorem PathSet.pairwise_extend (h : s.Pairwise fun p q => p.compare q = .lt) (ps : List Path) :
    (s.extend ps).Pairwise fun p q => p.compare q = .lt := by
  induction ps generalizing s with
  | nil => exact h
  | cons p ps ih => exact ih (PathSet.pairwise_insert h p)

theorem PathSet.mem_extend (h : x ∈ s.extend ps) : x ∈ s ∨ x ∈ ps := by
  induction ps generalizing s with
  | nil => exact Or.inl h
  | cons p ps ih =>
    rcases ih h with h | h
    · rcases PathSet.mem_insert h with rfl | h
      · exact Or.inr List.mem_cons_self
      · exact Or.inl h
    · exact Or.inr (List.mem_cons_of_mem _ h)

/-- A set in order has no two paths for one place. -/
theorem PathSet.pairwise_same (h : s.Pairwise fun p q => p.compare q = .lt) :
    s.Pairwise fun p q => p.same q = false :=
  h.imp fun hlt => decide_eq_false (Path.components_ne_of_lt hlt)

/-- Of the paths for one place the first one is kept. -/
theorem Path.pairwise_firsts (ps : List Path) : (Path.firsts ps).Pairwise fun p q => p.same q = false := by
  -- what was kept already takes part in the induction
  suffices h : ∀ seen : List Path, (seen.Pairwise fun p q => p.same q = false) →
      (ps.foldl Path.keepFirst seen).Pairwise fun p q => p.same q = false from h [] List.Pairwise.nil
  induction ps with
  | nil => exact fun seen h => h
  | cons p ps ih =>
    intro seen h
    refine ih _ ?_
    rw [Path.keepFirst]
    split
    · -- a path for the same place is there already
      exact h
    · next hnone =>
      -- none of the paths before it is for the same place
      refine List.pairwise_append.2 ⟨h, List.pairwise_singleton _ _, fun q hq r hr => ?_⟩
      obtain rfl := List.mem_singleton.1 hr
      rw [List.any_eq_true, not_exists] at hnone
      exact Bool.eq_false_iff.2 fun hsame => hnone q ⟨hq, hsame⟩

variable (hK : Apart K)

include hK

/-- A path that stands for itself is added if it is not there. -/
theorem PathSet.mem_insert_iff (hs : ∀ q ∈ s, K q) (hp : K p) : x ∈ s.insert p ↔ x = p ∨ x ∈ s := by
  refine ⟨PathSet.mem_insert, ?_⟩
  induction s with
  | nil => exact fun h => h.elim (fun h => List.mem_singleton.2 h) nofun
  | cons q s ih =>
    intro h
    rw [PathSet.insert]
    cases hc : p.compare q with
    | lt => exact List.mem_cons.2 h
    | eq =>
      -- only the path itself is for its place, so it is there
      obtain rfl : p = q := hK p q hp (hs q List.mem_cons_self) (Path.same_iff.2 (Path.compare_eq_iff.1 hc))
      exact h.elim (fun h => h ▸ List.mem_cons_self) id
    | gt =>
      have ih := ih fun y hy => hs y (List.mem_cons_of_mem _ hy)
      rcases h with h | h
      · exact List.mem_cons_of_mem _ (ih (Or.inl h))
      · rcases List.mem_cons.1 h with rfl | h
        · exact List.mem_cons_self
        · exact List.mem_cons_of_mem _ (ih (Or.inr h))

/-- A set is put together from paths that stand for themselves without losing any. -/
theorem PathSet.mem_extend_iff (hs : ∀ q ∈ s, K q) (hps : ∀ q ∈ ps, K q) :
    x ∈ s.extend ps ↔ x ∈ s ∨ x ∈ ps := by
  induction ps generalizing s with
  | nil => simp [PathSet.extend]
  | cons p ps ih =>
    have hp : K p := hps p List.mem_cons_self
    -- the longer set has paths of the same kind, so the rest can be added to it
    have hinsert : ∀ q ∈ s.insert p, K q := by
      intro q hq
      rcases PathSet.mem_insert hq with rfl | hq
      · exact hp
      · exact hs q hq
    have hrest := ih hinsert fun q hq => hps q (List.mem_cons_of_mem _ hq)
    change x ∈ PathSet.extend (s.insert p) ps ↔ _
    rw [hrest, PathSet.mem_insert_iff hK hs hp, List.mem_cons]
    tauto

/-- No path is lost if all paths stand for themselves. -/
theorem Path.mem_firsts_iff (hps : ∀ q ∈ ps, K q) : x ∈ Path.firsts ps ↔ x ∈ ps := by
  -- the paths that were kept so far are of the kind as well
  suffices h : ∀ seen : List Path, (∀ q ∈ seen, K q) →
      (x ∈ ps.foldl Path.keepFirst seen ↔ x ∈ seen ∨ x ∈ ps) by
    rw [Path.firsts, h [] nofun]
    simp
  induction ps with
  | nil => simp
  | cons p ps ih =>
    intro seen hseen
    have hp : K p := hps p List.mem_cons_self
    -- a path is kept, or it was kept before
    have hkeep : ∀ y, y ∈ Path.keepFirst seen p ↔ y ∈ seen ∨ y = p := by
      intro y
      rw [Path.keepFirst]
      split
      · next hany =>
        obtain ⟨q, hq, hsame⟩ := List.any_eq_true.1 hany
        obtain rfl := hK q p (hseen q hq) hp hsame
        exact ⟨Or.inl, fun h => h.elim id fun h => h ▸ hq⟩
      · rw [List.mem_append, List.mem_singleton]
    have hseen' : ∀ q ∈ Path.keepFirst seen p, K q := by
      intro q hq
      rcases (hkeep q).1 hq with hq | rfl
      · exact hseen q hq
      · exact hp
    rw [List.foldl_cons, ih (fun q hq => hps q (List.mem_cons_of_mem _ hq)) _ hseen', hkeep,
      List.mem_cons, or_assoc]

end Sets

/-! ### Links -/

namespace PathLinks

theorem get_cons (k : Path) (s : PathSet) (l : PathLinks) (p : Path) :
    get ((k, s) :: l) p = if k.same p then s else l.get p := by
  rw [get, List.find?_cons]
  cases k.same p with
  | true => rfl
  | false => rfl

/-- **What a link adds**: the second path to those of the first one, and nothing elsewhere. -/
theorem get_add (l : PathLinks) (p q p' : Path) :
    (l.add p q).get p' = if p.same p' then (l.get p').insert q else l.get p' := by
  induction l with
  | nil => exact get_cons p _ [] p'
  | cons e l ih =>
    obtain ⟨k, s⟩ := e
    rw [add]
    by_cases hk : k.same p = true
    · -- the path has links already
      have hkp : k.same p' = p.same p' := by
        rw [Bool.eq_iff_iff, Path.same_iff, Path.same_iff, Path.same_iff.1 hk]
      rw [if_pos hk, get_cons, get_cons, hkp]
      split
      · rfl
      · rfl
    · -- the links of another path stay as they are
      rw [if_neg hk, get_cons, get_cons, ih]
      by_cases hkp : k.same p' = true
      · -- a path has the links of one place only
        have hp : ¬p.same p' = true := by
          intro hp
          exact hk (Path.same_iff.2 ((Path.same_iff.1 hkp).trans (Path.same_iff.1 hp).symm))
        rw [if_pos hkp, if_neg hp, if_pos hkp]
      · rw [if_neg hkp, if_neg hkp]

end PathLinks

/-! ### What files are known under -/

namespace ModuleIndex

variable {K : Path → Prop} {x y : ModuleIndex} {p q : Path}

/-- Whether the sets of a table are in order, and sets of certain paths. -/
def Knows (K : Path → Prop) (t : Table PathSet) : Prop :=
  ∀ key s, t.get? key = some s → (∀ p ∈ s, K p) ∧ s.Pairwise fun p q => p.compare q = .lt

/-- A table to which a path is added under a key still has sets in order. -/
theorem Knows.addKey {t : Table PathSet} (h : Knows K t) (hp : K p) (key : String) :
    Knows K (addKey p t key) := by
  -- the set of the key so far, which may not be there
  have hold : (∀ q ∈ t.getD key [], K q) ∧
      (t.getD key []).Pairwise fun p q => p.compare q = .lt := by
    rw [Table.getD]
    cases hget : t.get? key with
    | none => exact ⟨nofun, List.Pairwise.nil⟩
    | some s => exact h key s hget
  intro key' s hget
  rw [ModuleIndex.addKey, Table.get?_insert] at hget
  split at hget
  · obtain rfl := Option.some.inj hget
    refine ⟨fun q hq => ?_, PathSet.pairwise_insert hold.2 p⟩
    rcases PathSet.mem_insert hq with rfl | hq
    · exact hp
    · exact hold.1 q hq
  · exact h key' s hget

theorem Knows.addModule (h : Knows K x.modules) (hp : K p) (names : List String) :
    Knows K (x.addModule names p).modules := by
  suffices hfold : ∀ (keys : List String) (t : Table PathSet), Knows K t →
      Knows K (keys.foldl (ModuleIndex.addKey p) t) from hfold _ _ h
  intro keys
  induction keys with
  | nil => exact fun t ht => ht
  | cons key keys ih => exact fun t ht => ih _ (ht.addKey hp key)

/-- Making a file known adds its path to sets of the index. -/
theorem Knows.addFile (h : Knows K x.modules) {f : MapFile} (hf : K f.path) (root : Path) :
    Knows K (x.addFile root f).modules := by
  rw [ModuleIndex.addFile]
  split
  · exact h
  · dsimp only
    split
    · exact (h.addModule hf _).addModule hf _
    · exact h.addModule hf _

theorem knows_foldl_addFile (root : Path) {fs : List MapFile} (hfs : ∀ f ∈ fs, K f.path)
    (h : Knows K x.modules) : Knows K (fs.foldl (addFile root) x).modules := by
  induction fs generalizing x with
  | nil => exact h
  | cons f fs ih =>
    exact ih (fun g hg => hfs g (List.mem_cons_of_mem _ hg)) (h.addFile (hfs f List.mem_cons_self) root)

/-- **A search finds known files,** in order. -/
theorem Knows.search (h : Knows K x.modules) (statement : String) :
    (∀ p ∈ x.search statement, K p) ∧
      (x.search statement).Pairwise fun p q => p.compare q = .lt := by
  -- a single group gives the set of one key
  have hlookup : ∀ group, ∀ p ∈ x.lookup group, K p := by
    intro group
    rw [lookup]
    cases hfind : group.findSome? x.known? with
    | none => exact nofun
    | some s =>
      obtain ⟨key, -, hkey⟩ := List.exists_of_findSome?_eq_some hfind
      exact (h _ s hkey).1
  -- the groups are worked off one after another, on top of what was found
  suffices hfold : ∀ (groups : List (List (List Char))) (found : PathSet), (∀ p ∈ found, K p) →
      (found.Pairwise fun p q => p.compare q = .lt) →
      (∀ p ∈ groups.foldl (fun found g => found.extend (x.lookup g)) found, K p) ∧
        (groups.foldl (fun found g => found.extend (x.lookup g)) found).Pairwise
          fun p q => p.compare q = .lt from hfold _ [] nofun List.Pairwise.nil
  intro groups
  induction groups with
  | nil => exact fun found hin hord => ⟨hin, hord⟩
  | cons g groups ih =>
    intro found hin hord
    refine ih _ (fun p hp => ?_) (PathSet.pairwise_extend hord _)
    rcases PathSet.mem_extend hp with hp | hp
    · exact hin p hp
    · exact hlookup g p hp

/-- What a search finds depends on what files are known under, and on nothing else. -/
theorem search_congr (h : x.modules = y.modules) (statement : String) :
    x.search statement = y.search statement := by
  unfold search lookup known?
  rw [h]

/-! ### What is noted -/

/-- Notes a reference. -/
def note (x : ModuleIndex) (e : Path × Path) : ModuleIndex := link e.1 x e.2

/-- What the imports of files refer to, in the order in which it is found. -/
def references (x : ModuleIndex) (fs : List MapFile) : List (Path × Path) :=
  fs.flatMap fun f => f.imports.flatMap fun i => (x.search i).map (f.path, ·)

theorem mem_references_iff {fs : List MapFile} : (p, q) ∈ x.references fs ↔
    ∃ f ∈ fs, f.path = p ∧ ∃ i ∈ f.imports, q ∈ x.search i := by
  simp only [references, List.mem_flatMap, List.mem_map, Prod.mk.injEq]
  constructor
  · rintro ⟨f, hf, i, hi, q, hq, rfl, rfl⟩
    exact ⟨f, hf, rfl, i, hi, hq⟩
  · rintro ⟨f, hf, rfl, i, hi, hq⟩
    exact ⟨f, hf, i, hi, q, hq, rfl, rfl⟩

/-- References do not change under which keys files are known. -/
theorem modules_foldl_note (es : List (Path × Path)) (x : ModuleIndex) :
    (es.foldl note x).modules = x.modules := by
  induction es generalizing x with
  | nil => rfl
  | cons e es ih => exact (ih (x.note e)).trans (modules_link e.1 x e.2)

/-- Steps that each note some references note all of them together. -/
theorem foldl_eq_foldl_note {α : Type} {step : ModuleIndex → α → ModuleIndex}
    {refs : α → List (Path × Path)}
    (hstep : ∀ y a, y.modules = x.modules → step y a = (refs a).foldl note y) (l : List α)
    (hy : y.modules = x.modules) : l.foldl step y = (l.flatMap refs).foldl note y := by
  induction l generalizing y with
  | nil => rfl
  | cons a l ih =>
    rw [List.foldl_cons, List.flatMap_cons, List.foldl_append, hstep y a hy,
      ih ((modules_foldl_note _ _).trans hy)]

/-- **The second pass notes the references,** one after another. -/
theorem foldl_addImports (fs : List MapFile) (x : ModuleIndex) :
    fs.foldl addImports x = (x.references fs).foldl note x := by
  refine foldl_eq_foldl_note (fun y f hy => ?_) fs rfl
  refine foldl_eq_foldl_note (fun z i hz => ?_) f.imports hy
  rw [addImport, search_congr hz, List.foldl_map]
  rfl

/-- Whether both tables of an index hold certain references, forwards and backwards, and sets of certain
paths. -/
structure Notes (K : Path → Prop) (N : Path → Path → Prop) (x : ModuleIndex) : Prop where
  importsOf_mem : ∀ p, ∀ q ∈ x.importsOf.get p, K q
  importers_mem : ∀ q, ∀ p ∈ x.importers.get q, K p
  importsOf_iff : ∀ p q, K p → (q ∈ x.importsOf.get p ↔ N p q)
  importers_iff : ∀ p q, K q → (p ∈ x.importers.get q ↔ N p q)

section Notes

variable {N : Path → Path → Prop}

theorem notes_empty : Notes K (fun _ _ => False) {} := by
  have hnone : ∀ p q : Path, q ∉ PathLinks.get [] p := fun _ _ => List.not_mem_nil
  constructor
  · exact fun p q hq => absurd hq (hnone p q)
  · exact fun q p hp => absurd hp (hnone q p)
  · exact fun p q _ => iff_of_false (hnone p q) id
  · exact fun p q _ => iff_of_false (hnone q p) id

/-- A file that is made known leaves alone what is noted. -/
theorem Notes.addFile (h : Notes K N x) (root : Path) (f : MapFile) : Notes K N (x.addFile root f) := by
  obtain ⟨hforwards, hbackwards, hforwards_iff, hbackwards_iff⟩ := h
  rw [ModuleIndex.addFile]
  split
  · exact ⟨hforwards, hbackwards, hforwards_iff, hbackwards_iff⟩
  · dsimp only
    split
    · exact ⟨hforwards, hbackwards, hforwards_iff, hbackwards_iff⟩
    · exact ⟨hforwards, hbackwards, hforwards_iff, hbackwards_iff⟩

/-- A link adds one path, which is of the kind. -/
theorem mem_of_mem_get_add {l : PathLinks} (hl : ∀ a, ∀ b ∈ l.get a, K b) (hq : K q) {a b : Path}
    (hb : b ∈ (l.add p q).get a) : K b := by
  rw [PathLinks.get_add] at hb
  split at hb
  · rcases PathSet.mem_insert hb with rfl | hb
    · exact hq
    · exact hl a b hb
  · exact hl a b hb

variable (hK : Apart K)

include hK

/-- One more link in a table that holds some pairs. -/
theorem mem_get_add_iff {l : PathLinks} (hl : ∀ a, ∀ b ∈ l.get a, K b) (hp : K p) (hq : K q) {a b : Path}
    (ha : K a) : b ∈ (l.add p q).get a ↔ b ∈ l.get a ∨ a = p ∧ b = q := by
  rw [PathLinks.get_add]
  by_cases hsame : p.same a = true
  · obtain rfl := hK p a hp ha hsame
    rw [if_pos hsame, PathSet.mem_insert_iff hK (hl p) hq, or_comm]
    simp
  · have hne : a ≠ p := fun he => hsame (he ▸ Path.same_iff.2 rfl)
    rw [if_neg hsame]
    simp [hne]

/-- **Noting a reference** adds it to both tables, unless it is one of a file to itself. -/
theorem Notes.note (h : Notes K N x) {e : Path × Path} (hp : K e.1) (hq : K e.2) :
    Notes K (fun a b => N a b ∨ (a, b) = e ∧ a ≠ b) (x.note e) := by
  obtain ⟨p, q⟩ := e
  unfold ModuleIndex.note link
  dsimp only at hp hq ⊢
  split
  · next hsame =>
    -- a file that refers to itself
    obtain rfl := hK q p hq hp hsame
    have hnone : ∀ a b, (N a b ∨ (a, b) = (q, q) ∧ a ≠ b) ↔ N a b := by
      intro a b
      refine or_iff_left fun ⟨he, hne⟩ => hne ?_
      rw [(Prod.mk.inj he).1, (Prod.mk.inj he).2]
    exact ⟨h.importsOf_mem, h.importers_mem,
      fun a b ha => (h.importsOf_iff a b ha).trans (hnone a b).symm,
      fun a b hb => (h.importers_iff a b hb).trans (hnone a b).symm⟩
  · next hsame =>
    -- a file that refers to another one
    have hne : p ≠ q := fun he => hsame (he ▸ Path.same_iff.2 rfl)
    have hnew : ∀ a b, ((a, b) = (p, q) ∧ a ≠ b) ↔ a = p ∧ b = q := by
      intro a b
      rw [Prod.mk.injEq]
      exact ⟨fun he => he.1, fun he => ⟨he, by rw [he.1, he.2]; exact hne⟩⟩
    refine ⟨fun a b hb => ?_, fun a b hb => ?_, fun a b ha => ?_, fun a b hb => ?_⟩
    · exact mem_of_mem_get_add h.importsOf_mem hq hb
    · exact mem_of_mem_get_add h.importers_mem hp hb
    · rw [mem_get_add_iff hK h.importsOf_mem hp hq ha, h.importsOf_iff a b ha, hnew]
    · rw [mem_get_add_iff hK h.importers_mem hq hp hb, h.importers_iff a b hb, hnew, and_comm]

/-- **Both tables hold exactly the references that were noted.** -/
theorem notes_foldl_note (h : Notes K N x) {es : List (Path × Path)} (hes : ∀ e ∈ es, K e.1 ∧ K e.2) :
    Notes K (fun a b => N a b ∨ (a, b) ∈ es ∧ a ≠ b) (es.foldl ModuleIndex.note x) := by
  -- the induction is for all references that were noted before
  induction es generalizing x N with
  | nil => simpa using h
  | cons e es ih =>
    obtain ⟨hp, hq⟩ := hes e List.mem_cons_self
    have hrest := ih (h.note hK hp hq) fun e' he' => hes e' (List.mem_cons_of_mem _ he')
    have hsplit : ∀ a b, ((N a b ∨ (a, b) = e ∧ a ≠ b) ∨ (a, b) ∈ es ∧ a ≠ b) ↔
        (N a b ∨ (a, b) ∈ e :: es ∧ a ≠ b) := by
      intro a b
      rw [List.mem_cons, or_and_right, or_assoc]
    simp only [hsplit] at hrest
    exact hrest

end Notes

end ModuleIndex

namespace CodeMap

open ModuleIndex (Knows Notes)

variable {m : CodeMap} {root : Path} {a b f : MapFile} {p q : Path} {statement : String}

/-- Whether a path is that of a file of a map. -/
def HasFile (m : CodeMap) (p : Path) : Prop := ∃ f ∈ m.files, f.path = p

/-- Whether paths are those of files of a map, none of them twice. -/
def AreFiles (m : CodeMap) (ps : List Path) : Prop :=
  (∀ p ∈ ps, m.HasFile p) ∧ ps.Pairwise fun p q => p.same q = false

/-- Two files of a map are never for the same place. -/
theorem Tidy.apart (h : m.Tidy) : Apart m.HasFile := by
  rintro p q ⟨f, hf, rfl⟩ ⟨g, hg, rfl⟩ hsame
  rw [h.eq_of_components hf hg (Path.same_iff.1 hsame)]

/-! ### The index of a map -/

/-- The index of a map after the first pass. -/
def known (m : CodeMap) : ModuleIndex := m.files.foldl (ModuleIndex.addFile m.root) {}

theorem ofMap_eq (m : CodeMap) : ModuleIndex.ofMap m = (m.known.references m.files).foldl .note m.known :=
  ModuleIndex.foldl_addImports m.files m.known

/-- A search looks at the keys only, so it is that of the first pass. -/
theorem search_ofMap (m : CodeMap) (statement : String) :
    (ModuleIndex.ofMap m).search statement = m.known.search statement := by
  refine ModuleIndex.search_congr ?_ statement
  rw [ofMap_eq]
  exact ModuleIndex.modules_foldl_note _ _

theorem knows_known (m : CodeMap) : Knows m.HasFile m.known.modules :=
  ModuleIndex.knows_foldl_addFile m.root (fun f hf => ⟨f, hf, rfl⟩) nofun

/-- The first pass notes nothing. -/
theorem notes_known (m : CodeMap) : Notes m.HasFile (fun _ _ => False) m.known := by
  suffices hfold : ∀ (fs : List MapFile) x, Notes m.HasFile (fun _ _ => False) x →
      Notes m.HasFile (fun _ _ => False) (fs.foldl (ModuleIndex.addFile m.root) x) from
    hfold m.files {} ModuleIndex.notes_empty
  intro fs
  induction fs with
  | nil => exact fun x hx => hx
  | cons f fs ih => exact fun x hx => ih _ (hx.addFile m.root f)

/-- Whether the file at one path imports the one at another path. -/
def Imports (m : CodeMap) (p q : Path) : Prop :=
  p ≠ q ∧ ∃ f ∈ m.files, f.path = p ∧ ∃ i ∈ f.imports, q ∈ m.known.search i

/-- Files of the map are found by a search, none of them twice. -/
theorem areFiles_search (statement : String) : m.AreFiles (m.resolver.search statement) := by
  change m.AreFiles ((ModuleIndex.ofMap m).search statement)
  obtain ⟨hfiles, hordered⟩ := m.knows_known.search statement
  rw [search_ofMap]
  exact ⟨hfiles, PathSet.pairwise_same hordered⟩

/-- Files of the map are what the imports of a file refer to. -/
theorem hasFile_of_mem_found {f : MapFile}
    (hp : p ∈ (f.imports.flatMap m.resolver.search).filter (!·.same f.path)) : m.HasFile p := by
  obtain ⟨i, -, hp⟩ := List.mem_flatMap.1 (List.mem_filter.1 hp).1
  exact (areFiles_search i).1 p hp

section Tidy

variable (h : m.Tidy)

include h

/-- **The tables of the index of a map hold what files import,** forwards and backwards. -/
theorem notes_ofMap : Notes m.HasFile m.Imports (ModuleIndex.ofMap m) := by
  -- what an import finds is a file of the map
  have hreferences : ∀ e ∈ m.known.references m.files, m.HasFile e.1 ∧ m.HasFile e.2 := by
    rintro ⟨p, q⟩ he
    obtain ⟨f, hf, rfl, i, -, hq⟩ := ModuleIndex.mem_references_iff.1 he
    exact ⟨⟨f, hf, rfl⟩, (m.knows_known.search i).1 q hq⟩
  have hnotes := ModuleIndex.notes_foldl_note h.apart m.notes_known hreferences
  have himports : ∀ p q, (False ∨ (p, q) ∈ m.known.references m.files ∧ p ≠ q) ↔ m.Imports p q := by
    intro p q
    rw [false_or, ModuleIndex.mem_references_iff, and_comm, Imports]
  simp only [himports] at hnotes
  rw [ofMap_eq]
  exact hnotes

/-- Related are the files that one imports and those that import it. -/
theorem mem_related_iff (hp : m.HasFile p) :
    q ∈ m.resolver.related p ↔ m.Imports p q ∨ m.Imports q p := by
  have hnotes := notes_ofMap h
  have hnil : ∀ x ∈ ([] : PathSet), m.HasFile x := nofun
  -- the first half of what is related are the files that are imported
  have hforwards : ∀ x, x ∈ PathSet.extend [] ((ModuleIndex.ofMap m).importsOf.get p) ↔ m.Imports p x := by
    intro x
    rw [PathSet.mem_extend_iff h.apart hnil (hnotes.importsOf_mem p), hnotes.importsOf_iff p x hp]
    exact or_iff_right List.not_mem_nil
  have hforwards_mem : ∀ x ∈ PathSet.extend [] ((ModuleIndex.ofMap m).importsOf.get p), m.HasFile x := by
    intro x hx
    exact hnotes.importsOf_mem p x ((hnotes.importsOf_iff p x hp).2 ((hforwards x).1 hx))
  change q ∈ (ModuleIndex.ofMap m).related p ↔ _
  -- the second half are those that import the file, and the file itself is left out
  rw [ModuleIndex.related, List.mem_filter,
    PathSet.mem_extend_iff h.apart hforwards_mem (hnotes.importers_mem p), hforwards,
    hnotes.importers_iff q p hp]
  refine ⟨fun hq => hq.1, fun himports => ⟨himports, ?_⟩⟩
  -- a file that is related to another one has another path
  have hq : m.HasFile q ∧ q ≠ p := by
    rcases himports with himports | himported
    · exact ⟨hnotes.importsOf_mem p q ((hnotes.importsOf_iff p q hp).2 himports), himports.1.symm⟩
    · exact ⟨hnotes.importers_mem p q ((hnotes.importers_iff q p hp).2 himported), himported.1⟩
  have hsame : q.same p = false := Bool.eq_false_iff.2 fun hs => hq.2 (h.apart q p hq.1 hp hs)
  rw [hsame]
  rfl

/-- What a file depends on is what it imports. -/
theorem mem_dependencies_iff (ha : a ∈ m.files) :
    q ∈ m.dependencies m.resolver a.path ↔ m.Imports a.path q := by
  -- the file at the path is the one that the list has
  have hfile : m.dependencies m.resolver a.path =
      Path.firsts ((a.imports.flatMap m.resolver.search).filter (!·.same a.path)) := by
    rw [CodeMap.dependencies, h.mem_files_iff.1 ha]
  rw [hfile, Path.mem_firsts_iff h.apart fun x hx => hasFile_of_mem_found hx, List.mem_filter,
    List.mem_flatMap]
  constructor
  · -- what is found for an import, and is not the file itself
    rintro ⟨⟨i, hi, hq⟩, hsame⟩
    have hne : a.path ≠ q := by
      rintro rfl
      rw [Path.same_iff.2 rfl] at hsame
      cases hsame
    change q ∈ (ModuleIndex.ofMap m).search i at hq
    rw [search_ofMap] at hq
    exact ⟨hne, a, ha, rfl, i, hi, hq⟩
  · rintro ⟨hne, f, hf, hpath, i, hi, hq⟩
    -- the path is that of one file only
    obtain rfl := h.eq_of_components hf ha (congrArg Path.components hpath)
    have hq' : m.HasFile q := (m.knows_known.search i).1 q hq
    have hsame : q.same f.path = false :=
      Bool.eq_false_iff.2 fun hs => hne (h.apart q f.path hq' ⟨f, hf, rfl⟩ hs).symm
    rw [← search_ofMap] at hq
    exact ⟨⟨i, hi, hq⟩, by rw [hsame]; rfl⟩

/-! ### The answers of a resolver -/

/-- What a file depends on are files of the map, none of them twice. -/
theorem areFiles_dependencies (path : Path) : m.AreFiles (m.dependencies m.resolver path) := by
  rw [CodeMap.dependencies]
  split
  · exact ⟨nofun, List.Pairwise.nil⟩
  · refine ⟨fun x hx => ?_, Path.pairwise_firsts _⟩
    exact hasFile_of_mem_found ((Path.mem_firsts_iff h.apart fun y hy => hasFile_of_mem_found hy).1 hx)

/-- What is related to a file are files of the map, none of them twice. -/
theorem areFiles_related (path : Path) : m.AreFiles (m.resolver.related path) := by
  change m.AreFiles ((ModuleIndex.ofMap m).related path)
  have hnotes := notes_ofMap h
  constructor
  · intro p hp
    rcases PathSet.mem_extend (List.mem_filter.1 hp).1 with hp | hp
    · rcases PathSet.mem_extend hp with hp | hp
      · cases hp
      · exact hnotes.importsOf_mem path p hp
    · exact hnotes.importers_mem path p hp
  · -- sets in order have no path twice
    refine (PathSet.pairwise_same ?_).filter _
    exact PathSet.pairwise_extend (PathSet.pairwise_extend List.Pairwise.nil _) _

omit h in
/-- At a path that leads to a file the map gives what the resolver gives for the path of the file. -/
theorem related_of_file? {path : Path} (hfile : m.file? path = some a) :
    m.related m.resolver path = m.resolver.related a.path := by
  rw [CodeMap.related, hfile]
  refine List.filter_eq_self.2 fun p hp => ?_
  exact (List.mem_filter.1 hp).2

/-- A file depends on the same files by whatever path it is found. -/
theorem dependencies_of_file? {path : Path} (hfile : m.file? path = some a) (r : ImportResolver) :
    m.dependencies r path = m.dependencies r a.path := by
  rw [CodeMap.dependencies, CodeMap.dependencies, hfile, h.file?_path hfile]

end Tidy

/-- Whether the relations between the files of a map are what they are called. -/
structure RelatesImports (m : CodeMap) : Prop where
  /-- Being related goes both ways. -/
  related_comm : ∀ a ∈ m.files, ∀ b ∈ m.files,
    b.path ∈ m.resolver.related a.path ↔ a.path ∈ m.resolver.related b.path
  /-- Files are related if they are two and one of them depends on the other. -/
  related_iff : ∀ a ∈ m.files, ∀ b ∈ m.files,
    b.path ∈ m.resolver.related a.path ↔
      a ≠ b ∧ (b.path ∈ m.dependencies m.resolver a.path ∨ a.path ∈ m.dependencies m.resolver b.path)
  /-- The map answers alike at all paths that lead to a file, and gives the related files that its
  resolver gives. -/
  of_file? : ∀ path a, m.file? path = some a →
    m.related m.resolver path = m.resolver.related a.path ∧
      m.dependencies m.resolver path = m.dependencies m.resolver a.path
  /-- What an import refers to are files of the map, none of them twice. -/
  search_files : ∀ statement, m.AreFiles (m.resolver.search statement)
  /-- So is what a file depends on. -/
  dependencies_files : ∀ path, m.AreFiles (m.dependencies m.resolver path)
  /-- So is what a file is related to. -/
  related_files : ∀ path, m.AreFiles (m.resolver.related path)
  /-- No file depends on itself. -/
  not_dependency : ∀ a ∈ m.files, a.path ∉ m.dependencies m.resolver a.path
  /-- No file is related to itself. -/
  not_related : ∀ a ∈ m.files, a.path ∉ m.resolver.related a.path

/-- **Being related is the symmetric closure of depending,** in every map. -/
theorem relatesImports_of_built (hm : Built root m) : RelatesImports m := by
  have h : m.Tidy := hm.tidy
  constructor
  · intro a ha b hb
    rw [mem_related_iff h ⟨a, ha, rfl⟩, mem_related_iff h ⟨b, hb, rfl⟩, or_comm]
  · intro a ha b hb
    rw [mem_related_iff h ⟨a, ha, rfl⟩, mem_dependencies_iff h ha, mem_dependencies_iff h hb]
    refine (and_iff_right_of_imp ?_).symm
    -- a file that imports itself counts on neither side
    rintro (himports | himports) rfl
    · exact himports.1 rfl
    · exact himports.1 rfl
  · exact fun path a hfile => ⟨related_of_file? hfile, dependencies_of_file? h hfile _⟩
  · exact fun statement => areFiles_search statement
  · exact fun path => areFiles_dependencies h path
  · exact fun path => areFiles_related h path
  · intro a ha hself
    exact ((mem_dependencies_iff h ha).1 hself).1 rfl
  · intro a ha hself
    rcases (mem_related_iff h ⟨a, ha, rfl⟩).1 hself with himports | himports
    · exact himports.1 rfl
    · exact himports.1 rfl

/-- A file that is imported twice and imports itself, and another one that imports it. -/
theorem relatesImports_pair :
    let a : Metadata := { (default : Metadata) with
      path := ⟨"pkg/a.py"⟩, imports := ["import b", "from pkg import b", "import a"] }
    let b : Metadata := { (default : Metadata) with path := ⟨"pkg/b.py"⟩, imports := ["import b"] }
    let m := ofDocuments ⟨"/p"⟩ [a, b]
    Built ⟨"/p"⟩ m ∧ RelatesImports m ∧
      m.dependencies m.resolver ⟨"/p/pkg/a.py"⟩ = [⟨"/p/pkg/b.py"⟩] ∧
      m.dependencies m.resolver ⟨"/p/pkg/b.py"⟩ = [] ∧
      m.resolver.related ⟨"/p/pkg/b.py"⟩ = [⟨"/p/pkg/a.py"⟩] := by
  intro a b m
  have hbuilt : Built ⟨"/p"⟩ m := built_ofDocuments ⟨"/p"⟩ [a, b]
  -- the files are in order already, and then they need not be sorted
  have hfiles : m.files = MapNode.listFiles [m.directory] [] :=
    List.mergeSort_of_pairwise (by decide +kernel)
  have hresolver : m.resolver =
      let x := (MapNode.listFiles [m.directory] []).foldl ModuleIndex.addImports
        ((MapNode.listFiles [m.directory] []).foldl (ModuleIndex.addFile m.root) {})
      { search := x.search, related := x.related } := by
    rw [CodeMap.resolver, ModuleIndex.ofMap, hfiles]
  refine ⟨hbuilt, relatesImports_of_built hbuilt, ?_⟩
  rw [hresolver]
  decide +kernel

end CodeMap

end CodeSearch
