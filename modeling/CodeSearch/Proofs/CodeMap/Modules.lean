import CodeSearch.Proofs.Chunks.Lines
import CodeSearch.Proofs.CodeMap.Relations
import CodeSearch.Proofs.Glob.Names

/-!
# What files are known as

A file is known as a module under the ends of its path without the extension, and under those of the
path of its directory if it stands for it (`MapFile.IsKnownAs`). The index of a map keeps exactly this
(`CodeMap.known?_known`): under a key lie the files that are known as the module of its names, in
ascending order, and there is no key without a file. So a group of candidates finds the files of the
first candidate under which some file is known (`CodeMap.search_of_groups`), and since candidates are
listed by their lengths, this is the longest one (`Import.find?_ends_eq_some_iff`).

The index is filled key by key. One key more adds one path to one set (`ModuleIndex.Lists.addKey`), and
filling it with all keys of all files lists exactly these (`ModuleIndex.lists_foldl`). That a key is
never that of other names is due to the slashes: no name has one, so names are found again by cutting
(`Import.key_inj`).
-/

namespace CodeSearch

/-! ### Sets in order -/

/-- **Sets in order are told by their members.** -/
theorem PathSet.ext {s t : PathSet} (hs : s.Pairwise fun p q => p.compare q = .lt)
    (ht : t.Pairwise fun p q => p.compare q = .lt) (h : ∀ p, p ∈ s ↔ p ∈ t) : s = t := by
  have hnodup : ∀ {u : PathSet}, (u.Pairwise fun p q => p.compare q = .lt) → u.Nodup :=
    fun hu => hu.imp fun hlt he => Path.components_ne_of_lt hlt (congrArg Path.components he)
  apply List.Perm.eq_of_pairwise _ hs ht
  · exact (List.perm_ext_iff_of_nodup (hnodup hs) (hnodup ht)).2 h
  · intro p q _ _ hpq hqp
    rw [Std.OrientedCmp.gt_of_lt hpq] at hqp
    cases hqp

namespace Import

/-! ### Keys -/

/-- The key of a module: its names with slashes between them. -/
def key (names : List String) : List Char := pathOf (names.map String.toList)

/-- Whether some names can be told apart in a key: none of them is empty or has a slash. -/
def AreProper (names : List String) : Prop := ∀ n ∈ names, n ≠ "" ∧ '/' ∉ n.toList

theorem AreProper.of_suffix {names e : List String} (h : AreProper names) (he : e <:+ names) : AreProper e :=
  fun n hn => h n (he.subset hn)

theorem AreProper.of_prefix {names e : List String} (h : AreProper names) (he : e <+: names) : AreProper e :=
  fun n hn => h n (he.subset hn)

theorem areProper_of_isName {names : List String} (h : ∀ n ∈ names, Path.IsName n) : AreProper names :=
  fun n hn => ⟨(h n hn).ne_empty, (h n hn).not_mem⟩

/-- **A key is that of no other names.** -/
theorem key_inj {names names' : List String} (hne : names ≠ []) (hne' : names' ≠ []) (h : AreProper names)
    (h' : AreProper names') : key names = key names' ↔ names = names' := by
  refine ⟨fun hkey => ?_, congrArg key⟩
  -- cutting a key at its slashes gives the names
  have hpieces : ∀ {l : List String}, l ≠ [] → AreProper l → Chars.pieces '/' (key l) = l.map String.toList := by
    intro l hl hproper
    apply Chars.pieces_joinPieces (mt List.map_eq_nil_iff.1 hl)
    intro p hp
    obtain ⟨n, hn, rfl⟩ := List.mem_map.1 hp
    exact (hproper n hn).2
  have hmap : names.map String.toList = names'.map String.toList := by
    rw [← hpieces hne h, ← hpieces hne' h', hkey]
  exact (List.map_inj_right fun _ _ he => String.toList_inj.1 he).1 hmap

/-- A joined text starts as its first piece does, if that piece is not empty. -/
theorem head?_joinPieces {sep : Char} {p : List Char} (ps : List (List Char)) (hp : p ≠ []) :
    (Chars.joinPieces sep (p :: ps)).head? = p.head? := by
  cases ps with
  | nil => rfl
  | cons q ps => exact List.head?_append_of_ne_nil _ hp

/-- A joined text ends as its last piece does, if that piece is not empty. -/
theorem getLast?_joinPieces {sep : Char} {ps : List (List Char)} {p : List Char} (hp : p ≠ [])
    (hlast : ps.getLast? = some p) : (Chars.joinPieces sep ps).getLast? = p.getLast? := by
  induction ps with
  | nil => cases hlast
  | cons q ps ih =>
    cases ps with
    | nil =>
      obtain rfl := Option.some.inj hlast
      rfl
    | cons r ps =>
      have hrest : (Chars.joinPieces sep (r :: ps)).getLast? = p.getLast? := by
        apply ih
        rwa [List.getLast?_cons_cons] at hlast
      -- with an empty rest there would be nothing at the end
      have hne : Chars.joinPieces sep (r :: ps) ≠ [] := by
        intro he
        rw [he] at hrest
        exact hp (List.getLast?_eq_none_iff.1 hrest.symm)
      calc (Chars.joinPieces sep (q :: r :: ps)).getLast?
          = (q ++ sep :: Chars.joinPieces sep (r :: ps)).getLast? := rfl
        _ = (Chars.joinPieces sep (r :: ps)).getLast? := by
            rw [List.getLast?_append_of_ne_nil _ (List.cons_ne_nil _ _), List.getLast?_cons_of_ne_nil hne]
        _ = p.getLast? := hrest

/-- There are no slashes at the ends of a key. -/
theorem stripBoth_key {names : List String} (hne : names ≠ []) (h : AreProper names) :
    Chars.stripBoth (· = '/') (key names) = key names := by
  have hhead : (key names).head? ≠ some '/' := by
    -- the key starts as the first name does
    obtain ⟨first, more, rfl⟩ := List.exists_cons_of_ne_nil hne
    obtain ⟨hempty, hslash⟩ := h first List.mem_cons_self
    unfold key pathOf
    rw [List.map_cons, head?_joinPieces _ (mt String.toList_eq_nil_iff.1 hempty)]
    exact fun he => hslash (List.mem_of_head? he)
  have hlast : (key names).getLast? ≠ some '/' := by
    -- and ends as the last name does
    obtain ⟨before, last, rfl⟩ := (List.eq_nil_or_concat' names).resolve_left hne
    obtain ⟨hempty, hslash⟩ := h last (List.mem_append_right _ (List.mem_singleton_self last))
    have hmap : ((before ++ [last]).map String.toList).getLast? = some last.toList := by
      rw [List.map_append, List.map_singleton, List.getLast?_concat]
    unfold key pathOf
    rw [getLast?_joinPieces (mt String.toList_eq_nil_iff.1 hempty) hmap]
    exact fun he => hslash (List.mem_of_getLast? he)
  exact Chars.stripBoth_slash_eq_self hhead hlast

/-! ### Names without their extension -/

/-- What is left of a name without its extension is a name as well. -/
theorem proper_stem {name : String} (h : name ≠ "" ∧ '/' ∉ name.toList) :
    (Path.splitName name).1 ≠ "" ∧ '/' ∉ (Path.splitName name).1.toList := by
  unfold Path.splitName
  dsimp only
  split
  · exact h
  · next hcut =>
    -- the name is cut, so something stands before the dot
    obtain ⟨-, hcut⟩ := not_or.1 hcut
    obtain ⟨hbefore, -⟩ := not_or.1 hcut
    constructor
    · intro hempty
      rw [← String.toList_eq_nil_iff, String.toList_ofList, List.reverse_eq_nil_iff] at hempty
      exact hbefore (List.isEmpty_iff.2 hempty)
    · -- the stem is a part of the name, so it has no slash either
      rw [String.toList_ofList, List.mem_reverse]
      exact fun hmem => h.2 (List.mem_reverse.1 (List.mem_of_mem_drop hmem))

/-- The last name loses its extension, and what is left of it is left out if it is a step. -/
theorem withoutExtension_concat (before : List String) (last : String) : withoutExtension (before ++ [last]) =
    before ++ if (Path.splitName last).1 = "." ∨ (Path.splitName last).1 = ".." then []
      else [(Path.splitName last).1] := by
  unfold withoutExtension
  rw [List.getLast?_concat, List.dropLast_concat]

/-- Without their extension, names can still be told apart. -/
theorem AreProper.withoutExtension {names : List String} (h : AreProper names) :
    AreProper (withoutExtension names) := by
  unfold Import.withoutExtension
  split
  · exact nofun
  · next last hlast =>
    dsimp only
    intro n hn
    rcases List.mem_append.1 hn with hn | hn
    · -- only the last name changes
      exact h n (List.dropLast_subset _ hn)
    · split at hn
      · cases hn
      · obtain rfl := List.mem_singleton.1 hn
        exact proper_stem (h last (List.mem_of_getLast? hlast))

/-! ### The ends of a list -/

section Ends

variable {α β : Type}

theorem ends_map (f : α → β) (l : List α) : ends (l.map f) = (ends l).map (List.map f) := by
  induction l with
  | nil => rfl
  | cons a l ih => exact congrArg (List.map f (a :: l) :: ·) ih

variable {p : List α → Bool} {l e : List α}

/-- **The first end of a kind is the longest one.** -/
theorem find?_ends_eq_some_iff : (ends l).find? p = some e ↔
    e ≠ [] ∧ e <:+ l ∧ p e = true ∧ ∀ e', e' <:+ l → e.length < e'.length → p e' = false := by
  induction l with
  | nil =>
    constructor
    · intro hfind
      cases hfind
    · rintro ⟨hne, hsuffix, -⟩
      exact absurd (List.suffix_nil.1 hsuffix) hne
  | cons a l ih =>
    -- the whole list comes first, and the other ends are those of what follows its head
    rw [ends, List.find?_cons]
    cases hp : p (a :: l) with
    | true =>
      -- the whole list is of the kind
      constructor
      · intro he
        obtain rfl := Option.some.inj he
        refine ⟨List.cons_ne_nil a l, List.suffix_refl _, hp, fun e' he' hlt => ?_⟩
        exact absurd he'.length_le (Nat.not_le_of_lt hlt)
      · rintro ⟨-, hsuffix, -, hlonger⟩
        rcases List.suffix_cons_iff.1 hsuffix with rfl | hsuffix
        · rfl
        · -- the whole list is of the kind, and longer
          have hlt : e.length < (a :: l).length := Nat.lt_succ_of_le hsuffix.length_le
          rw [hlonger (a :: l) (List.suffix_refl _) hlt] at hp
          cases hp
    | false =>
      -- the whole list is not of the kind, so an end of the kind is one of the rest
      apply ih.trans
      constructor
      · rintro ⟨hne, hsuffix, he, hlonger⟩
        refine ⟨hne, hsuffix.trans (List.suffix_cons a l), he, fun e' he' hlt => ?_⟩
        rcases List.suffix_cons_iff.1 he' with rfl | he'
        · exact hp
        · exact hlonger e' he' hlt
      · rintro ⟨hne, hsuffix, he, hlonger⟩
        rcases List.suffix_cons_iff.1 hsuffix with rfl | hsuffix
        · rw [hp] at he
          cases he
        · exact ⟨hne, hsuffix, he, fun e' he' => hlonger e' (he'.trans (List.suffix_cons a l))⟩

end Ends

end Import

/-! ### Making files known -/

namespace ModuleIndex

theorem keysOf_eq (names : List String) :
    keysOf names = (Import.ends names).map fun e => String.ofList (Import.key e) := by
  rw [keysOf, Import.ends_map, List.map_map]
  rfl

/-- The keys of the ends of some names are the keys of no other names. -/
theorem mem_keysOf_iff {names e : List String} (hne : e ≠ []) (he : Import.AreProper e)
    (h : Import.AreProper names) : String.ofList (Import.key e) ∈ keysOf names ↔ e <:+ names := by
  rw [keysOf_eq, List.mem_map]
  constructor
  · rintro ⟨e', he', hkey⟩
    obtain ⟨hne', hsuffix⟩ := Import.mem_ends_iff.1 he'
    have hsame := (Import.key_inj hne' hne (h.of_suffix hsuffix) he).1 (String.ofList_injective hkey)
    rwa [hsame] at hsuffix
  · exact fun hsuffix => ⟨e, Import.mem_ends_iff.2 ⟨hne, hsuffix⟩, rfl⟩

/-- The keys under which a file is made known. -/
def keysFor (root : Path) (f : MapFile) : List String :=
  match root.relativeTo? f.path with
  | none => []
  | some cs =>
    let names := cs.filterMap fun c => c.name?.map RawText.text
    keysOf (Import.withoutExtension names) ++ if standsForDirectory f then keysOf names.dropLast else []

/-- A file that is added makes itself known under each of its keys. -/
theorem modules_addFile (root : Path) (x : ModuleIndex) (f : MapFile) :
    (x.addFile root f).modules = (keysFor root f).foldl (addKey f.path) x.modules := by
  unfold addFile keysFor
  -- a path outside the root has no keys, and then nothing is added
  cases root.relativeTo? f.path with
  | none => rfl
  | some cs =>
    dsimp only
    rw [List.foldl_append]
    split
    · rfl
    · rfl

/-- The keys of files, each with the path of its file, in the order in which files are made known. -/
def entries (root : Path) (fs : List MapFile) : List (Path × String) :=
  fs.flatMap fun f => (keysFor root f).map (f.path, ·)

/-- A key is listed with a path exactly if it is a key of a file with that path. -/
theorem mem_entries_iff {root : Path} {fs : List MapFile} {p : Path} {key : String} :
    (p, key) ∈ entries root fs ↔ ∃ f ∈ fs, f.path = p ∧ key ∈ keysFor root f := by
  simp only [entries, List.mem_flatMap, List.mem_map, Prod.mk.injEq]
  constructor
  · rintro ⟨f, hf, k, hk, rfl, rfl⟩
    exact ⟨f, hf, rfl, hk⟩
  · rintro ⟨f, hf, rfl, hk⟩
    exact ⟨f, hf, key, hk, rfl, rfl⟩

/-- **The first pass makes files known key by key.** -/
theorem modules_foldl_addFile (root : Path) (fs : List MapFile) (x : ModuleIndex) :
    (fs.foldl (addFile root) x).modules = (entries root fs).foldl (fun t e => addKey e.1 t e.2) x.modules := by
  induction fs generalizing x with
  | nil => rfl
  | cons f fs ih =>
    have hentries : entries root (f :: fs) = (keysFor root f).map (f.path, ·) ++ entries root fs :=
      List.flatMap_cons
    rw [List.foldl_cons, ih, modules_addFile, hentries, List.foldl_append, List.foldl_map]

/-- Whether the sets of a table have the paths that belong to their keys, and none of them is empty. -/
def Lists (E : String → Path → Prop) (t : Table PathSet) : Prop :=
  ∀ key, (∀ p, p ∈ t.getD key [] ↔ E key p) ∧ t.get? key ≠ some []

section Lists

variable {K : Path → Prop} {E : String → Path → Prop} {t : Table PathSet} {p : Path}

theorem lists_nil : Lists (fun _ _ => False) [] := by
  intro key
  constructor
  · intro p
    exact iff_of_false List.not_mem_nil id
  · exact nofun

variable (hK : Apart K) (hE : ∀ key q, E key q → K q)

include hK hE

/-- **One key more** adds one path to the set of the key. -/
theorem Lists.addKey (h : Lists E t) (hp : K p) (key : String) :
    Lists (fun k q => E k q ∨ (q, k) = (p, key)) (addKey p t key) := by
  intro key'
  obtain ⟨hmem, hempty⟩ := h key'
  have hget : (ModuleIndex.addKey p t key).get? key' =
      if key' = key then some (PathSet.insert (t.getD key []) p) else t.get? key' :=
    Table.get?_insert t key key' _
  by_cases hkey : key' = key
  · -- the set of the key has the path as well, so it is not empty
    subst hkey
    rw [if_pos rfl] at hget
    have hset : ∀ q ∈ t.getD key' [], K q := fun q hq => hE key' q ((hmem q).1 hq)
    have hnew : ∀ q, q ∈ PathSet.insert (t.getD key' []) p ↔ q = p ∨ E key' q := by
      intro q
      rw [PathSet.mem_insert_iff hK hset hp, hmem q]
    constructor
    · intro q
      show _ ↔ E key' q ∨ (q, key') = (p, key')
      rw [Table.getD, hget, Option.getD_some, hnew, or_comm, Prod.mk.injEq, and_iff_left rfl]
    · rw [hget]
      intro he
      have hmem : p ∈ PathSet.insert (t.getD key' []) p := (hnew p).2 (Or.inl rfl)
      rw [Option.some.inj he] at hmem
      cases hmem
  · -- the sets of other keys stay as they are
    rw [if_neg hkey] at hget
    constructor
    · intro q
      have hother : (q, key') ≠ (p, key) := fun he => hkey (Prod.mk.inj he).2
      show _ ↔ E key' q ∨ (q, key') = (p, key)
      rw [Table.getD, hget, or_iff_left hother]
      exact hmem q
    · rwa [hget]

/-- **A table that was filled lists what was put into it.** -/
theorem lists_foldl (h : Lists E t) {es : List (Path × String)} (hes : ∀ e ∈ es, K e.1) :
    Lists (fun k q => E k q ∨ (q, k) ∈ es) (es.foldl (fun t e => ModuleIndex.addKey e.1 t e.2) t) := by
  -- what is listed already grows with every key, so the induction is for all relations
  induction es generalizing t E with
  | nil => simpa using h
  | cons e es ih =>
    have hp : K e.1 := hes e List.mem_cons_self
    have hstep : ∀ k q, E k q ∨ (q, k) = e → K q := by
      -- what was listed before is a path of the map, and so is the path of the new key
      rintro k q (hq | rfl)
      · exact hE k q hq
      · exact hp
    have hrest := ih hstep (h.addKey hK hE hp e.2) fun e' he' => hes e' (List.mem_cons_of_mem _ he')
    have hsplit : ∀ k q, ((E k q ∨ (q, k) = e) ∨ (q, k) ∈ es) ↔ (E k q ∨ (q, k) ∈ e :: es) := by
      intro k q
      rw [List.mem_cons, or_assoc]
    simp only [hsplit] at hrest
    exact hrest

end Lists

end ModuleIndex

/-! ### What the files of a map are known as -/

/-- Whether a file is known as the module of some names: they end its path without the extension, or the
path of its directory if it stands for that. -/
def MapFile.IsKnownAs (root : Path) (f : MapFile) (names : List String) : Prop :=
  names ≠ [] ∧ ∃ place ∈ namesBelow? root f.path, names <:+ Import.withoutExtension place ∨
    ModuleIndex.standsForDirectory f = true ∧ names <:+ place.dropLast

instance (root : Path) (f : MapFile) (names : List String) : Decidable (f.IsKnownAs root names) :=
  inferInstanceAs (Decidable (_ ∧ _))

namespace CodeMap

open ModuleIndex (Lists keysOf keysFor standsForDirectory)

variable {m : CodeMap} {f : MapFile} {names : List String}

/-- The files of a map that are known as the module of some names, in ascending order. -/
def knownAs (m : CodeMap) (names : List String) : List Path :=
  (m.files.filter fun f => f.IsKnownAs m.root names).map MapFile.path

theorem mem_knownAs_iff {p : Path} : p ∈ m.knownAs names ↔ ∃ f ∈ m.files, f.path = p ∧ f.IsKnownAs m.root names := by
  simp only [knownAs, List.mem_map, List.mem_filter, decide_eq_true_eq]
  constructor
  · rintro ⟨f, ⟨hf, hknown⟩, rfl⟩
    exact ⟨f, hf, rfl, hknown⟩
  · rintro ⟨f, hf, rfl, hknown⟩
    exact ⟨f, ⟨hf, hknown⟩, rfl⟩

theorem knownAs_nil (m : CodeMap) : m.knownAs [] = [] := by
  rw [List.eq_nil_iff_forall_not_mem]
  intro p hp
  obtain ⟨f, -, -, hknown⟩ := mem_knownAs_iff.1 hp
  exact hknown.1 rfl

/-- Whether names are the longest ones of a kind as which any file is known. -/
structure IsLongestKnown (known : List String → List Path) (kind : List String → Prop) (names : List String) :
    Prop where
  of_kind : kind names
  isKnown : known names ≠ []
  longest : ∀ longer, kind longer → names.length < longer.length → known longer = []

theorem IsLongestKnown.ne_nil {kind : List String → Prop} (h : IsLongestKnown m.knownAs kind names) : names ≠ [] := by
  rintro rfl
  exact h.isKnown (knownAs_nil m)

/-- The first end that is known is the longest one. -/
theorem find?_ends_known_iff {e : List String} :
    (Import.ends names).find? (fun e => m.knownAs e ≠ []) = some e ↔ IsLongestKnown m.knownAs (· <:+ names) e := by
  rw [Import.find?_ends_eq_some_iff]
  constructor
  · rintro ⟨-, hsuffix, hknown, hlonger⟩
    refine ⟨hsuffix, of_decide_eq_true hknown, fun longer hsuffix hlt => ?_⟩
    exact not_not.1 (of_decide_eq_false (hlonger longer hsuffix hlt))
  · intro h
    refine ⟨h.ne_nil, h.of_kind, decide_eq_true h.isKnown, fun longer hsuffix hlt => ?_⟩
    exact decide_eq_false (not_not_intro (h.longest longer hsuffix hlt))

/-- What a resolver is made of: the files of the map, and nothing else. -/
theorem resolver_of_files {fs : List MapFile} (hfiles : m.files = fs) : m.resolver =
    let x := fs.foldl ModuleIndex.addImports (fs.foldl (ModuleIndex.addFile m.root) {})
    { search := x.search, related := x.related } := by
  rw [CodeMap.resolver, ModuleIndex.ofMap, hfiles]

/-- A statement without candidates finds nothing. -/
theorem search_of_no_groups {statement : String} (hgroups : Import.groups statement = []) :
    m.resolver.search statement = [] := by
  change (ModuleIndex.ofMap m).search statement = []
  rw [ModuleIndex.search, hgroups]
  rfl

section Tidy

variable (h : m.Tidy)

include h

/-- The place of a file is read off its path. -/
theorem Tidy.exists_place (hf : f ∈ m.files) : ∃ place, place ≠ [] ∧ (∀ n ∈ place, Path.IsName n) ∧
    namesBelow? m.root f.path = some place ∧ m.root.relativeTo? f.path = some (place.map .ofName) := by
  obtain ⟨place, hfind⟩ := (MapNode.mem_filesOf_iff h).1 (mem_files.1 hf)
  obtain ⟨hnames, hpath, -⟩ := MapNode.Tidy.find? h hfind
  -- no names lead to the tables themselves, which are no file
  have hne : place ≠ [] := by
    rintro rfl
    cases hfind
  have hbelow : f.path = m.root.below place := hpath
  -- so the names are read off the path, in both of the ways in which it is cut
  have hcomponents := m.root.components_below hnames
  have hnamesBelow := namesBelow?_below m.root hne hnames
  rw [← hbelow] at hcomponents hnamesBelow
  exact ⟨place, hne, hnames, hnamesBelow, Path.relativeTo?_of_components hcomponents⟩

/-- The keys of a file are those of the names as which it is known. -/
theorem mem_keysFor_iff (hf : f ∈ m.files) (hne : names ≠ []) (hproper : Import.AreProper names) :
    String.ofList (Import.key names) ∈ keysFor m.root f ↔ f.IsKnownAs m.root names := by
  obtain ⟨place, -, hnames, hbelow, hrelative⟩ := h.exists_place hf
  have hplace : Import.AreProper place := Import.areProper_of_isName hnames
  -- the steps of a path that was built from names are these names
  have hname? : ((place.map Path.Component.ofName).filterMap fun c => c.name?.map RawText.text) = place := by
    rw [List.filterMap_map]
    exact (List.filterMap_congr fun n _ => congrArg some (RawText.text_ofText n)).trans List.filterMap_some
  -- each half of the keys is a list of ends of its own
  have hmodule := ModuleIndex.mem_keysOf_iff hne hproper hplace.withoutExtension
  have hdirectory := ModuleIndex.mem_keysOf_iff hne hproper (hplace.of_prefix (List.dropLast_prefix place))
  have hkeys : String.ofList (Import.key names) ∈ keysFor m.root f ↔
      names <:+ Import.withoutExtension place ∨ standsForDirectory f = true ∧ names <:+ place.dropLast := by
    rw [keysFor, hrelative]
    dsimp only
    rw [hname?, List.mem_append, hmodule]
    -- the second half of the keys is there only if the file stands for its directory
    refine or_congr_right ?_
    cases standsForDirectory f with
    | true => simpa using hdirectory
    | false => simp
  rw [hkeys, MapFile.IsKnownAs, hbelow]
  simp [hne]

/-- A file of a map is found among those that are known as some names if it is known as these itself. -/
theorem path_mem_knownAs_iff (hf : f ∈ m.files) : f.path ∈ m.knownAs names ↔ f.IsKnownAs m.root names := by
  rw [mem_knownAs_iff]
  constructor
  · rintro ⟨g, hg, hpath, hknown⟩
    obtain rfl := h.eq_of_components hg hf (congrArg Path.components hpath)
    exact hknown
  · exact fun hknown => ⟨f, hf, rfl, hknown⟩

/-- The files known under some names are in order, each of them once. -/
theorem Tidy.pairwise_knownAs (names : List String) :
    (m.knownAs names).Pairwise fun p q => p.compare q = .lt :=
  List.pairwise_map.2 (h.pairwise_files.filter _)

/-- **The index of a map knows files as modules** under the keys of their names. -/
theorem known?_known (hne : names ≠ []) (hproper : Import.AreProper names) :
    m.known.known? (Import.key names) = if m.knownAs names = [] then none else some (m.knownAs names) := by
  -- every key belongs to a file of the map
  have hentries : ∀ e ∈ ModuleIndex.entries m.root m.files, m.HasFile e.1 := by
    rintro ⟨p, key⟩ he
    obtain ⟨f, hf, hpath, -⟩ := ModuleIndex.mem_entries_iff.1 he
    exact ⟨f, hf, hpath⟩
  have hlists := ModuleIndex.lists_foldl h.apart (fun _ _ => False.elim) ModuleIndex.lists_nil hentries
  -- the table is what the keys of all files make of the empty one
  have hmodules : m.known.modules =
      (ModuleIndex.entries m.root m.files).foldl (fun t e => ModuleIndex.addKey e.1 t e.2) [] :=
    ModuleIndex.modules_foldl_addFile m.root m.files {}
  rw [← hmodules] at hlists
  obtain ⟨hmem, hempty⟩ := hlists (String.ofList (Import.key names))
  have hset : m.known.modules.getD (String.ofList (Import.key names)) [] = m.knownAs names := by
    -- both sides are in order, so it is enough that they have the same members
    apply PathSet.ext
    · rw [Table.getD]
      cases hget : m.known.modules.get? (String.ofList (Import.key names)) with
      | none => exact List.Pairwise.nil
      | some s => exact (m.knows_known _ s hget).2
    · exact h.pairwise_knownAs names
    · intro p
      rw [hmem]
      show False ∨ _ ∈ ModuleIndex.entries m.root m.files ↔ _
      rw [false_or, ModuleIndex.mem_entries_iff, mem_knownAs_iff]
      refine exists_congr fun f => and_congr_right fun hf => and_congr_right fun _ => ?_
      exact mem_keysFor_iff h hf hne hproper
  -- a key without files is a key that is not there
  rw [ModuleIndex.known?, Import.stripBoth_key hne hproper, ← hset, Table.getD]
  cases hget : m.known.modules.get? (String.ofList (Import.key names)) with
  | none => rfl
  | some s =>
    have hs : s ≠ [] := fun he => hempty (he ▸ hget)
    rw [Option.getD_some, if_neg hs]

/-- A group of candidates finds the files of the first one under which some file is known. -/
theorem lookup_known {candidates : List (List String)}
    (hcandidates : ∀ e ∈ candidates, e ≠ [] ∧ Import.AreProper e) :
    m.known.lookup (candidates.map Import.key) =
      ((candidates.find? fun e => m.knownAs e ≠ []).map m.knownAs).getD [] := by
  unfold ModuleIndex.lookup
  induction candidates with
  | nil => rfl
  | cons e candidates ih =>
    obtain ⟨hne, hproper⟩ := hcandidates e List.mem_cons_self
    rw [List.map_cons, List.findSome?_cons, known?_known h hne hproper, List.find?_cons]
    -- if no file is known under the first candidate, the search goes on
    by_cases hknown : m.knownAs e = []
    · rw [if_pos hknown, decide_eq_false (not_not_intro hknown)]
      exact ih fun e' he' => hcandidates e' (List.mem_cons_of_mem _ he')
    · rw [if_neg hknown, decide_eq_true hknown]
      rfl

/-- A set that is put together from the files known under some names is in order already. -/
theorem extend_knownAs (names : List String) : PathSet.extend [] (m.knownAs names) = m.knownAs names := by
  have hfiles : ∀ p ∈ m.knownAs names, m.HasFile p := by
    intro p hp
    obtain ⟨f, hf, hpath, -⟩ := mem_knownAs_iff.1 hp
    exact ⟨f, hf, hpath⟩
  apply PathSet.ext
  · exact PathSet.pairwise_extend List.Pairwise.nil _
  · exact h.pairwise_knownAs names
  · intro p
    rw [PathSet.mem_extend_iff h.apart (fun _ hq => absurd hq List.not_mem_nil) hfiles]
    exact or_iff_right List.not_mem_nil

/-- **A statement with one group of candidates finds the files of the first one that is known.** -/
theorem search_of_groups {statement : String} {group : List (List Char)} {candidates : List (List String)}
    (hgroups : Import.groups statement = [group])
    (hgroup : ∀ x : ModuleIndex, x.lookup group = x.lookup (candidates.map Import.key))
    (hcandidates : ∀ e ∈ candidates, e ≠ [] ∧ Import.AreProper e) :
    m.resolver.search statement = ((candidates.find? fun e => m.knownAs e ≠ []).map m.knownAs).getD [] := by
  calc m.resolver.search statement
      = m.known.search statement := search_ofMap m statement
    _ = PathSet.extend [] (m.known.lookup group) := by
        rw [ModuleIndex.search, hgroups]
        rfl
    _ = PathSet.extend [] (((candidates.find? fun e => m.knownAs e ≠ []).map m.knownAs).getD []) := by
        rw [hgroup, lookup_known h hcandidates]
    _ = ((candidates.find? fun e => m.knownAs e ≠ []).map m.knownAs).getD [] := by
        cases candidates.find? fun e => m.knownAs e ≠ [] with
        | none => rfl
        | some e => exact extend_knownAs h e

end Tidy

end CodeMap

end CodeSearch
