import CodeSearch.Document
import CodeSearch.Proofs.RawTexts

/-!
# Paths below paths

The components of a path are all that counts, and they are found by cutting it at slashes. This module says
how they are put together:

* `components_join` — what is joined to a path comes after its components;
* `components_ofComponents_parent` — the path that is made of the components of a parent has them;
* `namesBelow?_of_components`, `documentId?_of_components` — the names that lead to a file below a root are read
  off its path, and its id is made of what is shown of them.

All of this is about *names* (`IsName`), that is, what an entry of a directory can be called. Whether something
is a name is seen of what is shown of it.
-/

namespace CodeSearch

namespace Path

/-! ### Names -/

/-- Whether an entry of a directory can be called so. -/
structure IsName (name : String) : Prop where
  ne_empty : name ≠ ""
  ne_current : name ≠ "."
  ne_parent : name ≠ ".."
  not_mem : '/' ∉ name.toList

instance : DecidablePred IsName := fun name =>
  decidable_of_iff (name ≠ "" ∧ name ≠ "." ∧ name ≠ ".." ∧ '/' ∉ name.toList)
    ⟨fun ⟨he, hc, hp, hs⟩ => ⟨he, hc, hp, hs⟩, fun ⟨he, hc, hp, hs⟩ => ⟨he, hc, hp, hs⟩⟩

/-- What is shown as a name has no slash among its bytes. -/
theorem IsName.slash_not_mem {r : RawText} (h : IsName r.text) : RawText.slash ∉ r.bytes :=
  mt RawText.slash_mem_text_iff.2 h.not_mem

/-- Whether a component is a step on the way from some directory. -/
def Component.IsStep : Component → Prop
  | .parent => True
  | .normal name => IsName name.text
  | .root | .current => False

/-- The steps of two lists are those of the first and then those of the second. -/
theorem steps_append (ps qs : List RawText) : steps (ps ++ qs) = steps ps ++ steps qs :=
  List.filterMap_append

/-- Names are steps. -/
theorem steps_names {names : List RawText} (h : ∀ n ∈ names, IsName n.text) :
    steps names = names.map .normal := by
  induction names with
  | nil => rfl
  | cons n names ih =>
    have hn := h n List.mem_cons_self
    -- a name is none of the three that are not kept
    have hout : ¬(n = RawText.ofText "" ∨ n = RawText.ofText ".") := by
      rintro (rfl | rfl)
      · exact hn.ne_empty rfl
      · exact hn.ne_current rfl
    have hparent : n ≠ RawText.ofText ".." := by
      rintro rfl
      exact hn.ne_parent rfl
    rw [steps, List.filterMap_cons, if_neg hout, if_neg hparent]
    exact congrArg (Component.normal n :: ·) (ih fun m hm => h m (List.mem_cons_of_mem _ hm))

/-- A raw text that is neither empty nor dots, and has no slash in it, is shown as a name. -/
theorem isName_text {r : RawText} (he : r ≠ "") (hc : r ≠ ".") (hp : r ≠ "..")
    (hs : RawText.slash ∉ r.bytes) : IsName r.text where
  ne_empty h := he (RawText.eq_ofText_of_text_eq (by simp) h)
  ne_current h := hc (RawText.eq_ofText_of_text_eq (by simp) h)
  ne_parent h := hp (RawText.eq_ofText_of_text_eq (by simp) h)
  not_mem := mt RawText.slash_mem_text_iff.1 hs

/-- The components that are found between slashes are steps. -/
theorem isStep_of_mem_steps {r : RawText} {c : Component} (h : c ∈ steps r.pieces) : c.IsStep := by
  obtain ⟨p, hp, hc⟩ := List.mem_filterMap.1 h
  -- empty pieces and dots are left out
  split at hc
  · cases hc
  · next hout =>
    obtain ⟨he, hcur⟩ := not_or.1 hout
    split at hc
    · obtain rfl := Option.some.inj hc
      trivial
    · next hpar =>
      -- what is left is a name
      obtain rfl := Option.some.inj hc
      exact isName_text he hcur hpar (RawText.not_mem_of_mem_pieces hp)

/-- Steps are read as they were written. -/
theorem steps_map_raw {cs : List Component} (h : ∀ c ∈ cs, c.IsStep) :
    steps (cs.map Component.raw) = cs := by
  induction cs with
  | nil => rfl
  | cons c cs ih =>
    have hrest := ih fun d hd => h d (List.mem_cons_of_mem _ hd)
    have hc := h c List.mem_cons_self
    cases c with
    | root => exact absurd hc id
    | current => exact absurd hc id
    -- a step upwards is read as one
    | parent => exact congrArg (Component.parent :: ·) hrest
    | normal n =>
      have hn : steps [n] = [.normal n] := steps_names (List.forall_mem_singleton.2 hc)
      rw [List.map_cons, ← List.singleton_append, steps_append, hrest]
      exact congrArg (· ++ cs) hn

/-- There is no slash in a step. -/
theorem not_mem_raw {c : Component} (h : c.IsStep) : RawText.slash ∉ c.raw.bytes := by
  cases c with
  | root => exact absurd h id
  | current => exact absurd h id
  | parent => decide
  | normal n => exact h.slash_not_mem

/-! ### Components -/

/-- A path whose first piece is not empty is relative. -/
theorem isAbsolute_eq_false {p : Path} {r : RawText}
    (h : p.raw.pieces.head? = some r) (hr : r ≠ "") : p.isAbsolute = false := by
  rw [isAbsolute, decide_eq_false_iff_not]
  intro hhead
  obtain ⟨bytes, hbytes⟩ := List.head?_eq_some_iff.1 hhead
  rw [RawText.pieces, hbytes, Chars.pieces, if_pos rfl] at h
  exact hr (Option.some.inj h).symm

/-- A relative path that does not start with a dot has the steps of its pieces. -/
theorem components_relative {p : Path} (ha : p.isAbsolute = false)
    (hc : p.raw.pieces.head? ≠ some (RawText.ofText ".")) : p.components = steps p.raw.pieces := by
  rw [components, ha, if_neg Bool.false_ne_true, if_neg hc]

/-- What stands before all steps of a path, if anything does. -/
theorem components_eq (p : Path) : ∃ start, p.components = start ++ steps p.raw.pieces ∧
    (start = [] ∨ start = [.root] ∨ start = [.current]) := by
  unfold components
  dsimp only
  split
  · exact ⟨[.root], rfl, Or.inr (Or.inl rfl)⟩
  · split
    · exact ⟨[.current], rfl, Or.inr (Or.inr rfl)⟩
    · exact ⟨[], rfl, Or.inl rfl⟩

/-- A path that goes on after another one has more steps. -/
theorem components_append {p q : Path} {ps qs rs : List RawText} (hps : ps ≠ [])
    (hp : p.raw.pieces = ps ++ qs) (hqs : steps qs = []) (hq : q.raw.pieces = ps ++ rs)
    (ha : q.isAbsolute = p.isAbsolute) :
    q.components = p.components ++ steps rs := by
  -- the first piece, which tells what a path starts with, is that of the path in front
  have hhead : ∀ l : List RawText, (ps ++ l).head? = ps.head? := by
    intro l
    cases ps with
    | nil => exact absurd rfl hps
    | cons s ps => rfl
  unfold components
  rw [hp, hq, ha]
  dsimp only
  rw [steps_append, steps_append, hqs, List.append_nil, hhead, hhead]
  split
  · rfl
  · split <;> rfl

/-- **What is joined to a path comes after it.** -/
theorem components_join (p q : Path) (h : ∀ n ∈ q.raw.pieces, IsName n.text) :
    (p.join q).components = p.components ++ q.raw.pieces.map .normal := by
  -- what is joined starts with a name, so it is relative
  obtain ⟨n, hn⟩ : ∃ n, q.raw.pieces.head? = some n := by
    cases hp : q.raw.pieces with
    | nil => exact absurd hp (RawText.pieces_ne_nil q.raw)
    | cons n r => exact ⟨n, rfl⟩
  have hname : IsName n.text := h n (List.mem_of_head? hn)
  have hne : n ≠ RawText.ofText "" := by
    rintro rfl
    exact hname.ne_empty rfl
  have hrel : q.isAbsolute = false := isAbsolute_eq_false hn hne
  rw [← steps_names h, join, hrel, if_neg Bool.false_ne_true]
  by_cases hempty : p.raw.bytes = []
  · -- nothing comes before the names
    obtain rfl : p = ofRaw ⟨[]⟩ := raw_inj.1 (congrArg RawText.mk hempty)
    rw [if_pos (Or.inl hempty)]
    refine components_relative hrel ?_
    change q.raw.pieces.head? ≠ _
    rw [hn]
    intro he
    obtain rfl := Option.some.inj he
    exact hname.ne_current rfl
  · by_cases hslash : p.raw.bytes.getLast? = some RawText.slash
    · -- the path ends in a slash, so its last piece is empty and there is a piece before it
      obtain ⟨l, hl⟩ := List.getLast?_eq_some_iff.1 hslash
      have hp : p.raw = (⟨l⟩ : RawText) ++ "/" ++ "" :=
        congrArg RawText.mk (hl.trans (List.append_nil _).symm)
      have hq : (ofRaw (p.raw ++ q.raw)).raw = (⟨l⟩ : RawText) ++ "/" ++ q.raw :=
        congrArg (fun bytes => RawText.mk (bytes ++ q.raw.bytes)) hl
      have hempty' : steps [RawText.ofText ""] = [] := rfl
      rw [if_pos (Or.inr hslash)]
      refine components_append (RawText.pieces_ne_nil ⟨l⟩) ?_ hempty' ?_ ?_
      · rw [hp, RawText.pieces_append_slash]
        rfl
      · rw [hq, RawText.pieces_append_slash]
      · rw [isAbsolute, isAbsolute, hq, hp]
        cases l <;> rfl
    · -- a slash is put between the two
      rw [if_neg (not_or.2 ⟨hempty, hslash⟩)]
      refine components_append (RawText.pieces_ne_nil p.raw) (List.append_nil _).symm rfl
        (RawText.pieces_append_slash _ _) ?_
      have hbytes : (ofRaw (p.raw ++ "/" ++ q.raw)).raw.bytes = p.raw.bytes ++ ([RawText.slash] ++ q.raw.bytes) :=
        List.append_assoc _ _ _
      rw [isAbsolute, isAbsolute, hbytes]
      cases hl : p.raw.bytes with
      | nil => exact absurd hl hempty
      | cons c l => rfl

section Steps

variable {cs : List Component} (h : ∀ c ∈ cs, c.IsStep)

include h

/-- There are no slashes in steps. -/
theorem not_mem_of_mem_map_raw : ∀ r ∈ cs.map Component.raw, RawText.slash ∉ r.bytes := by
  intro r hr
  obtain ⟨c, hc, rfl⟩ := List.mem_map.1 hr
  exact not_mem_raw (h c hc)

/-- Steps that are joined are found again between the slashes. -/
theorem steps_pieces_join : steps (RawText.join (cs.map Component.raw)).pieces = cs := by
  by_cases hcs : cs = []
  · subst hcs
    rfl
  · have hne : cs.map Component.raw ≠ [] := mt List.map_eq_nil_iff.1 hcs
    rw [RawText.pieces_join hne (not_mem_of_mem_map_raw h), steps_map_raw h]

/-- Steps alone make a path that starts with the first of them. -/
theorem components_ofComponents_steps : (ofComponents cs).components = cs := by
  cases cs with
  | nil => rfl
  | cons c cs =>
    have hstep := h c List.mem_cons_self
    -- what is not the root is joined by slashes
    have hof : ofComponents (c :: cs) = ofRaw (RawText.join ((c :: cs).map Component.raw)) := by
      cases c with
      | root => exact absurd hstep id
      | current => rfl
      | parent => rfl
      | normal n => rfl
    -- the first piece is the first component, which neither is empty nor stands for the place itself
    have hhead : (ofRaw (RawText.join ((c :: cs).map Component.raw))).raw.pieces.head? = some c.raw := by
      have hne : (c :: cs).map Component.raw ≠ [] := List.cons_ne_nil _ _
      rw [raw_ofRaw, RawText.pieces_join hne (not_mem_of_mem_map_raw h)]
      rfl
    have hname : c.raw ≠ RawText.ofText "" ∧ c.raw ≠ RawText.ofText "." := by
      cases c with
      | root => exact absurd hstep id
      | current => exact absurd hstep id
      | parent => exact ⟨by decide, by decide⟩
      | normal n =>
        refine ⟨?_, ?_⟩
        · rintro rfl
          exact hstep.ne_empty rfl
        · rintro rfl
          exact hstep.ne_current rfl
    rw [hof]
    refine (components_relative (isAbsolute_eq_false hhead hname.1) ?_).trans (steps_pieces_join h)
    rw [hhead]
    exact fun he => hname.2 (Option.some.inj he)

/-- The root is written as a slash, so the first piece is empty. -/
theorem components_ofComponents_root :
    (ofComponents (.root :: cs)).components = .root :: cs := by
  have habs : (ofComponents (.root :: cs)).isAbsolute = true := rfl
  have hpieces : (ofComponents (.root :: cs)).raw.pieces =
      RawText.pieces "" ++ (RawText.join (cs.map Component.raw)).pieces :=
    RawText.pieces_append_slash "" _
  have hempty : steps (RawText.pieces "") = [] := rfl
  rw [components, habs, if_pos rfl, hpieces, steps_append, hempty, steps_pieces_join h]
  rfl

/-- The place itself is written as a dot, which only counts where it stands first. -/
theorem components_ofComponents_current :
    (ofComponents (.current :: cs)).components = .current :: cs := by
  -- no component has a slash in it, so they are cut where they were joined
  have hpieces : (ofComponents (.current :: cs)).raw.pieces = RawText.ofText "." :: cs.map Component.raw := by
    refine RawText.pieces_join (List.cons_ne_nil _ _) fun r hr => ?_
    rcases List.mem_cons.1 hr with rfl | hr
    · decide
    · exact not_mem_of_mem_map_raw h r hr
  -- the dot is not empty, so the path is relative
  have hrel : (ofComponents (.current :: cs)).isAbsolute = false := by
    refine isAbsolute_eq_false (r := RawText.ofText ".") ?_ (by decide)
    rw [hpieces]
    rfl
  rw [components, hrel, if_neg Bool.false_ne_true, hpieces, List.head?_cons, if_pos rfl]
  exact congrArg (Component.current :: ·) (steps_map_raw h)

/-- **The path that is made of components has them**, if all but the first are steps. -/
theorem components_ofComponents {start : List Component}
    (hstart : start = [] ∨ start = [.root] ∨ start = [.current]) :
    (ofComponents (start ++ cs)).components = start ++ cs := by
  rcases hstart with rfl | rfl | rfl
  · exact components_ofComponents_steps h
  · exact components_ofComponents_root h
  · exact components_ofComponents_current h

end Steps

/-- **A parent is a path of its own.** -/
theorem components_ofComponents_parent {p : Path} {cs : List Component} (h : p.parent? = some cs) :
    (ofComponents cs).components = cs ∧
      ∃ c, p.components = cs ++ [c] ∧ p.components.getLast? = some c := by
  -- a path is what it starts with and its steps, of which the last one is left out
  obtain ⟨start, hp, hstart⟩ := p.components_eq
  unfold parent? at h
  cases hlast : p.components.getLast? with
  | none =>
    rw [hlast] at h
    cases h
  | some c =>
    have hcs : p.components.dropLast = cs := by
      rw [hlast] at h
      cases c with
      | root => cases h
      | current => exact Option.some.inj h
      | parent => exact Option.some.inj h
      | normal n => exact Option.some.inj h
    obtain ⟨l, hl⟩ := List.getLast?_eq_some_iff.1 hlast
    refine ⟨?_, c, ?_, rfl⟩
    · rw [← hcs, hp]
      by_cases hsteps : steps p.raw.pieces = []
      · -- the last component is what the path starts with, so there is nothing before it
        rw [hsteps, List.append_nil]
        rcases hstart with rfl | rfl | rfl <;> rfl
      · rw [List.dropLast_append_of_ne_nil hsteps]
        exact components_ofComponents (fun d hd => isStep_of_mem_steps (List.dropLast_subset _ hd))
          hstart
    · rw [← hcs, hl, List.dropLast_concat]

/-- The names among the components of a path are names. -/
theorem isName_of_mem_components {p : Path} {n : RawText} (h : .normal n ∈ p.components) :
    IsName n.text := by
  obtain ⟨start, hp, hstart⟩ := p.components_eq
  rw [hp] at h
  rcases List.mem_append.1 h with h | h
  · rcases hstart with rfl | rfl | rfl
    · exact absurd h List.not_mem_nil
    · cases List.mem_singleton.1 h
    · cases List.mem_singleton.1 h
  · exact isStep_of_mem_steps h

/-! ### Names that are texts -/

/-- The entry whose name is a text. -/
def Component.ofName (name : String) : Component := .normal name

/-- Names that are texts are told apart. -/
theorem Component.ofName_inj {n m : String} : ofName n = ofName m ↔ n = m :=
  ⟨fun h => RawText.ofText_inj.1 (normal.inj h), congrArg ofName⟩

@[simp] theorem Component.text_ofName (n : String) : (ofName n).text = n := RawText.text_ofText n

/-- Texts are names of their own kind among the raw ones. -/
theorem map_normal_map_ofText (names : List String) :
    (names.map RawText.ofText).map Component.normal = names.map .ofName := List.map_map

/-- The path that the raw text of a text is. -/
theorem ofRaw_ofText (s : String) : ofRaw s = ⟨s⟩ := raw_inj.1 rfl

/-- A text that is a name is shown as a name, -/
theorem isName_text_ofText {n : String} (h : IsName n) : IsName (RawText.ofText n).text :=
  (RawText.text_ofText n).symm ▸ h

/-- and so are all of some texts. -/
theorem forall_isName_ofText {names : List String} (h : ∀ n ∈ names, IsName n) :
    ∀ r ∈ names.map RawText.ofText, IsName r.text := by
  intro r hr
  obtain ⟨n, hn, rfl⟩ := List.mem_map.1 hr
  exact isName_text_ofText (h n hn)

/-- The path that is made of names is written with slashes between them. -/
theorem ofComponents_names (names : List String) : ofComponents (names.map .ofName) = ⟨Text.join "/" names⟩ := by
  have hraw : (names.map Component.ofName).map Component.raw = names.map RawText.ofText := List.map_map
  rw [← ofRaw_ofText, ← RawText.join_ofText, ← hraw]
  cases names <;> rfl

/-- What is joined to a path by a text comes after it. -/
theorem components_join_text (p : Path) {t : String} (h : ∀ n ∈ Text.pieces '/' t, IsName n) :
    (p.join ⟨t⟩).components = p.components ++ (Text.pieces '/' t).map .ofName := by
  have hpieces : (Path.mk t).raw.pieces = (Text.pieces '/' t).map RawText.ofText := RawText.pieces_ofText t
  rw [p.components_join ⟨t⟩ (hpieces.symm ▸ forall_isName_ofText h), hpieces, map_normal_map_ofText]

/-! ### Paths below a path -/

/-- The path to which names lead from another one. -/
def belowRaw (p : Path) (names : List RawText) : Path := names.foldl (fun p n => p.join (.ofRaw n)) p

/-- The path to which names that are texts lead from another one. -/
def below (p : Path) (names : List String) : Path := names.foldl (fun p n => p.join ⟨n⟩) p

@[simp] theorem belowRaw_cons (p : Path) (n : RawText) (names : List RawText) :
    p.belowRaw (n :: names) = (p.join (.ofRaw n)).belowRaw names := rfl

/-- One more name comes last. -/
theorem belowRaw_concat (p : Path) (names : List RawText) (n : RawText) :
    p.belowRaw (names ++ [n]) = (p.belowRaw names).join (.ofRaw n) := by
  unfold belowRaw
  rw [List.foldl_append]
  rfl

@[simp] theorem below_cons (p : Path) (n : String) (names : List String) :
    p.below (n :: names) = (p.join ⟨n⟩).below names := rfl

/-- Of texts, too, one more name comes last. -/
theorem below_concat (p : Path) (names : List String) (n : String) :
    p.below (names ++ [n]) = (p.below names).join ⟨n⟩ := by
  unfold below
  rw [List.foldl_append]
  rfl

/-- Names that are texts lead to the same place as the raw names that they are. -/
theorem belowRaw_map_ofText (p : Path) (names : List String) : p.belowRaw (names.map .ofText) = p.below names := by
  induction names generalizing p with
  | nil => rfl
  | cons n names ih => rw [List.map_cons, belowRaw_cons, ih, ofRaw_ofText, below_cons]

/-- The last component of a path that ends in a name is that name. -/
theorem components_join_raw (p : Path) {n : RawText} (h : IsName n.text) :
    (p.join (.ofRaw n)).components = p.components ++ [.normal n] := by
  have hpieces : (ofRaw n).raw.pieces = [n] := RawText.pieces_of_not_mem h.slash_not_mem
  have hjoin := p.components_join (ofRaw n) (by rw [hpieces]; exact List.forall_mem_singleton.2 h)
  rw [hpieces] at hjoin
  exact hjoin

/-- The path to which names lead has them after the components of the first one. -/
theorem components_belowRaw (p : Path) {names : List RawText} (h : ∀ n ∈ names, IsName n.text) :
    (p.belowRaw names).components = p.components ++ names.map .normal := by
  induction names generalizing p with
  | nil => exact (List.append_nil _).symm
  | cons n names ih =>
    rw [belowRaw_cons, ih _ fun m hm => h m (List.mem_cons_of_mem _ hm),
      components_join_raw p (h n List.mem_cons_self), List.append_assoc]
    rfl

/-- The same holds of names that are texts. -/
theorem components_below (p : Path) {names : List String} (h : ∀ n ∈ names, IsName n) :
    (p.below names).components = p.components ++ names.map .ofName := by
  rw [← belowRaw_map_ofText, p.components_belowRaw (forall_isName_ofText h), map_normal_map_ofText]

/-- **No two lists of names lead to one place.** -/
theorem eq_of_components_belowRaw {p : Path} {names more : List RawText} (hnames : ∀ n ∈ names, IsName n.text)
    (hmore : ∀ n ∈ more, IsName n.text) (h : (p.belowRaw names).components = (p.belowRaw more).components) :
    names = more := by
  rw [p.components_belowRaw hnames, p.components_belowRaw hmore] at h
  exact (List.map_inj_right fun _ _ h => Component.normal.inj h).1 (List.append_cancel_left h)

/-- A path with more components than another one lies below it. -/
theorem relativeTo?_of_components {base p : Path} {cs : List Component}
    (h : p.components = base.components ++ cs) : base.relativeTo? p = some cs :=
  relativeTo?_eq_some_iff.2 h

/-- Names are shown as they look. -/
theorem names?_normal (names : List RawText) :
    names? (names.map .normal) = some (names.map RawText.text) := by
  induction names with
  | nil => rfl
  | cons n names ih =>
    rw [List.map_cons, names?, ih]
    rfl

/-- Names are found in the components that are made of them. -/
theorem names?_names (names : List String) : names? (names.map .ofName) = some names := by
  rw [← map_normal_map_ofText, names?_normal, RawText.map_text_map_ofText]

end Path

section Names

variable {names : List String} (hne : names ≠ []) (hnames : ∀ n ∈ names, Path.IsName n)

include hne hnames

/-- Names that are joined by slashes are found again. -/
theorem pieces_id : Text.pieces '/' (Text.join "/" names) = names :=
  Text.pieces_join hne fun n hn => (hnames n hn).not_mem

/-- Names that are joined make a relative path of these names. -/
theorem components_id : (Path.mk (Text.join "/" names)).isAbsolute = false ∧
    (Path.mk (Text.join "/" names)).components = names.map .ofName := by
  -- the pieces of the path are the names
  have hpieces : (Path.mk (Text.join "/" names)).raw.pieces = names.map RawText.ofText := by
    refine (RawText.pieces_ofText _).trans ?_
    rw [pieces_id hne hnames]
  obtain ⟨n, rest, rfl⟩ := List.exists_cons_of_ne_nil hne
  have hname : Path.IsName n := hnames n List.mem_cons_self
  -- the first one is no dot, and is not empty, so nothing comes before the names
  have hhead : (Path.mk (Text.join "/" (n :: rest))).raw.pieces.head? = some (RawText.ofText n) := by
    rw [hpieces]
    rfl
  have hrel := Path.isAbsolute_eq_false hhead (mt RawText.ofText_inj.1 hname.ne_empty)
  refine ⟨hrel, ?_⟩
  rw [Path.components_relative hrel, hpieces, Path.steps_names (Path.forall_isName_ofText hnames),
    Path.map_normal_map_ofText]
  rw [hhead]
  exact fun he => hname.ne_current (RawText.ofText_inj.1 (Option.some.inj he))

end Names

/-- What comes after the root in a path lies below it. -/
theorem componentsBelow?_of_components {root p : Path} {cs : List Path.Component}
    (h : p.components = root.components ++ cs) : componentsBelow? root p = some cs := by
  have hstarts : root.startsWith p = true := by
    rw [Path.startsWith, h]
    exact List.isPrefixOf_iff_prefix.2 (List.prefix_append _ _)
  rw [componentsBelow?, if_pos (Or.inr hstarts), Path.relativeTo?_of_components h]

/-- The names that lead to a path are those of its components below the root, if there are any. -/
theorem namesBelow?_eq_some_iff {root path : Path} {names : List String} :
    namesBelow? root path = some names ↔
      (componentsBelow? root path).bind Path.names? = some names ∧ names ≠ [] := by
  have hnames : namesBelow? root path = ((componentsBelow? root path).bind Path.names?).bind fun names =>
      if names.isEmpty then none else some names := by
    rw [namesBelow?, Option.bind_assoc]
  -- without names there is nothing below the root
  rw [hnames]
  cases (componentsBelow? root path).bind Path.names? with
  | none => exact ⟨nofun, fun h => nomatch h.1⟩
  | some l =>
    cases l with
    | nil =>
      refine ⟨nofun, fun h => absurd (Option.some.inj h.1).symm h.2⟩
    | cons n l =>
      refine ⟨fun h => ⟨h, ?_⟩, fun h => h.1⟩
      rw [← Option.some.inj h]
      exact List.cons_ne_nil n l

/-- The names that lead to a path below a root look like those that come after the root in it. -/
theorem namesBelow?_of_components {root p : Path} {names : List RawText} (hne : names ≠ [])
    (h : p.components = root.components ++ names.map .normal) :
    namesBelow? root p = some (names.map RawText.text) := by
  rw [namesBelow?_eq_some_iff, componentsBelow?_of_components h, Option.bind_some]
  exact ⟨Path.names?_normal names, mt List.map_eq_nil_iff.1 hne⟩

/-- A name that is found in components is what is shown of one of them. -/
theorem Path.mem_of_names? {cs : List Path.Component} {names : List String} (h : Path.names? cs = some names)
    {n : String} (hn : n ∈ names) : ∃ r : RawText, .normal r ∈ cs ∧ r.text = n := by
  induction cs generalizing names with
  | nil =>
    cases h
    cases hn
  | cons c cs ih =>
    cases c with
    | root => cases h
    | parent => cases h
    | current =>
      -- a dot is passed over, so the name is that of a later component
      obtain ⟨r, hr, hshown⟩ := ih h hn
      exact ⟨r, List.mem_cons_of_mem _ hr, hshown⟩
    | normal m =>
      obtain ⟨rest, hrest, rfl⟩ := Option.map_eq_some_iff.1 h
      rcases List.mem_cons.1 hn with rfl | hn
      · -- the name is that of this component, or of a later one
        exact ⟨m, List.mem_cons_self, rfl⟩
      · obtain ⟨r, hr, hshown⟩ := ih hrest hn
        exact ⟨r, List.mem_cons_of_mem _ hr, hshown⟩

/-- The components below a root are components of the path. -/
theorem mem_of_componentsBelow? {root p : Path} {cs : List Path.Component}
    (h : componentsBelow? root p = some cs) {c : Path.Component} (hc : c ∈ cs) : c ∈ p.components := by
  rw [componentsBelow?] at h
  split at h
  · rw [Path.relativeTo?_eq_some_iff.1 h]
    exact List.mem_append_right _ hc
  · rwa [Option.some.inj h]

/-- **What is shown of the names that lead to a path are names.** -/
theorem isName_of_namesBelow? {root p : Path} {names : List String} (h : namesBelow? root p = some names)
    {n : String} (hn : n ∈ names) : Path.IsName n := by
  obtain ⟨cs, hcs, hnames⟩ := Option.bind_eq_some_iff.1 (namesBelow?_eq_some_iff.1 h).1
  obtain ⟨r, hr, rfl⟩ := Path.mem_of_names? hnames hn
  exact Path.isName_of_mem_components (mem_of_componentsBelow? hcs hr)

/-- Names lead to the place that is named by them. -/
theorem namesBelow?_below (root : Path) {names : List String} (hne : names ≠ [])
    (h : ∀ n ∈ names, Path.IsName n) : namesBelow? root (root.below names) = some names := by
  rw [← Path.belowRaw_map_ofText, namesBelow?_of_components (mt List.map_eq_nil_iff.1 hne)
    (root.components_belowRaw (Path.forall_isName_ofText h)), RawText.map_text_map_ofText]

/-- **The id of a path below a root is made of what is shown of the names that lead to it.** -/
theorem documentId?_of_components {root p : Path} {names : List RawText} (hne : names ≠ [])
    (h : p.components = root.components ++ names.map .normal) :
    documentId? root p = some (RawText.place names) := by
  rw [documentId?, namesBelow?_of_components hne h]
  rfl

/-- A path that ends in a name has what is shown of it for an id in the place where it lies. -/
theorem documentId?_parent {p : Path} {n : RawText} (h : p.fileName? = some n) :
    ∃ cs, p.parent? = some cs ∧ p.components = cs ++ [.normal n] ∧
      documentId? (.ofComponents cs) p = some n.text := by
  obtain ⟨c, hlast, hc⟩ := Option.bind_eq_some_iff.1 h
  obtain rfl : c = .normal n := by
    cases c with
    | normal m => exact congrArg _ (Option.some.inj hc)
    | root => cases hc
    | current => cases hc
    | parent => cases hc
  -- the last component is a name, so there is a place in which it lies
  have hparent : p.parent? = some p.components.dropLast := by
    rw [Path.parent?, hlast]
  obtain ⟨hof, c, hp, hlast'⟩ := Path.components_ofComponents_parent hparent
  rw [hlast] at hlast'
  obtain rfl := Option.some.inj hlast'
  refine ⟨_, hparent, hp, ?_⟩
  rw [← hof] at hp
  exact documentId?_of_components (List.cons_ne_nil n []) hp

/-- A path that ends in no name has no id in the place where it lies. -/
theorem documentId?_parent_eq_none {p : Path} (h : p.fileName? = none) :
    documentId? ((p.parent?.map Path.ofComponents).getD p) p = none := by
  -- what has no names below a root has no id
  have hid : ∀ root : Path, ∀ cs : List Path.Component,
      p.components = root.components ++ cs → Path.names? cs = none ∨ Path.names? cs = some [] →
        documentId? root p = none := by
    intro root cs hp hnames
    rw [documentId?, namesBelow?, componentsBelow?_of_components hp, Option.bind_some]
    rcases hnames with hn | hn <;> rw [hn] <;> rfl
  cases hparent : p.parent? with
  | none => exact hid p [] (List.append_nil _).symm (Or.inr rfl)
  | some cs =>
    -- the last component is what is left, and it is no name
    obtain ⟨hof, c, hp, hlast⟩ := Path.components_ofComponents_parent hparent
    rw [Option.map_some, Option.getD_some]
    refine hid _ [c] (by rw [hof, hp]) ?_
    rw [Path.fileName?, hlast, Option.bind_some] at h
    cases c with
    | root => exact Or.inl rfl
    | current => exact Or.inr rfl
    | parent => exact Or.inl rfl
    | normal n => cases h

/-- The path to which names lead has for an id what is shown of the names. -/
theorem documentId?_belowRaw (root : Path) {names : List RawText} (hne : names ≠ [])
    (h : ∀ n ∈ names, Path.IsName n.text) :
    documentId? root (root.belowRaw names) = some (RawText.place names) :=
  documentId?_of_components hne (root.components_belowRaw h)

end CodeSearch
