import CodeSearch.Outline
import Mathlib.Data.List.Chain

/-!
# Declarations by what lies above them

`Outline.ofTree` goes through a tree from the root down and carries along what it has met on the way. Here
the same outline is told by looking upwards. A tree is taken as the list of its *sites*, each of them a
node together with the nodes above it (`SyntaxTree.isChain_of_mem_sites`), in preorder
(`SyntaxTree.sites_eq`). What a site adds to the outline is said of the site alone:

* `Site.import?` — the text of an import that lies in no other import;
* `Site.definition?` — the declaration at a node that lies in no import. Its kind depends on the nearest
  declaration above it, its parents are the named types above it, and its first row is that of the
  wrapper right above it, if that carries decorators.

`Outline.ofSource?_eq_ofSites` says that both readings agree. The context that the descent carries *fits*
the nodes above (`Outline.Context.Fits`): it names the types among them and knows whether the nearest
declaration is one of a type. It fits at the root, every step down keeps it fitting
(`Outline.Context.Fits.through`, `Outline.Context.Fits.into`), and below an import there is nothing that a
site could add (`Outline.ofSites_of_inImport`).
-/

namespace CodeSearch

namespace SyntaxTree

/-! ### Sites -/

/-- A node together with the nodes above it, the nearest first. -/
structure Site where
  above : List SyntaxTree
  node : SyntaxTree

mutual

/-- The nodes that named children lead to, each with what lies above it and in front of what lies
below it. -/
def sites (above : List SyntaxTree) : SyntaxTree → List Site
  | .node i cs => ⟨above, .node i cs⟩ :: sitesAmong (.node i cs :: above) cs

/-- The sites of the named trees of a list, one tree after another. -/
def sitesAmong (above : List SyntaxTree) : List SyntaxTree → List Site
  | [] => []
  | t :: ts => if t.info.named then t.sites above ++ sitesAmong above ts else sitesAmong above ts

end

/-- The sites below a node are those of its named children. -/
theorem sitesAmong_eq_flatMap (above ts : List SyntaxTree) :
    sitesAmong above ts = (ts.filter fun t => t.info.named).flatMap (sites above) := by
  induction ts with
  | nil => rfl
  | cons t ts ih =>
    rw [sitesAmong]
    by_cases hn : t.info.named = true
    · rw [List.filter_cons, if_pos hn, if_pos hn, List.flatMap_cons, ih]
    · rw [List.filter_cons, if_neg hn, if_neg hn, ih]

/-- **Sites stand in preorder**: a node comes before those that its named children lead to. -/
theorem sites_eq (above : List SyntaxTree) (t : SyntaxTree) :
    t.sites above = ⟨above, t⟩ :: t.namedChildren.flatMap (sites (t :: above)) := by
  cases t with
  | node i cs => rw [sites, sitesAmong_eq_flatMap, namedChildren, children]

mutual

/-- What lies above a tree lies above all its sites. -/
theorem exists_append_above {above : List SyntaxTree} {s : Site} :
    (t : SyntaxTree) → s ∈ t.sites above → ∃ between, s.above = between ++ above
  | .node i cs => by
    intro hs
    rw [sites] at hs
    rcases List.mem_cons.1 hs with rfl | hs
    · exact ⟨[], rfl⟩
    · obtain ⟨between, hb⟩ := exists_append_above_among cs hs
      exact ⟨between ++ [.node i cs], by rw [hb, List.append_assoc, List.singleton_append]⟩

/-- What lies above a site of some trees ends in what lies above the trees. -/
theorem exists_append_above_among {above : List SyntaxTree} {s : Site} :
    (ts : List SyntaxTree) → s ∈ sitesAmong above ts → ∃ between, s.above = between ++ above
  | [] => by
    intro hs
    cases hs
  | t :: ts => by
    intro hs
    rw [sitesAmong] at hs
    split at hs
    · -- the site is one of the first tree, or of a later one
      rcases List.mem_append.1 hs with hs | hs
      · exact exists_append_above t hs
      · exact exists_append_above_among ts hs
    · exact exists_append_above_among ts hs

end

mutual

/-- **The nodes above a site are its ancestors**: each of them is a named child of the next. -/
theorem isChain_of_mem_sites {above : List SyntaxTree} {s : Site} :
    (t : SyntaxTree) → (t :: above).IsChain (fun c p => c ∈ p.namedChildren) → s ∈ t.sites above →
      (s.node :: s.above).IsChain (fun c p => c ∈ p.namedChildren)
  | .node i cs => by
    intro hchain hs
    rw [sites] at hs
    -- the site is that of the node itself, or of one that lies below it
    rcases List.mem_cons.1 hs with rfl | hs
    · exact hchain
    · exact isChain_of_mem_sitesAmong cs (fun c hc hn => by
        rw [List.isChain_cons_cons]
        exact ⟨List.mem_filter.2 ⟨hc, hn⟩, hchain⟩) hs

/-- The sites of trees whose nodes above are a chain have such a chain above them as well. -/
theorem isChain_of_mem_sitesAmong {above : List SyntaxTree} {s : Site} :
    (ts : List SyntaxTree) →
      (∀ t ∈ ts, t.info.named = true → (t :: above).IsChain (fun c p => c ∈ p.namedChildren)) →
      s ∈ sitesAmong above ts → (s.node :: s.above).IsChain (fun c p => c ∈ p.namedChildren)
  | [] => by
    intro _ hs
    cases hs
  | t :: ts => by
    intro hchain hs
    have hrest : ∀ u ∈ ts, u.info.named = true → _ := fun u hu => hchain u (List.mem_cons_of_mem t hu)
    rw [sitesAmong] at hs
    split at hs
    next hn =>
      rcases List.mem_append.1 hs with hs | hs
      · exact isChain_of_mem_sites t (hchain t List.mem_cons_self hn) hs
      · exact isChain_of_mem_sitesAmong ts hrest hs
    -- an unnamed tree has no sites
    next => exact isChain_of_mem_sitesAmong ts hrest hs

end

mutual

/-- Looking for a node of a kind goes through the sites in their order. -/
theorem findKind?_eq (kind : String) (above : List SyntaxTree) :
    (t : SyntaxTree) →
      t.findKind? kind = ((t.sites above).find? fun s => s.node.kind = kind).map Site.node
  | .node i cs => by
    rw [findKind?, sites, List.find?_cons]
    by_cases hk : i.kind = kind
    · have hk' : decide ((node i cs).kind = kind) = true := decide_eq_true hk
      rw [if_pos hk, hk', Option.map_some]
    · have hk' : decide ((node i cs).kind = kind) = false := decide_eq_false hk
      rw [if_neg hk, hk', findKindAmong?_eq kind (.node i cs :: above) cs]

/-- The first node of a kind among some trees is that of the first site of the kind. -/
theorem findKindAmong?_eq (kind : String) (above : List SyntaxTree) :
    (ts : List SyntaxTree) →
      findKindAmong? kind ts =
        ((sitesAmong above ts).find? fun s => s.node.kind = kind).map Site.node
  | [] => rfl
  | t :: ts => by
    rw [findKindAmong?, sitesAmong]
    split
    · -- the first tree comes first, with all that lies in it
      rw [List.find?_append, findKind?_eq kind above t, findKindAmong?_eq kind above ts]
      cases (t.sites above).find? fun s => s.node.kind = kind with
      | none => rfl
      | some s => rfl
    · exact findKindAmong?_eq kind above ts

end

/-! ### What a site adds to an outline -/

section Above

variable (l : Language) (source : String) (above : List SyntaxTree)

/-- Whether a node has the role. -/
def HasRole (role : NodeRole) (t : SyntaxTree) : Bool := Outline.role? l t.info == some role

/-- Whether a node declares a type, a function or a method. -/
def Declares (t : SyntaxTree) : Bool :=
  t.HasRole l .classLike || t.HasRole l .function || t.HasRole l .method

/-- Whether one of the nodes is an import. -/
def inImport : Bool := above.any (HasRole l .importing)

/-- Whether the nearest declaration is one of a type. -/
def inType : Bool := (above.find? (Declares l)).any (HasRole l .classLike)

/-- The names of the types, the outermost first; a type without a name is passed over. -/
def typeNames : List String :=
  (above.reverse.filter (HasRole l .classLike)).filterMap (Outline.declaredName? source)

end Above

namespace Site

variable (l : Language) (source : String) (s : Site)

/-- The text of an import. -/
def import? : Option String :=
  if s.node.HasRole l .importing ∧ inImport l s.above = false then
    some (Text.trim (s.node.text source))
  else none

/-- What is declared. -/
def kind? : Option ChunkKind :=
  match Outline.role? l s.node.info with
  | some .classLike => some .classLike
  | some .method => some .method
  | some .function => some (if inType l s.above then .method else .function)
  | some .importing | some .decorated | none => none

/-- The row of the wrapper right above that carries decorators, or else the row of the node. -/
def startRow : Nat :=
  match s.above with
  | p :: _ => if p.HasRole l .decorated then p.info.startRow else s.node.info.startRow
  | [] => s.node.info.startRow

/-- The name of the type that a method is declared for: the first type identifier that the receiver
leads to. -/
def receiver? : Option String :=
  (s.node.fieldChild? "receiver").bind fun r =>
    ((r.sites []).find? fun t => t.node.kind = "type_identifier").map fun t => t.node.text source

/-- The declaration at a node that has a name. -/
def definition? : Option Definition :=
  if inImport l s.above then none
  else (s.kind? l).bind fun kind => (Outline.declaredName? source s.node).map fun name =>
    { kind, name
      startRow := s.startRow l
      endRow := s.node.info.endRow
      declRow := s.node.info.startRow
      parents := typeNames l source s.above ++
        if l = .go ∧ kind = .method then (s.receiver? source).toList else [] }

end Site

end SyntaxTree

namespace Outline

open SyntaxTree (Site inImport inType typeNames HasRole Declares sites sitesAmong)

variable {l : Language} {source : String} {ctx : Context} {above : List SyntaxTree}

/-- What sites tell, in their order. -/
def ofSites (l : Language) (source : String) (ss : List Site) : Outline :=
  { imports := ss.filterMap (Site.import? l source)
    definitions := ss.filterMap (Site.definition? l source) }

/-- Sites tell one after the other what they tell. -/
theorem ofSites_append (ss rs : List Site) :
    ofSites l source (ss ++ rs) = append (ofSites l source ss) (ofSites l source rs) := by
  rw [ofSites, List.filterMap_append, List.filterMap_append, append, ofSites, ofSites]

/-- A site and those after it. -/
theorem ofSites_cons (s : Site) (ss : List Site) :
    ofSites l source (s :: ss) =
      append { imports := (s.import? l source).toList,
               definitions := (s.definition? l source).toList } (ofSites l source ss) := by
  rw [← List.singleton_append, ofSites_append]
  congr 1

/-- **Below an import there is nothing to tell.** -/
theorem ofSites_of_inImport (h : inImport l above = true) (ts : List SyntaxTree) :
    ofSites l source (sitesAmong above ts) = {} := by
  -- the import is above all of the sites
  have hin : ∀ s ∈ sitesAmong above ts, inImport l s.above = true := by
    intro s hs
    obtain ⟨between, hb⟩ := SyntaxTree.exists_append_above_among ts hs
    rw [hb, inImport, List.any_append, ← inImport, ← inImport, h, Bool.or_true]
  have himports : (sitesAmong above ts).filterMap (Site.import? l source) = [] := by
    rw [List.filterMap_eq_nil_iff]
    intro s hs
    rw [Site.import?, if_neg]
    rintro ⟨-, hout⟩
    rw [hin s hs] at hout
    cases hout
  have hdefinitions : (sitesAmong above ts).filterMap (Site.definition? l source) = [] := by
    rw [List.filterMap_eq_nil_iff]
    intro s hs
    rw [Site.definition?, if_pos (hin s hs)]
  rw [ofSites, himports, hdefinitions]

/-! ### The context of a descent -/

/-- What a context holds is what the nodes above tell. -/
structure Context.Fits (l : Language) (source : String) (ctx : Context) (above : List SyntaxTree) :
    Prop where
  parents : ctx.parents = typeNames l source above
  enclosing : ctx.enclosing = .classLike ↔ inType l above = true
  nearest : ctx.above = above.head?.map SyntaxTree.info

/-- Without nodes above there is nothing to hold. -/
theorem Context.fits_nil (l : Language) (source : String) : Context.Fits l source {} [] where
  parents := rfl
  enclosing := by simp [inType]
  nearest := rfl

/-- A type adds its name behind those of the types above it. -/
theorem typeNames_cons (t : SyntaxTree) :
    typeNames l source (t :: above) =
      typeNames l source above ++
        if t.HasRole l .classLike then (declaredName? source t).toList else [] := by
  rw [typeNames, List.reverse_cons, List.filter_append, List.filterMap_append, ← typeNames]
  congr 1
  by_cases ht : t.HasRole l .classLike = true
  · rw [if_pos ht, List.filter_cons_of_pos ht, List.filter_nil]
    cases hd : declaredName? source t <;> simp [hd]
  · rw [if_neg ht, List.filter_cons_of_neg ht, List.filter_nil, List.filterMap_nil]

/-- The nearest declaration decides whether a node is in a type. -/
theorem inType_cons (t : SyntaxTree) :
    inType l (t :: above) = if t.Declares l then t.HasRole l .classLike else inType l above := by
  rw [inType, List.find?_cons]
  cases t.Declares l <;> rfl

/-- A node that declares nothing changes nothing but what is right above. -/
theorem Context.Fits.through (h : ctx.Fits l source above) {t : SyntaxTree}
    (ht : t.Declares l = false) :
    Context.Fits l source { ctx with above := some t.info } (t :: above) where
  parents := by
    -- what declares nothing is no type, so it has no name to add
    have hc : t.HasRole l .classLike = false := by
      rw [Declares, Bool.or_eq_false_iff, Bool.or_eq_false_iff] at ht
      exact ht.1.1
    rw [typeNames_cons, hc, h.parents]
    simp
  enclosing := by
    rw [inType_cons, ht]
    exact h.enclosing
  nearest := rfl

/-- A declaration is the nearest one for all that lies in it, and adds its name if it is one of a
type. -/
theorem Context.Fits.into (h : ctx.Fits l source above) {t : SyntaxTree} {role : NodeRole}
    {kind : ChunkKind} (hr : role? l t.info = some role)
    (hk : Outline.kind? ctx.enclosing role = some kind) :
    Context.Fits l source (inside ctx t.info kind (declaredName? source t)) (t :: above) := by
  have hrole : ∀ r, t.HasRole l r = decide (role = r) := by
    intro r
    rw [HasRole, hr]
    rfl
  -- only a node with the role of a type declares a type
  have hclass : kind = .classLike ↔ role = .classLike := by
    cases role <;> simp only [Outline.kind?, reduceCtorEq, Option.some.injEq] at hk
    case classLike => simp [← hk]
    case method => simp [← hk]
    case function =>
      split at hk <;> cases hk <;> simp
  have hdecl : t.Declares l = true := by
    rw [Declares, hrole, hrole, hrole]
    cases role <;> simp_all [Outline.kind?]
  rw [inside]
  -- a type adds its name, and any other declaration none
  by_cases hc : kind = .classLike
  · have hr' : t.HasRole l .classLike = true := by rw [hrole, decide_eq_true (hclass.1 hc)]
    rw [if_pos hc]
    exact
      { parents := by rw [typeNames_cons, if_pos hr', h.parents]
        enclosing := by rw [inType_cons, if_pos hdecl, hr']; simp
        nearest := rfl }
  · have hr' : t.HasRole l .classLike = false := by
      rw [hrole, decide_eq_false (mt hclass.2 hc)]
    rw [if_neg hc]
    exact
      { parents := by rw [typeNames_cons, hr', h.parents]; simp
        enclosing := by rw [inType_cons, if_pos hdecl, hr']; simp
        nearest := rfl }

/-! ### Both readings agree -/

section Agreement

/-- A site declares by its role, in a type or outside of one. -/
theorem kind?_eq_bind (s : Site) :
    s.kind? l = (role? l s.node.info).bind
      (Outline.kind? (if inType l s.above then .classLike else .function)) := by
  rw [Site.kind?]
  cases role? l s.node.info with
  | none => rfl
  | some role =>
    cases role with
    | function => cases inType l s.above <;> rfl
    | _ => rfl

/-- The site of a node adds what the descent notes at it. -/
theorem definition?_eq (h : ctx.Fits l source above) (hout : inImport l above = false)
    {t : SyntaxTree} {role : NodeRole} {kind : ChunkKind} (hr : role? l t.info = some role)
    (hk : Outline.kind? ctx.enclosing role = some kind) :
    Site.definition? l source ⟨above, t⟩ =
      (declaredName? source t).map (definitionAt l source ctx t kind) := by
  -- a function is a method if the nearest declaration is a type, which the context knows
  have hkind : Site.kind? l ⟨above, t⟩ = some kind := by
    rw [kind?_eq_bind, ← hk]
    change (role? l t.info).bind _ = _
    rw [hr, Option.bind_some]
    cases role with
    | function =>
      by_cases hc : ctx.enclosing = .classLike
      · simp [Outline.kind?, hc, h.enclosing.1 hc]
      · have : inType l above = false := by simpa using mt h.enclosing.2 hc
        simp [Outline.kind?, hc, this]
    | _ => rfl
  -- the row is that of the wrapper right above, if there is one
  have hrow : Site.startRow l ⟨above, t⟩ = Outline.startRow l ctx t.info := by
    rw [Site.startRow, Outline.startRow, h.nearest]
    cases above with
    | nil => rfl
    | cons p ps => simp [HasRole]
  -- the receiver is looked for in the same order
  have hreceiver : Site.receiver? source ⟨above, t⟩ = receiverType? source t := by
    rw [Site.receiver?, receiverType?]
    congr 1
    funext r
    rw [SyntaxTree.findKind?_eq "type_identifier" [] r, Option.map_map]
    rfl
  rw [Site.definition?, if_neg (by simp [hout]), hkind, Option.bind_some]
  congr 1
  funext name
  rw [definitionAt, hrow, hreceiver, h.parents]

/-- A node that is neither an import nor a declaration is passed through. -/
theorem ofNode_through {i : NodeInfo} (hi : ∀ role, role? l i = some role → role = .decorated)
    (cs : List SyntaxTree) :
    ofNode l source ctx (.node i cs) = ofNodes l source { ctx with above := some i } cs := by
  rw [ofNode]
  cases hr : role? l i with
  | none => rfl
  | some role =>
    cases hi role hr
    rfl

/-- What is only gone through tells nothing itself. -/
theorem ofSites_cons_through {i : NodeInfo} (hi : ∀ role, role? l i = some role → role = .decorated)
    (cs : List SyntaxTree) (ss : List Site) :
    ofSites l source (⟨above, .node i cs⟩ :: ss) = ofSites l source ss := by
  have himport : Site.import? l source ⟨above, .node i cs⟩ = none := by
    rw [Site.import?, if_neg]
    rintro ⟨himporting, -⟩
    cases hi _ (beq_iff_eq.1 himporting)
  -- it declares nothing, as no declaration has its role
  have hkind : Site.kind? l ⟨above, .node i cs⟩ = none := by
    rw [kind?_eq_bind, Option.bind_eq_none_iff]
    intro role hr
    cases hi role hr
    rfl
  have hdefinition : Site.definition? l source ⟨above, .node i cs⟩ = none := by
    rw [Site.definition?, hkind, Option.bind_none, ite_self]
  rw [ofSites_cons, himport, hdefinition]
  rfl

/-- An import tells its text, and hides what lies in it. -/
theorem ofSites_of_importing (hout : inImport l above = false) {i : NodeInfo}
    (hi : role? l i = some .importing) (cs : List SyntaxTree) :
    ofSites l source ((SyntaxTree.node i cs).sites above) =
      { imports := [Text.trim ((SyntaxTree.node i cs).text source)] } := by
  have hrole : (SyntaxTree.node i cs).HasRole l .importing = true := beq_iff_eq.2 hi
  -- all that lies in it has the import above
  have hbelow : inImport l (.node i cs :: above) = true := by
    rw [inImport, List.any_cons, hrole, Bool.true_or]
  have himport : Site.import? l source ⟨above, .node i cs⟩ =
      some (Text.trim ((SyntaxTree.node i cs).text source)) := if_pos ⟨hrole, hout⟩
  have hkind : Site.kind? l ⟨above, .node i cs⟩ = none := by
    rw [kind?_eq_bind, Option.bind_eq_none_iff]
    intro role hr
    cases hi.symm.trans hr
    rfl
  have hdefinition : Site.definition? l source ⟨above, .node i cs⟩ = none := by
    rw [Site.definition?, hkind, Option.bind_none, ite_self]
  rw [SyntaxTree.sites, ofSites_cons, ofSites_of_inImport hbelow, himport, hdefinition]
  rfl

mutual

/-- **The descent into a tree tells what the sites of the tree tell**, provided that its context fits
and that it has not come through an import. -/
theorem ofNode_eq_ofSites {ctx : Context} {above : List SyntaxTree} (h : ctx.Fits l source above)
    (hout : inImport l above = false) :
    (t : SyntaxTree) → ofNode l source ctx t = ofSites l source (t.sites above)
  | .node i cs => by
    have hbelow (hi : role? l i ≠ some .importing) : inImport l (.node i cs :: above) = false := by
      rw [inImport, List.any_cons, ← inImport, hout, Bool.or_false]
      exact beq_eq_false_iff_ne.2 hi
    -- an import hides what lies in it
    by_cases hi : role? l i = some .importing
    · rw [ofSites_of_importing hout hi, ofNode, hi]
    -- what is no import either declares something where it stands, or is gone through
    cases hk : (role? l i).bind (Outline.kind? ctx.enclosing) with
    | some kind =>
      obtain ⟨role, hr, hk⟩ := Option.bind_eq_some_iff.1 hk
      have hnode : ofNode l source ctx (.node i cs) =
          append { definitions := ((declaredName? source (.node i cs)).map
              (definitionAt l source ctx (.node i cs) kind)).toList }
            (ofNodes l source (inside ctx i kind (declaredName? source (.node i cs))) cs) := by
        rw [ofNode, hr]
        cases role with
        | importing => exact absurd hr hi
        | _ => simp only [hk]
      -- a declaration is no import, so it tells itself and what lies in it
      have himport : Site.import? l source ⟨above, .node i cs⟩ = none :=
        if_neg fun h => hi (beq_iff_eq.1 h.1)
      have hin := h.into (t := .node i cs) hr hk
      rw [hnode, SyntaxTree.sites, ofSites_cons, himport, definition?_eq h hout (t := .node i cs) hr hk,
        ← ofNodes_eq_ofSites hin (hbelow hi) cs]
      rfl
    | none =>
      -- what is neither is a wrapper that carries decorators, or has no role
      have hthrough : ∀ role, role? l i = some role → role = .decorated := by
        intro role hr
        rw [hr, Option.bind_some] at hk
        cases role with
        | importing => exact absurd hr hi
        | decorated => rfl
        | classLike => cases hk
        | method => cases hk
        | function =>
          rw [Outline.kind?] at hk
          split at hk <;> cases hk
      -- so it declares nothing, and the context stays what it is
      have hdeclares : (SyntaxTree.node i cs).Declares l = false := by
        cases hr : role? l i with
        | none => simp [Declares, HasRole, SyntaxTree.info, hr]
        | some role =>
          cases hthrough role hr
          simp [Declares, HasRole, SyntaxTree.info, hr]
      have hon := h.through hdeclares
      rw [ofNode_through hthrough, SyntaxTree.sites, ofSites_cons_through hthrough,
        ← ofNodes_eq_ofSites hon (hbelow hi) cs]
      rfl

theorem ofNodes_eq_ofSites {ctx : Context} {above : List SyntaxTree} (h : ctx.Fits l source above)
    (hout : inImport l above = false) :
    (ts : List SyntaxTree) → ofNodes l source ctx ts = ofSites l source (sitesAmong above ts)
  | [] => rfl
  | t :: ts => by
    rw [ofNodes, sitesAmong]
    split
    · rw [ofNode_eq_ofSites h hout t, ofNodes_eq_ofSites h hout ts, ofSites_append]
    · exact ofNodes_eq_ofSites h hout ts

end

/-- **The outline of a text is what the sites of its tree tell, in the order of the text**: the imports
that lie in no other one, and the named declarations that lie in none, each told by what is above it. -/
theorem ofSource?_eq_ofSites {g : Grammars} {t : SyntaxTree} (hl : g.supports l = true)
    (ht : g.parse l source = some t) :
    ofSource? g l source =
      some { imports := (t.sites []).filterMap (Site.import? l source)
             definitions := (t.sites []).filterMap (Site.definition? l source) } := by
  rw [ofSource?, if_pos hl, ht, Option.map_some, ofTree, ofNode_eq_ofSites (Context.fits_nil l source) rfl,
    ofSites]

end Agreement

/-! A decorated class whose method holds an import and a function. The function is no method, since the
nearest declaration above it is that of the method. -/

section Store

/-- The text of a class. -/
def storeText : String :=
  "import os\n@final\nclass Store:\n def get(self):\n  import re\n  def step(): pass\n"

/-- A name that is given to what lies around it. -/
def nameLeaf (startByte endByte row : Nat) : SyntaxTree :=
  .node ⟨"identifier", true, "name", startByte, endByte, row, row⟩ []

/-- The method of the class. -/
def storeMethod : SyntaxTree :=
  .node ⟨"function_definition", true, "", 31, 76, 3, 5⟩
    [nameLeaf 35 38 3,
      .node ⟨"block", true, "body", 48, 76, 4, 5⟩
        [.node ⟨"import_statement", true, "", 48, 57, 4, 4⟩ [],
          .node ⟨"function_definition", true, "", 60, 76, 5, 5⟩ [nameLeaf 64 68 5]]]

/-- The tree of the text. -/
def storeTree : SyntaxTree :=
  .node ⟨"module", true, "", 0, 77, 0, 6⟩
    [.node ⟨"import_statement", true, "", 0, 9, 0, 0⟩ [],
      .node ⟨"decorated_definition", true, "", 10, 76, 1, 5⟩
        [.node ⟨"decorator", true, "", 10, 16, 1, 1⟩ [],
          .node ⟨"class_definition", true, "definition", 17, 76, 2, 5⟩
            [nameLeaf 23 28 2, .node ⟨"block", true, "body", 31, 76, 3, 5⟩ [storeMethod]]]]

/-- A class with a method and a function in it, behind two imports. -/
theorem ofSource?_store :
    ofSource? (Grammars.ofTrees fun _ _ => some storeTree) .python storeText =
      some { imports := ["import os", "import re"]
             definitions :=
               [{ kind := .classLike, name := "Store", startRow := 1, endRow := 5, declRow := 2
                  parents := [] },
                { kind := .method, name := "get", startRow := 3, endRow := 5, declRow := 3
                  parents := ["Store"] },
                { kind := .function, name := "step", startRow := 5, endRow := 5, declRow := 5
                  parents := ["Store"] }] } := by
  have hparse : (Grammars.ofTrees fun _ _ => some storeTree).parse .python storeText =
      some storeTree := rfl
  -- what the sites tell is computed
  rw [ofSource?_eq_ofSites rfl hparse]
  congr 2
  · decide +kernel
  · decide +kernel

end Store

end Outline

end CodeSearch
