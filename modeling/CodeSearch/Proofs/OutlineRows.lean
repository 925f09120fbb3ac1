import CodeSearch.Proofs.Outline

/-!
# Rows of declarations

A declaration has three rows: the first one, the one in which the declaration itself starts, and the last one. The
first row is that of a wrapper right above the node, if there is one, and the other two are rows of the node. So their
order is not one of a node, but of a node and the one above it (`SyntaxTree.Site.RowsInOrder`).

* `SyntaxTree.rowsInOrder` — the order of rows in a tree: no node ends before it starts, and none starts before the
  one right above it;
* `SyntaxTree.rowsInOrder_of_mem_sites` — all sites of such a tree have their rows in order;
* `Outline.rows_of_ofTree` — so have all declarations;
* `Outline.pairwise_declRow` — if rows do not decrease on the way through the tree, then declarations do not either.
-/

namespace CodeSearch

namespace SyntaxTree

mutual

/-- Whether no node ends before it starts, and none starts before the one right above it. -/
def rowsInOrder : SyntaxTree → Bool
  | .node i cs => decide (i.startRow ≤ i.endRow) && rowsInOrderBelow i.startRow cs

/-- Whether the trees of a list have their rows in order and none starts before a row. -/
def rowsInOrderBelow (first : Nat) : List SyntaxTree → Bool
  | [] => true
  | t :: ts => decide (first ≤ t.info.startRow) && (t.rowsInOrder && rowsInOrderBelow first ts)

end

/-- Whether rows do not decrease in preorder: no site starts before one that it comes after. -/
def RowsAscend (t : SyntaxTree) : Prop :=
  (t.sites []).Pairwise fun s s' => s.node.info.startRow ≤ s'.node.info.startRow

/-- Whether a node ends no earlier than it starts, and starts no earlier than the one right above it. -/
structure Site.RowsInOrder (s : Site) : Prop where
  ends : s.node.info.startRow ≤ s.node.info.endRow
  below : ∀ p ∈ s.above.head?, p.info.startRow ≤ s.node.info.startRow

/-- A node ends no earlier than it starts, and no tree below it starts earlier. -/
theorem rowsInOrder_node {i : NodeInfo} {cs : List SyntaxTree} (h : (node i cs).rowsInOrder = true) :
    i.startRow ≤ i.endRow ∧ rowsInOrderBelow i.startRow cs = true := by
  rwa [rowsInOrder, Bool.and_eq_true, decide_eq_true_iff] at h

/-- The rows of some trees are in order if those of each are. -/
theorem rowsInOrderBelow_cons {first : Nat} {t : SyntaxTree} {ts : List SyntaxTree}
    (h : rowsInOrderBelow first (t :: ts) = true) :
    first ≤ t.info.startRow ∧ t.rowsInOrder = true ∧ rowsInOrderBelow first ts = true := by
  rwa [rowsInOrderBelow, Bool.and_eq_true, Bool.and_eq_true, decide_eq_true_iff] at h

mutual

/-- **All sites of a tree with its rows in order have theirs in order**, if the tree does not start before what lies
right above it. -/
theorem rowsInOrder_of_mem_sites {above : List SyntaxTree} {s : Site} :
    (t : SyntaxTree) → t.rowsInOrder = true → (∀ p ∈ above.head?, p.info.startRow ≤ t.info.startRow) →
      s ∈ t.sites above → s.RowsInOrder
  | .node i cs => by
    intro hrows habove hs
    obtain ⟨hends, hbelow⟩ := rowsInOrder_node hrows
    rw [sites] at hs
    rcases List.mem_cons.1 hs with rfl | hs
    · exact ⟨hends, habove⟩
    · exact rowsInOrder_of_mem_sitesAmong (p := .node i cs) cs hbelow hs

/-- Among trees with their rows in order the rows of all sites are. -/
theorem rowsInOrder_of_mem_sitesAmong {above : List SyntaxTree} {p : SyntaxTree} {s : Site} :
    (ts : List SyntaxTree) → rowsInOrderBelow p.info.startRow ts = true → s ∈ sitesAmong (p :: above) ts →
      s.RowsInOrder
  | [] => by
    intro _ hs
    cases hs
  | t :: ts => by
    intro hrows hs
    obtain ⟨hfirst, ht, hts⟩ := rowsInOrderBelow_cons hrows
    rw [sitesAmong] at hs
    split at hs
    · rcases List.mem_append.1 hs with hs | hs
      · -- the site is one of the first tree, which does not start before the node above
        refine rowsInOrder_of_mem_sites t ht (fun q hq => ?_) hs
        obtain rfl : p = q := Option.some.inj hq
        exact hfirst
      · exact rowsInOrder_of_mem_sitesAmong ts hts hs
    · exact rowsInOrder_of_mem_sitesAmong ts hts hs

end

end SyntaxTree

namespace Outline

open SyntaxTree (Site)

variable {l : Language} {source : String} {t : SyntaxTree} {d : Definition}

/-- A declaration starts in the row of its node, and ends with it. -/
theorem rows_of_definition? {s : Site} (h : s.definition? l source = some d) :
    d.startRow = s.startRow l ∧ d.declRow = s.node.info.startRow ∧ d.endRow = s.node.info.endRow := by
  rw [Site.definition?] at h
  split at h
  · cases h
  · obtain ⟨kind, -, h⟩ := Option.bind_eq_some_iff.1 h
    obtain ⟨name, -, rfl⟩ := Option.map_eq_some_iff.1 h
    exact ⟨rfl, rfl, rfl⟩

/-- The first row of a declaration is not below that of its node, with or without a wrapper. -/
theorem startRow_le {s : Site} (h : s.RowsInOrder) : s.startRow l ≤ s.node.info.startRow := by
  rw [Site.startRow]
  split
  next p above habove =>
    split
    · apply h.below p
      rw [habove]
      exact rfl
    · exact Nat.le_refl _
  next => exact Nat.le_refl _

/-- The outline of a tree is what its sites tell. -/
theorem definitions_ofTree (l : Language) (source : String) (t : SyntaxTree) :
    (ofTree l source t).definitions = (t.sites []).filterMap (Site.definition? l source) := by
  rw [ofTree, ofNode_eq_ofSites (Context.fits_nil l source) rfl, ofSites]

/-- **The declarations of a tree with its rows in order have theirs in order.** -/
theorem rows_of_ofTree (ht : t.rowsInOrder = true) (hd : d ∈ (ofTree l source t).definitions) :
    d.startRow ≤ d.declRow ∧ d.declRow ≤ d.endRow := by
  rw [definitions_ofTree] at hd
  obtain ⟨s, hs, hdefinition⟩ := List.mem_filterMap.1 hd
  have hrows : s.RowsInOrder := SyntaxTree.rowsInOrder_of_mem_sites t ht (by simp) hs
  obtain ⟨hstart, hdecl, hend⟩ := rows_of_definition? hdefinition
  rw [hstart, hdecl, hend]
  exact ⟨startRow_le hrows, hrows.ends⟩

/-- **Where rows do not decrease in preorder, declarations stand in the order of their rows.** -/
theorem pairwise_declRow (ht : t.RowsAscend) :
    (ofTree l source t).definitions.Pairwise fun d e => d.declRow ≤ e.declRow := by
  rw [definitions_ofTree, List.pairwise_filterMap]
  apply ht.imp
  intro s s' hle d hd e he
  rwa [(rows_of_definition? hd).2.1, (rows_of_definition? he).2.1]

end Outline

end CodeSearch
