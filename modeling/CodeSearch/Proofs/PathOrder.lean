import CodeSearch.Path

/-!
# The order of paths

Paths are put in order by their components, and these by their kinds and names. Both comparisons are
made of comparisons that are known to be orders: components are compared by two keys one after the other
(`Path.Component.compare_eq_compareLex`), and paths as words over components
(`Path.compareComponents_eq_compareLex`). So the order of paths is transitive, any two paths can be
compared, and two paths that neither goes before the other have the same components
(`Path.compare_eq_iff`).
-/

namespace CodeSearch

namespace Path

/-- A component with a name has the bytes of it for a second key, and the kinds of the others tell them apart. -/
theorem Component.compare_eq_compareLex :
    Component.compare =
      compareLex (compareOn rank) (compareOn fun c => (c.name?.map RawText.bytes).getD []) := by
  funext a b
  cases a with
  | normal n =>
    cases b with
    | normal n' => rfl
    | _ => rfl
  | _ => cases b <;> rfl

instance : Std.TransCmp Component.compare := by
  rw [Component.compare_eq_compareLex]
  infer_instance

instance : Std.LawfulEqCmp Component.compare where
  compare_self := Std.ReflCmp.compare_self
  eq_of_compare := by
    intro a b h
    cases a with
    | normal n =>
      cases b with
      | normal n' =>
        have hcompare : Ord.compare n.bytes n'.bytes = .eq := h
        have hbytes : n.bytes = n'.bytes := Std.LawfulEqCmp.eq_of_compare hcompare
        exact congrArg (fun bytes => Component.normal ⟨bytes⟩) hbytes
      | _ => cases h
    | _ =>
      cases b with
      | normal n' => cases h
      | _ => first | rfl | cases h

/-- Paths are compared as words over components: the first component that differs decides. -/
theorem compareComponents_eq_compareLex :
    compareComponents = List.compareLex Component.compare := by
  funext as bs
  induction as generalizing bs with
  | nil => cases bs <;> rfl
  | cons a as ih =>
    cases bs with
    | nil => rfl
    | cons b bs =>
      rw [compareComponents, List.compareLex, ih]
      cases a.compare b <;> rfl

instance : Std.TransCmp compareComponents := by
  rw [compareComponents_eq_compareLex]
  infer_instance

instance : Std.LawfulEqCmp compareComponents := by
  rw [compareComponents_eq_compareLex]
  infer_instance

instance : Std.TransCmp Path.compare where
  eq_swap := by
    intro p q
    change compareComponents p.components q.components = _
    exact Std.OrientedCmp.eq_swap
  isLE_trans := by
    intro p q r
    change (compareComponents p.components q.components).isLE = true → _
    exact Std.TransCmp.isLE_trans

/-- **Paths that stand at one place in the order have the same components.** -/
theorem compare_eq_iff {p q : Path} : p.compare q = .eq ↔ p.components = q.components := by
  change compareComponents p.components q.components = .eq ↔ _
  exact Std.LawfulEqCmp.compare_eq_iff_eq

/-- Paths that are neither before nor after each other have the same components. -/
theorem same_iff {p q : Path} : p.same q = true ↔ p.components = q.components := decide_eq_true_iff

/-- Of two paths the one that comes before has other components. -/
theorem components_ne_of_lt {p q : Path} (h : p.compare q = .lt) : p.components ≠ q.components := by
  intro he
  rw [compare_eq_iff.2 he] at h
  cases h

/-- **A sorted list of paths for different places ascends.** -/
theorem pairwise_lt_mergeSort {α : Type} (path : α → Path) {l : List α}
    (h : (l.map fun a => (path a).components).Nodup) :
    (l.mergeSort fun a b => ((path a).compare (path b)).isLE).Pairwise
      fun a b => (path a).compare (path b) = .lt := by
  -- sorting puts no path before one that it comes after
  have hle : (l.mergeSort fun a b => ((path a).compare (path b)).isLE).Pairwise
      fun a b => ((path a).compare (path b)).isLE = true := by
    apply List.pairwise_mergeSort
    · intro a b c
      exact Std.TransCmp.isLE_trans
    · intro a b
      have hswap : (path b).compare (path a) = ((path a).compare (path b)).swap :=
        Std.OrientedCmp.eq_swap
      rw [hswap]
      cases (path a).compare (path b) <;> rfl
  -- sorting leaves the paths as they are, so no two of them have the same components
  have hne : (l.mergeSort fun a b => ((path a).compare (path b)).isLE).Pairwise
      fun a b => (path a).components ≠ (path b).components := by
    have hperm := (List.mergeSort_perm l fun a b => ((path a).compare (path b)).isLE).map
      fun a => (path a).components
    exact List.pairwise_map.1 (hperm.nodup_iff.2 h)
  refine hle.imp₂ (fun a b hab hneq => ?_) hne
  cases hc : (path a).compare (path b) with
  | lt => rfl
  | eq => exact absurd (compare_eq_iff.1 hc) hneq
  | gt =>
    rw [hc] at hab
    cases hab

end Path

end CodeSearch
