import CodeSearch.Retrieval.Result
import Mathlib.Data.List.Nodup

/-!
# Ranked results

Results are ranked by their scores, and equal scores fall back on what tells chunks apart. So the ranking of
results of different chunks is the only way to put them in order (`ranked_eq_of_pairwise`).

Candidates come from a store by score as well, but what a store falls back on is its own matter. When only
the first candidates are ranked, the chunks that were cut off may be missed in their place:

* `rank_eq_of_cut` — a chunk that was cut off goes before one that was not only if their scores are equal;
* `map_rank_take_ranked` — the scores in the ranking are the right ones, place by place;
* `take_ranked_take_eq_iff` — the ranking is the right one unless a chunk that was cut off goes before one
  of its results.
-/

namespace CodeSearch

namespace RetrievalResult

/-! ### The order of results -/

/-- The order is by score, the higher one first, and then by the ids. -/
theorem ranking_eq_compareLex :
    ranking = compareLex (fun a b => compareOn (fun r => r.score.rank) b a)
      (compareLex (compareOn documentId) (compareLex (compareOn startLine) (compareOn chunkId))) :=
  rfl

instance : Std.TransCmp ranking := by
  have hscore : Std.TransCmp fun a b : RetrievalResult => compareOn (fun r => r.score.rank) b a :=
    Std.TransCmp.opposite
  rw [ranking_eq_compareLex]
  infer_instance

/-- Results of one place are of one chunk. -/
theorem chunkId_eq_of_ranking {a b : RetrievalResult} (h : ranking a b = .eq) :
    a.chunkId = b.chunkId := by
  unfold ranking at h
  obtain ⟨-, h⟩ := Ordering.then_eq_eq.1 h
  obtain ⟨-, h⟩ := Ordering.then_eq_eq.1 h
  obtain ⟨-, h⟩ := Ordering.then_eq_eq.1 h
  exact Std.LawfulEqCmp.eq_of_compare h

/-- What goes before another result has no lower score. -/
theorem rank_le_of_ranking {a b : RetrievalResult} (h : (ranking a b).isLE = true) :
    b.score.rank ≤ a.score.rank := by
  unfold ranking at h
  have hscore := (Ordering.isLE_then_iff_and.1 h).1
  exact Int.isLE_compare.1 hscore

/-- Ranked results come in their order. -/
theorem pairwise_ranked (rs : List RetrievalResult) :
    (ranked rs).Pairwise fun a b => (ranking a b).isLE = true := by
  unfold ranked
  apply List.pairwise_mergeSort
  · intro a b c
    exact Std.TransCmp.isLE_trans
  · intro a b
    have hswap : ranking b a = (ranking a b).swap := Std.OrientedCmp.eq_swap
    rw [hswap]
    cases ranking a b <;> rfl

/-- **There is one way to put results of different chunks in order.** -/
theorem ranked_eq_of_pairwise {l rs : List RetrievalResult} (hperm : l.Perm rs)
    (hn : (rs.map chunkId).Nodup) (h : l.Pairwise fun a b => (ranking a b).isLE = true) :
    ranked rs = l := by
  have hperm' : (ranked rs).Perm l := (perm_ranked rs).trans hperm.symm
  refine List.Perm.eq_of_pairwise ?_ (pairwise_ranked rs) h hperm'
  intro a b ha hb hab hba
  have ha' : a ∈ rs := (perm_ranked rs).mem_iff.1 ha
  have hb' : b ∈ rs := hperm.mem_iff.1 hb
  exact List.inj_on_of_nodup_map hn ha' hb' (chunkId_eq_of_ranking (Std.OrientedCmp.isLE_antisymm hab hba))

/-! ### Scores in a ranking -/

/-- **Results that come by score are scored place by place as their ranking is.** -/
theorem map_rank_ranked {l : List RetrievalResult}
    (hscore : l.Pairwise fun a b => b.score.rank ≤ a.score.rank) :
    (ranked l).map (·.score.rank) = l.map (·.score.rank) := by
  have hranked : (ranked l).Pairwise fun a b => b.score.rank ≤ a.score.rank :=
    (pairwise_ranked l).imp rank_le_of_ranking
  -- both lists of ranks descend, and they have the same members
  refine List.Perm.eq_of_pairwise (fun a b _ _ hab hba => Int.le_antisymm hba hab)
    (List.pairwise_map.2 hranked) (List.pairwise_map.2 hscore) ?_
  exact (perm_ranked l).map _

/-! ### Ranking the first candidates -/

section Cut

variable {l : List RetrievalResult} (hscore : l.Pairwise fun a b => b.score.rank ≤ a.score.rank) {k n : Nat}

include hscore

/-- What was cut off goes before what was not only if their scores are equal. -/
theorem rank_eq_of_cut {x r : RetrievalResult} (hx : x ∈ l.drop n) (hr : r ∈ ranked (l.take n))
    (h : (ranking x r).isLE = true) : x.score.rank = r.score.rank := by
  rw [← List.take_append_drop n l, List.pairwise_append] at hscore
  have hr' : r ∈ l.take n := (perm_ranked _).mem_iff.1 hr
  exact Int.le_antisymm (hscore.2.2 r hr' x hx) (rank_le_of_ranking h)

/-- The scores of the first results are those of the first results of all. -/
theorem map_rank_take_ranked (hk : k ≤ n) :
    ((ranked (l.take n)).take k).map (·.score.rank) = ((ranked l).take k).map (·.score.rank) := by
  have hfirst : (l.take n).Pairwise fun a b => b.score.rank ≤ a.score.rank :=
    hscore.sublist (List.take_sublist n l)
  calc
    ((ranked (l.take n)).take k).map (·.score.rank)
    _ = ((ranked (l.take n)).map (·.score.rank)).take k := List.map_take
    _ = ((l.map (·.score.rank)).take n).take k := by rw [map_rank_ranked hfirst, List.map_take]
    _ = (l.map (·.score.rank)).take k := by rw [List.take_take, Nat.min_eq_left hk]
    _ = ((ranked l).take k).map (·.score.rank) := by rw [List.map_take, map_rank_ranked hscore]

omit hscore

/-- Of ranked results none goes before one that stands earlier. -/
theorem isLE_of_mem_take_of_mem_drop {r x : RetrievalResult} (hr : r ∈ (ranked l).take k)
    (hx : x ∈ (ranked l).drop k) : (ranking r x).isLE = true := by
  have horder := pairwise_ranked l
  rw [← List.take_append_drop k (ranked l), List.pairwise_append] at horder
  exact horder.2.2 r hr x hx

variable (hn : (l.map chunkId).Nodup)

include hn

/-- Results have their own chunks, so nothing that is cut off is also kept. -/
theorem chunkId_ne_of_cut {r x : RetrievalResult} (hr : r ∈ l.take n) (hx : x ∈ l.drop n) :
    r.chunkId ≠ x.chunkId := by
  rw [← List.take_append_drop n l, List.map_append, List.nodup_append] at hn
  exact hn.2.2 _ (List.mem_map_of_mem hr) _ (List.mem_map_of_mem hx)

/-- If the first results go before whatever was cut off, then the others come after them in the ranking
of all. -/
theorem ranked_eq_append
    (hbefore : ∀ x ∈ l.drop n, ∀ r ∈ (ranked (l.take n)).take k, ranking r x = .lt) :
    ranked l =
      (ranked (l.take n)).take k ++ ranked ((ranked (l.take n)).drop k ++ l.drop n) := by
  have hsorted := pairwise_ranked (l.take n)
  rw [← List.take_append_drop k (ranked (l.take n)), List.pairwise_append] at hsorted
  refine ranked_eq_of_pairwise ?_ hn ?_
  · -- the same results are on both sides
    refine ((perm_ranked _).append_left _).trans ?_
    rw [← List.append_assoc, List.take_append_drop]
    exact ((perm_ranked _).append_right _).trans (List.Perm.of_eq (List.take_append_drop n l))
  · -- within the two parts they are in order, and what was not cut off stood after the first ones before
    refine List.pairwise_append.2 ⟨hsorted.1, pairwise_ranked _, fun r hr x hx => ?_⟩
    rcases List.mem_append.1 ((perm_ranked _).mem_iff.1 hx) with hx | hx
    · exact isLE_of_mem_take_of_mem_drop hr hx
    · rw [hbefore x hx r hr]
      rfl

/-- **The first results are the right ones** if they go before whatever was cut off, and only then. -/
theorem take_ranked_take_eq_iff (hk : k ≤ n) :
    (ranked (l.take n)).take k = (ranked l).take k ↔
      ∀ x ∈ l.drop n, ∀ r ∈ (ranked (l.take n)).take k, ranking r x = .lt := by
  have hfirst : ∀ r ∈ (ranked (l.take n)).take k, r ∈ l.take n := fun r hr =>
    (perm_ranked _).mem_iff.1 (List.mem_of_mem_take hr)
  constructor
  · intro heq x hx r hr
    -- what was cut off is ranked after the first results of all
    have hnot : x ∉ (ranked l).take k := fun hmem =>
      chunkId_ne_of_cut hn (hfirst x (heq ▸ hmem)) hx rfl
    have hall : x ∈ (ranked l).take k ++ (ranked l).drop k := by
      rw [List.take_append_drop]
      exact (perm_ranked l).mem_iff.2 (List.mem_of_mem_drop hx)
    have hlater : x ∈ (ranked l).drop k := (List.mem_append.1 hall).resolve_left hnot
    have hle := isLE_of_mem_take_of_mem_drop (heq ▸ hr) hlater
    cases h : ranking r x with
    | lt => rfl
    | eq => exact absurd (chunkId_eq_of_ranking h) (chunkId_ne_of_cut hn (hfirst r hr) hx)
    | gt =>
      -- the other way round it would not have come later
      rw [h] at hle
      cases hle
  · intro hbefore
    rw [ranked_eq_append hn hbefore]
    -- the first results of all are the whole first part, or there is no second one
    by_cases hfull : k ≤ (ranked (l.take n)).length
    · rw [List.take_left' (List.length_take_of_le hfull)]
    · -- there are too few results to cut any off
      have hlength : (ranked (l.take n)).length = min n l.length := by
        rw [(perm_ranked _).length_eq, List.length_take]
      have hshort : l.length ≤ n := by omega
      have hnone : (ranked (l.take n)).drop k = [] := List.drop_eq_nil_of_le (by omega)
      have hempty : ranked [] = [] := List.mergeSort_nil
      rw [hnone, List.drop_eq_nil_of_le hshort, List.append_nil, hempty, List.append_nil, List.take_take,
        Nat.min_self]

/-- The first results are those among more candidates too, if they are the right ones. -/
theorem take_ranked_take_of_le {n' : Nat} (hk : k ≤ n) (hle : n ≤ n')
    (h : (ranked (l.take n)).take k = (ranked l).take k) :
    (ranked (l.take n)).take k = (ranked (l.take n')).take k := by
  have hn' : ((l.take n').map chunkId).Nodup := hn.sublist ((List.take_sublist n' l).map chunkId)
  have htake : (l.take n').take n = l.take n := by rw [List.take_take, Nat.min_eq_left hle]
  have hbefore := (take_ranked_take_eq_iff hn hk).1 h
  rw [← htake]
  -- what is cut off later was cut off before too
  refine (take_ranked_take_eq_iff hn' hk).2 fun x hx r hr => ?_
  rw [htake] at hr
  rw [List.drop_take] at hx
  exact hbefore x (List.mem_of_mem_take hx) r hr

end Cut

end RetrievalResult

end CodeSearch
