import CodeSearch.Proofs.Embedding.Scaling
import CodeSearch.Proofs.Retrieval.Success
import Mathlib.Data.Set.Finite.Lemmas

/-!
# Discounted scores

A structural result has the discounted score of the direct result that brought in its document. If several
did, it has the score of the best of them: direct results come by score, a discount keeps the order of
scores, and of the results for one chunk the first one stays (`TopOf`).

A discount lowers no score that is negative. So a structural result goes before what brought it in, unless
the score of that one is not negative or the discount leaves it as it is (`structural_score`).
-/

namespace CodeSearch

namespace Retrieval

open RetrievalResult (ofStored ranking ranked)

/-! ### Results that come by score -/

/-- Whether results are of the chunks of a list, and no result of the list for one of their chunks has a
higher score. -/
structure TopOf (kept all : List RetrievalResult) : Prop where
  mem : ∀ x ∈ kept, x ∈ all
  top : ∀ x ∈ kept, ∀ y ∈ all, y.chunkId = x.chunkId → y.score.rank ≤ x.score.rank
  covers : ∀ y ∈ all, ∃ x ∈ kept, x.chunkId = y.chunkId

section TopOf

variable {kept all : List RetrievalResult} {x : RetrievalResult}

/-- A result for a chunk that had none before it joins the ones that stay. -/
theorem TopOf.append (h : TopOf kept all) (hnone : ∀ r ∈ kept, r.chunkId ≠ x.chunkId) :
    TopOf (kept ++ [x]) (all ++ [x]) := by
  constructor
  case mem =>
    intro y hy
    rcases List.mem_append.1 hy with hy | hy
    · exact List.mem_append_left _ (h.mem y hy)
    · exact List.mem_append_right _ hy
  case top =>
    intro z hz y hy hid
    rcases List.mem_append.1 hz with hz | hz <;> rcases List.mem_append.1 hy with hy | hy
    · exact h.top z hz y hy hid
    · -- the new one is for another chunk than all that stay
      rw [List.mem_singleton.1 hy] at hid
      exact absurd hid.symm (hnone z hz)
    · -- the chunk of the new result is none of those before it
      obtain ⟨w, hw, hwid⟩ := h.covers y hy
      rw [List.mem_singleton.1 hz] at hid
      exact absurd (hwid.trans hid) (hnone w hw)
    · rw [List.mem_singleton.1 hz, List.mem_singleton.1 hy]
  case covers =>
    intro y hy
    rcases List.mem_append.1 hy with hy | hy
    · -- what covered the results before still does
      obtain ⟨z, hz, hid⟩ := h.covers y hy
      exact ⟨z, List.mem_append_left _ hz, hid⟩
    · exact ⟨x, List.mem_append_right _ (List.mem_singleton.2 rfl), by rw [List.mem_singleton.1 hy]⟩

/-- A result that is dropped had a result for its chunk before it, with a score that is no lower. -/
theorem TopOf.drop (h : TopOf kept all) {r : RetrievalResult} (hr : r ∈ kept) (hid : r.chunkId = x.chunkId)
    (hle : x.score.rank ≤ r.score.rank) : TopOf kept (all ++ [x]) := by
  constructor
  case mem => exact fun y hy => List.mem_append_left _ (h.mem y hy)
  case top =>
    intro z hz y hy hyz
    rcases List.mem_append.1 hy with hy | hy
    · exact h.top z hz y hy hyz
    · rw [List.mem_singleton.1 hy] at hyz ⊢
      exact hle.trans (h.top z hz r (h.mem r hr) (hid.trans hyz))
  case covers =>
    intro y hy
    rcases List.mem_append.1 hy with hy | hy
    · exact h.covers y hy
    · exact ⟨r, hr, by rw [List.mem_singleton.1 hy, hid]⟩

/-- **Of results that come by score the first one for each chunk stays.** -/
theorem topOf_foldl (hscore : all.Pairwise fun a b => b.score.rank ≤ a.score.rank) :
    TopOf (all.foldl merge []) all := by
  -- the fold is from the left, so the list is taken apart at its end
  induction all using List.reverseRecOn with
  | nil =>
    exact ⟨fun x hx => absurd hx List.not_mem_nil, fun x hx => absurd hx List.not_mem_nil,
      fun y hy => absurd hy List.not_mem_nil⟩
  | append_singleton all x ih =>
    obtain ⟨hbefore, -, hlast⟩ := List.pairwise_append.1 hscore
    have htop := ih hbefore
    rw [List.foldl_append, List.foldl_cons, List.foldl_nil]
    rcases merge_cases (all.foldl merge []) x with ⟨hnone, heq⟩ | ⟨before, r, after, hkept, hid, heq⟩
    · rw [heq]
      exact htop.append hnone
    · -- the chunk has a result by now, which had its place in the list before this one
      have hr : r ∈ all.foldl merge [] := by
        rw [hkept]
        exact List.mem_append_right _ List.mem_cons_self
      have hmem : r ∈ all := htop.mem r hr
      have hle : x.score.rank ≤ r.score.rank := hlast r hmem x (List.mem_singleton.2 rfl)
      -- no later result has a higher score, so none takes the place of another one
      have hlt : ¬ r.score.value < x.score.value := fun h =>
        absurd (Score.rank_lt_of_value_lt h) (Int.not_lt.2 hle)
      rw [if_neg fun hboth => hlt hboth.2, ← hkept] at heq
      rw [heq]
      exact htop.drop hr hid hle

end TopOf

/-- Of the direct results the first one of each document is an origin, and they keep their order. -/
theorem origins_sublist (rs : List RetrievalResult) : (origins rs).Sublist rs := by
  induction rs with
  | nil => exact List.Sublist.slnil
  | cons r rs ih => exact (List.filter_sublist.trans ih).cons_cons r

variable {σ : Type} [VectorStore σ] [LawfulVectorStore σ] [TransparentVectorStore σ]

section Added

variable {s : σ} {c : StructuralContext} {settings : RetrievalSettings} {query : Embedding} {k : Nat}

/-- What brings in a document is one of the direct results. -/
theorem Brings.mem {direct : List RetrievalResult} {o : RetrievalResult} {document : String}
    (h : Brings c settings direct k o document) : o ∈ direct :=
  (RetrievalResult.perm_ranked direct).mem_iff.1 (List.mem_of_find?_eq_some h.2.1)

/-- What an origin brings in has its score at a discount. -/
theorem score_of_mem_addedBy {o x : RetrievalResult} (hx : x ∈ addedBy s c settings query o) :
    x.score = o.score.scale settings.structuralDiscount := by
  obtain ⟨t, -, rfl⟩ := List.mem_map.1 hx
  rfl

variable (hd : Settings.properDiscount settings.structuralDiscount = true)

include hd

/-- **What is added comes by score.** -/
theorem pairwise_rank_added :
    (added s c settings query (fetched s settings query k) k).Pairwise
      fun a b => b.score.rank ≤ a.score.rank := by
  have horigins : (origins ((ranked (fetched s settings query k)).take k)).Sublist
      (ranked (fetched s settings query k)) := (origins_sublist _).trans (List.take_sublist k _)
  have hranked := ((RetrievalResult.pairwise_ranked _).sublist horigins).imp
    fun {a b} => RetrievalResult.rank_le_of_ranking (a := a) (b := b)
  refine List.Pairwise.filter _ (List.pairwise_flatMap.2 ⟨fun o _ => ?_, ?_⟩)
  -- within one origin
  · -- all that one result adds has one score
    refine List.pairwise_of_forall_mem_list fun x hx y hy => ?_
    rw [score_of_mem_addedBy hx, score_of_mem_addedBy hy]
  · -- and of two origins the later one has the lower score, with or without the discount
    refine hranked.imp fun {o o'} hle x hx y hy => ?_
    rw [score_of_mem_addedBy hx, score_of_mem_addedBy hy]
    exact Score.rank_scale_mono hd hle

/-- What is added is cut down by chunk in the order of the scores, so the highest stay. -/
theorem topOf_added : TopOf ((added s c settings query (fetched s settings query k) k).foldl merge [])
    (added s c settings query (fetched s settings query k) k) :=
  topOf_foldl (pairwise_rank_added hd)

/-- **The score of what is added for a chunk** is that of the best direct result that brings in its
document. -/
theorem exists_best_origin {x : RetrievalResult}
    (hx : x ∈ (added s c settings query (fetched s settings query k) k).foldl merge []) :
    ∃ o, Brings c settings (fetched s settings query k) k o x.documentId ∧
      (∀ o', Brings c settings (fetched s settings query k) k o' x.documentId →
        o'.score.rank ≤ o.score.rank) ∧
      x.score.rank = (o.score.scale settings.structuralDiscount).rank := by
  have htop : TopOf ((added s c settings query (fetched s settings query k) k).foldl merge [])
      (added s c settings query (fetched s settings query k) k) := topOf_added hd
  obtain ⟨hid, o₁, document, t, hbrings, hbest, hxt⟩ := mem_added.1 (htop.mem x hx)
  have hdocument : x.documentId = document := by
    rw [hxt]
    exact documentId_of_best? hbest _ _
  have hchunk : x.chunkId = t.id := by
    rw [hxt]
    rfl
  rw [hdocument]
  -- of those that bring in the document, one has the highest score
  have hfinite : {o | Brings c settings (fetched s settings query k) k o document}.Finite :=
    (List.finite_toSet (fetched s settings query k)).subset fun o ho => Brings.mem ho
  obtain ⟨o, ho, hmax⟩ := Set.exists_max_image _ (fun o => o.score.rank) hfinite ⟨o₁, hbrings⟩
  refine ⟨o, ho, hmax, Int.le_antisymm ?_ ?_⟩
  · -- the result has the score of some origin, and none is above the best one
    rw [hxt]
    exact Score.rank_scale_mono hd (hmax o₁ hbrings)
  · -- what the best one would have added for the same chunk was met as well, and was no higher
    rw [hchunk] at hid
    exact htop.top x hx (ofStored t (o.score.scale settings.structuralDiscount) .structural)
      (mem_added.2 ⟨hid, o, document, t, ho, hbest, rfl⟩) hchunk.symm

end Added

variable [ThoroughVectorStore σ]

/-- **A structural result has the discounted score of the best direct result that brought it in.** It has no
higher score than that one, or any other that brought it in, exactly if the score of that one is not negative
or the discount leaves it as it is. -/
theorem structural_score {s : σ} (hs : Valid s) {settings : Settings} (hcheck : settings.check = .ok ())
    {e : Embedder} {c : StructuralContext} {text : String} {k : Nat} {rs : List RetrievalResult}
    (h : retrieve s e (some c) settings.retrieval text k true = .ok rs) {x : RetrievalResult} (hx : x ∈ rs)
    (hsource : x.source = .structural) :
    ∃ query direct o, e.embed text = .ok query ∧ candidates s settings.retrieval query k = .ok direct ∧
      Brings c settings.retrieval direct k o x.documentId ∧
      (∀ o', Brings c settings.retrieval direct k o' x.documentId → o'.score.rank ≤ o.score.rank) ∧
      x.score.rank = (o.score.scale settings.retrieval.structuralDiscount).rank ∧
      ((∃ o', Brings c settings.retrieval direct k o' x.documentId ∧ x.score.rank ≤ o'.score.rank) ↔
        ¬ o.score.value < 0 ∨ x.score.rank = o.score.rank) := by
  have hd := ((Settings.check_eq_ok_iff settings).1 hcheck).1
  -- asked for nothing, there are no results
  have hk : k ≠ 0 := by
    rintro rfl
    obtain rfl := Except.ok.inj h
    cases hx
  obtain ⟨query, hquery, hread, hsize, hanswer⟩ := retrieve_ok hs hk h
  rw [if_pos rfl, answer_eq hs hread hsize] at hanswer
  obtain rfl := Except.ok.inj hanswer
  have hadded : x ∈ (added s c settings.retrieval query (fetched s settings.retrieval query k) k).foldl
      merge [] := by
    -- a fetched result is marked as one of the vectors
    rcases List.mem_append.1 ((RetrievalResult.perm_ranked _).mem_iff.1 (List.mem_of_mem_take hx)) with hx | hx
    · rw [source_of_mem_fetched hx] at hsource
      cases hsource
    · exact hx
  obtain ⟨o, ho, hmax, hscore⟩ := exists_best_origin hd hadded
  refine ⟨query, _, o, hquery, candidates_eq hs hread hsize _ k, ho, hmax, hscore, ?_⟩
  constructor
  · -- a score below zero only rises by the discount, so it stays under no origin unless it is equal
    rintro ⟨o', ho', hle⟩
    by_cases hneg : o.score.value < 0
    · have hge := Score.le_rank_scale hd hneg
      rw [← hscore] at hge
      exact Or.inr (Int.le_antisymm (hle.trans (hmax o' ho')) hge)
    · exact Or.inl hneg
  · rintro (hneg | heq)
    · refine ⟨o, ho, ?_⟩
      rw [hscore]
      exact Score.rank_scale_le hd hneg
    · exact ⟨o, ho, Int.le_of_eq heq⟩

/-! ### Scores below zero -/

/-- Two documents that are the opposite of every query. -/
def opposedChunks : Memory :=
  (IndexStore.Operation.addChunks unitEmbedder [wholeChunk "a.py" [-1], wholeChunk "b.py" [-1]]).after
    VectorStore.empty

theorem reachable_opposedChunks : IndexStore.Reachable opposedChunks := .after .empty _

/-- Settings by which no more candidates are fetched than results are asked for. -/
def opposedSettings : Settings := { retrieval := { candidateMultiplier := 1 } }

theorem check_opposedSettings : opposedSettings.check = .ok () :=
  (Settings.check_eq_ok_iff _).2 ⟨by decide, by decide, by decide, by decide⟩

/-- The chunk of one of the documents. -/
def opposedHit (document : String) : Hit :=
  (wholePoint document [-1]).hit [1]

/-- The result that it makes with a score. -/
def opposedResult (document : String) (score : Score) (source : MatchSource) : RetrievalResult :=
  ofStored (.ofHit (opposedHit document)) score source

/-- The score of an opposite. -/
def opposedScore : Score := Embedding.similarity [1] [-1]

theorem points_opposedChunks :
    points opposedChunks chunksCollection = [wholePoint "a.py" [-1], wholePoint "b.py" [-1]] := rfl

theorem size_opposedChunks (n : Nat) (h : (holdings opposedChunks).size? chunksCollection = some n) :
    ([1] : Embedding).length = n := Option.some.inj h

theorem fetched_opposedChunks :
    fetched opposedChunks opposedSettings.retrieval [1] 1 = [opposedResult "a.py" opposedScore .vector] := by
  have hsorted : [opposedHit "a.py", opposedHit "b.py"].Pairwise fun x y => x.precedes y = true := by
    decide +kernel
  have hranked := List.mergeSort_of_pairwise hsorted
  unfold fetched chunks IndexStore.found
  rw [points_opposedChunks]
  exact congrArg (fun hits => ((hits.map StoredText.ofHit).map fun t => ofStored t t.score .vector).take 1)
    hranked

theorem best?_opposedChunks : best? opposedChunks [1] "b.py" = some (.ofHit (opposedHit "b.py")) := by
  unfold best? IndexStore.found
  rw [points_opposedChunks]
  exact congrArg (fun hits => (hits.map StoredText.ofHit).head?) (List.mergeSort_singleton _)

theorem added_opposedChunks :
    added opposedChunks sideContext opposedSettings.retrieval [1]
      [opposedResult "a.py" opposedScore .vector] 1 =
        [opposedResult "b.py" (opposedScore.scale 0.8) .structural] := by
  -- the two files are next to one another in the graph
  have hrelated : relatedDocuments sideContext 3 "a.py" = ["b.py"] := by decide
  have hone : addedBy opposedChunks sideContext opposedSettings.retrieval [1]
      (opposedResult "a.py" opposedScore .vector) =
        [opposedResult "b.py" (opposedScore.scale 0.8) .structural] := by
    unfold addedBy
    change ((relatedDocuments sideContext 3 "a.py").map _).reduceOption.map _ = _
    rw [hrelated, List.map_singleton, best?_opposedChunks]
    rfl
  unfold added
  rw [ranked, List.mergeSort_singleton]
  change (addedBy _ _ _ _ _ ++ []).filter _ = _
  rw [hone]
  rfl

/-- Most of a negative score is more than all of it. -/
theorem retrieve_opposedChunks :
    retrieve opposedChunks unitEmbedder (some sideContext) opposedSettings.retrieval "q" 1 true =
      .ok [opposedResult "b.py" (opposedScore.scale 0.8) .structural] := by
  have hranked : ranked [opposedResult "a.py" opposedScore .vector,
      opposedResult "b.py" (opposedScore.scale 0.8) .structural] =
      [opposedResult "b.py" (opposedScore.scale 0.8) .structural,
        opposedResult "a.py" opposedScore .vector] :=
    -- by score the discounted one is first
    RetrievalResult.ranked_eq_of_pairwise (List.Perm.swap _ _ _) (by decide) (by decide +kernel)
  change answer opposedChunks (some sideContext) opposedSettings.retrieval [1] 1 = _
  rw [answer_eq reachable_opposedChunks.sound.valid (fun _ _ => rfl) size_opposedChunks, fetched_opposedChunks,
    added_opposedChunks]
  exact congrArg (fun rs => Except.ok (rs.take 1)) hranked

/-- What is brought in has most of the score of what brought it in. -/
theorem structural_score_opposedChunks :
    ∃ query direct o, unitEmbedder.embed "q" = .ok query ∧
      candidates opposedChunks opposedSettings.retrieval query 1 = .ok direct ∧
      Brings sideContext opposedSettings.retrieval direct 1 o "b.py" ∧
      (opposedScore.scale 0.8).rank = (o.score.scale 0.8).rank := by
  have hdocument : (opposedResult "b.py" (opposedScore.scale 0.8) .structural).documentId = "b.py" := by
    decide
  obtain ⟨query, direct, o, hquery, hdirect, hbrings, -, hscore, -⟩ :=
    structural_score reachable_opposedChunks.sound.valid check_opposedSettings retrieve_opposedChunks
      List.mem_cons_self rfl
  rw [hdocument] at hbrings
  exact ⟨query, direct, o, hquery, hdirect, hbrings, hscore⟩

/-- **A structural result can go before everything that brought it in.** -/
theorem structural_outranks_origin :
    ¬ ∀ (s : Memory) (settings : Settings) (e : Embedder) (c : StructuralContext) (text : String) (k : Nat)
      (rs : List RetrievalResult), IndexStore.Reachable s → settings.check = .ok () →
      retrieve s e (some c) settings.retrieval text k true = .ok rs →
      ∀ x ∈ rs, x.source = .structural → ∃ query direct o, e.embed text = .ok query ∧
        candidates s settings.retrieval query k = .ok direct ∧
        Brings c settings.retrieval direct k o x.documentId ∧ x.score.rank ≤ o.score.rank := by
  intro h
  obtain ⟨query, direct, o, hquery, hdirect, hbrings, hle⟩ := h opposedChunks opposedSettings unitEmbedder
    sideContext "q" 1 _ reachable_opposedChunks check_opposedSettings retrieve_opposedChunks _
    -- the only result is the one that was brought in
    List.mem_cons_self rfl
  obtain rfl : [1] = query := Except.ok.inj hquery
  rw [candidates_eq reachable_opposedChunks.sound.valid (fun _ _ => rfl) size_opposedChunks, fetched_opposedChunks]
    at hdirect
  obtain rfl := Except.ok.inj hdirect
  -- and the only one that could bring it in is below it
  obtain rfl := List.mem_singleton.1 hbrings.mem
  exact absurd hle (by decide +kernel)

end Retrieval

end CodeSearch
