import CodeSearch.Embedding.Hashing
import CodeSearch.Proofs.Embedding.Wholes

/-!
# Vectors of words

A text is read from left to right, with the part of a word that was read kept until the word ends. A separator ends
whatever was read and nothing is carried over it, so the words of a text in front of a separator and those of the
text behind it are read one after the other (`Hashing.words_separated`).

The votes of the words are cast one after the other, each in its own component, in single precision
(`Hashing.accumulate`). A component does not notice the votes for others, and while it counts it is a whole number
(`Hashing.ofInt_tally`), so what it holds in the end is the count of its own votes, however the votes for several
components were mixed (`Hashing.accumulate_eq`). A count keeps to the range of 24 binary digits, at whose ends a
further vote is lost; there the order of the votes matters. With fewer votes than lead out of that range none is
lost and the count is their sum (`Hashing.count_eq_total`), whatever their order.

`Hashing.vector_of_words` puts this together: a vector depends on the words alone, and on how often each occurs.
-/

namespace CodeSearch

namespace Hashing

/-! ### Words -/

/-- **Nothing is carried over a separator.** -/
theorem wordsFrom_separated {c : Char} (hc : isAlphanumeric c = false) (word : List Char) (wasSmall : Bool)
    (a b : List Char) :
    wordsFrom word wasSmall (a ++ c :: b) = wordsFrom word wasSmall a ++ wordsFrom [] false b := by
  -- along the text in front of the separator, with whatever was read of a word before
  induction a generalizing word wasSmall with
  | nil => rw [List.nil_append, wordsFrom, wordsFrom, if_neg (Bool.eq_false_iff.1 hc)]
  | cons d a ih =>
    rw [List.cons_append, wordsFrom, wordsFrom]
    split
    · -- the letter goes on with a word or begins another one
      dsimp only
      split
      · rw [ih, List.cons_append]
      · exact ih _ _
    · rw [ih, List.append_assoc]

/-- **The words of two texts with a separator between them** are those of the first and those of the second. -/
theorem words_separated {c : Char} (hc : isAlphanumeric c = false) (a b : List Char) :
    words (a ++ c :: b) = words a ++ words b := by
  rw [words, wordsFrom_separated hc, List.filter_append]
  rfl

/-! ### Votes -/

/-- What a vote counts. -/
def Vote.sign (v : Vote) : ℤ := if v.positive then 1 else -1

/-- A vote counts one. -/
theorem Vote.natAbs_sign (v : Vote) : v.sign.natAbs = 1 := by
  unfold Vote.sign
  split <;> rfl

/-- The sum of the votes for a component. -/
def total (votes : List Vote) (bucket : ℕ) : ℤ := ((votes.filter fun v => v.bucket == bucket).map Vote.sign).sum

/-- The order of votes does not matter for their sum. -/
theorem total_of_perm {votes votes' : List Vote} (h : votes.Perm votes') (bucket : ℕ) :
    total votes bucket = total votes' bucket :=
  ((h.filter _).map _).sum_eq

/-- A sum of votes is not greater than their number, nor smaller than it with a minus sign. -/
theorem natAbs_total_le (votes : List Vote) (bucket : ℕ) : (total votes bucket).natAbs ≤ votes.length := by
  unfold total
  induction votes with
  | nil => exact le_rfl
  | cons v votes ih =>
    rw [List.filter_cons, List.length_cons]
    split
    · -- a vote for the component adds one at most
      rw [List.map_cons, List.sum_cons]
      have hle := Int.natAbs_add_le v.sign ((votes.filter fun v => v.bucket == bucket).map Vote.sign).sum
      have hsign := v.natAbs_sign
      omega
    · exact ih.trans (Nat.le_succ _)

/-- A vote does not lead out of the range. -/
theorem tally_mem {n : ℤ} (h : -greatest ≤ n ∧ n ≤ greatest) (positive : Bool) :
    -greatest ≤ tally n positive ∧ tally n positive ≤ greatest := by
  unfold tally greatest at *
  split <;> omega

/-- While there are too few votes to lead out of the range, none is lost. -/
theorem foldl_tally (votes : List Vote) {n : ℤ} (h : (n.natAbs + votes.length : ℤ) ≤ greatest) :
    (votes.map Vote.positive).foldl tally n = n + (votes.map Vote.sign).sum := by
  induction votes generalizing n with
  | nil => simp
  | cons v votes ih =>
    -- one vote leads one away at most, and one fewer has yet to be cast
    have hstep : tally n v.positive = n + v.sign := by
      rw [List.length_cons] at h
      unfold tally Vote.sign greatest at *
      split <;> omega
    rw [List.map_cons, List.foldl_cons, hstep, ih, List.map_cons, List.sum_cons, add_assoc]
    have hsign := v.natAbs_sign
    have hle := Int.natAbs_add_le n v.sign
    rw [List.length_cons] at h
    omega

/-- **Of few votes the count is the sum.** -/
theorem count_eq_total {votes : List Vote} (h : votes.length < 2 ^ 24) (bucket : ℕ) :
    count votes bucket = total votes bucket := by
  have hlength := List.length_filter_le (fun v : Vote => v.bucket == bucket) votes
  rw [count, foldl_tally, zero_add, total]
  unfold greatest
  omega

/-! ### Votes cast in place -/

/-- What a vote adds to its component. -/
def weight (positive : Bool) : Float32 := if positive then 1 else -1

/-- Casts a vote. -/
def cast (x : List Float32) (v : Vote) : List Float32 := x.modify v.bucket (· + weight v.positive)

/-- The components after some votes, cast one after the other. -/
def accumulate (dimensions : ℕ) (votes : List Vote) : List Float32 :=
  votes.foldl cast (List.replicate dimensions 0)

/-- **A component holds its count**: a vote that leads out of the range is lost by rounding. -/
theorem ofInt_tally {n : ℤ} (h : -greatest ≤ n ∧ n ≤ greatest) (positive : Bool) :
    Float32.ofInt n + weight positive = Float32.ofInt (tally n positive) := by
  by_cases hin : -greatest + 1 < n ∧ n < greatest - 1
  · -- inside the range whole numbers are added exactly
    have hsmall : ∀ d : ℤ, d.natAbs = 1 → Float32.ofInt n + Float32.ofInt d = Float32.ofInt (n + d) := by
      intro d hd
      unfold greatest at hin
      exact FloatOrder.ofInt_add (by omega) (by omega) (by omega)
    have hplus : (1 : Float32) = Float32.ofInt 1 := rfl
    have hminus : (-1 : Float32) = Float32.ofInt (-1) := rfl
    unfold weight tally
    split
    · rw [min_eq_left (by omega), hplus, hsmall 1 rfl]
    · rw [max_eq_left (by omega), hminus, hsmall (-1) rfl, sub_eq_add_neg]
  -- so there are four numbers to be tried, each with two votes
  · -- at the ends a vote may be lost, which is computed
    have hend : n = -greatest ∨ n = -greatest + 1 ∨ n = greatest - 1 ∨ n = greatest := by omega
    rcases hend with rfl | rfl | rfl | rfl <;> cases positive <;> decide +kernel

/-- A vote changes one count. -/
theorem cast_ofInt (dimensions : ℕ) {f : ℕ → ℤ} (hf : ∀ i, -greatest ≤ f i ∧ f i ≤ greatest) (v : Vote) :
    cast ((List.range dimensions).map fun i => Float32.ofInt (f i)) v =
      (List.range dimensions).map fun i => Float32.ofInt (if v.bucket = i then tally (f i) v.positive else f i) := by
  refine List.ext_getElem? fun i => ?_
  rw [cast, List.getElem?_modify, List.getElem?_map, List.getElem?_map]
  -- a component there is counts the vote if it is for it, and others are not there
  rcases lt_or_ge i dimensions with hi | hi
  · rw [List.getElem?_range hi]
    refine congrArg some ?_
    dsimp only
    split
    · exact ofInt_tally (hf i) _
    · rfl
  · rw [List.getElem?_eq_none (by rwa [List.length_range])]
    rfl

/-- **Votes for other components change nothing**: every component counts its own. -/
theorem foldl_cast (dimensions : ℕ) (votes : List Vote) {f : ℕ → ℤ} (hf : ∀ i, -greatest ≤ f i ∧ f i ≤ greatest) :
    votes.foldl cast ((List.range dimensions).map fun i => Float32.ofInt (f i)) =
      (List.range dimensions).map fun i => Float32.ofInt
        (((votes.filter fun v => v.bucket == i).map Vote.positive).foldl tally (f i)) := by
  -- whatever the components count already, as long as they keep to the range
  induction votes generalizing f with
  | nil => rfl
  | cons v votes ih =>
    rw [List.foldl_cons, cast_ofInt dimensions hf, ih]
    · refine List.map_congr_left fun i _ => ?_
      rw [List.filter_cons]
      -- the vote goes to the count of its component alone
      by_cases hi : v.bucket = i
      · rw [if_pos hi, if_pos (beq_iff_eq.2 hi), List.map_cons, List.foldl_cons]
      · rw [if_neg hi, if_neg (fun h => hi (beq_iff_eq.1 h))]
    · intro i
      split
      · exact tally_mem (hf i) _
      · exact hf i

/-- **What votes leave in the components**, cast in whatever order, are the counts. -/
theorem accumulate_eq (dimensions : ℕ) (votes : List Vote) :
    accumulate dimensions votes = (List.range dimensions).map fun i => Float32.ofInt (count votes i) := by
  have hzero : List.replicate dimensions (0 : Float32) =
      (List.range dimensions).map fun _ => Float32.ofInt 0 := by
    rw [List.map_const', List.length_range]
    rfl
  rw [accumulate, hzero, foldl_cast dimensions votes fun _ => by decide]
  rfl

/-! ### Vectors -/

/-- A vector brought to length 1, unless it is zero. -/
def direction (x : List Float32) : List Float32 :=
  if 0 < (Embedding.norm x).value then x.map (· / (Embedding.norm x).value) else x

/-- The votes of the words of a text, in their order. -/
def votesOf (dimensions : ℕ) (text : String) : List Vote :=
  (words text.toList).map (vote (components dimensions))

/-- **The vector of a text** is what the votes of its words leave in the components, brought to length 1. -/
theorem vector_eq_direction (dimensions : ℕ) (text : String) :
    vector dimensions text = direction (accumulate (components dimensions) (votesOf dimensions text)) := by
  change direction ((counts (components dimensions) text).map Float32.ofInt) = _
  rw [accumulate_eq, counts, List.map_map]
  rfl

/-- Whole numbers are what the components are, while there are few votes. -/
theorem map_accumulate {votes : List Vote} (hfew : votes.length < 2 ^ 24) (dimensions : ℕ) :
    (accumulate dimensions votes).map (fun x => FloatOrder.amount? x.toModel.unpack) =
      (List.range dimensions).map fun i => some (total votes i : ℚ) := by
  rw [accumulate_eq, List.map_map]
  refine List.map_congr_left fun i _ => ?_
  have hsmall : (total votes i).natAbs < 2 ^ 24 := (natAbs_total_le votes i).trans_lt hfew
  rw [Function.comp_apply, count_eq_total hfew, FloatOrder.unpack_ofInt hsmall, FloatOrder.amount?_whole]

/-- **A vector is that of a bag of words.** Words are read on both sides of a separator as if the other side were not
there. Texts with the same words, in whatever order, have the same vector as long as they have few words. Then the
components, before they are brought to length 1, are the sums of the votes, exactly. -/
theorem vector_of_words :
    (∀ (a b : String) (c : Char), isAlphanumeric c = false →
      words (a ++ String.singleton c ++ b).toList = words a.toList ++ words b.toList) ∧
    ∀ (dimensions : ℕ) (a b : String), (words a.toList).length < 2 ^ 24 → (words a.toList).Perm (words b.toList) →
      vector dimensions a = vector dimensions b ∧ (vector dimensions a).length = max dimensions 1 ∧
      vector dimensions a = direction (accumulate (max dimensions 1) (votesOf dimensions a)) ∧
      (accumulate (max dimensions 1) (votesOf dimensions a)).map (fun x => FloatOrder.amount? x.toModel.unpack) =
        (List.range (max dimensions 1)).map fun i => some (total (votesOf dimensions a) i : ℚ) := by
  constructor
  · intro a b c hc
    -- the separator is a text of one character
    rw [String.toList_append, String.toList_append, String.toList_singleton, List.append_assoc]
    exact words_separated hc a.toList b.toList
  · intro dimensions a b hfew hperm
    have hvotes : (votesOf dimensions a).Perm (votesOf dimensions b) := hperm.map _
    have hfewVotes : (votesOf dimensions a).length < 2 ^ 24 := by rwa [votesOf, List.length_map]
    -- only the sums of the votes matter, and these do not depend on their order
    have hcounts : ∀ i, count (votesOf dimensions a) i = count (votesOf dimensions b) i := by
      intro i
      rw [count_eq_total hfewVotes, count_eq_total (hvotes.length_eq ▸ hfewVotes), total_of_perm hvotes]
    refine ⟨?_, length_vector dimensions a, vector_eq_direction dimensions a, map_accumulate hfewVotes _⟩
    -- both vectors are made of these sums
    rw [vector_eq_direction, vector_eq_direction, accumulate_eq, accumulate_eq]
    simp only [hcounts]

/-- The words of these two texts are the same, in another order. -/
theorem vector_loadFile :
    words "loadFile".toList ≠ words "file_load".toList ∧ vector 8 "loadFile" = vector 8 "file_load" ∧
      words "file_load".toList = words "file".toList ++ words "load".toList := by
  refine ⟨by decide +kernel, ?_, ?_⟩
  · exact (vector_of_words.2 8 "loadFile" "file_load" (by decide +kernel) (by decide +kernel)).1
  · exact vector_of_words.1 "file" "load" '_' (by decide +kernel)

end Hashing

end CodeSearch
