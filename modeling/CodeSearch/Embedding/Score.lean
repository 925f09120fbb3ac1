import CodeSearch.Embedding.Basic

/-!
# Scores

How alike two vectors are is a single precision number, and scores are put in the total order of those
numbers: the negative zero stands before the positive one, and a number that is not defined has a place as
well, below all others or above them as its sign says.

* `Score.rank_eq_iff` — two scores have one rank only if they are written with the same bits.
-/

namespace CodeSearch

/-- How alike two vectors are. -/
structure Score where
  /-- The number. -/
  value : Float32
  /-- How it is stored that the number is not defined, if so. -/
  undefined : Undefined := {}

namespace Score

/-- The score that a stored number is. -/
def ofSingle (x : Single) : Score :=
  { value := x.value, undefined := if x.value.isNaN then x.undefined else {} }

/-- The bits of a score. -/
def bits (s : Score) : Nat := if s.value.isNaN then s.undefined.bits else s.value.toBits.toNat

/-- The place of a score among all scores. -/
def rank (s : Score) : Int := if s.bits < 0x80000000 then s.bits else 0x7fffffff - (s.bits : Int)

/-- The score that is a given part of another one. -/
def scale (s : Score) (part : Float32) : Score :=
  { value := s.value * part
    undefined :=
      if s.value.isNaN then s.undefined
      else if (s.value * part).isNaN && !part.isNaN then .ofOperation
      else {} }

/-- **The order of scores is the order of their ranks, and ranks forget nothing.** -/
theorem rank_eq_iff (s t : Score) : s.rank = t.rank ↔ s.bits = t.bits := by
  refine ⟨fun h => ?_, fun h => by rw [rank, rank, h]⟩
  unfold rank at h
  split at h <;> split at h <;> omega

end Score

/-- How alike two vectors are. -/
def Embedding.similarity (a b : Embedding) : Score := .ofSingle (cosine a b)

end CodeSearch
