import CodeSearch.Embedding.Score
import CodeSearch.Json.Value

/-!
# Points

A point is a vector under an id, with a payload of named values. A filter says which payloads a search
is about, and the points it finds are ranked: the most alike first, and of equally alike ones the one
with the smaller id.

* `Filter.accepts_iff` — what a filter asks of a payload;
* `Hit.perm_ranked` — ranking neither loses nor repeats a point;
* `Hit.take_best` — a smaller limit gives a prefix.
-/

namespace CodeSearch

/-- Named values that come with a vector. -/
abbrev Payload := Table Json

/-- A vector under an id. -/
structure Point where
  /-- The id. -/
  id : String
  /-- The vector. -/
  vector : Embedding
  /-- What comes with the vector. -/
  payload : Payload

/-- What a search found. -/
structure Hit where
  /-- The id of the point. -/
  id : String
  /-- How alike the point and the query are. -/
  score : Score
  /-- What comes with the point. -/
  payload : Payload

/-! ### Filters -/

/-- A value that a field may be compared with. -/
inductive FieldValue where
  /-- A whole number. -/
  | integer (n : Int)
  /-- A text. -/
  | text (s : String)
  /-- A truth value. -/
  | truth (b : Bool)
  deriving DecidableEq, Repr

/-- Whether a value is the one that it is compared with: of the same kind and equal. -/
def FieldValue.isValueOf : FieldValue → Json → Bool
  | .integer n, v => v.int? == some n
  | .text s, v => v.str? == some s
  | .truth b, v => v.bool? == some b

/-- A demand on one field. -/
structure Condition where
  /-- The name of the field. -/
  field : String
  /-- The value it is compared with. -/
  value : FieldValue
  deriving DecidableEq, Repr

/-- Whether a payload has the field with that value. -/
def Condition.holds (c : Condition) (p : Payload) : Bool :=
  (p.get? c.field).any c.value.isValueOf

/-- Which payloads a search is about. -/
structure Filter where
  /-- What has to hold. -/
  must : List Condition := []
  /-- What must not hold. -/
  mustNot : List Condition := []
  deriving DecidableEq, Repr

namespace Filter

/-- The filter that asks for a text in a field. -/
def textIs (field value : String) : Filter := { must := [⟨field, .text value⟩] }

/-- Whether a payload passes. -/
def accepts (f : Filter) (p : Payload) : Bool :=
  f.must.all (·.holds p) && f.mustNot.all (!·.holds p)

/-- **A payload passes if every wanted condition holds and no unwanted one does.** -/
theorem accepts_iff (f : Filter) (p : Payload) :
    f.accepts p = true ↔
      (∀ c ∈ f.must, c.holds p = true) ∧ ∀ c ∈ f.mustNot, c.holds p = false := by
  simp [accepts]

/-- The empty filter lets everything pass. -/
@[simp] theorem accepts_empty (p : Payload) : ({} : Filter).accepts p = true := rfl

end Filter

/-! ### Ranking -/

namespace Hit

/-- Whether a hit may stand in front of another one. -/
def precedes (a b : Hit) : Bool :=
  b.score.rank < a.score.rank || (a.score.rank == b.score.rank && decide (a.id ≤ b.id))

/-- Hits in the order of their ranks. -/
def ranked (hits : List Hit) : List Hit := hits.mergeSort precedes

/-- The first of the ranked hits. -/
def best (limit : Nat) (hits : List Hit) : List Hit := (ranked hits).take limit

theorem perm_ranked (hits : List Hit) : (ranked hits).Perm hits := List.mergeSort_perm _ _

/-- **A smaller limit gives a prefix.** -/
theorem take_best (m n : Nat) (hits : List Hit) (h : m ≤ n) :
    (best n hits).take m = best m hits := by
  rw [best, List.take_take, Nat.min_eq_left h, best]

end Hit

/-- The hit that a query makes of a point. -/
def Point.hit (query : Embedding) (p : Point) : Hit :=
  { id := p.id, score := Embedding.similarity query p.vector, payload := p.payload }

/-- The texts in a payload under the text of a given field, if the payload has it. -/
def Payload.textsUnder? (p : Payload) (field : String) : Option (String × Table String) :=
  ((Table.get? p field).bind Json.str?).map fun key =>
    (key, p.filterMap fun (k, v) => v.str?.map (k, ·))

end CodeSearch
