import CodeSearch.VectorStore.Point

/-!
# Vector stores

A vector store holds collections of points. All vectors of a collection have the length that the
collection was made with. `VectorStore` says what can be done with a store; how it keeps its points is
its own matter. What only reads gives an answer, and what may change the store is an action that leaves
a store behind whether it fails or not.
-/

namespace CodeSearch

/-- What a store was doing when it missed a collection. -/
inductive StoreActivity where
  /-- Writing points. -/
  | upsert
  /-- Searching. -/
  | search
  /-- Taking points out. -/
  | delete
  /-- Reading all payloads. -/
  | scroll
  deriving DecidableEq, Repr

/-- The name of the activity. -/
def StoreActivity.name : StoreActivity → String
  | .upsert => "upsert"
  | .search => "search"
  | .delete => "delete"
  | .scroll => "scroll"

/-- Why a text that a store keeps cannot be read. -/
inductive Unreadable where
  /-- A component is no number; its text ends at the given column. -/
  | component (column : Nat)
  /-- Lists and objects are nested too deeply; the one that goes too far begins at the given column. -/
  | nesting (column : Nat)
  deriving DecidableEq, Repr

/-- What is said about a text that cannot be read. -/
def Unreadable.message : Unreadable → String
  | .component column => "invalid type: null, expected f32 at line 1 column " ++ toString column
  | .nesting column => "recursion limit exceeded at line 1 column " ++ toString column

/-- Why a store refuses. -/
inductive StoreError where
  /-- There is no such collection. -/
  | missing (activity : StoreActivity) (collection : String)
  /-- The collection holds vectors of another length. -/
  | dimension (collection : String) (expected actual : Nat)
  /-- No collection can hold vectors of such a length. -/
  | sizeTooLarge
  /-- A stored vector or payload cannot be read. -/
  | unreadable (cause : Unreadable)
  /-- The store cannot be reached. -/
  | unreachable (reason : String)
  deriving DecidableEq, Repr

/-- What is said about an error. -/
def StoreError.message : StoreError → String
  | .missing activity collection =>
    activity.name ++ " error: collection " ++ collection ++ " not found"
  | .dimension collection expected actual =>
    "collection " ++ collection ++ " holds " ++ toString expected ++ "-dimensional vectors, got "
      ++ toString actual
  | .sizeTooLarge => "collection error: number too large to fit in target type"
  | .unreadable cause => "serialization error: " ++ cause.message
  | .unreachable reason => "connection error: " ++ reason

/-- What changes a store. -/
abbrev StoreAction (σ α : Type) := EStateM StoreError σ α

/-- Stores of vectors. -/
class VectorStore (σ : Type) where
  /-- The store without collections. -/
  empty : σ
  /-- Whether there is a collection of that name. -/
  contains : σ → String → Bool
  /-- The best points of a collection for a query among those that pass a filter, at most as many as
  the limit says. -/
  search : σ → String → Embedding → Nat → Filter → Except StoreError (List Hit)
  /-- The points with the given ids; ids without a point are passed over. -/
  get : σ → String → List String → Except StoreError (List Point)
  /-- The texts in the payloads of a collection under the text of one field. -/
  scroll : σ → String → String → Except StoreError (Table (Table String))
  /-- Makes a collection for vectors of some length unless there is one of that length. -/
  ensure : String → Nat → StoreAction σ Unit
  /-- Drops a collection with its points. -/
  drop : String → StoreAction σ Unit
  /-- Writes points; a point takes the place of the one with its id. -/
  upsert : String → List Point → StoreAction σ Unit
  /-- Takes out the points with the given ids. -/
  deleteIds : String → List String → StoreAction σ Unit
  /-- Takes out the points that pass a filter, and counts them. -/
  deleteWhere : String → Filter → StoreAction σ Nat

/-- Refuses the first vector that is not of the length that a collection asks for. -/
def checkDimensions (collection : String) (size : Nat) (vectors : List Embedding) :
    Except StoreError Unit :=
  match vectors.find? (·.length ≠ size) with
  | some v => .error (.dimension collection size v.length)
  | none => .ok ()

/-- **Vectors pass the check if they all have the right length.** -/
theorem checkDimensions_eq_ok_iff (collection : String) (size : Nat) (vectors : List Embedding) :
    checkDimensions collection size vectors = .ok () ↔ ∀ v ∈ vectors, v.length = size := by
  unfold checkDimensions
  split
  · rename_i v hv
    have := List.find?_some hv
    have hm := List.mem_of_find?_eq_some hv
    simp only [reduceCtorEq, false_iff]
    intro h
    exact absurd (h v hm) (by simpa using this)
  · rename_i h
    simpa using List.find?_eq_none.1 h

end CodeSearch
