import CodeSearch.VectorStore.Basic

/-!
# A store in memory

Each collection is a table from ids to points.
-/

namespace CodeSearch

/-- The points of one collection. -/
structure Memory.Collection where
  /-- The length of its vectors. -/
  size : Nat
  /-- The vectors and payloads by id. -/
  points : Table (Embedding × Payload)

/-- A store that keeps tables. -/
structure Memory where
  /-- The collections by name. -/
  collections : Table Memory.Collection

namespace Memory

/-- The points of a collection in the order of their ids. -/
def Collection.toList (c : Collection) : List Point :=
  c.points.map fun (id, vector, payload) => { id, vector, payload }

/-- The collection with a point written to it. -/
def Collection.put (c : Collection) (p : Point) : Collection :=
  { c with points := c.points.insert p.id (p.vector, p.payload) }

/-- The collection of that name. -/
def collection? (m : Memory) (name : String) : Option Collection := m.collections.get? name

/-- The store with a collection in the place of the one of that name. -/
def set (m : Memory) (name : String) (c : Collection) : Memory :=
  { collections := m.collections.insert name c }

def contains (m : Memory) (name : String) : Bool := (m.collection? name).isSome

def search (m : Memory) (name : String) (query : Embedding) (limit : Nat) (f : Filter) :
    Except StoreError (List Hit) :=
  match m.collection? name with
  | none => .error (.missing .search name)
  | some c => do
    checkDimensions name c.size [query]
    return Hit.best limit ((c.toList.filter (f.accepts ·.payload)).map (·.hit query))

def get (m : Memory) (name : String) (ids : List String) : List Point :=
  match m.collection? name with
  | none => []
  | some c => ids.filterMap fun id =>
    (c.points.get? id).map fun (vector, payload) => { id, vector, payload }

def scroll (m : Memory) (name field : String) : Except StoreError (Table (Table String)) :=
  match m.collection? name with
  | none => .error (.missing .scroll name)
  | some c => .ok (.ofList (c.toList.filterMap (Payload.textsUnder? ·.payload field)))

def ensure (name : String) (size : Nat) : StoreAction Memory Unit := do
  match (← EStateM.get).collection? name with
  | none => modify (·.set name { size, points := [] })
  | some c => if c.size ≠ size then throw (.dimension name c.size size)

def drop (name : String) : StoreAction Memory Unit :=
  modify fun m => { collections := m.collections.erase name }

def upsert (name : String) (points : List Point) : StoreAction Memory Unit := do
  match (← EStateM.get).collection? name with
  | none => throw (.missing .upsert name)
  | some c =>
    match checkDimensions name c.size (points.map Point.vector) with
    | .error e => throw e
    | .ok () => modify (·.set name (points.foldl Collection.put c))

def deleteIds (name : String) (ids : List String) : StoreAction Memory Unit := do
  if ids.isEmpty then return
  match (← EStateM.get).collection? name with
  | none => throw (.missing .delete name)
  | some c => modify (·.set name { c with points := ids.foldl Table.erase c.points })

def deleteWhere (name : String) (f : Filter) : StoreAction Memory Nat := do
  match (← EStateM.get).collection? name with
  | none => return 0
  | some c =>
    let kept := c.points.filter fun (_, _, payload) => !f.accepts payload
    modify (·.set name { c with points := kept })
    return c.points.length - kept.length

instance : VectorStore Memory where
  empty := { collections := [] }
  contains := contains
  search := search
  get m name ids := .ok (m.get name ids)
  scroll := scroll
  ensure := ensure
  drop := drop
  upsert := upsert
  deleteIds := deleteIds
  deleteWhere := deleteWhere

end Memory

end CodeSearch
