import CodeSearch.Json.Reader
import CodeSearch.VectorStore.Basic

/-!
# A store in database tables

One table holds the length of the vectors of each collection, another one a row per point. A row that
is written takes the last place, also if it replaces another one, and rows are read in their order.
Vectors and payloads are kept as JSON. A component that is no finite number becomes null there, and such a
vector can be written but not read. Nor can a payload that is nested too deeply: no search, scroll or
deletion by payload goes past its row.
-/

namespace CodeSearch

/-- The column where the text of the first component ends that is no finite number, if there is one;
the given number of characters stands before the text of the components. -/
def Embedding.nullColumn? : Nat → Embedding → Option Nat
  | _, [] => none
  | before, x :: xs =>
    if x.isFinite then nullColumn? (before + (Json.writeFloat32 x.value).length + 1) xs
    else some (before + 4)

/-- A row for each point. -/
structure Database.Row where
  /-- The collection that the point belongs to. -/
  collection : String
  /-- The point. -/
  point : Point

/-- A store that keeps rows. -/
structure Database where
  /-- The lengths of the vectors of each collection. -/
  sizes : Table Nat
  /-- The points in the order in which they were written last. -/
  rows : List Database.Row

namespace Database

/-- The greatest length that the table of lengths can hold. -/
def greatestSize : Nat := 0x7fffffffffffffff

/-- Whether a row is the one of a point. -/
def Row.isAt (r : Row) (name id : String) : Bool := r.collection == name && r.point.id == id

/-- A row, if its payload can be read. -/
def Row.legible (r : Row) : Except StoreError Row :=
  match Json.tooDeep? Json.greatestDepth 0 (.obj r.point.payload) with
  | some column => .error (.unreadable (.nesting column))
  | none => .ok r

/-- The point of a row, if its vector and its payload can be read. -/
def Row.read (r : Row) : Except StoreError Point :=
  match Embedding.nullColumn? 1 r.point.vector with
  | some column => .error (.unreadable (.component column))
  | none => r.legible.map Row.point

/-- The points of a collection in the order of their rows. -/
def points (d : Database) (name : String) : List Row :=
  d.rows.filter (·.collection == name)

/-- The database with a point written to a collection. -/
def put (name : String) (d : Database) (p : Point) : Database :=
  -- floating point numbers may change when their text is read
  let kept := p.payload.map fun (k, v) => (k, v.reread)
  { d with
    rows := d.rows.filter (!·.isAt name p.id) ++ [⟨name, { p with payload := kept }⟩] }

/-- The database without a point of a collection. -/
def remove (name : String) (d : Database) (id : String) : Database :=
  { d with rows := d.rows.filter (!·.isAt name id) }

def contains (d : Database) (name : String) : Bool := d.sizes.contains name

def search (d : Database) (name : String) (query : Embedding) (limit : Nat) (f : Filter) :
    Except StoreError (List Hit) :=
  match d.sizes.get? name with
  | none => .error (.missing .search name)
  | some size => do
    checkDimensions name size [query]
    let points ← (d.points name).mapM Row.read
    return Hit.best limit ((points.filter (f.accepts ·.payload)).map (·.hit query))

def get (d : Database) (name : String) (ids : List String) : Except StoreError (List Point) :=
  (ids.filterMap fun id => d.rows.find? (·.isAt name id)).mapM Row.read

def scroll (d : Database) (name field : String) : Except StoreError (Table (Table String)) :=
  ((d.points name).mapM Row.legible).map fun rows =>
    .ofList (rows.filterMap (Payload.textsUnder? ·.point.payload field))

def ensure (name : String) (size : Nat) : StoreAction Database Unit := do
  if greatestSize < size then throw .sizeTooLarge
  match (← EStateM.get).sizes.get? name with
  | none => modify fun d => { d with sizes := d.sizes.insert name size }
  | some stored => if stored ≠ size then throw (.dimension name stored size)

def drop (name : String) : StoreAction Database Unit :=
  modify fun d =>
    { sizes := d.sizes.erase name, rows := d.rows.filter (·.collection ≠ name) }

def upsert (name : String) (points : List Point) : StoreAction Database Unit := do
  match (← EStateM.get).sizes.get? name with
  | none => throw (.missing .upsert name)
  | some size =>
    match checkDimensions name size (points.map Point.vector) with
    | .error e => throw e
    | .ok () => modify fun d => points.foldl (put name) d

def deleteIds (name : String) (ids : List String) : StoreAction Database Unit :=
  modify fun d => ids.foldl (remove name) d

def deleteWhere (name : String) (f : Filter) : StoreAction Database Nat := do
  -- all payloads are read before a row is taken out
  let rows ← MonadExcept.ofExcept (((← EStateM.get).points name).mapM Row.legible)
  let doomed := rows.filter (f.accepts ·.point.payload)
  deleteIds name (doomed.map (·.point.id))
  return doomed.length

instance : VectorStore Database where
  empty := { sizes := [], rows := [] }
  contains := contains
  search := search
  get := get
  scroll := scroll
  ensure := ensure
  drop := drop
  upsert := upsert
  deleteIds := deleteIds
  deleteWhere := deleteWhere

end Database

end CodeSearch
