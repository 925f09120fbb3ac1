import CodeSearch.Json.Reader
import CodeSearch.Json.Printer
import CodeSearch.VectorStore.Database

/-!
# Databases as text

A database outlives a run as a text: a first line that tells what it is, then one JSON object with the
lengths of the collections and the rows in their order. The components of a vector are written as
their bits, so that none of them is rounded.

* `marked_fileText` — the text of a database starts with its mark.
-/

namespace CodeSearch.Database

/-- The record of a row. -/
def Row.record (r : Row) : Json :=
  .object [
    ("collection", .str r.collection),
    ("id", .str r.point.id),
    ("vector", .arr (r.point.vector.map fun x => .nat x.bits.toNat)),
    ("payload", .obj r.point.payload)]

/-- The record of a database. -/
def record (d : Database) : Json :=
  .object [
    ("collections", .obj (d.sizes.map fun (name, size) => (name, .nat size))),
    ("rows", .arr (d.rows.map Row.record))]

/-- The component whose bits a value is. -/
def component? (j : Json) : Option Single := j.count?.map fun n => ⟨.ofNat n⟩

/-- The row of a record. -/
def Row.ofRecord? (j : Json) : Option Row := do
  let vector ← (← (← j.field? "vector").arr?).mapM component?
  return {
    collection := ← (← j.field? "collection").str?
    point := {
      id := ← (← j.field? "id").str?
      vector
      payload := ← (← j.field? "payload").obj? } }

/-- The database of a record. -/
def ofRecord? (j : Json) : Option Database := do
  let sizes ← (← j.field? "collections").obj?
  return {
    sizes := ← sizes.mapM fun (name, size) => size.count?.map (name, ·)
    rows := ← (← (← j.field? "rows").arr?).mapM Row.ofRecord? }

/-- The first line of the text of a database. -/
def mark : List Char := "code search index 1\n".toList

/-- The text of a database. -/
def fileText (d : Database) : List Char := mark ++ d.record.writeChars

/-- The database that a text holds. -/
def ofFileText? (s : List Char) : Option Database :=
  if mark.isPrefixOf s then (Json.parse? (String.ofList (s.drop mark.length))).bind ofRecord? else none

/-- **The text of a database starts with its mark,** so that no other file is taken for one. -/
theorem marked_fileText (d : Database) : mark.isPrefixOf d.fileText = true := by
  simp [fileText]

theorem ofFileText?_of_unmarked {s : List Char} (h : mark.isPrefixOf s = false) :
    ofFileText? s = none := by
  simp [ofFileText?, h]

end CodeSearch.Database
