import CodeSearch.Document
import CodeSearch.Json.Value

/-!
# Documents as JSON

The records of a document in JSON. A record is an object with a value for every field, or a list of
exactly the fields in their order. A field that may be null may also be missing from an object; names
that no field has are passed over.

* `language?_languageRecord` — a language is read back from what is written for it.
-/

namespace CodeSearch.Json

/-- The value of a language. -/
def languageRecord (l : Language) : Json := .str l.id

/-- The language that a value names: its identifier, or an object whose only field has that name and
holds nothing. -/
def language? : Json → Option Language
  | .str s => Language.ofId? s
  | .obj [(s, .null)] => Language.ofId? s
  | _ => none

theorem language?_languageRecord (l : Language) : language? (languageRecord l) = some l := by
  simp [languageRecord, language?]

/-- The kind of chunk that a value names, in the same two ways. -/
def chunkKind? : Json → Option ChunkKind
  | .str s => ChunkKind.ofName? s
  | .obj [(s, .null)] => ChunkKind.ofName? s
  | _ => none

/-- Reads a value that may be null. -/
def nullable? {α : Type} (read : Json → Option α) : Json → Option (Option α)
  | .null => some none
  | j => (read j).map some

/-- The values of the named fields: of an object by name, of a list by place. A name marked `true` may
be missing from an object. -/
def fields? (names : List (String × Bool)) : Json → Option (List Json)
  | .obj fields => names.mapM fun (name, optional) =>
      match Table.get? fields name with
      | some v => some v
      | none => if optional then some .null else none
  | .arr items => if items.length = names.length then some items else none
  | _ => none

/-- The greatest count of seconds that a moment can lie after 1970. -/
def greatestSeconds : Nat := 0x7fffffffffffffff

/-- The value of a moment. -/
def timestampRecord (t : Timestamp) : Json :=
  object [("secs_since_epoch", nat t.seconds), ("nanos_since_epoch", nat t.nanoseconds)]

/-- The moment that a value is. Billionths of a second beyond one second are carried over. -/
def timestamp? (j : Json) : Option Timestamp :=
  let names := ["secs_since_epoch", "nanos_since_epoch"]
  let known := match j with
    | .obj fields => fields.all fun (k, _) => names.contains k
    | _ => true
  if known then
    (fields? (names.map fun n => (n, false)) j).bind fun vs =>
      match vs with
      | [s, n] => do
        let s ← s.count?
        let n ← n.count?
        let seconds := s + n / 1000000000
        if n < 0x100000000 ∧ seconds ≤ greatestSeconds then some ⟨seconds, n % 1000000000⟩ else none
      | _ => none
  else none

/-- The lines of each name. -/
def symbols? : Json → Option (Table (List Nat))
  | .obj fields => (fields.mapM fun (k, v) =>
      (v.arr?.bind fun ls => ls.mapM count?).map fun ls => (k, ls))
  | _ => none

/-- The value of a table of lines. -/
def symbolsRecord (t : Table (List Nat)) : Json :=
  .obj (t.map fun (k, ls) => (k, .arr (ls.map nat)))

/-- The value of the facts about a document. -/
def metadataRecord (m : Metadata) : Json :=
  object [
    ("path", .str m.path.text),
    ("language", m.language.elim .null languageRecord),
    ("size", nat m.size),
    ("modified", m.modified.elim .null timestampRecord),
    ("line_count", nat m.lineCount),
    ("imports", strings m.imports),
    ("classes", strings m.classes),
    ("functions", strings m.functions),
    ("symbols", symbolsRecord m.symbols),
    ("doc_comment", ofOption m.docComment),
    ("content_hash", .str m.contentHash)]

/-- The fields of the facts about a document, with those that may be missing. -/
def metadataFields : List (String × Bool) :=
  [("path", false), ("language", true), ("size", false), ("modified", true), ("line_count", false),
    ("imports", false), ("classes", false), ("functions", false), ("symbols", false),
    ("doc_comment", true), ("content_hash", false)]

/-- The facts about a document that a value holds. -/
def metadata? (j : Json) : Option Metadata :=
  (fields? metadataFields j).bind fun vs =>
    match vs with
    | [path, language, size, modified, lineCount, imports, classes, functions, symbols, docComment,
        contentHash] => do
      return {
        path := ⟨← path.str?⟩
        language := ← nullable? language? language
        size := ← size.count?
        modified := ← nullable? timestamp? modified
        lineCount := ← lineCount.count?
        imports := ← imports.strings?
        classes := ← classes.strings?
        functions := ← functions.strings?
        symbols := ← symbols? symbols
        docComment := ← nullable? str? docComment
        contentHash := ← contentHash.str? }
    | _ => none

/-- The value of a chunk. -/
def chunkRecord (c : Chunk) : Json :=
  object [
    ("content", .str c.content),
    ("start_line", nat c.startLine),
    ("end_line", nat c.endLine),
    ("kind", .str c.kind.name),
    ("symbols", strings c.symbols),
    ("parents", strings c.parents),
    ("content_hash", .str c.contentHash)]

/-- The fields of a chunk, none of which may be missing. -/
def chunkFields : List (String × Bool) :=
  ["content", "start_line", "end_line", "kind", "symbols", "parents", "content_hash"].map (·, false)

/-- The chunk that a value holds. -/
def chunk? (j : Json) : Option Chunk :=
  (fields? chunkFields j).bind fun vs =>
    match vs with
    | [content, startLine, endLine, kind, symbols, parents, contentHash] => do
      return {
        content := ← content.str?
        startLine := ← startLine.count?
        endLine := ← endLine.count?
        kind := ← chunkKind? kind
        symbols := ← symbols.strings?
        parents := ← parents.strings?
        contentHash := ← contentHash.str? }
    | _ => none

end CodeSearch.Json
