import CodeSearch.DocComment
import CodeSearch.Outline

/-!
# Parsing documents

Parsing adds to the facts about a document what its comment and its outline tell.

* `parse_path`, `parse_hash` — parsing leaves the facts of the file as they are;
* `parse_of_no_language` — without a language nothing changes.
-/

namespace CodeSearch

/-- The facts about a document after parsing, with the outline if there is one. The comment is looked
for whenever the language is known; the rest changes only if there is an outline. -/
def Document.parse (d : Document) (g : Grammars) : Document × Option Outline :=
  match d.metadata.language with
  | none => (d, none)
  | some l =>
    let m := { d.metadata with docComment := docComment? l d.content }
    match Outline.ofSource? g l d.content with
    | none => ({ d with metadata := m }, none)
    | some o => ({ d with metadata := m.withOutline o }, some o)

/-- Parsing does not change where a document lies. -/
@[simp] theorem Document.parse_path (g : Grammars) (d : Document) :
    (d.parse g).1.metadata.path = d.metadata.path := by
  unfold Document.parse
  split
  · rfl
  · split <;> rfl

/-- Parsing does not change the digest of a document. -/
@[simp] theorem Document.parse_hash (g : Grammars) (d : Document) :
    (d.parse g).1.metadata.contentHash = d.metadata.contentHash := by
  unfold Document.parse
  split
  · rfl
  · split <;> rfl

theorem Document.parse_of_no_language (g : Grammars) {d : Document} (h : d.metadata.language = none) :
    d.parse g = (d, none) := by
  simp [Document.parse, h]

end CodeSearch
