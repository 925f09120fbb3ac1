import CodeSearch.Language
import CodeSearch.Text.Blank
import CodeSearch.Text.Bytes

/-!
# Syntax trees

The tree that a grammar yields for a text. A node covers a range of bytes and rows, and its parent may
reach it through a field. Only named nodes carry structure; an unnamed one is kept where a field leads
to it.

A set of grammars is what yields trees: it knows which languages it can parse, and may still give none
for a text.
-/

namespace CodeSearch

/-- What is known about a node besides its children. -/
structure NodeInfo where
  /-- The kind of the node in its grammar. -/
  kind : String
  /-- Whether the grammar names the node. -/
  named : Bool
  /-- The field of the parent that leads to the node, or nothing. -/
  field : String
  /-- The first byte of the text of the node. -/
  startByte : Nat
  /-- The byte after its last one. -/
  endByte : Nat
  /-- The row in which it starts, counted from 0. -/
  startRow : Nat
  /-- The row in which it ends. -/
  endRow : Nat
  deriving DecidableEq, Inhabited, Repr

/-- A syntax tree. -/
inductive SyntaxTree where
  /-- A node with its children in the order of the text. -/
  | node (info : NodeInfo) (children : List SyntaxTree)
  deriving Inhabited, Repr

namespace SyntaxTree

/-- What is known about the root. -/
def info : SyntaxTree → NodeInfo
  | node i _ => i

/-- The children of the root. -/
def children : SyntaxTree → List SyntaxTree
  | node _ cs => cs

/-- The kind of the root. -/
def kind (t : SyntaxTree) : String := t.info.kind

/-- The named children of the root. -/
def namedChildren (t : SyntaxTree) : List SyntaxTree := t.children.filter fun c => c.info.named

/-- The child that a field leads to. -/
def fieldChild? (t : SyntaxTree) (field : String) : Option SyntaxTree :=
  t.children.find? fun c => c.info.field == field

/-- The text that a node covers; empty if its range is none of the text. -/
def text (t : SyntaxTree) (source : String) : String :=
  Text.slice t.info.startByte t.info.endByte source

mutual

/-- The first node of a kind, the root before its children, along named children. -/
def findKind? (kind : String) : SyntaxTree → Option SyntaxTree
  | node i cs => if i.kind = kind then some (node i cs) else findKindAmong? kind cs

/-- The first node of a kind among trees whose roots are named. -/
def findKindAmong? (kind : String) : List SyntaxTree → Option SyntaxTree
  | [] => none
  | t :: ts =>
    if t.info.named then
      match findKind? kind t with
      | some found => some found
      | none => findKindAmong? kind ts
    else findKindAmong? kind ts

end

end SyntaxTree

/-- What yields syntax trees. -/
structure Grammars where
  /-- Whether there is a grammar for a language. -/
  supports : Language → Bool
  /-- The tree of a text; there may be none even where there is a grammar. -/
  parse : Language → String → Option SyntaxTree

namespace Grammars

/-- No grammars. -/
def empty : Grammars := { supports := fun _ => false, parse := fun _ _ => none }

/-- Only the grammars of some languages, which give trees only if `yields`. -/
def restrict (g : Grammars) (languages : List Language) (yields : Bool) : Grammars :=
  { supports := fun l => g.supports l && languages.contains l
    parse := fun l s => if g.supports l && languages.contains l && yields then g.parse l s else none }

/-- Grammars for all languages that have one, with trees given by a function. -/
def ofTrees (trees : Language → String → Option SyntaxTree) : Grammars :=
  { supports := Language.hasGrammar
    parse := fun l s => if l.hasGrammar then trees l s else none }

end Grammars

end CodeSearch
