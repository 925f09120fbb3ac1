import CodeSearch.Document
import CodeSearch.SyntaxTree
import CodeSearch.Text.Search

/-!
# Outlines

The outline of a text is what its syntax tree says about its structure: the imports, and the
declarations of types, functions and methods with the types around them. It is read off the tree from
the root down. On the way the names of the types around a node are collected, and the nearest
declaration around it is remembered, which decides whether a function is a method.

* `ofTree` reads the outline of a tree;
* an import ends the descent: what lies inside it is no declaration.
-/

namespace CodeSearch

/-- A declaration in a text. Rows are counted from 0. -/
structure Definition where
  /-- What is declared. -/
  kind : ChunkKind
  /-- The declared name. -/
  name : String
  /-- The first row, that of the decorators if there are some. -/
  startRow : Nat
  /-- The last row. -/
  endRow : Nat
  /-- The row in which the declaration itself starts. -/
  declRow : Nat
  /-- The names of the types around it, the outermost first. -/
  parents : List String
  deriving DecidableEq, Inhabited, Repr

/-- The imports and declarations of a text, in its order. -/
structure Outline where
  /-- The text of each import. -/
  imports : List String := []
  /-- The declarations. -/
  definitions : List Definition := []
  deriving DecidableEq, Inhabited, Repr

namespace Outline

/-- One outline after another. -/
def append (a b : Outline) : Outline :=
  { imports := a.imports ++ b.imports, definitions := a.definitions ++ b.definitions }

/-- The role of a node: only named nodes have one. -/
def role? (l : Language) (i : NodeInfo) : Option NodeRole := if i.named then l.role? i.kind else none

/-- The node that holds the name of a declaration: the one under the field `name`, else under the field
`type`, else the first named child that is an identifier of some kind. -/
def nameNode? (t : SyntaxTree) : Option SyntaxTree :=
  (t.fieldChild? "name").or <| (t.fieldChild? "type").or <|
    t.namedChildren.find? fun c => Chars.endsWith c.kind.toList "identifier".toList

/-- The name of a declaration, if it is not blank. -/
def declaredName? (source : String) (t : SyntaxTree) : Option String :=
  (nameNode? t).bind fun n =>
    let name := Text.trim (n.text source)
    if name = "" then none else some name

/-- The name of the type that a method is declared for, where that type stands before the name. -/
def receiverType? (source : String) (t : SyntaxTree) : Option String :=
  (t.fieldChild? "receiver").bind fun r =>
    (r.findKind? "type_identifier").map fun n => n.text source

/-- What lies around a node. -/
structure Context where
  /-- The names of the types around it, the outermost first. -/
  parents : List String := []
  /-- The kind of the nearest declaration around it. -/
  enclosing : ChunkKind := .fileScope
  /-- The node right above it. -/
  above : Option NodeInfo := none

/-- The kind of a declaration with a role; none for a role that declares nothing. -/
def kind? (enclosing : ChunkKind) : NodeRole → Option ChunkKind
  | .classLike => some .classLike
  | .method => some .method
  | .function => if enclosing = .classLike then some .method else some .function
  | .importing | .decorated => none

/-- The row in which a declaration starts: that of a wrapper right above it that carries decorators, or
its own. -/
def startRow (l : Language) (ctx : Context) (i : NodeInfo) : Nat :=
  match ctx.above with
  | some a => if role? l a = some .decorated then a.startRow else i.startRow
  | none => i.startRow

/-- The declaration at a node. -/
def definitionAt (l : Language) (source : String) (ctx : Context) (t : SyntaxTree) (kind : ChunkKind)
    (name : String) : Definition :=
  { kind, name
    startRow := startRow l ctx t.info
    endRow := t.info.endRow
    declRow := t.info.startRow
    parents := ctx.parents ++
      if l = .go ∧ kind = .method then (receiverType? source t).toList else [] }

/-- What lies around the children of a declaration. -/
def inside (ctx : Context) (i : NodeInfo) (kind : ChunkKind) (name : Option String) : Context :=
  if kind = .classLike then
    { parents := ctx.parents ++ name.toList, enclosing := .classLike, above := some i }
  else { parents := ctx.parents, enclosing := .function, above := some i }

mutual

/-- The outline of a tree in its surroundings. -/
def ofNode (l : Language) (source : String) (ctx : Context) : SyntaxTree → Outline
  | .node i cs =>
    match role? l i with
    | some .importing => { imports := [Text.trim ((SyntaxTree.node i cs).text source)] }
    | some role =>
      match kind? ctx.enclosing role with
      | some kind =>
        let name := declaredName? source (.node i cs)
        let here := name.map (definitionAt l source ctx (.node i cs) kind)
        append { definitions := here.toList } (ofNodes l source (inside ctx i kind name) cs)
      | none => ofNodes l source { ctx with above := some i } cs
    | none => ofNodes l source { ctx with above := some i } cs

/-- The outlines of the named trees of a list, one after another. -/
def ofNodes (l : Language) (source : String) (ctx : Context) : List SyntaxTree → Outline
  | [] => {}
  | t :: ts =>
    if t.info.named then append (ofNode l source ctx t) (ofNodes l source ctx ts)
    else ofNodes l source ctx ts

end

/-- The outline of the tree of a text. -/
def ofTree (l : Language) (source : String) (t : SyntaxTree) : Outline := ofNode l source {} t

/-- The outline of a text, if there is a grammar that yields a tree for it. -/
def ofSource? (g : Grammars) (l : Language) (source : String) : Option Outline :=
  if g.supports l then (g.parse l source).map (ofTree l source) else none

/-! ### Tables of names -/

/-- The names of a list without repetitions, each where it stands first. -/
def distinct (names : List String) : List String :=
  names.foldl (fun seen n => if seen.contains n then seen else seen ++ [n]) []

/-- The names of the declarations of some kinds. -/
def namesOf (o : Outline) (kinds : List ChunkKind) : List String :=
  distinct ((o.definitions.filter fun d => kinds.contains d.kind).map (·.name))

/-- The lines, counted from 1, on which each name is declared. -/
def symbols (o : Outline) : Table (List Nat) :=
  (o.definitions.filter fun d => d.kind ≠ .fileScope).foldl
    (fun t d => Table.insert t d.name (Table.getD t d.name [] ++ [d.declRow + 1])) []

end Outline

/-- The facts about a document, with those that an outline tells in place of any there were. -/
def Metadata.withOutline (m : Metadata) (o : Outline) : Metadata :=
  { m with
    imports := o.imports
    classes := o.namesOf [.classLike]
    functions := o.namesOf [.function, .method]
    symbols := o.symbols }

end CodeSearch
