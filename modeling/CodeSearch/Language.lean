import CodeSearch.Path

/-!
# Source languages

The languages that a file can be written in, how a file name tells the language, and which kinds of
syntax nodes carry structure in it. Only some languages have a grammar; for the others no tree is
known and no node kind matters.

* `ofId?_id` — a language is known by its identifier;
* `roles_eq_nil_iff` — a language has structural node kinds exactly if it has a grammar.
-/

namespace CodeSearch

/-- A source language. -/
inductive Language where
  | rust | python | javascript | typescript | tsx | go | bash | toml | json | markdown
  deriving DecidableEq, Inhabited, Repr

/-- What a syntax node says about the structure of a program. -/
inductive NodeRole where
  /-- Brings in names from elsewhere. -/
  | importing
  /-- Declares a type that holds members. -/
  | classLike
  /-- Declares a function. -/
  | function
  /-- Declares a function that belongs to a type. -/
  | method
  /-- Wraps a declaration together with its decorators. -/
  | decorated
  deriving DecidableEq, Repr

namespace Language

/-- All languages. -/
def all : List Language :=
  [rust, python, javascript, typescript, tsx, go, bash, toml, json, markdown]

/-- The identifier of a language in stored metadata and in settings. -/
def id : Language → String
  | rust => "rust"
  | python => "python"
  | javascript => "javascript"
  | typescript => "typescript"
  | tsx => "tsx"
  | go => "go"
  | bash => "bash"
  | toml => "toml"
  | json => "json"
  | markdown => "markdown"

/-- The language with an identifier. -/
def ofId? (s : String) : Option Language := all.find? fun l => l.id == s

/-- **A language is known by its identifier.** -/
@[simp] theorem ofId?_id (l : Language) : ofId? l.id = some l := by
  cases l <;> decide

/-- The file name extensions of a language. -/
def extensions : Language → List String
  | rust => ["rs"]
  | python => ["py", "pyi"]
  | javascript => ["js", "jsx", "mjs", "cjs"]
  | typescript => ["ts", "mts", "cts"]
  | tsx => ["tsx"]
  | go => ["go"]
  | bash => ["sh", "bash", "zsh"]
  | toml => ["toml"]
  | json => ["json", "jsonc"]
  | markdown => ["md", "markdown"]

/-- The language of a file name extension. -/
def ofExtension? (s : String) : Option Language := all.find? fun l => l.extensions.contains s

/-- The language of a file, told by its extension. -/
def ofPath? (p : Path) : Option Language := p.extension?.bind ofExtension?

/-- Whether syntax trees of the language are known. -/
def hasGrammar : Language → Bool
  | rust | python | javascript | typescript | tsx | go => true
  | bash | toml | json | markdown => false

/-- The node kinds that carry structure. -/
def roles : Language → List (String × NodeRole)
  | python =>
    [("import_statement", .importing), ("import_from_statement", .importing),
      ("future_import_statement", .importing), ("class_definition", .classLike),
      ("function_definition", .function), ("decorated_definition", .decorated)]
  | rust =>
    [("use_declaration", .importing), ("extern_crate_declaration", .importing),
      ("struct_item", .classLike), ("enum_item", .classLike), ("union_item", .classLike),
      ("trait_item", .classLike), ("impl_item", .classLike), ("function_item", .function),
      ("function_signature_item", .function)]
  | javascript =>
    [("import_statement", .importing), ("class_declaration", .classLike), ("class", .classLike),
      ("function_declaration", .function), ("generator_function_declaration", .function),
      ("method_definition", .method)]
  | typescript | tsx =>
    [("import_statement", .importing), ("class_declaration", .classLike), ("class", .classLike),
      ("abstract_class_declaration", .classLike), ("interface_declaration", .classLike),
      ("function_declaration", .function), ("generator_function_declaration", .function),
      ("function_signature", .function), ("method_definition", .method),
      ("method_signature", .method), ("abstract_method_signature", .method)]
  | go =>
    [("import_declaration", .importing), ("type_spec", .classLike),
      ("function_declaration", .function), ("method_declaration", .method)]
  | bash | toml | json | markdown => []

/-- The role of a node kind. -/
def role? (l : Language) (kind : String) : Option NodeRole := l.roles.lookup kind

theorem roles_eq_nil_iff (l : Language) : l.roles = [] ↔ l.hasGrammar = false := by
  cases l <;> simp [roles, hasGrammar]

end Language

end CodeSearch
