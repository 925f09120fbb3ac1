import CodeSearch.Text.Raw

/-!
# Paths

A path is a raw text; what it names is given by its *components*. Repeated and trailing slashes and inner
`.` steps do not show in the components, so two texts can name the same place. Only a `.` at the start
of a relative path is kept. A name is what the file system has, so that names which look the same can be
different ones.

All comparisons of paths here are comparisons of components:

* `relativeTo?` — what is left of a path below another one;
* `relativeTo?_eq_some_iff` — a path lies below a base exactly if the base's components come first;
* `compare` — component by component, the root before `.`, before `..`, before a name, and names by
  their bytes.
-/

namespace CodeSearch

/-- A path, as it was written. -/
structure Path where
  /-- The path that is shown as a text, with its spelling. -/
  shownAs ::
  /-- What is shown of the path. -/
  text : String
  /-- The bytes of the path. -/
  [spelling : Spelling text]

namespace Path

/-- The path that a text is. -/
abbrev mk (s : String) : Path := ⟨s⟩

/-- The raw text of a path. -/
def raw (p : Path) : RawText := ⟨p.spelling.bytes⟩

/-- The path that a raw text is. -/
def ofRaw (r : RawText) : Path := @shownAs r.text ⟨r.bytes, rfl⟩

@[simp] theorem raw_ofRaw (r : RawText) : (ofRaw r).raw = r := rfl

/-- **A path is its raw text.** -/
theorem raw_inj {p q : Path} : p.raw = q.raw ↔ p = q := by
  refine ⟨fun h => ?_, congrArg raw⟩
  obtain @⟨_, ⟨bytes, rfl⟩⟩ := p
  obtain @⟨_, ⟨_, rfl⟩⟩ := q
  obtain rfl := RawText.mk.inj h
  rfl

instance : DecidableEq Path := fun p q => decidable_of_iff (p.raw = q.raw) raw_inj

instance : Inhabited Path := ⟨⟨""⟩⟩

instance : Repr Path := ⟨fun p => reprPrec p.raw⟩

/-- One step of a path. -/
inductive Component where
  /-- The root directory, at the start of an absolute path. -/
  | root
  /-- A `.` at the start of a relative path. -/
  | current
  /-- A step up. -/
  | parent
  /-- The entry of that name. -/
  | normal (name : RawText)
  deriving DecidableEq, Repr

namespace Component

/-- The place of a component's kind in the order of components. -/
def rank : Component → Nat
  | root => 0
  | current => 1
  | parent => 2
  | normal _ => 3

/-- The order of components: by kind, names by their bytes. -/
def compare : Component → Component → Ordering
  | normal a, normal b => Ord.compare a.bytes b.bytes
  | a, b => Ord.compare a.rank b.rank

/-- How a component is written. -/
def raw : Component → RawText
  | root => "/"
  | current => "."
  | parent => ".."
  | normal name => name

/-- What is shown of a component. -/
def text (c : Component) : String := c.raw.text

/-- The name, if the component is one. -/
def name? : Component → Option RawText
  | normal name => some name
  | _ => none

end Component

/-- The steps among the stretches between slashes. -/
def steps (stretches : List RawText) : List Component :=
  stretches.filterMap fun (s : RawText) =>
    if s = "" ∨ s = "." then none else if s = ".." then some .parent else some (.normal s)

/-- Whether a path starts at the root directory. -/
def isAbsolute (p : Path) : Bool := p.raw.bytes.head? = some RawText.slash

/-- The components of a path. -/
def components (p : Path) : List Component :=
  let stretches := p.raw.pieces
  if p.isAbsolute then .root :: steps stretches
  else if stretches.head? = some (RawText.ofText ".") then .current :: steps stretches
  else steps stretches

/-- Whether two paths name the same place. -/
def same (p q : Path) : Bool := p.components = q.components

/-- The order of lists of components. -/
def compareComponents : List Component → List Component → Ordering
  | [], [] => .eq
  | [], _ :: _ => .lt
  | _ :: _, [] => .gt
  | a :: as, b :: bs => (a.compare b).then (compareComponents as bs)

/-- The order of paths: by components. -/
def compare (p q : Path) : Ordering := compareComponents p.components q.components

/-- The components of a path after those of a base. -/
def relativeTo? (base p : Path) : Option (List Component) :=
  if base.components.isPrefixOf p.components then some (p.components.drop base.components.length)
  else none

/-- **Lying below a base.** -/
theorem relativeTo?_eq_some_iff {base p : Path} {r : List Component} :
    relativeTo? base p = some r ↔ p.components = base.components ++ r := by
  unfold relativeTo?
  constructor
  · intro h
    split at h
    · rename_i hp
      obtain ⟨t, ht⟩ := List.isPrefixOf_iff_prefix.1 hp
      simp only [Option.some.injEq] at h
      rw [← ht] at h ⊢
      simp only [List.drop_left] at h
      rw [h]
    · exact absurd h (by simp)
  · intro h
    rw [h, if_pos (List.isPrefixOf_iff_prefix.2 (List.prefix_append _ _)), List.drop_left]

/-- Whether a path lies at or below a base. -/
def startsWith (base p : Path) : Bool := base.components.isPrefixOf p.components

/-- The path written below a base; an absolute path stands for itself. -/
def join (base p : Path) : Path :=
  if p.isAbsolute then p
  else if base.raw.bytes = [] ∨ base.raw.bytes.getLast? = some RawText.slash then
    ofRaw (base.raw ++ p.raw)
  else ofRaw (base.raw ++ "/" ++ p.raw)

/-- The name of the entry that a path ends in. -/
def fileName? (p : Path) : Option RawText := p.components.getLast?.bind Component.name?

/-- A file name cut at its last dot. A dot at the very start does not count, and `..` has none. -/
def splitName (name : String) : String × Option String :=
  let cs := name.toList
  let after := cs.reverse.takeWhile (· ≠ '.')
  let before := cs.reverse.drop (after.length + 1)
  if after.length = cs.length ∨ before.isEmpty ∨ name = ".." then (name, none)
  else (String.ofList before.reverse, some (String.ofList after.reverse))

/-- The shown file name after its last dot. -/
def extension? (p : Path) : Option String := p.fileName?.bind fun n => (splitName n.text).2

/-- The shown file name before its last dot, or all of it. -/
def stem? (p : Path) : Option String := p.fileName?.map fun n => (splitName n.text).1

/-- The components without the last one; none if there is no last one, or it is the root. -/
def parent? (p : Path) : Option (List Component) :=
  match p.components.getLast? with
  | none | some .root => none
  | some _ => some p.components.dropLast

/-- A path with the given components. -/
def ofComponents (cs : List Component) : Path :=
  match cs with
  | .root :: r => ofRaw ("/" ++ RawText.join (r.map Component.raw))
  | _ => ofRaw (RawText.join (cs.map Component.raw))

/-- What is shown of the names among components that only descend; `.` steps are left out, and there are
none if a step leads up or to the root. -/
def names? : List Component → Option (List String)
  | [] => some []
  | .current :: r => names? r
  | .normal n :: r => (names? r).map (n.text :: ·)
  | .root :: _ | .parent :: _ => none

end Path

end CodeSearch
