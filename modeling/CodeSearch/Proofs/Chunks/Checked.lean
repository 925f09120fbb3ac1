import CodeSearch.Proofs.Chunks.Tails

/-!
# Cutting a text place by place

`chunksWith?` takes lists of lines apart. Here a text is cut by going through the places of its lines instead: lines,
units and fragments are ranges of places, owners are noted in a list with one entry for each line, and what is needed is
looked up where it is said to be. Such steps may fail. A place may lie outside of a list (`lines[row]?`), a range may be
none of a list (`slice?`, `fill?`), and a difference may lie below zero (`before?`, `sub?`). In the namespace `Checked`
each of them is an `Option`, and the text is cut only if none of them fails (`Checked.chunksWith?`).

This module is about the first cut, at the declarations:

* `Checked.part?_eq` — a range of places makes the chunk of the lines that stand there;
* `Checked.owners?_eq` — noting the owners of lines fails for the declarations that run backwards, and for no others,
  since the rows behind the last line are left out;
* `Checked.chunksFrom?_of_none`, `Checked.chunksFrom?_of_some` — one row without an owner, and one run;
* `Checked.chunksFrom?_eq` — so from then on no step fails, and a run of places is a run of lines;
* `Checked.syntaxChunks?_eq` — both ways to cut agree, and fail for the same declarations.
-/

namespace CodeSearch

namespace Checked

/-! ### Steps that may fail -/

section Steps

variable {α : Type}

/-- The place before another one; there is none before the first. -/
def before? : (place : Nat) → Option { p : Nat // p < place }
  | 0 => none
  | p + 1 => some ⟨p, Nat.lt_succ_self p⟩

/-- A difference, unless it lies below zero. -/
def sub? (a b : Nat) : Option Nat := if b ≤ a then some (a - b) else none

/-- What stands between two places of a list, if they are places of the list in their order. -/
def slice? (l : List α) (first last : Nat) : Option (List α) :=
  if first ≤ last ∧ last ≤ l.length then some ((l.drop first).take (last - first)) else none

/-- A list with one item at all places between two, if they are places of the list in their order. -/
def fill? (l : List α) (first last : Nat) (a : α) : Option (List α) :=
  if first ≤ last ∧ last ≤ l.length then
    some (l.mapIdx fun place b => if first ≤ place ∧ place < last then a else b)
  else none

end Steps

/-! ### Chunks by declaration -/

/-- The end of some lines without the blank ones there. -/
def trimEnd? (lines : List (List Char)) (first last : Nat) : Option Nat :=
  if first < last then do
    let place ← before? last
    let l ← lines[place.1]?
    if Chars.isBlankLine l then trimEnd? lines first place else some last
  else some last
termination_by last
decreasing_by exact place.2

/-- The chunk of the lines between two places, less the blank ones at their end; nothing if all are blank. The number
of the first line of the list is `offset`. -/
def part? (lines : List (List Char)) (offset : Nat) (kind : ChunkKind) (symbols parents : List String)
    (first last : Nat) : Option (Option Chunk) := do
  let last ← trimEnd? lines first last
  if last = first then return none
  let kept ← slice? lines first last
  let endLine ← before? (offset + last)
  let content := String.ofList (Chars.joinLines kept)
  return some { content, startLine := offset + first, endLine, kind, symbols, parents,
                contentHash := Digest.ofText content }

/-- The owners of the lines of a text after one more declaration, which stands at a place of their order. -/
def mark? (count : Nat) (owners : List (Option Nat)) (d : Definition) (place : Nat) :
    Option (List (Option Nat)) :=
  if count ≤ d.startRow then some owners
  else do
    let last ← before? count
    fill? owners d.startRow (min d.endRow last + 1) (some place)

/-- The places of the declarations that own the lines of a text. -/
def owners? (count : Nat) (ordered : List Definition) : Option (List (Option Nat)) :=
  ordered.zipIdx.foldlM (fun owners e => mark? count owners e.1 e.2) (List.replicate count none)

/-- How many of the rows from one on, up to the last of `count`, belong to one owner without a break. -/
def runLength? (owners : List (Option Nat)) (count place row : Nat) : Option Nat :=
  if _h : row < count then do
    let owner ← owners[row]?
    if owner = some place then
      let more ← runLength? owners count place (row + 1)
      return more + 1
    else return 0
  else some 0
termination_by count - row

/-- The chunks of the lines from a row on. -/
def chunksFrom? (lines : List (List Char)) (ordered : List Definition) (owners : List (Option Nat)) (row : Nat) :
    Option (List Chunk) :=
  if _h : row < lines.length then do
    match ← owners[row]? with
    | none => chunksFrom? lines ordered owners (row + 1)
    | some place =>
      -- the row is the first of its run
      let more ← runLength? owners lines.length place (row + 1)
      let d ← ordered[place]?
      let c ← part? lines 1 d.kind [d.name] d.parents row (row + 1 + more)
      let cs ← chunksFrom? lines ordered owners (row + 1 + more)
      return c.toList ++ cs
  else some []
termination_by lines.length - row

/-- The chunks of a text with some declarations. -/
def syntaxChunks? (content : String) (definitions : List Definition) : Option (List Chunk) :=
  let lines := Chars.lines content.toList
  if lines.isEmpty || definitions.isEmpty then some []
  else do
    let ordered := outerToInner definitions
    let owners ← owners? lines.length ordered
    chunksFrom? lines ordered owners 0

/-! ### Splitting long chunks -/

/-- The bytes of the lines between two places, with newlines between them; 0 if there is no line. -/
def size? (lines : List (List Char)) (first last : Nat) : Option Nat := do
  let ls ← slice? lines first last
  return (ls.map fun l => Chars.byteSize l + 1).sum - 1

/-- Whether a paragraph ends with a row. -/
def endsParagraph? (lines : List (List Char)) (row : Nat) : Option Bool :=
  if row + 1 = lines.length then some true
  else do
    let l ← lines[row]?
    if Chars.isBlankLine l then
      let next ← lines[row + 1]?
      return !Chars.isBlankLine next
    else return false

/-- The units of the `rest` lines from `row` on, where `first` is the row in which the paragraph has begun. -/
def unitsFrom? (limit : Nat) (lines : List (List Char)) : (rest row first : Nat) → Option (List (Nat × Nat))
  | 0, _, _ => some []
  | rest + 1, row, first => do
    if ← endsParagraph? lines row then
      let bytes ← size? lines first (row + 1)
      let us ← unitsFrom? limit lines rest (row + 1) (row + 1)
      if limit < bytes then
        return (List.range' first (row + 1 - first)).map (fun n => (n, n + 1)) ++ us
      else return (first, row + 1) :: us
    else unitsFrom? limit lines rest (row + 1) first

/-- Packs units into fragments. The open fragment has the units from `first` on, up to `place`, where the ones that
are left begin. -/
def packAfter? (limit : Nat) (lines : List (List Char)) (units : List (Nat × Nat)) :
    (left : List (Nat × Nat)) → (first place : Nat) → Option (List (Nat × Nat))
  | [], first, place => some [(first, place)]
  | u :: us, first, place => do
    let start ← units[first]?
    let bytes ← size? lines start.1 u.2
    if bytes ≤ limit then packAfter? limit lines units us first (place + 1)
    else
      let gs ← packAfter? limit lines units us place (place + 1)
      return (first, place) :: gs

/-- Packs units into fragments. -/
def pack? (limit : Nat) (lines : List (List Char)) (units : List (Nat × Nat)) : Option (List (Nat × Nat)) :=
  match units with
  | [] => some []
  | _ :: us => packAfter? limit lines units us 0 1

/-- The lines of a fragment. -/
def span? (units : List (Nat × Nat)) (g : Nat × Nat) : Option (Nat × Nat) := do
  let first ← units[g.1]?
  let place ← before? g.2
  let last ← units[place.1]?
  return (first.1, last.2)

/-- Moves units from the end of the fragment `prev` to the front of `last`. -/
def rebalance? (limit least : Nat) (lines : List (List Char)) (units : List (Nat × Nat)) (prev last : Nat × Nat) :
    Option ((Nat × Nat) × (Nat × Nat)) := do
  let count ← sub? prev.2 prev.1
  if count ≤ 1 then return (prev, last)
  let (first, stop) ← span? units last
  let place ← before? prev.2
  let moved ← units[place.1]?
  let bytes ← size? lines first stop
  if least ≤ bytes then return (prev, last)
  let bytes ← size? lines moved.1 stop
  if limit < bytes then return (prev, last)
  let start ← before? last.1
  rebalance? limit least lines units (prev.1, place) (start, last.2)
termination_by prev.2
decreasing_by exact place.2

/-- Fragments with the last two rebalanced. -/
def topUp? (limit least : Nat) (lines : List (List Char)) (units : List (Nat × Nat)) :
    List (Nat × Nat) → Option (List (Nat × Nat))
  | [] => some []
  | [g] => some [g]
  | [prev, last] => do
    let (prev, last) ← rebalance? limit least lines units prev last
    return [prev, last]
  | g :: gs => do
    let gs ← topUp? limit least lines units gs
    return g :: gs

/-- The lines of the fragments that some lines are split into. -/
def spans? (limit least : Nat) (lines : List (List Char)) : Option (List (Nat × Nat)) := do
  let units ← unitsFrom? limit lines lines.length 0 0
  let groups ← pack? limit lines units
  let groups ← topUp? limit least lines units groups
  groups.mapM (span? units)

/-- A chunk, split if it is longer than the settings allow. -/
def split? (s : ChunkSettings) (c : Chunk) : Option (List Chunk) :=
  if s.maxChunkSize = 0 ∨ Text.byteSize c.content ≤ s.maxChunkSize then some [c]
  else do
    let lines := Chars.lines c.content.toList
    let spans ← spans? s.maxChunkSize s.minFragmentSize lines
    let parts ← spans.mapM fun g => part? lines c.startLine c.kind c.symbols c.parents g.1 g.2
    return parts.filterMap id

/-- The chunks of a text with some declarations. -/
def chunksWith? (s : ChunkSettings) (content : String) (definitions : List Definition) : Option (List Chunk) := do
  let chunks ← syntaxChunks? content definitions
  let parts ← (if chunks.isEmpty then [wholeChunk content] else chunks).mapM (split? s)
  return parts.flatten

/-! ### Places of a list -/

section Places

variable {α : Type}

/-- There is a place before every place but the first. -/
theorem before?_of_pos {place : Nat} (h : 0 < place) :
    before? place = some ⟨place - 1, Nat.sub_lt h Nat.one_pos⟩ := by
  cases place with
  | zero => cases h
  | succ p => rfl

/-- What stands between two parts of a list is cut out of it. -/
theorem slice?_append (before own after : List α) :
    slice? (before ++ (own ++ after)) before.length (before.length + own.length) = some own := by
  have hin : before.length ≤ before.length + own.length ∧
      before.length + own.length ≤ (before ++ (own ++ after)).length := by
    rw [List.length_append, List.length_append]
    omega
  rw [slice?, if_pos hin, List.drop_left, Nat.add_sub_cancel_left, List.take_left]

/-- The item that comes after others stands at the place that is their number. -/
theorem getElem?_append_cons (before : List α) (a : α) (after : List α) :
    (before ++ a :: after)[before.length]? = some a := by
  rw [List.getElem?_append_right (Nat.le_refl _), Nat.sub_self, List.getElem?_cons_zero]

end Places

/-! ### Chunks of lines -/

section Parts

variable {before own after : List Line} {lines : List (List Char)} {offset : Nat}

/-- The text of a line is found at its place. -/
theorem getElem?_texts (before : List Line) (l : Line) (after : List Line) :
    (Line.texts (before ++ l :: after))[before.length]? = some l.text := by
  rw [Line.texts, List.getElem?_map, getElem?_append_cons, Option.map_some]

/-- Lines between others are what stands between their places. -/
theorem slice?_texts (before own after : List Line) :
    slice? (Line.texts (before ++ (own ++ after))) before.length (before.length + own.length) =
      some (Line.texts own) := by
  have h := slice?_append (Line.texts before) (Line.texts own) (Line.texts after)
  simpa only [Line.texts, List.map_append, List.length_map] using h

/-- The blank lines at the end are passed over, and no line before the first one is looked at. -/
theorem trimEnd?_eq (before own after : List Line) :
    trimEnd? (Line.texts (before ++ (own ++ after))) before.length (before.length + own.length) =
      some (before.length + (Line.trimBlank own).length) := by
  -- from the last line to the first: one that is blank goes to those behind
  induction own using List.reverseRecOn generalizing after with
  | nil =>
    rw [trimEnd?, List.length_nil, Nat.add_zero, if_neg (Nat.lt_irrefl _)]
    rfl
  | append_singleton own l ih =>
    have hlength : before.length + (own ++ [l]).length = before.length + own.length + 1 := by
      rw [List.length_append, List.length_singleton, Nat.add_assoc]
    have hlist : before ++ (own ++ [l] ++ after) = before ++ (own ++ l :: after) := by
      rw [List.append_assoc own, List.singleton_append]
    have hget : (Line.texts (before ++ (own ++ l :: after)))[before.length + own.length]? = some l.text := by
      rw [← List.append_assoc, ← List.length_append, getElem?_texts]
    have hpos : before.length < before.length + own.length + 1 := by omega
    rw [hlength, hlist, trimEnd?, if_pos hpos]
    simp only [before?, Option.bind_eq_bind, Option.bind_some, hget]
    show (if l.isBlank = true then _ else _) = _
    by_cases hblank : l.isBlank = true
    · -- a blank line is left out with those behind it
      rw [if_pos hblank, ih, Line.trimBlank_append_blank (List.forall_mem_singleton.2 hblank)]
    · -- a line that is not blank is the last one that is kept
      have htext : l.isBlank = false := Bool.eq_false_iff.2 hblank
      have hlast : Line.trimBlank [l] = [l] := by simp [Line.trimBlank, htext]
      rw [if_neg hblank, Line.trimBlank_append_text ⟨l, List.mem_singleton_self l, htext⟩, hlast, hlength]

/-- **A part of numbered lines is the chunk of these lines.** -/
theorem part?_eq (kind : ChunkKind) (symbols parents : List String)
    (h : Line.numbered offset lines = before ++ (own ++ after)) :
    part? lines offset kind symbols parents before.length (before.length + own.length) =
      some (Chunk.ofLines? own kind symbols parents) := by
  have hlines : lines = Line.texts (before ++ (own ++ after)) := by rw [← h, Line.texts_numbered]
  obtain ⟨blank, happend, -⟩ := Line.trimBlank_append own
  -- the blank lines at the end come after the ones that are kept
  have hcut : before ++ (own ++ after) = before ++ (Line.trimBlank own ++ (blank ++ after)) := by
    rw [← List.append_assoc (Line.trimBlank own), ← happend]
  rw [part?, hlines, trimEnd?_eq, Chunk.ofLines?]
  simp only [Option.bind_eq_bind, Option.bind_some]
  rw [hcut] at h ⊢
  generalize Line.trimBlank own = kept at h ⊢
  cases kept with
  -- nothing is left, so there is no chunk
  | nil => exact if_pos rfl
  | cons l ls =>
    -- a line is left, so its number is not below the first one
    have hne : l :: ls ≠ [] := List.cons_ne_nil l ls
    have hfirst : ((l :: ls) ++ (blank ++ after)).head? = some l := rfl
    have hlast : (before ++ (l :: ls)).getLast? = some ((l :: ls).getLast hne) := by
      rw [List.getLast?_append, List.getLast?_eq_some_getLast hne, Option.some_or]
    have hnumber := Line.number_of_head?_append h hfirst
    have hnumber' := Line.number_of_getLast?_append (h.trans (List.append_assoc _ _ _).symm) hlast
    rw [List.length_append] at hnumber'
    have hpos : 0 < offset + (before.length + (l :: ls).length) := by
      rw [List.length_cons]
      omega
    have hkept : before.length + (l :: ls).length ≠ before.length := by
      rw [List.length_cons]
      omega
    -- the place behind the last line tells its number
    have hend : offset + (before.length + (l :: ls).length) - 1 = ((l :: ls).getLast hne).number := by
      rw [← hnumber', Nat.add_sub_cancel]
    rw [if_neg hkept, slice?_texts, before?_of_pos hpos]
    simp only [Option.bind_some, List.head?_cons, List.getLast?_eq_some_getLast hne, hend, hnumber]
    rfl

end Parts

/-! ### Owners of rows -/

section Owners

/-- **Marking the rows of one more declaration** fails if it runs backwards. Otherwise the rows that it covers get it
as their owner, also if it goes on below the last one. -/
theorem mark?_eq (count : Nat) (owner : Nat → Option Nat) (d : Definition) (place : Nat) :
    mark? count ((List.range count).map owner) d place =
      if d.isBackward count then none
      else some ((List.range count).map fun row => if d.covers (row + 1) then some place else owner row) := by
  rw [mark?]
  -- the declaration starts at a row of the text
  rcases Nat.lt_or_ge d.startRow count with hin | hout
  · rw [if_neg (Nat.not_le.2 hin), before?_of_pos (by omega)]
    simp only [Option.bind_eq_bind, Option.bind_some, fill?, List.length_map, List.length_range]
    by_cases hback : d.isBackward count = true
    · have hrows := Definition.isBackward_iff.1 hback
      rw [if_pos hback, if_neg (by omega)]
    · -- the range may be empty, but it does not end before the place where it starts
      have hrows : d.startRow ≤ d.endRow + 1 := by
        by_contra hgt
        exact hback (Definition.isBackward_iff.2 ⟨hin, by omega⟩)
      rw [if_neg hback, if_pos (by omega)]
      congr 1
      apply List.ext_getElem?
      intro row
      rw [List.getElem?_mapIdx, List.getElem?_map, List.getElem?_map]
      rcases Nat.lt_or_ge row count with hrow | hrow
      · rw [List.getElem?_range hrow]
        show some (if _ then _ else _) = some (if _ then _ else _)
        congr 2
        -- below the last row there is nothing to mark
        rw [Definition.covers_succ_iff]
        apply propext
        omega
      · rw [List.getElem?_eq_none (by simpa using hrow)]
        rfl
  · -- it starts below the last row, so that it neither runs backwards nor covers a row
    have hforward : ¬d.isBackward count = true := fun hback => Nat.not_lt.2 hout (Definition.isBackward_iff.1 hback).1
    rw [if_pos hout, if_neg hforward]
    congr 1
    apply List.map_congr_left
    intro row hrow
    rw [if_neg]
    intro hcovers
    have hrow := List.mem_range.1 hrow
    have hstart := (Definition.covers_succ_iff.1 hcovers).1
    omega

/-- **The owners of rows**, each the last declaration that covers it. There are none if a declaration runs backwards. -/
theorem owners?_eq (count : Nat) (ordered : List Definition) :
    owners? count ordered =
      if ordered.any (Definition.isBackward count) then none
      else some ((List.range count).map fun row => (owner? ordered (row + 1)).map Prod.fst) := by
  induction ordered using List.reverseRecOn with
  | nil =>
    -- without declarations no row has an owner
    show some (List.replicate count none) = some ((List.range count).map fun _ => none)
    rw [List.map_const', List.length_range]
  | append_singleton ordered d ih =>
    rw [owners?] at ih
    -- what has failed before fails, and otherwise the last declaration is marked over the others
    rw [owners?, List.zipIdx_append, List.foldlM_append, ih, List.any_append, List.any_cons, List.any_nil,
      Bool.or_false]
    cases ordered.any (Definition.isBackward count) with
    | true => rfl
    | false =>
      rw [if_neg Bool.false_ne_true, Bool.false_or]
      simp only [List.zipIdx_cons, List.zipIdx_nil, List.foldlM_cons, List.foldlM_nil, Nat.zero_add,
        Option.bind_eq_bind, Option.bind_some, bind_pure, mark?_eq, owner?_concat]
      congr 2
      apply List.map_congr_left
      intro row _
      split <;> rfl

end Owners

/-! ### Runs of rows -/

section Rows

variable {content : String} {definitions : List Definition}

/-- A run is counted up to the first row that does not belong to it, or to the last one. -/
theorem runLength?_eq (place : Nat) (before rest : List (Option Nat)) :
    runLength? (before ++ rest) (before ++ rest).length place before.length =
      some (rest.takeWhile fun owner => owner = some place).length := by
  induction rest generalizing before with
  | nil =>
    rw [runLength?, List.append_nil, dif_neg (Nat.lt_irrefl _)]
    rfl
  | cons owner rest ih =>
    -- the row is passed, and the count goes on behind it
    have hnext : (before ++ [owner]).length = before.length + 1 := List.length_append
    have hrest := ih (before ++ [owner])
    rw [List.append_assoc, List.singleton_append, hnext] at hrest
    have hin : before.length < (before ++ owner :: rest).length := by
      rw [List.length_append, List.length_cons]
      omega
    rw [runLength?, dif_pos hin, getElem?_append_cons, List.takeWhile_cons]
    simp only [Option.bind_eq_bind, Option.bind_some]
    -- one more row of the run
    by_cases howner : owner = some place
    · rw [if_pos howner, if_pos (decide_eq_true howner), hrest]
      rfl
    · -- the run ends in front of it
      rw [if_neg howner, if_neg (by simpa using howner)]
      rfl

/-- What owns a line stands at its place in the order. -/
theorem getElem?_of_mem_ownedLines {l : Line} {place : Nat} {d : Definition}
    (h : (l, some (place, d)) ∈ ownedLines content definitions) :
    (outerToInner definitions)[place]? = some d := by
  obtain ⟨l', -, hl'⟩ := List.mem_map.1 h
  have howner := (Prod.mk.inj hl').2
  -- what owns the line was found at a place of the order
  rcases owner?_cases (outerToInner definitions) l'.number with ⟨hnone, -⟩ | ⟨place', d', hsome, hget, -⟩
  · rw [hnone] at howner
    cases howner
  · rw [hsome] at howner
    cases howner
    exact hget

/-- The owners of the lines of a text. -/
def lineOwners (content : String) (definitions : List Definition) : List (Option Nat) :=
  (ownedLines content definitions).map fun o => o.2.map Prod.fst

/-- Each line has an entry among the owners. -/
theorem length_lineOwners (content : String) (definitions : List Definition) :
    (lineOwners content definitions).length = (Chars.lines content.toList).length := by
  rw [lineOwners, List.length_map, ownedLines, List.length_map, Line.length_numbered]

section Steps

variable {before rest run after : List (Line × Option (Nat × Definition))} {l : Line} {place : Nat} {d : Definition}

/-- The owner of a line is found in its row. -/
theorem getElem?_lineOwners {o : Line × Option (Nat × Definition)}
    (howned : ownedLines content definitions = before ++ o :: rest) :
    (lineOwners content definitions)[before.length]? = some (o.2.map Prod.fst) := by
  rw [lineOwners, howned, List.getElem?_map, getElem?_append_cons, Option.map_some]

/-- A row with lines from it on is a row of the text. -/
theorem length_lt_of_ownedLines {o : Line × Option (Nat × Definition)}
    (howned : ownedLines content definitions = before ++ o :: rest) :
    before.length < (Chars.lines content.toList).length := by
  rw [← length_lineOwners content definitions]
  exact (List.getElem?_eq_some_iff.1 (getElem?_lineOwners howned)).1

/-- How far a run goes is found by looking at one row after another. -/
theorem runLength?_of_ownedLines (howned : ownedLines content definitions = before ++ (l, some (place, d)) :: rest) :
    runLength? (lineOwners content definitions) (Chars.lines content.toList).length place (before.length + 1) =
      some (rest.takeWhile fun o => o.2.map Prod.fst = some place).length := by
  have hrun := runLength?_eq place ((before ++ [(l, some (place, d))]).map fun o => o.2.map Prod.fst)
    (rest.map fun o => o.2.map Prod.fst)
  rwa [← List.map_append, ← List.append_cons, ← howned, ← lineOwners, length_lineOwners, List.length_map,
    List.length_append, List.length_singleton, List.takeWhile_map, List.length_map] at hrun

/-- The lines of a run make its chunk. -/
theorem part?_of_ownedLines
    (howned : ownedLines content definitions = before ++ ((l, some (place, d)) :: run ++ after)) :
    part? (Chars.lines content.toList) 1 d.kind [d.name] d.parents before.length (before.length + 1 + run.length) =
      some (chunkOfRun? ((l, some (place, d)) :: run)) := by
  have hcut : Line.numbered 1 (Chars.lines content.toList) =
      before.map Prod.fst ++ (((l, some (place, d)) :: run).map Prod.fst ++ after.map Prod.fst) := by
    rw [← map_fst_ownedLines content definitions, howned, List.map_append, List.map_append]
  have hpart := part?_eq d.kind [d.name] d.parents hcut
  rw [List.length_map, List.length_map, List.length_cons, Nat.add_comm run.length, ← Nat.add_assoc] at hpart
  exact hpart

/-- **A row without an owner** is passed over. -/
theorem chunksFrom?_of_none (howned : ownedLines content definitions = before ++ (l, none) :: rest) :
    chunksFrom? (Chars.lines content.toList) (outerToInner definitions) (lineOwners content definitions)
        before.length =
      chunksFrom? (Chars.lines content.toList) (outerToInner definitions) (lineOwners content definitions)
        (before.length + 1) := by
  rw [chunksFrom?, dif_pos (length_lt_of_ownedLines howned), getElem?_lineOwners howned]
  rfl

/-- **A row with an owner** is the first one of a run, which gives its chunk if it is not blank. -/
theorem chunksFrom?_of_some (howned : ownedLines content definitions = before ++ (l, some (place, d)) :: rest)
    (hrun : rest.takeWhile (fun o => o.2.map Prod.fst = some place) = run) :
    chunksFrom? (Chars.lines content.toList) (outerToInner definitions) (lineOwners content definitions)
        before.length =
      (chunksFrom? (Chars.lines content.toList) (outerToInner definitions) (lineOwners content definitions)
        (before.length + 1 + run.length)).map fun cs => (chunkOfRun? ((l, some (place, d)) :: run)).toList ++ cs := by
  have hmem : (l, some (place, d)) ∈ ownedLines content definitions := by
    rw [howned]
    exact List.mem_append_right before List.mem_cons_self
  have hd := getElem?_of_mem_ownedLines hmem
  -- the run goes on up to the first line with another owner
  have hlast := runLength?_of_ownedLines howned
  have hcut : ownedLines content definitions = before ++ ((l, some (place, d)) :: run ++
      rest.dropWhile fun o => o.2.map Prod.fst = some place) := by
    rw [howned, ← hrun, List.cons_append, List.takeWhile_append_dropWhile]
  rw [chunksFrom?, dif_pos (length_lt_of_ownedLines howned), getElem?_lineOwners howned]
  simp only [Option.bind_eq_bind, Option.bind_some, Option.map_some, hlast, hrun, hd, part?_of_ownedLines hcut]
  -- the lines of the run are the part that the chunk is made of
  rw [Option.map_eq_bind]
  rfl

end Steps

/-- **The chunks of the lines from a row on** are those of the runs there. -/
theorem chunksFrom?_eq (before rest : List (Line × Option (Nat × Definition)))
    (howned : ownedLines content definitions = before ++ rest) :
    chunksFrom? (Chars.lines content.toList) (outerToInner definitions) (lineOwners content definitions)
        before.length =
      some ((runs (fun o => o.2.map Prod.fst) rest).filterMap chunkOfRun?) := by
  -- on the number of rows that are left, since a run takes as many of them as it has
  induction hcount : rest.length using Nat.strong_induction_on generalizing before rest with
  | h count ih =>
  subst hcount
  cases rest with
  | nil =>
    -- no row is left
    rw [List.append_nil] at howned
    rw [chunksFrom?, dif_neg (by rw [← length_lineOwners content definitions, lineOwners, howned]; simp)]
    rfl
  | cons o rest =>
    obtain ⟨l, owner?⟩ := o
    cases owner? with
    | none =>
      -- a row without an owner gives no chunk
      have hrest := ih rest.length (Nat.lt_succ_self _) (before ++ [(l, none)]) rest
        (by rw [howned, List.append_cons]) rfl
      rw [List.length_append, List.length_singleton] at hrest
      rw [filterMap_runs_cons fun o run ho => chunkOfRun?_of_none ho run, chunksFrom?_of_none howned]
      exact hrest
    | some owner =>
      obtain ⟨place, d⟩ := owner
      -- the run is taken as a whole, and what is left has fewer rows
      obtain ⟨run, hrun⟩ : ∃ run, rest.takeWhile (fun o => o.2.map Prod.fst = some place) = run := ⟨_, rfl⟩
      obtain ⟨after, hafter⟩ : ∃ after, rest.dropWhile (fun o => o.2.map Prod.fst = some place) = after :=
        ⟨_, rfl⟩
      have hsplit : rest = run ++ after := by rw [← hrun, ← hafter, List.takeWhile_append_dropWhile]
      have hfewer : after.length < rest.length + 1 := by
        rw [hsplit, List.length_append]
        omega
      have hrest := ih after.length hfewer (before ++ (l, some (place, d)) :: run) after
        (by rw [howned, hsplit, List.append_assoc, List.cons_append]) rfl
      rw [List.length_append, List.length_cons, Nat.add_comm run.length, ← Nat.add_assoc] at hrest
      have hruns : runs (fun o => o.2.map Prod.fst) ((l, some (place, d)) :: rest) =
          ((l, some (place, d)) :: run) :: runs (fun o => o.2.map Prod.fst) after := by
        rw [← hrun, ← hafter, runs_cons]
        rfl
      rw [chunksFrom?_of_some howned hrun, hrest, hruns, List.filterMap_cons]
      cases chunkOfRun? ((l, some (place, d)) :: run) <;> rfl

/-- The owners of the lines of a text, row by row. -/
theorem lineOwners_eq (content : String) (definitions : List Definition) :
    lineOwners content definitions =
      (List.range (Text.lineCount content)).map fun row =>
        (owner? (outerToInner definitions) (row + 1)).map Prod.fst := by
  -- the lines are numbered from 1 on, and the rows from 0 on
  have hnumbers := Line.map_number_numbered 1 (Chars.lines content.toList)
  rw [List.range'_eq_map_range] at hnumbers
  calc lineOwners content definitions
      = ((Line.numbered 1 (Chars.lines content.toList)).map (·.number)).map fun n =>
          (owner? (outerToInner definitions) n).map Prod.fst := by
        rw [lineOwners, ownedLines, List.map_map, List.map_map]
        rfl
    _ = _ := by
        rw [hnumbers, List.map_map]
        apply List.map_congr_left
        intro row _
        rw [Function.comp_apply, Nat.add_comm]

/-- **Chunks are cut out by places as they are by runs**, and that fails for the same declarations. -/
theorem syntaxChunks?_eq (content : String) (definitions : List Definition) :
    syntaxChunks? content definitions = CodeSearch.syntaxChunks? content definitions := by
  -- sorting leaves the declarations what they are
  have hany : (outerToInner definitions).any (Definition.isBackward (Text.lineCount content)) =
      definitions.any (Definition.isBackward (Text.lineCount content)) :=
    (List.mergeSort_perm _ _).any_eq
  rw [syntaxChunks?, CodeSearch.syntaxChunks?]
  by_cases hempty : ((Chars.lines content.toList).isEmpty || definitions.isEmpty) = true
  · -- without lines no declaration is backward, and without either there is nothing to cut out
    rw [if_pos hempty]
    rcases Bool.or_eq_true_iff.1 hempty with hlines | hdefinitions
    · have hnil := List.isEmpty_iff.1 hlines
      have hcount : Text.lineCount content = 0 := by rw [Text.lineCount, hnil]; rfl
      have hforward : ∀ d ∈ definitions, ¬d.isBackward 0 = true := fun d _ h =>
        Nat.not_lt_zero _ (Definition.isBackward_iff.1 h).1
      rw [hcount, List.any_eq_false.2 hforward, syntaxChunks, hnil]
      rfl
    · rw [List.isEmpty_iff.1 hdefinitions, syntaxChunks_nil]
      rfl
  · -- there are rows and declarations, so that the rows are marked
    rw [if_neg hempty]
    show (owners? (Text.lineCount content) _ >>= _ : Option (List Chunk)) = _
    rw [owners?_eq, hany]
    split
    · rfl
    · rw [← lineOwners_eq]
      exact chunksFrom?_eq [] _ rfl

end Rows

end Checked

end CodeSearch
