import CodeSearch.Proofs.Chunks.Ownership

/-!
# First lines of declarations

Declarations that lie in another one, or overlap with its end, take lines from it, and may leave it nothing but its
first line. That line they cannot take. What owns the first line of a declaration has to cover this line, so it starts
there or earlier, and being the innermost declaration it starts there or later. So a declaration that shares its first
row with no other one owns its first line, and since it covers no line before that one, a chunk begins there.

* `exists_owns_of_covers` — a line that is covered has an owner;
* `Definition.Owns.startRow_eq` — the owner of the first line of a declaration starts with it;
* `Definition.Owns.exists_ownedRange` — a line that is owned lies in a range that cannot be made longer;
* `exists_chunk_of_first` — where declarations start, a chunk of one of them begins, namely of one that ends first;
* `syntaxChunks?_firstLine` — no declaration is without a chunk, unless its first line is blank or not only its own.
-/

namespace CodeSearch

section FirstLines

variable {content : String} {definitions : List Definition} {d e : Definition} {place n : Nat}

/-- A declaration that does not run backwards covers its first line. -/
theorem Definition.covers_first (h : d.startRow ≤ d.endRow) : d.covers (d.startRow + 1) = true := by
  rw [Definition.covers, Bool.and_eq_true, decide_eq_true_iff, decide_eq_true_iff]
  exact ⟨Nat.lt_succ_self _, Nat.succ_le_succ h⟩

/-- No line in front of a declaration is covered. -/
theorem Definition.startRow_lt_of_covers (h : d.covers n = true) : d.startRow < n := by
  rw [Definition.covers, Bool.and_eq_true, decide_eq_true_iff] at h
  exact h.1

/-- A line that some declaration covers has an owner. -/
theorem exists_owns_of_covers (hd : d ∈ definitions) (hcovers : d.covers n = true) :
    ∃ place e, Definition.Owns definitions place e n := by
  rcases owner?_cases (outerToInner definitions) n with ⟨-, hnone⟩ | ⟨key, e, hfound, -⟩
  · have hmem : d ∈ outerToInner definitions := (List.mergeSort_perm _ _).mem_iff.2 hd
    rw [hnone d hmem] at hcovers
    cases hcovers
  · obtain ⟨place, -, howns⟩ := owns_of_owner? hfound
    exact ⟨place, e, howns⟩

/-- **The owner of the first line of a declaration starts with it**, and does not end after it. -/
theorem Definition.Owns.startRow_eq (h : Definition.Owns definitions place e (d.startRow + 1))
    (hd : d ∈ definitions) (hforward : d.startRow ≤ d.endRow) :
    e.startRow = d.startRow ∧ e.endRow ≤ d.endRow := by
  obtain ⟨other, hother⟩ := List.mem_iff_getElem?.1 hd
  -- it covers the line, so it starts no later; and it is the innermost one, so it starts no earlier
  have hle : e.startRow < d.startRow + 1 := Definition.startRow_lt_of_covers h.covers
  have hinner := h.innermost other d hother (Definition.covers_first hforward)
  omega

/-- **A line that is owned lies in an owned range**, if it is a line of the text. -/
theorem Definition.Owns.exists_ownedRange (h : Definition.Owns definitions place d n)
    (htext : HasText content n) :
    ∃ first last, OwnedRange content definitions place d first last ∧ first ≤ n ∧ n ≤ last := by
  -- the line is in some run of lines with one owner
  obtain ⟨l, hl, rfl, -⟩ := htext
  obtain ⟨key, howner, -⟩ := exists_owner? h
  have hmem : (l, some (key, d)) ∈ ownedLines content definitions := by
    rw [← howner]
    exact List.mem_map.2 ⟨l, hl, rfl⟩
  rw [← runs_flatten (fun o => o.2.map Prod.fst) (ownedLines content definitions)] at hmem
  obtain ⟨run, hrun, hx⟩ := List.mem_flatten.1 hmem
  -- the range is the one that the run of the line makes up
  obtain ⟨place', before, after, a, b, hcut, ha, hb, hrange⟩ := CodeSearch.exists_ownedRange hrun hx rfl
  have hline : l ∈ run.map Prod.fst := List.mem_map.2 ⟨_, hx, rfl⟩
  obtain ⟨-, hfirst, hlast⟩ := (Line.mem_iff_of_append hcut ha hb).1 hline
  obtain rfl : place' = place := (hrange.owns l.number hfirst hlast).place_eq h
  exact ⟨a.number, b.number, hrange, hfirst, hlast⟩

/-- **Where declarations start, a chunk begins**, unless the line is blank. It is the chunk of one of those that start
there, and none of them ends before that one. -/
theorem exists_chunk_of_first (hd : d ∈ definitions) (hforward : ∀ e ∈ definitions, e.startRow ≤ e.endRow)
    (htext : HasText content (d.startRow + 1)) :
    ∃ e ∈ definitions, e.startRow = d.startRow ∧
      (∀ f ∈ definitions, f.startRow = d.startRow → e.endRow ≤ f.endRow) ∧
      ∃ c ∈ syntaxChunks content definitions, c.symbols = [e.name] ∧ c.kind = e.kind ∧ c.parents = e.parents ∧
        c.startLine = d.startRow + 1 := by
  -- the first line is covered, so it has an owner, which starts there as well
  obtain ⟨place, e, howns⟩ := exists_owns_of_covers hd (Definition.covers_first (hforward d hd))
  have hstart : e.startRow = d.startRow := (howns.startRow_eq hd (hforward d hd)).1
  obtain ⟨first, last, hrange, hfirst, hlast⟩ := howns.exists_ownedRange htext
  -- the owner covers no line before its first one, so the range begins there
  have hbegin : first = d.startRow + 1 := by
    have hcovers := (hrange.owns first (Nat.le_refl _) hrange.first_le_last).covers
    have hlt : e.startRow < first := Definition.startRow_lt_of_covers hcovers
    omega
  -- the line is not blank, so its range makes a chunk
  obtain ⟨c, hc, htaken⟩ := hrange.exists_takenFrom hfirst hlast htext
  refine ⟨e, List.mem_of_getElem? howns.at_place, hstart, fun f hf hrow => ?_, c, hc, htaken.symbols_eq,
    htaken.kind_eq, htaken.parents_eq, htaken.startLine_eq.trans hbegin⟩
  -- no declaration that starts there ends before the owner
  rw [← hrow] at howns
  exact (howns.startRow_eq hf (hforward f hf)).2

/-- **No declaration is lost unless it shares its first line.** Whatever lies in a declaration or overlaps with it, if
the line it starts with is not blank and no other declaration starts there, then a chunk that begins with this line says
the name, the kind and the parents of the declaration. -/
theorem syntaxChunks?_firstLine (content : String) (hforward : ∀ d ∈ definitions, d.startRow ≤ d.endRow) :
    ∃ chunks, syntaxChunks? content definitions = some chunks ∧
      ∀ d ∈ definitions, HasText content (d.startRow + 1) →
        (∀ e ∈ definitions, e.startRow = d.startRow → e = d) →
          ∃ c ∈ chunks, c.symbols = [d.name] ∧ c.kind = d.kind ∧ c.parents = d.parents ∧
            c.startLine = d.startRow + 1 := by
  refine ⟨syntaxChunks content definitions, syntaxChunks?_eq_some content hforward, fun d hd htext hown => ?_⟩
  obtain ⟨e, he, hrow, -, hchunk⟩ := exists_chunk_of_first hd hforward htext
  obtain rfl : e = d := hown e he hrow
  exact hchunk

end FirstLines

/-! Three declarations of which each one takes all lines but the first from the one around it, and the last one goes on
past the end of the text. -/

section Shadowed

/-- Four lines, of which the last one is blank. -/
def shadowedText : String := "a\nb\nc\n\n"

/-- A type, a method that ends with it, and a function in the method that ends behind the text. -/
def shadowedDefinitions : List Definition :=
  [{ kind := .classLike, name := "A", startRow := 0, endRow := 3, declRow := 0, parents := [] },
    { kind := .method, name := "f", startRow := 1, endRow := 3, declRow := 1, parents := ["A"] },
    { kind := .function, name := "g", startRow := 2, endRow := 8, declRow := 2, parents := ["A"] }]

/-- The three declarations start on lines of their own, so each has its chunk. -/
theorem syntaxChunks?_firstLine_shadowed :
    (∀ d ∈ shadowedDefinitions, d.startRow ≤ d.endRow) ∧
      ∃ chunks, syntaxChunks? shadowedText shadowedDefinitions = some chunks ∧
        ∀ d ∈ shadowedDefinitions, ∃ c ∈ chunks, c.symbols = [d.name] ∧ c.kind = d.kind ∧ c.parents = d.parents ∧
          c.startLine = d.startRow + 1 := by
  have hforward : ∀ d ∈ shadowedDefinitions, d.startRow ≤ d.endRow := by decide
  have htext : ∀ d ∈ shadowedDefinitions, HasText shadowedText (d.startRow + 1) := by
    simp only [HasText]
    decide +kernel
  -- no two of them start on one line
  have hown : ∀ d ∈ shadowedDefinitions, ∀ e ∈ shadowedDefinitions, e.startRow = d.startRow → e = d := by decide
  obtain ⟨chunks, hchunks, hfirst⟩ := syntaxChunks?_firstLine shadowedText hforward
  exact ⟨hforward, chunks, hchunks, fun d hd => hfirst d hd (htext d hd) (hown d hd)⟩

end Shadowed

end CodeSearch
