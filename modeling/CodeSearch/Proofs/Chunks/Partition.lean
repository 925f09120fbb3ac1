import CodeSearch.Chunks.Chunker
import CodeSearch.Proofs.Chunks.Lines
import Mathlib.Data.List.Pairwise
import Mathlib.Logic.ExistsUnique

/-!
# Chunks partition a document

A document is cut twice, first at its declarations and then where a chunk is too long. Both cuts take
numbered lines apart into pieces and make a chunk of each piece that is not blank
(`ascending_filterMap`), so both give chunks whose lines ascend.

What the second cut has to know of the first is only that a chunk *mirrors* a range of lines
(`Chunk.Mirrors`): read as text again, it has as many lines as the range and is blank in the same places.

* `mirrors_of_mem_firstChunks`, `ascending_firstChunks` — the chunks before splitting;
* `Chunk.Mirrors.partOf_of_mem_split`, `Chunk.Mirrors.ascending_split`, `Chunk.Mirrors.exists_covers` —
  the parts that one chunk is split into;
* `partition_chunksWith?` — the chunks that a document is cut into have each its place in one chunk
  before splitting, and share out its lines.
-/

namespace CodeSearch

/-! ### Ranges of lines -/

/-- Whether a line of a text is there and not blank. -/
def HasText (content : String) (n : Nat) : Prop :=
  ∃ l ∈ Line.numbered 1 (Chars.lines content.toList), l.number = n ∧ l.isBlank = false

/-- Whether chunks follow one another without a common line. -/
def Ascending (cs : List Chunk) : Prop := cs.Pairwise fun a b => a.endLine < b.startLine

namespace Chunk

/-- Whether a line lies in a chunk. -/
def Covers (c : Chunk) (n : Nat) : Prop := c.startLine ≤ n ∧ n ≤ c.endLine

/-- Whether the lines of a chunk lie in another. -/
def LiesIn (c w : Chunk) : Prop := w.startLine ≤ c.startLine ∧ c.endLine ≤ w.endLine

/-- Whether a chunk is a part of another: it lies there, and says the same of itself. -/
structure PartOf (c w : Chunk) : Prop where
  liesIn : c.LiesIn w
  kind : c.kind = w.kind
  symbols : c.symbols = w.symbols
  parents : c.parents = w.parents

/-- Whether the lines of a chunk are a range of a text, and its own text is blank where they are. -/
structure Mirrors (content : String) (c : Chunk) : Prop where
  one_le : 1 ≤ c.startLine
  startLine_le : c.startLine ≤ c.endLine
  endLine_le : c.endLine ≤ max 1 (Text.lineCount content)
  blanks : (Chars.lines c.content.toList).map Chars.isBlankLine =
    (Chars.lineRange (Chars.lines content.toList) c.startLine c.endLine).map Chars.isBlankLine

end Chunk

/-- **Chunks of pieces ascend**, whatever pieces are left out, if the lines ascend through all the
pieces. -/
theorem ascending_filterMap {α : Type} (line : α → Line) {chunk? : List α → Option Chunk}
    {gs : List (List α)} (hgs : (gs.flatten.map line).Pairwise fun a b => a.number < b.number)
    (hchunk : ∀ g c, chunk? g = some c → c.MadeOf (g.map line)) : Ascending (gs.filterMap chunk?) := by
  rw [List.pairwise_map, List.pairwise_flatten] at hgs
  rw [Ascending, List.pairwise_filterMap]
  refine hgs.2.imp fun {g g'} hbefore c hc c' hc' => ?_
  -- the last line of the one chunk comes before the first line of the other
  obtain ⟨l, hl, hlast⟩ := (hchunk g c hc).exists_last
  obtain ⟨l', hl', hfirst⟩ := (hchunk g' c' hc').exists_first
  obtain ⟨x, hx, rfl⟩ := List.mem_map.1 hl
  obtain ⟨y, hy, rfl⟩ := List.mem_map.1 hl'
  rw [← hlast, ← hfirst]
  exact hbefore x hx y hy

/-! ### Before splitting -/

section First

variable {content : String} {definitions : List Definition} {c : Chunk}

/-- Declarations whose last row is not above the first one give chunks. -/
theorem syntaxChunks?_eq_some (content : String) (hforward : ∀ d ∈ definitions, d.startRow ≤ d.endRow) :
    syntaxChunks? content definitions = some (syntaxChunks content definitions) := by
  have hnone : definitions.any (Definition.isBackward (Text.lineCount content)) = false := by
    rw [List.any_eq_false]
    intro d hd hback
    have hle := hforward d hd
    rw [Definition.isBackward, Bool.and_eq_true, decide_eq_true_iff, decide_eq_true_iff] at hback
    omega
  rw [syntaxChunks?, hnone]
  rfl

/-- Each line of a text with what owns it. -/
def ownedLines (content : String) (definitions : List Definition) :
    List (Line × Option (Nat × Definition)) :=
  (Line.numbered 1 (Chars.lines content.toList)).map fun l =>
    (l, owner? (outerToInner definitions) l.number)

/-- The chunk of a run of lines with one owner. -/
def chunkOfRun? (run : List (Line × Option (Nat × Definition))) : Option Chunk :=
  match run.head? with
  | some (_, some (_, d)) => Chunk.ofLines? (run.map Prod.fst) d.kind [d.name] d.parents
  | _ => none

/-- Chunks before splitting are made of the runs of lines with one owner. -/
theorem syntaxChunks_eq (content : String) (definitions : List Definition) :
    syntaxChunks content definitions =
      (runs (fun o => o.2.map Prod.fst) (ownedLines content definitions)).filterMap chunkOfRun? := rfl

/-- Looking for owners leaves the lines as they are. -/
theorem map_fst_ownedLines (content : String) (definitions : List Definition) :
    (ownedLines content definitions).map Prod.fst =
      Line.numbered 1 (Chars.lines content.toList) := by
  rw [ownedLines, List.map_map]
  exact List.map_id _

/-- A chunk of a run is made of the lines of it. -/
theorem madeOf_of_chunkOfRun? {run : List (Line × Option (Nat × Definition))}
    (h : chunkOfRun? run = some c) : c.MadeOf (run.map Prod.fst) := by
  rw [chunkOfRun?] at h
  split at h
  · exact (Chunk.madeOf_of_ofLines? h).1
  · cases h

/-- The chunks before splitting follow one another. -/
theorem ascending_syntaxChunks (content : String) (definitions : List Definition) :
    Ascending (syntaxChunks content definitions) := by
  rw [syntaxChunks_eq]
  refine ascending_filterMap Prod.fst ?_ fun run c => madeOf_of_chunkOfRun?
  rw [runs_flatten, map_fst_ownedLines]
  exact Line.pairwise_numbered 1 _

/-- What is made of lines that were cut out of a text mirrors them. -/
theorem Chunk.MadeOf.mirrors {before ls after : List Line} (h : c.MadeOf ls)
    (hcut : Line.numbered 1 (Chars.lines content.toList) = before ++ (ls ++ after)) :
    c.Mirrors content := by
  have hmem : ∀ l ∈ ls, l ∈ Line.numbered 1 (Chars.lines content.toList) := by
    intro l hl
    rw [hcut]
    exact List.mem_append_right before (List.mem_append_left after hl)
  -- the lines ascend, as they were cut out of numbered ones
  have hsorted := Line.pairwise_of_append hcut
  obtain ⟨a, ha, hfirst⟩ := h.first
  obtain ⟨b, hb, hlast⟩ := h.last
  obtain ⟨blank, happend, -⟩ := Line.trimBlank_append ls
  -- the blank lines at the end do not count
  rw [happend, List.append_assoc] at hcut
  have htexts := Line.eq_lineRange_of_append hcut ha hb
  have ha' := hmem a ((Line.trimBlank_sublist ls).subset (List.mem_of_head? ha))
  have hb' := hmem b ((Line.trimBlank_sublist ls).subset (List.mem_of_getLast? hb))
  exact
    { one_le := by
        rw [← hfirst]
        exact (Line.mem_numbered.1 ha').1
      startLine_le := h.startLine_le_endLine hsorted
      endLine_le := by
        have := Line.lt_of_mem_numbered hb'
        rw [Text.lineCount]
        omega
      -- a line of the chunk's own text is blank if the line is
      blanks := by
        rw [h.content, String.toList_ofList, ← hfirst, ← hlast, ← htexts]
        refine Chars.map_isBlankLine_lines_joinLines (fun t ht => ?_)
          ⟨b.text, ?_, Line.getLast?_trimBlank hb⟩
        · rw [htexts] at ht
          exact Chars.newline_not_mem_of_mem_lines (List.mem_of_mem_drop (List.mem_of_mem_take ht))
        · rw [Line.texts, List.getLast?_map, hb, Option.map_some] }

/-- A chunk before splitting is made of lines that were cut out of the text. -/
theorem exists_cut_of_mem_syntaxChunks (hc : c ∈ syntaxChunks content definitions) :
    ∃ before ls after, Line.numbered 1 (Chars.lines content.toList) = before ++ (ls ++ after) ∧
      c.MadeOf ls := by
  rw [syntaxChunks_eq] at hc
  obtain ⟨run, hrun, hchunk⟩ := List.mem_filterMap.1 hc
  -- the runs before and after are what the lines are cut out of
  obtain ⟨before, after, hruns⟩ := List.append_of_mem hrun
  refine ⟨before.flatten.map Prod.fst, run.map Prod.fst, after.flatten.map Prod.fst, ?_,
    madeOf_of_chunkOfRun? hchunk⟩
  rw [← map_fst_ownedLines content definitions,
    ← runs_flatten (fun o => o.2.map Prod.fst) (ownedLines content definitions), hruns]
  simp

/-- A chunk before splitting mirrors its lines. -/
theorem mirrors_of_mem_syntaxChunks (hc : c ∈ syntaxChunks content definitions) :
    c.Mirrors content := by
  obtain ⟨before, ls, after, hcut, hmade⟩ := exists_cut_of_mem_syntaxChunks hc
  exact hmade.mirrors hcut

/-- The last line of a chunk is not blank. -/
theorem hasText_of_mem_syntaxChunks (hc : c ∈ syntaxChunks content definitions) :
    HasText content c.endLine := by
  obtain ⟨before, ls, after, hcut, hmade⟩ := exists_cut_of_mem_syntaxChunks hc
  obtain ⟨l, hl, hnumber⟩ := hmade.last
  have hmem := (Line.trimBlank_sublist ls).subset (List.mem_of_getLast? hl)
  refine ⟨l, ?_, hnumber, Line.getLast?_trimBlank hl⟩
  rw [hcut]
  exact List.mem_append_right before (List.mem_append_left after hmem)

/-- A chunk of the whole text mirrors all lines. -/
theorem mirrors_wholeChunk (content : String) : (wholeChunk content).Mirrors content where
  one_le := Nat.le_refl 1
  startLine_le := Nat.le_max_left 1 _
  endLine_le := Nat.le_refl _
  blanks := by
    -- all lines are taken
    have hle : (Chars.lines content.toList).length ≤ max 1 (Text.lineCount content) - 1 + 1 := by
      rw [Text.lineCount]
      omega
    change _ = List.map _ (List.take (max 1 (Text.lineCount content) - 1 + 1)
      (Chars.lines content.toList))
    rw [List.take_of_length_le hle]
    rfl

/-- Whatever a document is cut into first mirrors its lines, -/
theorem mirrors_of_mem_firstChunks (hc : c ∈ firstChunks content definitions) :
    c.Mirrors content := by
  rw [firstChunks] at hc
  split at hc
  · rw [List.mem_singleton.1 hc]
    exact mirrors_wholeChunk content
  · exact mirrors_of_mem_syntaxChunks hc

/-- and ascends. -/
theorem ascending_firstChunks (content : String) (definitions : List Definition) :
    Ascending (firstChunks content definitions) := by
  rw [firstChunks]
  split
  · exact List.pairwise_singleton _ _
  · exact ascending_syntaxChunks content definitions

end First

/-! ### Splitting one chunk -/

section Split

variable {s : ChunkSettings} {content : String} {c p : Chunk} {n : Nat}

/-- The lines that a chunk is split into parts of. -/
def Chunk.ownLines (c : Chunk) : List Line :=
  Line.numbered c.startLine (Chars.lines c.content.toList)

/-- A chunk is kept as it is, or each fragment of its lines that is not blank becomes a part. -/
theorem Chunk.split_cases (s : ChunkSettings) (c : Chunk) :
    Chunk.split s c = [c] ∨
      Chunk.split s c =
        (Fragment.split s.maxChunkSize s.minFragmentSize c.ownLines).filterMap fun ls =>
          Chunk.ofLines? ls c.kind c.symbols c.parents := by
  rw [Chunk.split]
  split
  · exact Or.inl rfl
  · exact Or.inr rfl

/-- The parts of a chunk follow one another. -/
theorem Chunk.ascending_split (s : ChunkSettings) (c : Chunk) : Ascending (Chunk.split s c) := by
  rcases Chunk.split_cases s c with h | h
  · rw [h]
    exact List.pairwise_singleton _ _
  · rw [h]
    refine ascending_filterMap id ?_ fun ls p hp => ?_
    · rw [List.map_id, Fragment.split_flatten]
      exact Line.pairwise_numbered c.startLine _
    · rw [List.map_id]
      exact (Chunk.madeOf_of_ofLines? hp).1

namespace Chunk.Mirrors

/-- A chunk has no more lines of its own than the range that it stands for. -/
theorem covers_of_mem_ownLines (h : c.Mirrors content) {l : Line} (hl : l ∈ c.ownLines) :
    c.Covers l.number := by
  have hlt := Line.lt_of_mem_numbered hl
  have hlength := congrArg List.length h.blanks
  rw [List.length_map, List.length_map, Chars.lineRange, List.length_take] at hlength
  have hle := h.startLine_le
  exact ⟨(Line.mem_numbered.1 hl).1, by omega⟩

/-- A line that is not blank is one of the chunk's own, and is not blank there either. -/
theorem exists_mem_ownLines (h : c.Mirrors content) (hn : c.Covers n) (htext : HasText content n) :
    ∃ l ∈ c.ownLines, l.number = n ∧ l.isBlank = false := by
  obtain ⟨l, hl, hnumber, hblank⟩ := htext
  obtain ⟨-, hget⟩ := Line.mem_numbered.1 hl
  have hpos := h.one_le
  obtain ⟨hfirst, hlast⟩ := hn
  -- the line stands in the range of the chunk where its number says
  have hrange : (Chars.lineRange (Chars.lines content.toList) c.startLine c.endLine)[n - c.startLine]? =
      some l.text := by
    have hindex : c.startLine - 1 + (n - c.startLine) = l.number - 1 := by omega
    rw [Chars.lineRange, List.getElem?_take_of_lt (by omega), List.getElem?_drop, hindex, hget]
  -- at the same place there is a line of the chunk's own, blank or not as this one is
  have hblanks := congrArg (·[n - c.startLine]?) h.blanks
  simp only [List.getElem?_map, hrange, Option.map_some] at hblanks
  obtain ⟨t, ht, hsame⟩ := Option.map_eq_some_iff.1 hblanks
  refine ⟨⟨n, t⟩, Line.mem_numbered.2 ⟨hfirst, ht⟩, rfl, ?_⟩
  exact hsame.trans hblank

/-- What a chunk is split into are parts of it that do not end before they start. -/
theorem partOf_of_mem_split (h : c.Mirrors content) (hp : p ∈ Chunk.split s c) :
    p.PartOf c ∧ p.startLine ≤ p.endLine := by
  -- either the chunk is left whole
  rcases Chunk.split_cases s c with hsplit | hsplit
  · rw [hsplit] at hp
    rw [List.mem_singleton.1 hp]
    exact ⟨⟨⟨Nat.le_refl _, Nat.le_refl _⟩, rfl, rfl, rfl⟩, h.startLine_le⟩
  · rw [hsplit] at hp
    -- or a part is made of some of its lines, of which the first and the last lie in the chunk
    obtain ⟨ls, hls, hmade⟩ := List.mem_filterMap.1 hp
    obtain ⟨hmade, hkind, hsymbols, hparents⟩ := Chunk.madeOf_of_ofLines? hmade
    have hflatten := Fragment.split_flatten s.maxChunkSize s.minFragmentSize c.ownLines
    have hown : ls.Sublist c.ownLines := by
      rw [← hflatten]
      exact List.sublist_flatten_of_mem hls
    obtain ⟨a, ha, hfirst⟩ := hmade.exists_first
    obtain ⟨b, hb, hlast⟩ := hmade.exists_last
    have ha' := h.covers_of_mem_ownLines (hown.subset ha)
    have hb' := h.covers_of_mem_ownLines (hown.subset hb)
    rw [hfirst] at ha'
    rw [hlast] at hb'
    exact ⟨⟨⟨ha'.1, hb'.2⟩, hkind, hsymbols, hparents⟩,
      hmade.startLine_le_endLine ((Line.pairwise_numbered _ _).sublist hown)⟩

/-- **Splitting a chunk leaves out no line that is not blank.** -/
theorem exists_covers (h : c.Mirrors content) (hn : c.Covers n) (htext : HasText content n) :
    ∃ p ∈ Chunk.split s c, p.Covers n := by
  rcases Chunk.split_cases s c with hsplit | hsplit
  · rw [hsplit]
    exact ⟨c, List.mem_singleton_self c, hn⟩
  · rw [hsplit]
    -- the line is one of the chunk's own, so it goes to some part
    obtain ⟨l, hl, rfl, hblank⟩ := h.exists_mem_ownLines hn htext
    rw [← Fragment.split_flatten s.maxChunkSize s.minFragmentSize c.ownLines] at hl
    obtain ⟨ls, hls, hl⟩ := List.mem_flatten.1 hl
    obtain ⟨p, hp⟩ := Chunk.exists_ofLines? hl hblank c.kind c.symbols c.parents
    have hown : ls.Sublist c.ownLines := by
      rw [← Fragment.split_flatten s.maxChunkSize s.minFragmentSize c.ownLines]
      exact List.sublist_flatten_of_mem hls
    -- it is not blank, so that the part is not left out, and not trimmed off
    refine ⟨p, List.mem_filterMap.2 ⟨ls, hls, hp⟩, ?_⟩
    exact (Chunk.madeOf_of_ofLines? hp).1.covers ((Line.pairwise_numbered _ _).sublist hown)
      (Line.mem_trimBlank hl hblank)

end Chunk.Mirrors

end Split

/-! ### The whole document -/

/-- What it means that chunks are shared out of those before splitting.

* `range` — each chunk is a range of lines of the document;
* `ascending` — the chunks stand in the order of their lines, and no two have a line in common;
* `origin` — each is a part of one chunk before splitting, and lies in no other one;
* `shared` — a line in a chunk before splitting that is not blank lies in exactly one of the chunks;
* `nothing` — without any chunk the document is blank. -/
structure Partition (content : String) (before parts : List Chunk) : Prop where
  range : ∀ p ∈ parts,
    1 ≤ p.startLine ∧ p.startLine ≤ p.endLine ∧ p.endLine ≤ max 1 (Text.lineCount content)
  ascending : Ascending parts
  origin : ∀ p ∈ parts, ∃ c ∈ before, p.PartOf c ∧ ∀ d ∈ before, p.LiesIn d → d = c
  shared : ∀ c ∈ before, ∀ n, c.Covers n → HasText content n → ∃! p, p ∈ parts ∧ p.Covers n
  nothing : parts = [] → ∀ n, ¬HasText content n

section Whole

variable {content : String} {definitions : List Definition} {s : ChunkSettings} {c p : Chunk}

/-- Chunks that ascend and have a line in common are the same. -/
theorem Ascending.eq_of_covers {cs : List Chunk} (h : Ascending cs) {a b : Chunk} {n : Nat}
    (ha : a ∈ cs) (hb : b ∈ cs) (han : a.Covers n) (hbn : b.Covers n) : a = b := by
  have hdisjoint : cs.Pairwise fun a b => ∀ n, ¬(a.Covers n ∧ b.Covers n) := by
    refine List.Pairwise.imp (fun {a b} hlt n => ?_) h
    rintro ⟨⟨-, han⟩, ⟨hbn, -⟩⟩
    omega
  have hsymm : Std.Symm fun a b : Chunk => ∀ n, ¬(a.Covers n ∧ b.Covers n) :=
    ⟨fun a b hab n hn => hab n hn.symm⟩
  refine Classical.byContradiction fun hne => ?_
  exact hdisjoint.forall ha hb hne n ⟨han, hbn⟩

/-- Parts of chunks that ascend do so too. -/
theorem ascending_chunksWith (s : ChunkSettings) (content : String) (definitions : List Definition) :
    Ascending (chunksWith s content definitions) := by
  rw [chunksWith, Ascending, List.pairwise_flatMap]
  refine ⟨fun c _ => Chunk.ascending_split s c, ?_⟩
  refine (ascending_firstChunks content definitions).imp_of_mem fun {c d} hc hd hlt p hp q hq => ?_
  have hp' := ((mirrors_of_mem_firstChunks hc).partOf_of_mem_split hp).1.liesIn.2
  have hq' := ((mirrors_of_mem_firstChunks hd).partOf_of_mem_split hq).1.liesIn.1
  omega

/-- A document that is cut into nothing is blank. -/
theorem not_hasText_of_chunksWith_eq_nil (h : chunksWith s content definitions = []) (n : Nat) :
    ¬HasText content n := by
  intro htext
  rw [chunksWith, List.flatMap_eq_nil_iff] at h
  -- a chunk before splitting that has a line with text leaves a part
  have hnone : ∀ c ∈ firstChunks content definitions, ∀ m, HasText content m → ¬c.Covers m := by
    intro c hc m hm hcovers
    obtain ⟨p, hp, -⟩ := (mirrors_of_mem_firstChunks hc).exists_covers (s := s) hcovers hm
    rw [h c hc] at hp
    cases hp
  -- without a declaration the whole text would be such a chunk
  cases hchunks : syntaxChunks content definitions with
  | nil =>
    have hfirst : wholeChunk content ∈ firstChunks content definitions := by
      rw [firstChunks, hchunks]
      exact List.mem_singleton_self _
    obtain ⟨l, hl, rfl, hblank⟩ := htext
    have hlt := Line.lt_of_mem_numbered hl
    have hle : l.number ≤ max 1 (Chars.lines content.toList).length := by omega
    exact hnone _ hfirst l.number ⟨l, hl, rfl, hblank⟩ ⟨(Line.mem_numbered.1 hl).1, hle⟩
  | cons c cs =>
    -- and otherwise the first one would be
    have hc : c ∈ syntaxChunks content definitions := by
      rw [hchunks]
      exact List.mem_cons_self
    have hfirst : c ∈ firstChunks content definitions := by
      rw [firstChunks, hchunks]
      exact List.mem_cons_self
    exact hnone c hfirst c.endLine (hasText_of_mem_syntaxChunks hc)
      ⟨(mirrors_of_mem_syntaxChunks hc).startLine_le, Nat.le_refl _⟩

/-- Chunks after splitting are shared out of those before. -/
theorem partition_chunksWith (s : ChunkSettings) (content : String) (definitions : List Definition) :
    Partition content (firstChunks content definitions) (chunksWith s content definitions) where
  range := by
    intro p hp
    obtain ⟨c, hc, hp⟩ := List.mem_flatMap.1 hp
    have hmirrors := mirrors_of_mem_firstChunks hc
    obtain ⟨hpart, hle⟩ := hmirrors.partOf_of_mem_split hp
    obtain ⟨hfirst, hlast⟩ := hpart.liesIn
    exact ⟨Nat.le_trans hmirrors.one_le hfirst, hle, Nat.le_trans hlast hmirrors.endLine_le⟩
  ascending := ascending_chunksWith s content definitions
  origin := by
    intro p hp
    obtain ⟨c, hc, hp⟩ := List.mem_flatMap.1 hp
    obtain ⟨hpart, hle⟩ := (mirrors_of_mem_firstChunks hc).partOf_of_mem_split hp
    refine ⟨c, hc, hpart, fun d hd hlies => ?_⟩
    -- two chunks that a part lies in have its first line in common
    have hpc : c.Covers p.startLine := ⟨hpart.liesIn.1, Nat.le_trans hle hpart.liesIn.2⟩
    have hpd : d.Covers p.startLine := ⟨hlies.1, Nat.le_trans hle hlies.2⟩
    exact (ascending_firstChunks content definitions).eq_of_covers hd hc hpd hpc
  shared := by
    intro c hc n hn htext
    obtain ⟨p, hp, hcovers⟩ := (mirrors_of_mem_firstChunks hc).exists_covers (s := s) hn htext
    have hmem : p ∈ chunksWith s content definitions := List.mem_flatMap.2 ⟨c, hc, hp⟩
    -- chunks follow one another, so no other one has the line
    refine ⟨p, ⟨hmem, hcovers⟩, ?_⟩
    rintro q ⟨hq, hq'⟩
    exact (ascending_chunksWith s content definitions).eq_of_covers hq hmem hq' hcovers
  nothing := not_hasText_of_chunksWith_eq_nil

/-- **The chunks of a document partition it**: whatever the declarations and the settings, there are
chunks, and they share out the lines of the chunks before splitting. -/
theorem partition_chunksWith? (s : ChunkSettings) (content : String)
    (hforward : ∀ d ∈ definitions, d.startRow ≤ d.endRow) :
    ∃ parts, chunksWith? s content definitions = some parts ∧
      Partition content (firstChunks content definitions) parts := by
  refine ⟨chunksWith s content definitions, ?_, partition_chunksWith s content definitions⟩
  rw [chunksWith?, syntaxChunks?_eq_some content hforward]
  rfl

end Whole

/-! A type with a method, cut where chunks have more than 14 bytes. The type keeps the lines around its
method, and the method falls into two parts with a blank line between them. -/

section Nested

/-- The text of a type with a method. -/
def nestedText : String := "class A:\n  def f():\n    x = 1\n\n    y = 2\n\nprint(A)\n"

/-- The type and its method. -/
def nestedDefinitions : List Definition :=
  [{ kind := .classLike, name := "A", startRow := 0, endRow := 4, declRow := 0, parents := [] },
    { kind := .method, name := "f", startRow := 1, endRow := 4, declRow := 1, parents := ["A"] }]

/-- The method has its own lines, and the type the ones around them. -/
theorem partition_nested :
    ∃ parts, chunksWith? ⟨14, 4⟩ nestedText nestedDefinitions = some parts ∧
      parts.map (fun c => (c.startLine, c.endLine)) = [(1, 1), (2, 2), (3, 3), (5, 5)] ∧
      Partition nestedText (firstChunks nestedText nestedDefinitions) parts := by
  have hforward : ∀ d ∈ nestedDefinitions, d.startRow ≤ d.endRow := by decide
  obtain ⟨parts, hparts, h⟩ := partition_chunksWith? ⟨14, 4⟩ nestedText hforward
  -- the declarations are in their order already
  have hsorted : outerToInner nestedDefinitions = nestedDefinitions :=
    List.mergeSort_of_pairwise (by decide)
  have hranges : (chunksWith? ⟨14, 4⟩ nestedText nestedDefinitions).map
      (List.map fun c => (c.startLine, c.endLine)) = some [(1, 1), (2, 2), (3, 3), (5, 5)] := by
    simp only [chunksWith?, chunksWith, firstChunks, syntaxChunks?, syntaxChunks, hsorted]
    decide +kernel
  rw [hparts] at hranges
  exact ⟨parts, hparts, Option.some.inj hranges, h⟩

end Nested

end CodeSearch
