import CodeSearch.Proofs.Chunks.Partition
import Mathlib.Algebra.GroupWithZero.Nat

/-!
# How long chunks are

A chunk that is longer than the limit is split. The limit is kept by the parts, but for lines that are too long on their
own. What every step of splitting keeps is that a fragment *fits* (`Fragment.Fits`): it is within the limit, or it is one
line. A start of lines that fit does too (`Fragment.Fits.of_isPrefix`). So it does no harm to take units from the end of
a fragment, or to leave out blank lines at its end.

* `Line.size_eq_sum`, `Line.size_le_of_isPrefix` — the size of lines is told by their lengths, so a start of some lines
  is no longer than all of them;
* `Fragment.fits_of_mem_pack`, `Fragment.fits_rebalance`, `Fragment.fits_of_mem_split` — the fragments fit, whether or
  not the last two were rebalanced;
* `size_chunksWith?` — all chunks of a document keep to the limit, or are one long line.
-/

namespace CodeSearch

/-! ### Sizes -/

/-- The size of a text is that of its characters. -/
theorem Text.byteSize_ofList (s : List Char) : Text.byteSize (String.ofList s) = Chars.byteSize s := by
  induction s with
  | nil => rfl
  | cons c r ih =>
    rw [← List.singleton_append, String.ofList_append, Chars.byteSize_append, ← ih, Text.byteSize,
      String.utf8ByteSize_append, Text.byteSize]
    simp [Chars.byteSize]

/-- Each line counts with the newline behind it, but for the last one. -/
theorem Chars.byteSize_joinLines (ts : List (List Char)) :
    byteSize (joinLines ts) = (ts.map fun t => byteSize t + 1).sum - 1 := by
  induction ts with
  | nil => rfl
  | cons t ts ih =>
    cases ts with
    | nil => rfl
    | cons u us =>
      -- a line and a newline come before the others
      have hjoin : joinLines (t :: u :: us) = t ++ '\n' :: joinLines (u :: us) := rfl
      have hnewline : byteSize ('\n' :: joinLines (u :: us)) = 1 + byteSize (joinLines (u :: us)) := rfl
      rw [hjoin, byteSize_append, hnewline, ih]
      simp only [List.map_cons, List.sum_cons]
      omega

/-- **The size of lines is told by their lengths.** -/
theorem Line.size_eq_sum (ls : List Line) :
    Line.size ls = (ls.map fun l => Chars.byteSize l.text + 1).sum - 1 := by
  rw [Line.size, Chars.byteSize_joinLines, Line.texts, List.map_map]
  rfl

/-- A start of some lines is no longer than all of them. -/
theorem Line.size_le_of_isPrefix {ls ms : List Line} (h : ls <+: ms) : Line.size ls ≤ Line.size ms := by
  obtain ⟨r, rfl⟩ := h
  rw [Line.size_eq_sum, Line.size_eq_sum, List.map_append, List.sum_append]
  omega

/-- Trimming leaves a start of the lines. -/
theorem Line.trimBlank_isPrefix (ls : List Line) : Line.trimBlank ls <+: ls := by
  obtain ⟨blank, happend, -⟩ := Line.trimBlank_append ls
  exact ⟨blank, happend.symm⟩

/-! ### Fragments -/

namespace Fragment

/-- Whether lines fit into one fragment: they are within the limit, or there is only one. -/
def Fits (limit : Nat) (ls : List Line) : Prop := Line.size ls ≤ limit ∨ ls.length ≤ 1

variable {limit least : Nat} {ls ms : List Line}

/-- A start of lines that fit fits too. -/
theorem Fits.of_isPrefix (h : Fits limit ms) (hstart : ls <+: ms) : Fits limit ls :=
  h.imp (Nat.le_trans (Line.size_le_of_isPrefix hstart)) (Nat.le_trans hstart.length_le)

/-- A paragraph that is too long is taken apart. -/
theorem fits_of_mem_units {ps : List (List Line)} (h : ls ∈ units limit ps) : Fits limit ls := by
  obtain ⟨p, -, hls⟩ := List.mem_flatMap.1 h
  split at hls
  next =>
    obtain ⟨l, -, rfl⟩ := List.mem_map.1 hls
    exact Or.inr (Nat.le_refl 1)
  next hle =>
    rw [List.mem_singleton.1 hls]
    exact Or.inl (Nat.not_lt.1 hle)

/-- Packing keeps to the limit. -/
theorem fits_of_mem_packAfter {fragment us : List (List Line)} (hfragment : Fits limit fragment.flatten)
    (hus : ∀ u ∈ us, Fits limit u) : ∀ g ∈ packAfter limit fragment us, Fits limit g.flatten := by
  induction us generalizing fragment with
  | nil => exact List.forall_mem_singleton.2 hfragment
  | cons u us ih =>
    obtain ⟨hu, hus⟩ := List.forall_mem_cons.1 hus
    rw [packAfter]
    split
    -- a unit joins the fragment if it is within the limit with it
    next hle => exact ih (Or.inl hle) hus
    next =>
      -- or else it begins another one
      refine List.forall_mem_cons.2 ⟨hfragment, ih ?_ hus⟩
      rwa [List.flatten_singleton]

/-- **Fragments that are packed from units that fit do so themselves.** -/
theorem fits_of_mem_pack {us : List (List Line)} (hus : ∀ u ∈ us, Fits limit u) :
    ∀ g ∈ pack limit us, Fits limit g.flatten := by
  cases us with
  | nil => exact fun g hg => absurd hg List.not_mem_nil
  | cons u us =>
    obtain ⟨hu, hus⟩ := List.forall_mem_cons.1 hus
    refine fits_of_mem_packAfter ?_ hus
    rwa [List.flatten_singleton]

/-- **Rebalancing keeps to the limit**: the fragment that units are taken from becomes a start of what it was, and a unit
is only moved if the other one is within the limit with it. -/
theorem fits_rebalance {before last : List (List Line)} (hbefore : Fits limit before.reverse.flatten)
    (hlast : Fits limit last.flatten) :
    Fits limit (rebalance limit least before last).1.reverse.flatten ∧
      Fits limit (rebalance limit least before last).2.flatten := by
  fun_induction rebalance limit least before last with
  | case1 => exact ⟨hbefore, hlast⟩
  | case2 u v before last h ih =>
    -- what the unit leaves is a start of what was there, and what it joins was measured before
    refine ih (hbefore.of_isPrefix ?_) (Or.inl ?_)
    · rw [List.reverse_cons (a := u), List.flatten_append]
      exact List.prefix_append _ _
    · rw [List.flatten_cons]
      exact Nat.not_lt.1 (not_or.1 h).2
  | case3 => exact ⟨hbefore, hlast⟩

/-- Topping up keeps to the limit. -/
theorem fits_of_mem_topUp {gs : List (List (List Line))} (hgs : ∀ g ∈ gs, Fits limit g.flatten) :
    ∀ g ∈ topUp limit least gs, Fits limit g.flatten := by
  fun_induction topUp limit least gs with
  | case1 => exact hgs
  | case2 => exact hgs
  | case3 g last before' last' h =>
    -- only the last two fragments change, by rebalancing
    have hg := hgs g List.mem_cons_self
    rw [← List.reverse_reverse g] at hg
    have hboth : Fits limit (rebalance limit least g.reverse last).1.reverse.flatten ∧
        Fits limit (rebalance limit least g.reverse last).2.flatten :=
      fits_rebalance hg (hgs last (List.mem_cons_of_mem _ List.mem_cons_self))
    rw [h] at hboth
    exact List.forall_mem_cons.2 ⟨hboth.1, List.forall_mem_singleton.2 hboth.2⟩
  | case4 g gs h h' ih =>
    obtain ⟨hg, hgs⟩ := List.forall_mem_cons.1 hgs
    exact List.forall_mem_cons.2 ⟨hg, ih hgs⟩

/-- **What lines are split into fits**, whatever is the least size of the last fragment. -/
theorem fits_of_mem_split (h : ls ∈ split limit least ms) : Fits limit ls := by
  obtain ⟨g, hg, rfl⟩ := List.mem_map.1 h
  exact fits_of_mem_topUp (fits_of_mem_pack fun u hu => fits_of_mem_units hu) g hg

end Fragment

/-! ### Chunks -/

/-- Whether a chunk is a single line that is longer than a limit. -/
structure Chunk.IsLongLine (limit : Nat) (c : Chunk) : Prop where
  lines_eq : Text.lines c.content = [c.content]
  endLine_eq : c.endLine = c.startLine
  lt_byteSize : limit < Text.byteSize c.content

section Chunks

variable {ls : List Line} {limit : Nat} {kind : ChunkKind} {symbols parents : List String} {s : ChunkSettings}
  {content : String} {definitions : List Definition} {c p : Chunk}

/-- Lines that fit make a chunk that does. -/
theorem size_of_ofLines? (hfits : Fragment.Fits limit ls) (hlines : ∀ l ∈ ls, '\n' ∉ l.text)
    (h : Chunk.ofLines? ls kind symbols parents = some c) :
    Text.byteSize c.content ≤ limit ∨ c.IsLongLine limit := by
  have hmade := (Chunk.madeOf_of_ofLines? h).1
  obtain ⟨a, ha, hfirst⟩ := hmade.first
  obtain ⟨b, hb, hlast⟩ := hmade.last
  have hsize : Text.byteSize c.content = Line.size (Line.trimBlank ls) := by
    rw [hmade.content, Text.byteSize_ofList, Line.size]
  by_cases hle : Text.byteSize c.content ≤ limit
  · exact Or.inl hle
  · -- what does not fit otherwise is one line
    have hone : (Line.trimBlank ls).length ≤ 1 :=
      (hfits.of_isPrefix (Line.trimBlank_isPrefix ls)).resolve_left (hsize ▸ hle)
    obtain ⟨r, hkept⟩ := List.head?_eq_some_iff.1 ha
    obtain rfl : r = [] := by
      rw [hkept, List.length_cons] at hone
      exact List.eq_nil_of_length_eq_zero (by omega)
    rw [hkept] at hb
    obtain rfl : a = b := Option.some.inj hb
    have hcontent : c.content = String.ofList a.text := by
      rw [hmade.content, hkept]
      rfl
    have hnewline : '\n' ∉ a.text := hlines a ((Line.trimBlank_sublist ls).subset (List.mem_of_head? ha))
    have hne : a.text ≠ [] := by
      intro hnil
      -- the line was not trimmed off, so there is something in it
      have hget : (Line.trimBlank ls).getLast? = some a := by rw [hkept, List.getLast?_singleton]
      have hblank := Line.getLast?_trimBlank hget
      rw [Line.isBlank, hnil] at hblank
      cases hblank
    refine Or.inr ⟨?_, hlast.symm.trans hfirst, Nat.not_le.1 hle⟩
    rw [hcontent, Text.lines, String.toList_ofList, Chars.lines, Chars.pieces_of_not_mem hnewline,
      Chars.linesOfPieces, if_neg (by simpa using hne), List.map_singleton]

/-- A chunk is split into parts that keep to the limit, unless they are one long line. -/
theorem size_of_mem_split (hlimit : 0 < s.maxChunkSize) (hp : p ∈ Chunk.split s c) :
    Text.byteSize p.content ≤ s.maxChunkSize ∨ p.IsLongLine s.maxChunkSize := by
  rw [Chunk.split] at hp
  split at hp
  next hsmall =>
    -- a small chunk is left whole
    rw [List.mem_singleton.1 hp]
    exact Or.inl (hsmall.resolve_left (Nat.ne_of_gt hlimit))
  next =>
    obtain ⟨ls, hls, hpart⟩ := List.mem_filterMap.1 hp
    refine size_of_ofLines? (Fragment.fits_of_mem_split hls) (fun l hl => ?_) hpart
    -- the lines were read from the chunk, so there are no newlines in them
    have hmem : l ∈ Line.numbered c.startLine (Chars.lines c.content.toList) := by
      rw [← Fragment.split_flatten s.maxChunkSize s.minFragmentSize (Line.numbered _ _)]
      exact List.mem_flatten_of_mem hls hl
    exact Line.newline_not_mem_of_mem_numbered hmem

/-- **The chunks of a document keep to the limit**, unless they are a single line that is longer. There are chunks,
unless a declaration runs backwards. -/
theorem size_chunksWith? (hlimit : 0 < s.maxChunkSize) (content : String) (definitions : List Definition) :
    (chunksWith? s content definitions = none ↔
        ∃ d ∈ definitions, d.isBackward (Text.lineCount content) = true) ∧
      ∀ parts, chunksWith? s content definitions = some parts →
        ∀ p ∈ parts, Text.byteSize p.content ≤ s.maxChunkSize ∨ p.IsLongLine s.maxChunkSize := by
  constructor
  · -- it is told beforehand whether a declaration runs backwards
    rw [chunksWith?, Option.map_eq_none_iff, syntaxChunks?, ← List.any_eq_true]
    cases definitions.any (Definition.isBackward (Text.lineCount content)) <;> simp
  · intro parts hparts p hp
    obtain ⟨-, -, rfl⟩ := Option.map_eq_some_iff.1 hparts
    obtain ⟨c, -, hpart⟩ := List.mem_flatMap.1 hp
    exact size_of_mem_split hlimit hpart

end Chunks

/-! A text whose first line is too long, and whose last line takes one more to itself. -/

section LongLine

/-- A line of nine bytes and three short ones. -/
def longLineText : String := "aaaaaaaaa\nbbb\nccc\nd\n"

/-- The long line is a chunk of its own, and the others are packed. -/
theorem size_chunksWith?_longLine :
    (chunksWith? ⟨8, 4⟩ longLineText []).map (List.map fun c => (c.content, c.startLine, c.endLine)) =
        some [("aaaaaaaaa", 1, 1), ("bbb", 2, 2), ("ccc\nd", 3, 4)] ∧
      ∀ parts, chunksWith? ⟨8, 4⟩ longLineText [] = some parts →
        ∀ p ∈ parts, Text.byteSize p.content ≤ 8 ∨ p.IsLongLine 8 := by
  refine ⟨?_, (size_chunksWith? (s := ⟨8, 4⟩) (by decide) longLineText []).2⟩
  have hsorted : outerToInner [] = [] := List.mergeSort_nil
  simp only [chunksWith?, chunksWith, firstChunks, syntaxChunks?, syntaxChunks, hsorted]
  decide +kernel

end LongLine

end CodeSearch
