import CodeSearch.Proofs.Chunks.Partition

/-!
# What the text of a chunk is

A chunk says from which line to which line it goes, and its text should be these lines. So it is before splitting. A
chunk that is split is read as text again, and then its lines end at the newlines that were put between them: every line
but the last may lose a carriage return to the newline behind it (`Line.reread`). In the document that line had two of
them before its newline.

* `Line.numbered_linesOfPieces`, `Chunk.MadeOf.ownLines_eq` — the lines of a chunk that is read again;
* `Chunk.MadeOf.content_eq_lineRange_iff` — so a part has the text of its lines exactly if none of them has lost a
  carriage return;
* `content_eq_lineRange_of_mem_split_wholeChunk` — a document that is split as a whole is read once only;
* `text_chunksWith?` — what this means for all chunks of a document.
-/

namespace CodeSearch

/-! ### Lines that are read again -/

namespace Chars

/-- A line loses nothing unless it ends in a carriage return. -/
theorem dropReturn_eq_self_iff {s : List Char} : dropReturn s = s ↔ s.getLast? ≠ some '\r' := by
  rw [dropReturn]
  split
  next h =>
    refine iff_of_false (fun hs => ?_) (not_not_intro h)
    have hlength := congrArg List.length hs
    have hpos : 0 < s.length := List.length_pos_of_mem (List.mem_of_getLast? h)
    rw [List.length_dropLast] at hlength
    omega
  next h => exact iff_of_true rfl h

/-- Lines are found again in the text that is put together of them. -/
theorem joinLines_inj {ts us : List (List Char)} (hts : ts ≠ []) (hus : us ≠ []) (ht : ∀ t ∈ ts, '\n' ∉ t)
    (hu : ∀ u ∈ us, '\n' ∉ u) : joinLines ts = joinLines us ↔ ts = us := by
  refine ⟨fun h => ?_, congrArg joinLines⟩
  rw [← pieces_joinPieces hts ht, ← pieces_joinPieces hus hu]
  exact congrArg (pieces '\n') h

end Chars

namespace Line

/-- A line as it is read when a newline is put behind each line but the one with the number `last`. -/
def reread (last : Nat) (l : Line) : Line :=
  if l.number < last then { l with text := Chars.dropReturn l.text } else l

/-- A line keeps its number, -/
@[simp] theorem number_reread (last : Nat) (l : Line) : (l.reread last).number = l.number := by
  rw [reread]
  split <;> rfl

/-- and stays blank or not. -/
@[simp] theorem isBlank_reread (last : Nat) (l : Line) : (l.reread last).isBlank = l.isBlank := by
  rw [reread]
  split
  · exact Chars.isBlankLine_dropReturn l.text
  · rfl

/-- Its text changes if it loses a carriage return. -/
theorem text_reread_eq_iff {last : Nat} {l : Line} :
    (l.reread last).text = l.text ↔ (l.number < last → l.text.getLast? ≠ some '\r') := by
  rw [reread]
  split
  next h =>
    rw [Chars.dropReturn_eq_self_iff]
    exact ⟨fun hne _ => hne, fun hne => hne h⟩
  next h => exact iff_of_true rfl fun hlt => absurd hlt h

/-- No newline comes in. -/
theorem newline_not_mem_text_reread {last : Nat} {l : Line} (h : '\n' ∉ l.text) :
    '\n' ∉ (l.reread last).text := by
  rw [reread]
  split
  · exact fun hmem => h (Chars.mem_of_mem_dropReturn hmem)
  · exact h

/-- The blank lines at the end are the same. -/
theorem trimBlank_map_reread (last : Nat) (ls : List Line) :
    trimBlank (ls.map (reread last)) = (trimBlank ls).map (reread last) := by
  have hblank : isBlank ∘ reread last = isBlank := funext fun l => isBlank_reread last l
  rw [trimBlank, trimBlank, ← List.map_reverse, List.dropWhile_map, hblank, List.map_reverse]

/-- **Lines that are put together and read again**, if the last one is not empty. -/
theorem numbered_linesOfPieces {ts : List (List Char)} (hlast : ∃ t, ts.getLast? = some t ∧ t ≠ []) (first : Nat) :
    numbered first (Chars.linesOfPieces ts) = (numbered first ts).map (reread (first + ts.length - 1)) := by
  induction ts generalizing first with
  | nil => rfl
  | cons t ts ih =>
    cases ts with
    | nil =>
      obtain ⟨u, hu, hne⟩ := hlast
      obtain rfl : t = u := Option.some.inj hu
      -- the last line has no newline behind it, so it keeps what it ends in
      have hstays : reread (first + [t].length - 1) ⟨first, t⟩ = ⟨first, t⟩ := if_neg (Nat.lt_irrefl first)
      rw [Chars.linesOfPieces, if_neg (by simpa using hne), numbered, numbered, List.map_singleton, hstays]
    | cons u us =>
      rw [List.getLast?_cons_cons] at hlast
      -- any other line loses a carriage return
      have hloses : reread (first + (t :: u :: us).length - 1) ⟨first, t⟩ = ⟨first, Chars.dropReturn t⟩ := by
        have hlt : first < first + (t :: u :: us).length - 1 := by
          rw [List.length_cons, List.length_cons]
          omega
        exact if_pos hlt
      have hrest : first + (t :: u :: us).length - 1 = first + 1 + (u :: us).length - 1 := by
        rw [List.length_cons]
        omega
      rw [Chars.linesOfPieces, numbered, numbered, List.map_cons, hloses, hrest, ih hlast]
      exact List.cons_ne_nil u us

/-- Lines are numbered on from those before. -/
theorem numbered_append (first : Nat) (ts us : List (List Char)) :
    numbered first (ts ++ us) = numbered first ts ++ numbered (first + ts.length) us := by
  induction ts generalizing first with
  | nil => rfl
  | cons t ts ih =>
    rw [List.cons_append, numbered, numbered, ih, List.length_cons, Nat.add_right_comm, Nat.add_assoc first]
    rfl

/-- Lines cut out of numbered ones go on counting from the first of them. -/
theorem eq_numbered_of_append {first : Nat} {ts : List (List Char)} {before ls after : List Line} {a : Line}
    (h : numbered first ts = before ++ (ls ++ after)) (ha : ls.head? = some a) :
    ls = numbered a.number (texts ls) := by
  have htexts : ts = texts before ++ (texts ls ++ texts after) := by
    rw [← texts_numbered first ts, h]
    simp [texts]
  have hlines := h
  -- the texts are numbered as they were cut
  rw [htexts, numbered_append, numbered_append] at hlines
  obtain ⟨-, hrest⟩ := List.append_inj hlines (by rw [length_numbered, texts, List.length_map])
  obtain ⟨hls, -⟩ := List.append_inj hrest (by rw [length_numbered, texts, List.length_map])
  -- the first of the lines has the number from which they are counted
  have hhead : (ls ++ after).head? = some a := by rw [List.head?_append, ha, Option.some_or]
  have hnumber : a.number = first + (texts before).length := by
    rw [texts, List.length_map]
    exact number_of_head?_append h hhead
  rw [hnumber, hls]

end Line

/-! ### Chunks that are read again -/

/-- Whether a line of a text ends in a carriage return, besides one that belongs to its newline. -/
def EndsInReturn (content : String) (n : Nat) : Prop :=
  ∃ l ∈ Line.numbered 1 (Chars.lines content.toList), l.number = n ∧ l.text.getLast? = some '\r'

section MadeOf

variable {content : String} {c p : Chunk} {before ls after : List Line}

/-- **The own lines of a chunk** are those that it is made of, read again. -/
theorem Chunk.MadeOf.ownLines_eq (h : c.MadeOf ls)
    (hcut : Line.numbered 1 (Chars.lines content.toList) = before ++ (ls ++ after)) :
    c.ownLines = (Line.trimBlank ls).map (Line.reread c.endLine) := by
  obtain ⟨a, ha, hfirst⟩ := h.first
  obtain ⟨b, hb, hlast⟩ := h.last
  have hne : Line.texts (Line.trimBlank ls) ≠ [] :=
    List.ne_nil_of_mem (List.mem_map_of_mem (List.mem_of_head? ha))
  have hnewline : ∀ t ∈ Line.texts (Line.trimBlank ls), '\n' ∉ t := by
    intro t ht
    obtain ⟨l, hl, rfl⟩ := List.mem_map.1 ht
    have hmem : l ∈ Line.numbered 1 (Chars.lines content.toList) := by
      rw [hcut]
      exact List.mem_append_right _ (List.mem_append_left _ ((Line.trimBlank_sublist ls).subset hl))
    exact Line.newline_not_mem_of_mem_numbered hmem
  -- the last line is not blank, let alone empty
  have hnonempty : ∃ t, (Line.texts (Line.trimBlank ls)).getLast? = some t ∧ t ≠ [] := by
    refine ⟨b.text, by rw [Line.texts, List.getLast?_map, hb, Option.map_some], fun hnil => ?_⟩
    have hblank := Line.getLast?_trimBlank hb
    rw [Line.isBlank, hnil] at hblank
    cases hblank
  obtain ⟨blank, happend, -⟩ := Line.trimBlank_append ls
  have hkept := hcut
  rw [happend, List.append_assoc] at hkept
  have hnumbered := Line.eq_numbered_of_append hkept ha
  -- the numbers go on from the first line to the last, which has the number of lines in it
  have hend : c.endLine = c.startLine + (Line.texts (Line.trimBlank ls)).length - 1 := by
    have hcount := Line.number_of_getLast?_append (hnumbered.symm.trans (List.append_nil _).symm) hb
    rw [← hlast, ← hfirst, Line.texts, List.length_map]
    omega
  -- cutting at the newlines undoes the joining, but each piece but the last is then taken for a line with a newline
  have hlines : Chars.lines c.content.toList = Chars.linesOfPieces (Line.texts (Line.trimBlank ls)) := by
    rw [h.content, String.toList_ofList, Chars.lines, Chars.joinLines, Chars.pieces_joinPieces hne hnewline]
  rw [Chunk.ownLines, hlines, Line.numbered_linesOfPieces hnonempty, ← hend, ← hfirst, ← hnumbered]

/-- **A part has the text of its lines exactly if none of them has lost a carriage return.** -/
theorem Chunk.MadeOf.content_eq_lineRange_iff {last : Nat} (h : p.MadeOf (ls.map (Line.reread last)))
    (hcut : Line.numbered 1 (Chars.lines content.toList) = before ++ (ls ++ after)) :
    p.content = Text.lineRange content p.startLine p.endLine ↔
      ∀ n, p.Covers n → n < last → ¬EndsInReturn content n := by
  -- trimming and reading again can be done in either order
  obtain ⟨a', ha', hfirst⟩ := h.first
  obtain ⟨b', hb', hlast⟩ := h.last
  have hcontent := h.content
  rw [Line.trimBlank_map_reread] at ha' hb' hcontent
  rw [List.head?_map] at ha'
  rw [List.getLast?_map] at hb'
  obtain ⟨a, ha, rfl⟩ := Option.map_eq_some_iff.1 ha'
  obtain ⟨b, hb, rfl⟩ := Option.map_eq_some_iff.1 hb'
  rw [Line.number_reread] at hfirst hlast
  obtain ⟨blank, happend, -⟩ := Line.trimBlank_append ls
  -- the blank lines behind do not count
  rw [happend, List.append_assoc] at hcut
  have hiff := fun l => Line.mem_iff_of_append (l := l) hcut ha hb
  have hrange := Line.eq_lineRange_of_append hcut ha hb
  generalize Line.trimBlank ls = kept at *
  have hnewline : ∀ l ∈ kept, '\n' ∉ l.text := fun l hl =>
    Line.newline_not_mem_of_mem_numbered ((hiff l).1 hl).1
  have hne : kept ≠ [] := List.ne_nil_of_mem (List.mem_of_head? ha)
  -- there are no newlines in the lines of either text, so the texts differ if the lines do
  have hsame : p.content = Text.lineRange content p.startLine p.endLine ↔
      Line.texts (kept.map (Line.reread last)) = Line.texts kept := by
    rw [hcontent, Text.lineRange, ← hfirst, ← hlast, ← hrange, String.ofList_inj]
    refine Chars.joinLines_inj ?_ ?_ ?_ ?_
    · simpa [Line.texts] using hne
    · simpa [Line.texts] using hne
    · intro t ht
      obtain ⟨l', hl', rfl⟩ := List.mem_map.1 ht
      obtain ⟨l, hl, rfl⟩ := List.mem_map.1 hl'
      exact Line.newline_not_mem_text_reread (hnewline l hl)
    · intro t ht
      obtain ⟨l, hl, rfl⟩ := List.mem_map.1 ht
      exact hnewline l hl
  rw [hsame, Line.texts, Line.texts, List.map_map, List.map_inj_left]
  constructor
  · -- a line between the ends has kept its text, so it has not lost a carriage return
    rintro hall n ⟨hstart, hend⟩ hlt ⟨l, hl, rfl, hreturn⟩
    rw [← hfirst] at hstart
    rw [← hlast] at hend
    exact Line.text_reread_eq_iff.1 (hall l ((hiff l).2 ⟨hl, hstart, hend⟩)) hlt hreturn
  · -- and a line that has not lost one has kept its text
    intro hall l hl
    obtain ⟨hmem, hstart, hend⟩ := (hiff l).1 hl
    rw [hfirst] at hstart
    rw [hlast] at hend
    exact Line.text_reread_eq_iff.2 fun hlt hreturn =>
      hall l.number ⟨hstart, hend⟩ hlt ⟨l, hmem, rfl, hreturn⟩

end MadeOf

/-! ### Chunks of a document -/

/-- Whether a chunk is too long to be kept as it is. -/
def Chunk.IsSplit (s : ChunkSettings) (c : Chunk) : Prop :=
  0 < s.maxChunkSize ∧ s.maxChunkSize < Text.byteSize c.content

section Whole

variable {s : ChunkSettings} {content : String} {definitions : List Definition} {c p : Chunk}

theorem Chunk.split_of_not_isSplit (h : ¬c.IsSplit s) : Chunk.split s c = [c] := by
  rw [Chunk.IsSplit] at h
  rw [Chunk.split, if_pos]
  omega

/-- A part of a chunk that is split is made of some of its own lines, which stand next to each other. -/
theorem Chunk.exists_cut_of_mem_split (h : c.IsSplit s) (hp : p ∈ Chunk.split s c) :
    ∃ before ls after, c.ownLines = before ++ (ls ++ after) ∧ p.MadeOf ls := by
  have hlong : ¬(s.maxChunkSize = 0 ∨ Text.byteSize c.content ≤ s.maxChunkSize) := by
    rw [Chunk.IsSplit] at h
    omega
  rw [Chunk.split, if_neg hlong] at hp
  obtain ⟨ls, hls, hpart⟩ := List.mem_filterMap.1 hp
  -- the lines of the fragment stand between those of the others
  obtain ⟨before, after, hsplit⟩ := List.append_of_mem hls
  refine ⟨before.flatten, ls, after.flatten, ?_, (Chunk.madeOf_of_ofLines? hpart).1⟩
  rw [Chunk.ownLines, ← Fragment.split_flatten s.maxChunkSize s.minFragmentSize (Line.numbered _ _), hsplit]
  simp

/-- The digest of a chunk is that of its text. -/
theorem contentHash_of_mem_chunksWith (hp : p ∈ chunksWith s content definitions) :
    p.contentHash = Digest.ofText p.content := by
  -- before splitting it is, of the whole text or of a run of lines
  have hfirst : ∀ c ∈ firstChunks content definitions, c.contentHash = Digest.ofText c.content := by
    intro c hc
    rw [firstChunks] at hc
    split at hc
    · rw [List.mem_singleton.1 hc]
      rfl
    · rw [syntaxChunks_eq] at hc
      obtain ⟨run, -, hchunk⟩ := List.mem_filterMap.1 hc
      rw [chunkOfRun?] at hchunk
      split at hchunk
      · exact Chunk.contentHash_of_ofLines? hchunk
      · cases hchunk
  obtain ⟨c, hc, hp⟩ := List.mem_flatMap.1 hp
  -- the chunk is left whole, or its parts get digests of their own
  rcases Chunk.split_cases s c with hsplit | hsplit
  · rw [hsplit] at hp
    rw [List.mem_singleton.1 hp]
    exact hfirst c hc
  · rw [hsplit] at hp
    obtain ⟨ls, -, hpart⟩ := List.mem_filterMap.1 hp
    exact Chunk.contentHash_of_ofLines? hpart

/-- **A document that is split as a whole** is read only once, so its parts have the text of their lines. -/
theorem content_eq_lineRange_of_mem_split_wholeChunk (hsplit : (wholeChunk content).IsSplit s)
    (hp : p ∈ Chunk.split s (wholeChunk content)) :
    p.content = Text.lineRange content p.startLine p.endLine := by
  obtain ⟨before, ls, after, hcut, hmade⟩ := Chunk.exists_cut_of_mem_split hsplit hp
  exact hmade.content_eq_lineRange hcut

/-- **A part of a chunk that is made of lines of a document** has the text of its lines, unless the chunk was split and
one of the lines before its last one ends in a carriage return. -/
theorem content_eq_lineRange_iff_of_mem_split (hc : c ∈ syntaxChunks content definitions)
    (hp : p ∈ Chunk.split s c) :
    p.content = Text.lineRange content p.startLine p.endLine ↔
      (c.IsSplit s → ∀ n, p.Covers n → n < c.endLine → ¬EndsInReturn content n) := by
  obtain ⟨before, ls, after, hcut, hmade⟩ := exists_cut_of_mem_syntaxChunks hc
  by_cases hsplit : c.IsSplit s
  · obtain ⟨before', ms, after', hown, hpart⟩ := Chunk.exists_cut_of_mem_split hsplit hp
    -- what the part is made of are lines of the document that were read again
    rw [hmade.ownLines_eq hcut] at hown
    obtain ⟨first, rest, hkept, -, hrest⟩ := List.map_eq_append_iff.1 hown
    obtain ⟨ls', last, rfl, rfl, -⟩ := List.map_eq_append_iff.1 hrest
    obtain ⟨blank, happend, -⟩ := Line.trimBlank_append ls
    have hlines : Line.numbered 1 (Chars.lines content.toList) =
        (before ++ first) ++ (ls' ++ (last ++ (blank ++ after))) := by
      rw [hcut, happend, hkept]
      simp only [List.append_assoc]
    rw [hpart.content_eq_lineRange_iff hlines]
    exact ⟨fun h _ => h, fun h => h hsplit⟩
  · -- a chunk that is kept as it is has been made of lines of the document
    rw [Chunk.split_of_not_isSplit hsplit] at hp
    rw [List.mem_singleton.1 hp]
    exact iff_of_true (hmade.content_eq_lineRange hcut) fun h => absurd h hsplit

/-- **The text of each chunk**, whatever the declarations and the settings. All chunks have the digests of their texts.
A document without chunks of its own is one chunk, and if that is split the parts have the text of their lines. Otherwise
each chunk is a part of one before splitting, and it has the text of its lines exactly if that one was not split, or no
line of the part ends in a carriage return, apart from the last line of the one that was split. -/
theorem text_chunksWith? (s : ChunkSettings) (content : String)
    (hforward : ∀ d ∈ definitions, d.startRow ≤ d.endRow) :
    ∃ parts, chunksWith? s content definitions = some parts ∧ ∀ p ∈ parts,
      p.contentHash = Digest.ofText p.content ∧
        (syntaxChunks content definitions = [] ∧
            (¬(wholeChunk content).IsSplit s ∧ p = wholeChunk content ∨
              p.content = Text.lineRange content p.startLine p.endLine) ∨
          ∃ c ∈ syntaxChunks content definitions, p.PartOf c ∧
            (p.content = Text.lineRange content p.startLine p.endLine ↔
              (c.IsSplit s → ∀ n, p.Covers n → n < c.endLine → ¬EndsInReturn content n))) := by
  refine ⟨chunksWith s content definitions, ?_, fun p hp => ⟨contentHash_of_mem_chunksWith hp, ?_⟩⟩
  · rw [chunksWith?, syntaxChunks?_eq_some content hforward]
    rfl
  · obtain ⟨c, hc, hpart⟩ := List.mem_flatMap.1 hp
    rw [firstChunks] at hc
    split at hc
    next hempty =>
      -- without declarations there is one chunk of the whole text
      rw [List.mem_singleton.1 hc] at hpart
      refine Or.inl ⟨List.isEmpty_iff.1 hempty, ?_⟩
      by_cases hsplit : (wholeChunk content).IsSplit s
      · exact Or.inr (content_eq_lineRange_of_mem_split_wholeChunk hsplit hpart)
      · rw [Chunk.split_of_not_isSplit hsplit] at hpart
        exact Or.inl ⟨hsplit, List.mem_singleton.1 hpart⟩
    next =>
      -- otherwise it is a part of a chunk that a declaration owns
      exact Or.inr ⟨c, hc, ((mirrors_of_mem_syntaxChunks hc).partOf_of_mem_split hpart).1,
        content_eq_lineRange_iff_of_mem_split hc hpart⟩

end Whole

/-! A line with two carriage returns before its newline, in a declaration that is split. -/

section Returns

/-- Two lines, of which the first one ends in a carriage return besides that of its newline. -/
def returnText : String := "a\r\r\nb\n"

/-- A declaration of both lines. -/
def returnDefinitions : List Definition :=
  [{ kind := .function, name := "f", startRow := 0, endRow := 1, declRow := 0, parents := [] }]

/-- Where chunks have more than two bytes, each line is a chunk, and the first one has lost a carriage return. -/
theorem map_chunksWith?_returns :
    (chunksWith? ⟨2, 0⟩ returnText returnDefinitions).map
      (List.map fun c => (c.content, c.kind, c.startLine, c.endLine)) =
        some [("a", .function, 1, 1), ("b", .function, 2, 2)] := by
  have hsorted : outerToInner returnDefinitions = returnDefinitions := List.mergeSort_singleton _
  simp only [chunksWith?, chunksWith, firstChunks, syntaxChunks?, syntaxChunks, hsorted]
  decide +kernel

/-- The text is split into its two lines. -/
theorem text_chunksWith?_returns :
    ∃ parts, chunksWith? ⟨2, 0⟩ returnText returnDefinitions = some parts ∧
      parts.map (fun c => (c.content, c.kind, c.startLine, c.endLine)) =
        [("a", .function, 1, 1), ("b", .function, 2, 2)] ∧
      ∀ p ∈ parts, p.contentHash = Digest.ofText p.content ∧
        (syntaxChunks returnText returnDefinitions = [] ∧
            (¬(wholeChunk returnText).IsSplit ⟨2, 0⟩ ∧ p = wholeChunk returnText ∨
              p.content = Text.lineRange returnText p.startLine p.endLine) ∨
          ∃ c ∈ syntaxChunks returnText returnDefinitions, p.PartOf c ∧
            (p.content = Text.lineRange returnText p.startLine p.endLine ↔
              (c.IsSplit ⟨2, 0⟩ → ∀ n, p.Covers n → n < c.endLine → ¬EndsInReturn returnText n))) := by
  have hforward : ∀ d ∈ returnDefinitions, d.startRow ≤ d.endRow := by decide
  obtain ⟨parts, hparts, htext⟩ := text_chunksWith? ⟨2, 0⟩ returnText hforward
  have hmap := map_chunksWith?_returns
  rw [hparts] at hmap
  exact ⟨parts, hparts, Option.some.inj hmap, htext⟩

/-- The chunk of the first line does not have the text of this line. -/
theorem content_ne_lineRange_returns :
    (∀ d ∈ returnDefinitions, d.startRow ≤ d.endRow) ∧
      ∃ parts, chunksWith? ⟨2, 0⟩ returnText returnDefinitions = some parts ∧
        ∃ p ∈ parts, p.kind ≠ .fileScope ∧ p.content = "a" ∧
          Text.lineRange returnText p.startLine p.endLine = "a\r" := by
  refine ⟨by decide, ?_⟩
  -- the parts are computed, and the first one is that of the first line
  obtain ⟨parts, hparts, hmap⟩ := Option.map_eq_some_iff.1 map_chunksWith?_returns
  obtain ⟨p, rest, rfl, hp, -⟩ := List.map_eq_cons_iff.1 hmap
  obtain ⟨hcontent, hrest⟩ := Prod.mk.inj hp
  obtain ⟨hkind, hrest⟩ := Prod.mk.inj hrest
  obtain ⟨hstart, hend⟩ := Prod.mk.inj hrest
  refine ⟨p :: rest, hparts, p, List.mem_cons_self, ?_, hcontent, ?_⟩
  · rw [hkind]
    decide
  · rw [hstart, hend]
    decide +kernel

end Returns

end CodeSearch
