import CodeSearch.Chunks.Lines
import CodeSearch.Proofs.Paths

/-!
# Lines of chunks

Lines carry their numbers through every cut, and a chunk is made of lines that were cut out of numbered
ones. This module says how the numbers and texts of such lines hang together:

* `mem_numbered` — what a line with a number says;
* `eq_lineRange_of_append`, `mem_iff_of_append` — lines cut out of numbered ones are a range of them;
* `Chunk.MadeOf`, `madeOf_of_ofLines?` — where a chunk of lines begins and ends;
* `Chunk.MadeOf.content_eq_lineRange` — what it says;
* `map_isBlankLine_lines_joinLines` — a chunk that is read as text again has blank lines in the same
  places, although it may lose some carriage returns.
-/

namespace CodeSearch

namespace Chars

/-! ### Lines that were put together -/

/-- What is left after a carriage return was dropped was there before. -/
theorem mem_of_mem_dropReturn {c : Char} {s : List Char} (h : c ∈ dropReturn s) : c ∈ s := by
  rw [dropReturn] at h
  split at h
  · exact (List.dropLast_sublist s).subset h
  · exact h

/-- A carriage return is blank, so a line that loses one stays what it is. -/
theorem isBlankLine_dropReturn (s : List Char) : isBlankLine (dropReturn s) = isBlankLine s := by
  rw [dropReturn]
  split
  next h =>
    obtain ⟨r, rfl⟩ := List.getLast?_eq_some_iff.1 h
    rw [List.dropLast_concat, isBlankLine, isBlankLine, List.all_append]
    simp [isBlank]
  next => rfl

/-- Lines have no other characters than the pieces that they are made of. -/
theorem not_mem_of_mem_linesOfPieces {c : Char} {ps : List (List Char)} (h : ∀ p ∈ ps, c ∉ p)
    {t : List Char} (ht : t ∈ linesOfPieces ps) : c ∉ t := by
  fun_induction linesOfPieces ps with
  | case1 => cases ht
  | case2 p hp => cases ht
  | case3 p hp =>
    rw [List.mem_singleton.1 ht]
    exact h p List.mem_cons_self
  | case4 p ps hps ih =>
    rcases List.mem_cons.1 ht with rfl | ht
    · -- a piece with others behind it may lose a carriage return
      exact fun hc => h p List.mem_cons_self (mem_of_mem_dropReturn hc)
    · exact ih (fun q hq => h q (List.mem_cons_of_mem p hq)) ht

/-- There are no newlines in a line. -/
theorem newline_not_mem_of_mem_lines {s t : List Char} (ht : t ∈ lines s) : '\n' ∉ t :=
  not_mem_of_mem_linesOfPieces (fun _ => not_mem_of_mem_pieces) ht

/-- **Joined lines have blank ones in the same places when they are read again**, if the last one is
not blank. -/
theorem map_isBlankLine_lines_joinLines {ts : List (List Char)} (hn : ∀ t ∈ ts, '\n' ∉ t)
    (hlast : ∃ t, ts.getLast? = some t ∧ isBlankLine t = false) :
    (lines (joinLines ts)).map isBlankLine = ts.map isBlankLine := by
  have hne : ts ≠ [] := by
    obtain ⟨t, ht, -⟩ := hlast
    rintro rfl
    cases ht
  -- the lines are found again by cutting, so only carriage returns are at stake
  rw [lines, joinLines, pieces_joinPieces hne hn]
  clear hn hne
  induction ts with
  | nil => rfl
  | cons t ts ih =>
    cases ts with
    | nil =>
      -- the last line is not empty, so it counts as a line
      obtain ⟨u, hu, hblank⟩ := hlast
      obtain rfl : t = u := Option.some.inj hu
      cases t with
      | nil => cases hblank
      | cons c r => rfl
    | cons u us =>
      -- a carriage return that is dropped does not make a line blank, or keep it from being so
      rw [List.getLast?_cons_cons] at hlast
      rw [linesOfPieces, List.map_cons, List.map_cons, isBlankLine_dropReturn, ih hlast]
      exact List.cons_ne_nil u us

end Chars

namespace Line

/-! ### Numbered lines -/

variable {first : Nat} {ts : List (List Char)} {ls : List Line} {l : Line}

/-- A line among numbered ones stands where its number says. -/
theorem mem_numbered : l ∈ numbered first ts ↔ first ≤ l.number ∧ ts[l.number - first]? = some l.text := by
  induction ts generalizing first with
  | nil => simp [numbered]
  | cons t ts ih =>
    rw [numbered, List.mem_cons, ih]
    constructor
    · -- the first line has the first number, and the others come after it
      rintro (rfl | ⟨hle, hget⟩)
      · exact ⟨Nat.le_refl first, by simp⟩
      · have hsub : l.number - first = l.number - (first + 1) + 1 := by omega
        exact ⟨by omega, by rw [hsub, List.getElem?_cons_succ, hget]⟩
    · rintro ⟨hle, hget⟩
      -- the number is the first one, or one of those of the others
      rcases Nat.eq_or_lt_of_le hle with heq | hlt
      · left
        rw [← heq, Nat.sub_self, List.getElem?_cons_zero] at hget
        cases l
        simp_all
      · have hsub : l.number - first = l.number - (first + 1) + 1 := by omega
        rw [hsub, List.getElem?_cons_succ] at hget
        exact Or.inr ⟨hlt, hget⟩

/-- There are no newlines in the lines of a text. -/
theorem newline_not_mem_of_mem_numbered {s : List Char} (h : l ∈ numbered first (Chars.lines s)) :
    '\n' ∉ l.text :=
  Chars.newline_not_mem_of_mem_lines (List.mem_of_getElem? (mem_numbered.1 h).2)

/-- No number is greater than that of the last line. -/
theorem lt_of_mem_numbered (h : l ∈ numbered first ts) : l.number < first + ts.length := by
  obtain ⟨hle, hget⟩ := mem_numbered.1 h
  have := (List.getElem?_eq_some_iff.1 hget).1
  omega

/-- Numbers ascend. -/
theorem pairwise_numbered (first : Nat) (ts : List (List Char)) :
    (numbered first ts).Pairwise fun a b => a.number < b.number := by
  induction ts generalizing first with
  | nil => exact List.Pairwise.nil
  | cons t ts ih =>
    rw [numbered, List.pairwise_cons]
    exact ⟨fun l hl => (mem_numbered.1 hl).1, ih (first + 1)⟩

/-- Lines cut out of numbered ones ascend. -/
theorem pairwise_of_append {before after : List Line} (h : numbered first ts = before ++ (ls ++ after)) :
    ls.Pairwise fun a b => a.number < b.number := by
  have hall := pairwise_numbered first ts
  rw [h] at hall
  exact (List.pairwise_append.1 (List.pairwise_append.1 hall).2.1).1

/-- The first of some lines has the smallest number, -/
theorem number_le_of_head? {a : Line} (h : ls.Pairwise fun a b => a.number < b.number)
    (ha : ls.head? = some a) (hl : l ∈ ls) : a.number ≤ l.number := by
  obtain ⟨r, rfl⟩ := List.head?_eq_some_iff.1 ha
  rcases List.mem_cons.1 hl with rfl | hl
  · exact Nat.le_refl _
  · exact Nat.le_of_lt (List.rel_of_pairwise_cons h hl)

/-- and the last one the greatest. -/
theorem number_le_of_getLast? {b : Line} (h : ls.Pairwise fun a b => a.number < b.number)
    (hb : ls.getLast? = some b) (hl : l ∈ ls) : l.number ≤ b.number := by
  obtain ⟨r, rfl⟩ := List.getLast?_eq_some_iff.1 hb
  rcases List.mem_append.1 hl with hl | hl
  · exact Nat.le_of_lt ((List.pairwise_append.1 h).2.2 l hl b (List.mem_singleton_self b))
  · obtain rfl := List.mem_singleton.1 hl
    exact Nat.le_refl _

/-- Lines are numbered one after the other. -/
theorem number_of_getElem? {i : Nat} (h : (numbered first ts)[i]? = some l) :
    l.number = first + i := by
  induction ts generalizing first i with
  | nil => cases h
  | cons t ts ih =>
    cases i with
    | zero =>
      obtain rfl := Option.some.inj h
      rfl
    | succ i =>
      rw [numbered, List.getElem?_cons_succ] at h
      have := ih h
      omega

/-- Every text makes a line. -/
theorem length_numbered (first : Nat) (ts : List (List Char)) : (numbered first ts).length = ts.length := by
  rw [← List.length_map (·.text)]
  exact congrArg List.length (texts_numbered first ts)

/-- Numbers go up by one. -/
theorem map_number_numbered (first : Nat) (ts : List (List Char)) :
    (numbered first ts).map (·.number) = List.range' first ts.length := by
  induction ts generalizing first with
  | nil => rfl
  | cons t ts ih => rw [numbered, List.map_cons, ih, List.length_cons, List.range'_succ]

/-- There is a line of each number. -/
theorem exists_mem_numbered {n : Nat} (hfirst : first ≤ n) (hlast : n < first + ts.length) :
    ∃ l ∈ numbered first ts, l.number = n := by
  have hlt : n - first < ts.length := by omega
  exact ⟨⟨n, ts[n - first]⟩, mem_numbered.2 ⟨hfirst, List.getElem?_eq_getElem hlt⟩, rfl⟩

/-- As many lines as stand before a line were counted before it. -/
theorem number_of_head?_append {us vs : List Line} (h : numbered first ts = us ++ vs) (hl : vs.head? = some l) :
    l.number = first + us.length := by
  have hget : (numbered first ts)[us.length]? = some l := by
    rw [h, List.getElem?_append_right (Nat.le_refl _), Nat.sub_self, ← List.head?_eq_getElem?, hl]
  exact number_of_getElem? hget

/-- The number of the last of some lines is told by how many there are. -/
theorem number_of_getLast?_append {us vs : List Line} (h : numbered first ts = us ++ vs)
    (hl : us.getLast? = some l) : l.number + 1 = first + us.length := by
  have hpos : 0 < us.length := List.length_pos_of_mem (List.mem_of_getLast? hl)
  have hget : (numbered first ts)[us.length - 1]? = some l := by
    rw [h, List.getElem?_append_left (by omega), ← List.getLast?_eq_getElem?, hl]
  have hnumber := number_of_getElem? hget
  omega

/-- Where numbered lines are cut, the number goes up by one. -/
theorem number_eq_succ_of_append {us vs : List Line} {u v : Line} (h : numbered first ts = us ++ vs)
    (hu : us.getLast? = some u) (hv : vs.head? = some v) : v.number = u.number + 1 :=
  (number_of_head?_append h hv).trans (number_of_getLast?_append h hu).symm

/-- **Lines cut out of numbered ones are the range from the first to the last of them.** -/
theorem eq_lineRange_of_append {before after : List Line} {a b : Line}
    (h : numbered 1 ts = before ++ (ls ++ after)) (ha : ls.head? = some a)
    (hb : ls.getLast? = some b) : texts ls = Chars.lineRange ts a.number b.number := by
  have hne : ls ≠ [] := List.ne_nil_of_mem (List.mem_of_head? ha)
  have hhead : (ls ++ after).head? = some a := by rw [List.head?_append, ha, Option.some_or]
  have hgetLast : (before ++ ls).getLast? = some b := by rw [List.getLast?_append, hb, Option.some_or]
  have hfirst := number_of_head?_append h hhead
  have hlast := number_of_getLast?_append (h.trans (List.append_assoc _ _ _).symm) hgetLast
  rw [List.length_append] at hlast
  -- the texts are cut where the lines are
  have htexts : ts = texts before ++ (texts ls ++ texts after) := by
    rw [← texts_numbered 1 ts, h]
    simp [texts]
  have hbefore : (texts before).length = a.number - 1 := by
    rw [texts, List.length_map, hfirst]
    omega
  have hcount : (texts ls).length = b.number - a.number + 1 := by
    have hpos := List.length_pos_iff.2 hne
    rw [texts, List.length_map]
    omega
  -- what is left after dropping those before and those behind is the range
  rw [Chars.lineRange, htexts, ← hbefore, List.drop_left, ← hcount, List.take_left]

/-- The lines that are cut out of numbered ones are those between the first and the last of them. -/
theorem mem_iff_of_append {before after : List Line} {a b : Line}
    (h : numbered first ts = before ++ (ls ++ after)) (ha : ls.head? = some a)
    (hb : ls.getLast? = some b) :
    l ∈ ls ↔ l ∈ numbered first ts ∧ a.number ≤ l.number ∧ l.number ≤ b.number := by
  have hsorted := pairwise_numbered first ts
  rw [h] at hsorted ⊢
  obtain ⟨-, hrest, hbefore⟩ := List.pairwise_append.1 hsorted
  obtain ⟨hls, -, hafter⟩ := List.pairwise_append.1 hrest
  constructor
  · intro hl
    exact ⟨List.mem_append_right _ (List.mem_append_left _ hl), number_le_of_head? hls ha hl,
      number_le_of_getLast? hls hb hl⟩
  · -- a line between the first and the last is neither before the one nor behind the other
    rintro ⟨hl, hfirst, hlast⟩
    rcases List.mem_append.1 hl with hl | hl
    · have := hbefore l hl a (List.mem_append_left _ (List.mem_of_head? ha))
      omega
    · rcases List.mem_append.1 hl with hl | hl
      · exact hl
      · have := hafter b (List.mem_of_getLast? hb) l hl
        omega

/-! ### Trimming -/

/-- Trimming leaves lines out, and changes none. -/
theorem trimBlank_sublist (ls : List Line) : (trimBlank ls).Sublist ls := by
  have h : (ls.reverse.dropWhile isBlank).reverse.Sublist ls.reverse.reverse :=
    (List.dropWhile_sublist isBlank).reverse
  rwa [List.reverse_reverse] at h

/-- A line that is not blank is not trimmed away. -/
theorem mem_trimBlank (hl : l ∈ ls) (htext : l.isBlank = false) : l ∈ trimBlank ls := by
  obtain ⟨blank, happend, hblank⟩ := trimBlank_append ls
  rw [happend] at hl
  rcases List.mem_append.1 hl with hl | hl
  · exact hl
  · rw [hblank l hl] at htext
    cases htext

/-- The last line that is left is not blank. -/
theorem getLast?_trimBlank (h : (trimBlank ls).getLast? = some l) : l.isBlank = false := by
  rw [trimBlank, List.getLast?_reverse] at h
  have := List.head?_dropWhile_not (isBlank) ls.reverse
  rw [h] at this
  exact this

end Line

/-! ### Chunks made of lines -/

/-- Whether a chunk is made of some lines, less the blank ones at their end. -/
structure Chunk.MadeOf (c : Chunk) (ls : List Line) : Prop where
  content : c.content = String.ofList (Chars.joinLines (Line.texts (Line.trimBlank ls)))
  first : ∃ l, (Line.trimBlank ls).head? = some l ∧ l.number = c.startLine
  last : ∃ l, (Line.trimBlank ls).getLast? = some l ∧ l.number = c.endLine

variable {ls : List Line} {kind : ChunkKind} {symbols parents : List String} {c : Chunk}

/-- What a chunk is made of, and what it says. -/
theorem Chunk.madeOf_of_ofLines? (h : Chunk.ofLines? ls kind symbols parents = some c) :
    c.MadeOf ls ∧ c.kind = kind ∧ c.symbols = symbols ∧ c.parents = parents := by
  rw [Chunk.ofLines?] at h
  split at h
  next a b ha hb =>
    obtain rfl := Option.some.inj h
    exact ⟨⟨rfl, ⟨a, ha, rfl⟩, ⟨b, hb, rfl⟩⟩, rfl, rfl, rfl⟩
  next => cases h

/-- A chunk of lines has the digest of its own text. -/
theorem Chunk.contentHash_of_ofLines? (h : Chunk.ofLines? ls kind symbols parents = some c) :
    c.contentHash = Digest.ofText c.content := by
  rw [Chunk.ofLines?] at h
  split at h
  next => rw [← Option.some.inj h]
  next => cases h

namespace Chunk.MadeOf

/-- **A chunk of lines that were cut out of a text is a range of it.** -/
theorem content_eq_lineRange {content : String} {before after : List Line} (h : c.MadeOf ls)
    (hcut : Line.numbered 1 (Chars.lines content.toList) = before ++ (ls ++ after)) :
    c.content = Text.lineRange content c.startLine c.endLine := by
  obtain ⟨a, ha, hfirst⟩ := h.first
  obtain ⟨b, hb, hlast⟩ := h.last
  obtain ⟨blank, happend, -⟩ := Line.trimBlank_append ls
  rw [happend, List.append_assoc] at hcut
  rw [h.content, Line.eq_lineRange_of_append hcut ha hb, hfirst, hlast, Text.lineRange]

/-- A chunk begins and ends with lines that it is made of. -/
theorem exists_first (h : c.MadeOf ls) : ∃ l ∈ ls, l.number = c.startLine := by
  obtain ⟨l, hl, hnumber⟩ := h.first
  exact ⟨l, (Line.trimBlank_sublist ls).subset (List.mem_of_head? hl), hnumber⟩

/-- The last line of a chunk is one of those that it is made of. -/
theorem exists_last (h : c.MadeOf ls) : ∃ l ∈ ls, l.number = c.endLine := by
  obtain ⟨l, hl, hnumber⟩ := h.last
  exact ⟨l, (Line.trimBlank_sublist ls).subset (List.mem_of_getLast? hl), hnumber⟩

/-- What is not trimmed lies in the chunk. -/
theorem covers (h : c.MadeOf ls) (hls : ls.Pairwise fun a b => a.number < b.number) {l : Line}
    (hl : l ∈ Line.trimBlank ls) : c.startLine ≤ l.number ∧ l.number ≤ c.endLine := by
  obtain ⟨a, ha, hfirst⟩ := h.first
  obtain ⟨b, hb, hlast⟩ := h.last
  have hkept := hls.sublist (Line.trimBlank_sublist ls)
  rw [← hfirst, ← hlast]
  exact ⟨Line.number_le_of_head? hkept ha hl, Line.number_le_of_getLast? hkept hb hl⟩

/-- A chunk does not end before it starts. -/
theorem startLine_le_endLine (h : c.MadeOf ls)
    (hls : ls.Pairwise fun a b => a.number < b.number) : c.startLine ≤ c.endLine := by
  obtain ⟨a, ha, hfirst⟩ := h.first
  rw [← hfirst]
  exact (h.covers hls (List.mem_of_head? ha)).2

end Chunk.MadeOf

/-- Lines that are not all blank make a chunk. -/
theorem Chunk.exists_ofLines? {l : Line} (hl : l ∈ ls) (htext : l.isBlank = false)
    (kind : ChunkKind) (symbols parents : List String) :
    ∃ c, Chunk.ofLines? ls kind symbols parents = some c := by
  have hmem := Line.mem_trimBlank hl htext
  have hne := List.ne_nil_of_mem hmem
  rw [Chunk.ofLines?, List.head?_eq_some_head hne, List.getLast?_eq_some_getLast hne]
  exact ⟨_, rfl⟩

end CodeSearch
