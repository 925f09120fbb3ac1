import CodeSearch.Proofs.Chunks.Partition
import Mathlib.Data.List.Chain

/-!
# Chunks and the declarations that own their lines

A line belongs to the innermost declaration that covers it: the one that starts last, of those that start together
the one that ends first, and of those with the same rows the last one in the list (`Definition.Owns`). Before
splitting, a document is cut where the owner changes. The cut does not look for owners in this way. It sorts the
declarations once and takes the last one in the sorted list that covers the line, and it tells owners by their places
in that list.

* `owner?_cases` — what is found is the last declaration of a list that covers a line;
* `owns_of_owner?`, `exists_owner?` — in the sorted list this is the innermost one, since sorting keeps the order of
  declarations that compare equal;
* `exists_cut_of_mem_runs` — items are cut into runs exactly where the key changes;
* `syntaxChunks?_runs` — each longest range of lines with one owner that is not blank gives one chunk, and there are no
  others.
-/

namespace CodeSearch

/-! ### Runs -/

section Runs

variable {α κ : Type} [DecidableEq κ] {key : α → κ} {l g : List α}

/-- No run is empty. -/
theorem nil_not_mem_runs (key : α → κ) (l : List α) : [] ∉ runs key l := by
  induction l with
  | nil => exact List.not_mem_nil
  | cons a r ih =>
    rw [runs]
    split
    · simp
    · next gs hruns =>
      rw [hruns] at ih
      exact absurd List.mem_cons_self ih
    · next b g gs hruns =>
      -- the item goes to the front of the first run, or makes a run of its own
      rw [hruns] at ih
      split <;> simp_all

/-- The items of a run have one key. -/
theorem key_eq_of_mem_runs (hg : g ∈ runs key l) {a b : α} (ha : a ∈ g) (hb : b ∈ g) :
    key a = key b := by
  suffices h : ∀ g ∈ runs key l, ∀ a ∈ g, ∀ b ∈ g, key a = key b from h g hg a ha b hb
  clear hg ha hb
  induction l with
  | nil => exact fun g hg => absurd hg List.not_mem_nil
  | cons a r ih =>
    have hsingle : ∀ b ∈ [a], ∀ c ∈ [a], key b = key c := by simp
    rw [runs]
    -- an item alone has one key
    split
    · exact List.forall_mem_singleton.2 hsingle
    · next gs hruns =>
      rw [hruns] at ih
      exact List.forall_mem_cons.2 ⟨hsingle, (List.forall_mem_cons.1 ih).2⟩
    · next b g gs hruns =>
      rw [hruns] at ih
      obtain ⟨hfirst, hrest⟩ := List.forall_mem_cons.1 ih
      split
      next heq =>
        -- the item goes to the front of the first run, whose key it has
        have hall : ∀ c ∈ a :: b :: g, key c = key b := by
          intro c hc
          rcases List.mem_cons.1 hc with rfl | hc
          · exact heq
          · exact hfirst c hc b List.mem_cons_self
        refine List.forall_mem_cons.2 ⟨fun c hc d hd => ?_, hrest⟩
        rw [hall c hc, hall d hd]
      next => exact List.forall_mem_cons.2 ⟨hsingle, ih⟩

/-- Runs that stand next to each other have different keys. -/
theorem isChain_runs (key : α → κ) (l : List α) :
    (runs key l).IsChain fun g g' => ∀ a ∈ g, ∀ b ∈ g', key a ≠ key b := by
  induction l with
  | nil => exact List.isChain_nil
  | cons a r ih =>
    have hkeys := fun g hg => @key_eq_of_mem_runs α κ _ key r g hg
    rw [runs]
    split
    · exact List.isChain_singleton _
    · -- there is always an item in a run
      next gs hruns => exact absurd (hruns ▸ List.mem_cons_self) (nil_not_mem_runs key r)
    · next b g gs hruns =>
      rw [hruns] at ih hkeys
      have hfirst : ∀ c ∈ b :: g, key c = key b := fun c hc =>
        hkeys _ List.mem_cons_self hc List.mem_cons_self
      split
      next heq =>
        -- the first run has one item more, with the same key
        refine List.isChain_cons.2 ⟨fun g' hg' c hc d hd => ?_, (List.isChain_cons.1 ih).2⟩
        have hnext := (List.isChain_cons.1 ih).1 g' hg'
        rcases List.mem_cons.1 hc with rfl | hc
        · rw [heq]
          exact hnext b List.mem_cons_self d hd
        · exact hnext c hc d hd
      next hne =>
        -- the item is a run of its own, whose key the next one does not have
        refine List.isChain_cons.2 ⟨fun g' hg' c hc d hd => ?_, ih⟩
        obtain rfl := List.mem_singleton.1 hc
        obtain rfl : b :: g = g' := Option.some.inj hg'
        rw [hfirst d hd]
        exact hne

/-- **A run is cut out where the key changes.** -/
theorem exists_cut_of_mem_runs (hg : g ∈ runs key l) :
    ∃ before after, l = before ++ (g ++ after) ∧ (∀ a ∈ before.getLast?, ∀ b ∈ g, key a ≠ key b) ∧
      ∀ a ∈ after.head?, ∀ b ∈ g, key a ≠ key b := by
  -- the run stands between others, from which it differs
  obtain ⟨gs, gs', hruns⟩ := List.append_of_mem hg
  have hchain := isChain_runs key l
  have hnil := nil_not_mem_runs key l
  rw [hruns] at hchain hnil
  refine ⟨gs.flatten, gs'.flatten, ?_, ?_, ?_⟩
  · rw [← runs_flatten key l, hruns]
    simp
  · intro a ha b hb
    obtain rfl | ⟨gs, g', rfl⟩ := List.eq_nil_or_concat gs
    · cases ha
    · -- the last item before the run is the last one of the run before it
      have hne : g' ≠ [] := by
        rintro rfl
        simp at hnil
      rw [List.concat_eq_append, List.flatten_append, List.flatten_singleton,
        List.getLast?_append_of_ne_nil _ hne] at ha
      have hnext := (List.isChain_append.1 hchain).2.2 g' (by simp) g (by simp)
      exact hnext a (List.mem_of_getLast? ha) b hb
  · intro a ha b hb
    -- nothing comes after the run
    cases gs' with
    | nil => cases ha
    | cons g' gs' =>
      -- the first item after the run is the first one of the run after it
      have hne : g' ≠ [] := by
        rintro rfl
        simp at hnil
      rw [List.flatten_cons, List.head?_append_of_ne_nil _ hne] at ha
      have hnext := (List.isChain_cons.1 (List.isChain_append.1 hchain).2.1).1 g' rfl
      exact (hnext b hb a (List.mem_of_head? ha)).symm

/-- The first run goes on as long as the key does not change. -/
theorem runs_cons (key : α → κ) (a : α) (r : List α) :
    runs key (a :: r) =
      (a :: r.takeWhile fun b => key b = key a) :: runs key (r.dropWhile fun b => key b = key a) := by
  induction r generalizing a with
  | nil => rfl
  | cons b r ih =>
    rw [runs, ih, List.takeWhile_cons, List.dropWhile_cons]
    show (if key a = key b then _ else _) = _
    -- the key goes on, or changes with the next item
    by_cases hkey : key a = key b
    · rw [if_pos hkey, hkey, if_pos (decide_eq_true rfl), if_pos (decide_eq_true rfl)]
    · have hkey' : ¬decide (key b = key a) = true := fun h => hkey (of_decide_eq_true h).symm
      rw [if_neg hkey, if_neg hkey', if_neg hkey', ih]

/-- Items of a key whose runs give nothing may be left out. -/
theorem filterMap_runs_cons {β : Type} {key : α → κ} {f : List α → Option β} {a : α}
    (hf : ∀ b r, key b = key a → f (b :: r) = none) (r : List α) :
    (runs key (a :: r)).filterMap f = (runs key r).filterMap f := by
  rw [runs_cons, List.filterMap_cons_none (hf a _ rfl)]
  cases r with
  | nil => rfl
  | cons b r =>
    rw [List.dropWhile_cons]
    -- the items behind it have the same key, so that their run gives nothing either
    by_cases hkey : key b = key a
    · rw [if_pos (decide_eq_true hkey), runs_cons key b, List.filterMap_cons_none (hf b _ hkey), hkey]
    · rw [if_neg (by simpa using hkey)]

end Runs

/-! ### Owners -/

/-- Whether the declaration at a place of a list owns a line. It covers the line, and of the others that do each one
starts earlier, or starts there and ends later, or has the same rows and does not come after it in the list. -/
structure Definition.Owns (definitions : List Definition) (place : Nat) (d : Definition) (number : Nat) : Prop where
  at_place : definitions[place]? = some d
  covers : d.covers number = true
  innermost : ∀ other e, definitions[other]? = some e → e.covers number = true →
    e.startRow < d.startRow ∨
      e.startRow = d.startRow ∧ (d.endRow < e.endRow ∨ e.endRow = d.endRow ∧ other ≤ place)

section Owners

variable {definitions ordered : List Definition} {d e : Definition} {place other number : Nat}

/-- A declaration covers the lines of its rows. -/
theorem Definition.covers_succ_iff {row : Nat} :
    d.covers (row + 1) = true ↔ d.startRow ≤ row ∧ row ≤ d.endRow := by
  rw [Definition.covers, Bool.and_eq_true, decide_eq_true_iff, decide_eq_true_iff, Nat.lt_succ_iff,
    Nat.add_le_add_iff_right]

/-- A declaration runs backwards if it starts in the text and ends more than a row before. -/
theorem Definition.isBackward_iff {count : Nat} :
    d.isBackward count = true ↔ d.startRow < count ∧ d.endRow + 1 < d.startRow := by
  rw [Definition.isBackward, Bool.and_eq_true, decide_eq_true_iff, decide_eq_true_iff]

/-- A line has one owner. -/
theorem Definition.Owns.place_eq (h : Definition.Owns definitions place d number)
    (h' : Definition.Owns definitions other e number) : place = other := by
  have hinner := h.innermost other e h'.at_place h'.covers
  have hinner' := h'.innermost place d h.at_place h.covers
  omega

/-- The last declaration owns a line if it covers it, whatever comes before. -/
theorem owner?_concat (ordered : List Definition) (d : Definition) (number : Nat) :
    owner? (ordered ++ [d]) number =
      if d.covers number then some (ordered.length, d) else owner? ordered number := by
  rw [owner?, List.zipIdx_append, List.foldl_append]
  simp [owner?]

/-- **What is found for a line** is the last declaration that covers it, unless there is none. -/
theorem owner?_cases (ordered : List Definition) (number : Nat) :
    (owner? ordered number = none ∧ ∀ d ∈ ordered, d.covers number = false) ∨
      ∃ place d, owner? ordered number = some (place, d) ∧ ordered[place]? = some d ∧ d.covers number = true ∧
        ∀ other e, ordered[other]? = some e → e.covers number = true → other ≤ place := by
  -- from the last declaration to the first
  induction ordered using List.reverseRecOn with
  | nil => exact Or.inl ⟨rfl, fun d hd => absurd hd List.not_mem_nil⟩
  | append_singleton ordered d ih =>
    rw [owner?_concat]
    cases hcovers : d.covers number with
    | true =>
      -- no place is behind the last one
      refine Or.inr ⟨ordered.length, d, rfl, List.getElem?_concat_length, hcovers, fun other e he _ => ?_⟩
      have hlt := (List.getElem?_eq_some_iff.1 he).1
      rw [List.length_append, List.length_singleton] at hlt
      omega
    | false =>
      rw [if_neg Bool.false_ne_true]
      -- the last declaration does not cover the line, so that others have to
      have hlast : ∀ (other : Nat) (e : Definition), (ordered ++ [d])[other]? = some e →
          e.covers number = true → ordered[other]? = some e := by
        intro other e he hcovers'
        rcases Nat.lt_or_ge other ordered.length with hlt | hge
        · rwa [List.getElem?_append_left hlt] at he
        · rw [List.getElem?_append_right hge] at he
          have hd := List.mem_singleton.1 (List.mem_of_getElem? he)
          rw [hd, hcovers] at hcovers'
          cases hcovers'
      rcases ih with ⟨hnone, hall⟩ | ⟨place, d', hfound, hget, hcovers', hmax⟩
      · refine Or.inl ⟨hnone, fun e he => ?_⟩
        rcases List.mem_append.1 he with he | he
        · exact hall e he
        · rwa [List.mem_singleton.1 he]
      · refine Or.inr ⟨place, d', hfound, ?_, hcovers', fun other e he hcovers'' => ?_⟩
        · rw [List.getElem?_append_left (List.getElem?_eq_some_iff.1 hget).1, hget]
        · exact hmax other e (hlast other e he hcovers'') hcovers''

/-! ### Sorting keeps the order of equals -/

/-- Of two declarations one comes before the other. -/
theorem outerFirst_total (a b : Definition) : (a.outerFirst b || b.outerFirst a) = true := by
  simp [Definition.outerFirst]
  omega

/-- The order is transitive. -/
theorem outerFirst_trans (a b c : Definition) (h : a.outerFirst b = true) (h' : b.outerFirst c = true) :
    a.outerFirst c = true := by
  simp [Definition.outerFirst] at h h' ⊢
  omega

/-- Declarations with their places in a list, in the order in which they are sorted. -/
def placedOrder (definitions : List Definition) : List (Definition × Nat) :=
  definitions.zipIdx.mergeSort (List.zipIdxLE Definition.outerFirst)

/-- Without places these are the sorted declarations. -/
theorem map_fst_placedOrder (definitions : List Definition) :
    (placedOrder definitions).map Prod.fst = outerToInner definitions :=
  List.mergeSort_zipIdx

/-- Each declaration keeps its place with it. -/
theorem mem_placedOrder : (d, place) ∈ placedOrder definitions ↔ definitions[place]? = some d :=
  (List.mergeSort_perm _ _).mem_iff.trans List.mk_mem_zipIdx_iff_getElem?

/-- No place comes up twice. -/
theorem nodup_placedOrder (definitions : List Definition) :
    ((placedOrder definitions).map Prod.snd).Nodup := by
  refine ((List.mergeSort_perm _ _).map Prod.snd).nodup_iff.2 ?_
  rw [List.zipIdx_map_snd]
  exact List.nodup_range'

/-- In the order of sorting, the first row comes first, then the last row the other way round, and then the place. -/
theorem pairwise_placedOrder (definitions : List Definition) :
    (placedOrder definitions).Pairwise fun a b => a.1.startRow < b.1.startRow ∨
      a.1.startRow = b.1.startRow ∧ (b.1.endRow < a.1.endRow ∨ a.1.endRow = b.1.endRow ∧ a.2 ≤ b.2) := by
  refine (List.pairwise_mergeSort (List.zipIdxLE_trans outerFirst_trans)
    (List.zipIdxLE_total outerFirst_total) definitions.zipIdx).imp fun {a b} h => ?_
  rw [List.zipIdxLE] at h
  cases hab : a.1.outerFirst b.1 <;> cases hba : b.1.outerFirst a.1 <;> rw [hab, hba] at h <;>
    simp [Definition.outerFirst] at h hab hba <;> omega

/-- **What is found in the sorted list is the innermost declaration.** -/
theorem owns_of_owner? {key : Nat} (h : owner? (outerToInner definitions) number = some (key, d)) :
    ∃ place, (placedOrder definitions)[key]? = some (d, place) ∧
      Definition.Owns definitions place d number := by
  rcases owner?_cases (outerToInner definitions) number with ⟨hnone, -⟩ | ⟨key', d', hfound, hget, hcovers, hlast⟩
  · rw [hnone] at h
    cases h
  · rw [h] at hfound
    cases hfound
    rw [← map_fst_placedOrder, List.getElem?_map] at hget
    obtain ⟨⟨d', place⟩, hplace, rfl⟩ := Option.map_eq_some_iff.1 hget
    refine ⟨place, hplace, mem_placedOrder.1 (List.mem_of_getElem? hplace), hcovers, fun other e he hcovers' => ?_⟩
    -- the other declaration stands in the sorted list too, and not further on
    obtain ⟨key', hkey'⟩ := List.mem_iff_getElem?.1 (mem_placedOrder.2 he)
    have hle : key' ≤ key := by
      refine hlast key' e ?_ hcovers'
      rw [← map_fst_placedOrder, List.getElem?_map, hkey']
      rfl
    rcases Nat.eq_or_lt_of_le hle with rfl | hlt
    · -- the other declaration is the same one
      rw [hplace] at hkey'
      cases hkey'
      exact Or.inr ⟨rfl, Or.inr ⟨rfl, Nat.le_refl _⟩⟩
    · -- the other one comes before, so it lies around the line from further out
      obtain ⟨hi, hother⟩ := List.getElem?_eq_some_iff.1 hkey'
      obtain ⟨hj, hfound⟩ := List.getElem?_eq_some_iff.1 hplace
      have hbefore := List.pairwise_iff_getElem.1 (pairwise_placedOrder definitions) key' key hi hj hlt
      rwa [hother, hfound] at hbefore

/-- A declaration that owns a line is found for it. -/
theorem exists_owner? (h : Definition.Owns definitions place d number) :
    ∃ key, owner? (outerToInner definitions) number = some (key, d) ∧
      (placedOrder definitions)[key]? = some (d, place) := by
  -- a declaration that covers a line is not overlooked
  rcases owner?_cases (outerToInner definitions) number with ⟨-, hnone⟩ | ⟨key, e, hfound, -⟩
  · have hmem : d ∈ outerToInner definitions :=
      (List.mergeSort_perm _ _).mem_iff.2 (List.mem_of_getElem? h.at_place)
    exact absurd h.covers (by rw [hnone d hmem]; exact Bool.false_ne_true)
  · -- a line has one owner, so the one that is found is that declaration
    obtain ⟨other, hplace, howns⟩ := owns_of_owner? hfound
    obtain rfl := howns.place_eq h
    obtain rfl : e = d := Option.some.inj (howns.at_place.symm.trans h.at_place)
    exact ⟨key, hfound, hplace⟩

/-- **Owners are told by their places in the sorted list.** -/
theorem map_fst_owner?_eq_iff {key : Nat} (h : (placedOrder definitions)[key]? = some (d, place)) :
    (owner? (outerToInner definitions) number).map Prod.fst = some key ↔
      Definition.Owns definitions place d number := by
  constructor
  · -- what is found at the place in the sorted list owns the line
    intro hkey
    obtain ⟨⟨key', e⟩, hfound, rfl⟩ := Option.map_eq_some_iff.1 hkey
    obtain ⟨other, hplace, howns⟩ := owns_of_owner? hfound
    rw [h] at hplace
    cases hplace
    exact howns
  · -- what owns the line is found at its place in the sorted list
    intro howns
    obtain ⟨key', hfound, hplace⟩ := exists_owner? howns
    rw [hfound, Option.map_some]
    -- one place stands only once in the list
    have hlt := (List.getElem?_eq_some_iff.1 hplace).1
    refine congrArg some ((List.getElem?_inj ?_ (nodup_placedOrder definitions)).1 ?_)
    · rwa [List.length_map]
    · rw [List.getElem?_map, List.getElem?_map, h, hplace]

/-- A run without an owner gives no chunk. -/
theorem chunkOfRun?_of_none {o : Line × Option (Nat × Definition)} (ho : o.2.map Prod.fst = none)
    (run : List (Line × Option (Nat × Definition))) : chunkOfRun? (o :: run) = none := by
  obtain ⟨l, owner?⟩ := o
  obtain rfl := Option.map_eq_none_iff.1 ho
  rfl

/-- Without declarations there are no chunks of them. -/
theorem syntaxChunks_nil (content : String) : syntaxChunks content [] = [] := by
  have howner : ∀ n, owner? (outerToInner []) n = none := fun n => by rw [outerToInner, List.mergeSort_nil]; rfl
  simp only [syntaxChunks_eq, ownedLines, howner]
  generalize Line.numbered 1 (Chars.lines content.toList) = ls
  induction ls with
  | nil => rfl
  | cons l ls ih => rw [List.map_cons, filterMap_runs_cons fun o run ho => chunkOfRun?_of_none ho run, ih]

end Owners

/-! ### Ranges of lines with one owner -/

/-- Whether a declaration owns a range of the lines of a text that cannot be made longer. -/
structure OwnedRange (content : String) (definitions : List Definition) (place : Nat) (d : Definition)
    (first last : Nat) : Prop where
  one_le : 1 ≤ first
  first_le_last : first ≤ last
  last_le : last ≤ Text.lineCount content
  owns : ∀ n, first ≤ n → n ≤ last → Definition.Owns definitions place d n
  before : first = 1 ∨ ¬Definition.Owns definitions place d (first - 1)
  after : last = Text.lineCount content ∨ ¬Definition.Owns definitions place d (last + 1)

/-- Whether a chunk is made of a range of lines of a declaration. It begins with the first line, ends with the last one
that is not blank, has the text of these lines and says of itself what the declaration is. -/
structure Chunk.TakenFrom (c : Chunk) (content : String) (d : Definition) (first last : Nat) : Prop where
  startLine_eq : c.startLine = first
  startLine_le : c.startLine ≤ c.endLine
  endLine_le : c.endLine ≤ last
  hasText : HasText content c.endLine
  blank_after : ∀ n, c.endLine < n → n ≤ last → ¬HasText content n
  content_eq : c.content = Text.lineRange content c.startLine c.endLine
  contentHash_eq : c.contentHash = Digest.ofText c.content
  kind_eq : c.kind = d.kind
  symbols_eq : c.symbols = [d.name]
  parents_eq : c.parents = d.parents

section Ranges

variable {content : String} {definitions : List Definition} {place other n : Nat} {d e : Definition}
  {first last first' last' : Nat} {c c' : Chunk}

/-- Ranges that cannot be made longer and have a line in common are the same. -/
theorem OwnedRange.eq_of_common (h : OwnedRange content definitions place d first last)
    (h' : OwnedRange content definitions other e first' last') (hfirst : first ≤ n) (hlast : n ≤ last)
    (hfirst' : first' ≤ n) (hlast' : n ≤ last') : place = other ∧ d = e ∧ first = first' ∧ last = last' := by
  -- the line has one owner
  obtain rfl := (h.owns n hfirst hlast).place_eq (h'.owns n hfirst' hlast')
  obtain rfl : d = e := Option.some.inj
    ((h.owns n hfirst hlast).at_place.symm.trans (h'.owns n hfirst' hlast').at_place)
  have hpos := h.one_le
  have hpos' := h'.one_le
  have hle := h.last_le
  have hle' := h'.last_le
  refine ⟨rfl, rfl, ?_, ?_⟩
  · -- the range that begins later could be made longer at its start
    rcases Nat.lt_trichotomy first first' with hlt | heq | hlt
    · exact absurd (h.owns (first' - 1) (by omega) (by omega)) (h'.before.resolve_left (by omega))
    · exact heq
    · exact absurd (h'.owns (first - 1) (by omega) (by omega)) (h.before.resolve_left (by omega))
  · -- and the one that ends earlier at its end
    rcases Nat.lt_trichotomy last last' with hlt | heq | hlt
    · exact absurd (h'.owns (last + 1) (by omega) (by omega)) (h.after.resolve_left (by omega))
    · exact heq
    · exact absurd (h.owns (last' + 1) (by omega) (by omega)) (h'.after.resolve_left (by omega))

/-- One chunk at most is made of a range. -/
theorem Chunk.TakenFrom.unique (h : c.TakenFrom content d first last) (h' : c'.TakenFrom content d first last) :
    c = c' := by
  have hstart : c.startLine = c'.startLine := h.startLine_eq.trans h'.startLine_eq.symm
  -- the line after which all others are blank is told by the range
  have hend : c.endLine = c'.endLine := by
    rcases Nat.lt_trichotomy c.endLine c'.endLine with hlt | heq | hlt
    · exact absurd h'.hasText (h.blank_after _ hlt h'.endLine_le)
    · exact heq
    · exact absurd h.hasText (h'.blank_after _ hlt h.endLine_le)
  have hcontent : c.content = c'.content := by rw [h.content_eq, h'.content_eq, hstart, hend]
  have hhash : c.contentHash = c'.contentHash := by rw [h.contentHash_eq, h'.contentHash_eq, hcontent]
  have hkind := h.kind_eq.trans h'.kind_eq.symm
  have hsymbols := h.symbols_eq.trans h'.symbols_eq.symm
  have hparents := h.parents_eq.trans h'.parents_eq.symm
  cases c
  cases c'
  simp_all

/-- **Lines that a declaration owns are an owned range** if it owns neither the line before them nor the one after
them. -/
theorem ownedRange_of_append {before ls after : List Line} {a b : Line}
    (hcut : Line.numbered 1 (Chars.lines content.toList) = before ++ (ls ++ after)) (ha : ls.head? = some a)
    (hb : ls.getLast? = some b) (howns : ∀ l ∈ ls, Definition.Owns definitions place d l.number)
    (hbefore : ∀ z ∈ before.getLast?, ¬Definition.Owns definitions place d z.number)
    (hafter : ∀ z ∈ after.head?, ¬Definition.Owns definitions place d z.number) :
    OwnedRange content definitions place d a.number b.number := by
  have hhead : (ls ++ after).head? = some a := by rw [List.head?_append, ha, Option.some_or]
  have hgetLast : (before ++ ls).getLast? = some b := by rw [List.getLast?_append, hb, Option.some_or]
  have hcut' := hcut.trans (List.append_assoc _ _ _).symm
  -- the lines are those from the first to the last of them
  have hiff := fun l => Line.mem_iff_of_append (l := l) hcut ha hb
  obtain ⟨hmemFirst, -, hle⟩ := (hiff a).1 (List.mem_of_head? ha)
  obtain ⟨hmemLast, -⟩ := (hiff b).1 (List.mem_of_getLast? hb)
  have hpos := (Line.mem_numbered.1 hmemFirst).1
  have hlt := Line.lt_of_mem_numbered hmemLast
  rw [Nat.add_comm] at hlt
  exact
    { one_le := hpos
      first_le_last := hle
      last_le := Nat.le_of_lt_succ hlt
      owns := by
        intro n hfirst hlast
        obtain ⟨l, hl, rfl⟩ := Line.exists_mem_numbered (Nat.le_trans hpos hfirst)
          (Nat.lt_of_le_of_lt hlast (Line.lt_of_mem_numbered hmemLast))
        exact howns l ((hiff l).2 ⟨hl, hfirst, hlast⟩)
      before := by
        cases hz : before.getLast? with
        | none =>
          -- the lines stand at the start of the text
          rw [List.getLast?_eq_none_iff.1 hz] at hcut
          exact Or.inl (Line.number_of_head?_append hcut hhead)
        | some z =>
          have hsucc : a.number = z.number + 1 := Line.number_eq_succ_of_append hcut hz hhead
          rw [hsucc, Nat.add_sub_cancel]
          exact Or.inr (hbefore z hz)
      after := by
        cases hz : after.head? with
        | none =>
          -- the lines go on to the end of the text
          have hcount := Line.number_of_getLast?_append hcut' hgetLast
          have hall := Line.length_numbered 1 (Chars.lines content.toList)
          rw [hcut', List.head?_eq_none_iff.1 hz, List.append_nil] at hall
          rw [hall, Nat.add_comm 1] at hcount
          exact Or.inl (Nat.succ.inj hcount)
        | some z =>
          have hsucc : z.number = b.number + 1 := Line.number_eq_succ_of_append hcut' hgetLast hz
          rw [← hsucc]
          exact Or.inr (hafter z hz) }

/-- **The lines of a run are an owned range**, if one of them has an owner. -/
theorem exists_ownedRange {run : List (Line × Option (Nat × Definition))} {x : Line × Option (Nat × Definition)}
    {key : Nat} (hrun : run ∈ runs (fun o => o.2.map Prod.fst) (ownedLines content definitions)) (hx : x ∈ run)
    (howner : x.2 = some (key, d)) :
    ∃ place before after a b,
      Line.numbered 1 (Chars.lines content.toList) = before ++ (run.map Prod.fst ++ after) ∧
        (run.map Prod.fst).head? = some a ∧ (run.map Prod.fst).getLast? = some b ∧
        OwnedRange content definitions place d a.number b.number := by
  obtain ⟨before, after, hcut, hbefore, hafter⟩ := exists_cut_of_mem_runs hrun
  have hlines : Line.numbered 1 (Chars.lines content.toList) =
      before.map Prod.fst ++ (run.map Prod.fst ++ after.map Prod.fst) := by
    rw [← map_fst_ownedLines content definitions, hcut, List.map_append, List.map_append]
  have howned : ∀ y ∈ ownedLines content definitions, y.2 = owner? (outerToInner definitions) y.1.number := by
    intro y hy
    obtain ⟨l, -, rfl⟩ := List.mem_map.1 hy
    rfl
  have hrunOwned : ∀ y ∈ run, y ∈ ownedLines content definitions := by
    intro y hy
    rw [hcut]
    exact List.mem_append_right _ (List.mem_append_left _ hy)
  obtain ⟨place, hplace, -⟩ := owns_of_owner? ((howned x (hrunOwned x hx)).symm.trans howner)
  -- the lines that the declaration owns are those with its key
  have hiff : ∀ y ∈ ownedLines content definitions,
      Definition.Owns definitions place d y.1.number ↔ y.2.map Prod.fst = x.2.map Prod.fst := by
    intro y hy
    rw [howner, howned y hy]
    exact (map_fst_owner?_eq_iff hplace).symm
  have hne : run.map Prod.fst ≠ [] := List.ne_nil_of_mem (List.mem_map_of_mem hx)
  obtain ⟨a, ha⟩ : ∃ a, (run.map Prod.fst).head? = some a := ⟨_, List.head?_eq_some_head hne⟩
  obtain ⟨b, hb⟩ : ∃ b, (run.map Prod.fst).getLast? = some b := ⟨_, List.getLast?_eq_some_getLast hne⟩
  refine ⟨place, before.map Prod.fst, after.map Prod.fst, a, b, hlines, ha, hb,
    ownedRange_of_append hlines ha hb ?_ ?_ ?_⟩
  · -- the lines of the run have the key
    intro l hl
    obtain ⟨y, hy, rfl⟩ := List.mem_map.1 hl
    exact (hiff y (hrunOwned y hy)).2 (key_eq_of_mem_runs hrun hy hx)
  · -- the line before the run has another one
    intro z hz
    rw [List.getLast?_map] at hz
    obtain ⟨y, hy, rfl⟩ := Option.map_eq_some_iff.1 hz
    rw [hiff y (hcut ▸ List.mem_append_left _ (List.mem_of_getLast? hy))]
    exact hbefore y hy x hx
  · -- and so has the line after it
    intro z hz
    rw [List.head?_map] at hz
    obtain ⟨y, hy, rfl⟩ := Option.map_eq_some_iff.1 hz
    rw [hiff y (hcut ▸ List.mem_append_right _ (List.mem_append_right _ (List.mem_of_head? hy)))]
    exact hafter y hy x hx

/-- **The chunk of some lines** that were cut out of a text is made of the range that they are. -/
theorem takenFrom_of_ofLines? {before ls after : List Line} {a b : Line}
    (hcut : Line.numbered 1 (Chars.lines content.toList) = before ++ (ls ++ after)) (ha : ls.head? = some a)
    (hb : ls.getLast? = some b) (h : Chunk.ofLines? ls d.kind [d.name] d.parents = some c) :
    c.TakenFrom content d a.number b.number := by
  have hhash := Chunk.contentHash_of_ofLines? h
  obtain ⟨hmade, hkind, hsymbols, hparents⟩ := Chunk.madeOf_of_ofLines? h
  have hiff := fun l => Line.mem_iff_of_append (l := l) hcut ha hb
  have hsorted := Line.pairwise_of_append hcut
  obtain ⟨first, hfirst, hstart⟩ := hmade.first
  obtain ⟨last, hlast, hend⟩ := hmade.last
  have hlastMem := (hiff last).1 ((Line.trimBlank_sublist ls).subset (List.mem_of_getLast? hlast))
  obtain ⟨blank, happend, hblank⟩ := Line.trimBlank_append ls
  exact
    { startLine_eq := by
        -- blank lines are taken from the end only
        rw [happend, List.head?_append_of_ne_nil _ (List.ne_nil_of_mem (List.mem_of_head? hfirst)), hfirst] at ha
        rw [← hstart, Option.some.inj ha]
      startLine_le := hmade.startLine_le_endLine hsorted
      endLine_le := by
        rw [← hend]
        exact hlastMem.2.2
      hasText := ⟨last, hlastMem.1, hend, Line.getLast?_trimBlank hlast⟩
      -- a line behind the last one that is kept was taken away, so it is blank
      blank_after := by
        rintro n hn hle ⟨l, hl, rfl, htext⟩
        rw [← hend] at hn
        have hmem := (hiff l).2 ⟨hl, Nat.le_trans hlastMem.2.1 (Nat.le_of_lt hn), hle⟩
        have hkept := (hmade.covers hsorted (Line.mem_trimBlank hmem htext)).2
        omega
      content_eq := hmade.content_eq_lineRange hcut
      contentHash_eq := hhash
      kind_eq := hkind
      symbols_eq := hsymbols
      parents_eq := hparents }

/-- Every chunk is made of an owned range. -/
theorem exists_takenFrom_of_mem_syntaxChunks (hc : c ∈ syntaxChunks content definitions) :
    ∃ place d first last, OwnedRange content definitions place d first last ∧ c.TakenFrom content d first last := by
  -- a chunk is made of a run of lines with one owner
  rw [syntaxChunks_eq] at hc
  obtain ⟨run, hrun, hchunk⟩ := List.mem_filterMap.1 hc
  rw [chunkOfRun?] at hchunk
  split at hchunk
  next l key d hhead =>
    obtain ⟨place, before, after, a, b, hcut, ha, hb, hrange⟩ :=
      exists_ownedRange hrun (List.mem_of_head? hhead) rfl
    exact ⟨place, d, _, _, hrange, takenFrom_of_ofLines? hcut ha hb hchunk⟩
  next => cases hchunk

/-- An owned range that is not blank gives a chunk. -/
theorem OwnedRange.exists_takenFrom (h : OwnedRange content definitions place d first last) (hfirst : first ≤ n)
    (hlast : n ≤ last) (htext : HasText content n) :
    ∃ c ∈ syntaxChunks content definitions, c.TakenFrom content d first last := by
  obtain ⟨l, hl, rfl, hblank⟩ := htext
  obtain ⟨key, howner, -⟩ := exists_owner? (h.owns l.number hfirst hlast)
  have hmem : (l, some (key, d)) ∈ ownedLines content definitions := by
    rw [← howner]
    exact List.mem_map.2 ⟨l, hl, rfl⟩
  rw [← runs_flatten (fun o => o.2.map Prod.fst) (ownedLines content definitions)] at hmem
  obtain ⟨run, hrun, hx⟩ := List.mem_flatten.1 hmem
  -- the line is in one of the runs, and the run is named after its first line
  obtain ⟨y, hy⟩ : ∃ y, run.head? = some y := ⟨_, List.head?_eq_some_head (List.ne_nil_of_mem hx)⟩
  have hkey : y.2.map Prod.fst = some key := key_eq_of_mem_runs hrun (List.mem_of_head? hy) hx
  obtain ⟨⟨key', e⟩, howner', -⟩ := Option.map_eq_some_iff.1 hkey
  obtain ⟨place', before, after, a, b, hcut, ha, hb, hrange⟩ :=
    exists_ownedRange hrun (List.mem_of_head? hy) howner'
  have hline : l ∈ run.map Prod.fst := List.mem_map.2 ⟨_, hx, rfl⟩
  obtain ⟨-, hbetween⟩ := (Line.mem_iff_of_append hcut ha hb).1 hline
  -- owned ranges with a line in common are the same, so the run is all of it
  obtain ⟨-, rfl, rfl, rfl⟩ := h.eq_of_common hrange hfirst hlast hbetween.1 hbetween.2
  obtain ⟨c, hc⟩ := Chunk.exists_ofLines? hline hblank d.kind [d.name] d.parents
  have hchunk : chunkOfRun? run = some c := by
    obtain ⟨l', o⟩ := y
    rw [chunkOfRun?, hy]
    obtain rfl : o = some (key', d) := howner'
    exact hc
  refine ⟨c, ?_, takenFrom_of_ofLines? hcut ha hb hc⟩
  rw [syntaxChunks_eq]
  exact List.mem_filterMap.2 ⟨run, hrun, hchunk⟩

/-- **The chunks of a document before splitting** are what its innermost declarations own. Whatever the declarations,
there are chunks, and they stand in the order of their lines:

* each is made of a range of lines with one owner that cannot be made longer;
* each such range that is not blank gives exactly one of them. -/
theorem syntaxChunks?_runs (content : String) (hforward : ∀ d ∈ definitions, d.startRow ≤ d.endRow) :
    ∃ chunks, syntaxChunks? content definitions = some chunks ∧ Ascending chunks ∧
      (∀ c ∈ chunks, ∃ place d first last,
        OwnedRange content definitions place d first last ∧ c.TakenFrom content d first last) ∧
      ∀ place d first last, OwnedRange content definitions place d first last →
        (∃ n, first ≤ n ∧ n ≤ last ∧ HasText content n) →
          ∃! c, c ∈ chunks ∧ c.TakenFrom content d first last := by
  refine ⟨syntaxChunks content definitions, syntaxChunks?_eq_some content hforward,
    ascending_syntaxChunks content definitions, fun c hc => exists_takenFrom_of_mem_syntaxChunks hc, ?_⟩
  -- a range with a line that is not blank makes a chunk, and one only
  rintro place d first last hrange ⟨n, hfirst, hlast, htext⟩
  obtain ⟨c, hc, htaken⟩ := hrange.exists_takenFrom hfirst hlast htext
  exact ⟨c, ⟨hc, htaken⟩, fun c' hc' => hc'.2.unique htaken⟩

end Ranges

/-! Declarations that overlap: two have the same rows, and one goes on past the end of the text, which ends with a blank
line. -/

section Overlapping

/-- Six lines, of which two are blank. -/
def overlappingText : String := "a\nb\nc\n\nd\n\n"

/-- A declaration around two that have the same rows, and one that begins in it and ends behind the text. -/
def overlappingDefinitions : List Definition :=
  [{ kind := .classLike, name := "A", startRow := 0, endRow := 4, declRow := 0, parents := [] },
    { kind := .method, name := "f", startRow := 1, endRow := 1, declRow := 1, parents := ["A"] },
    { kind := .method, name := "g", startRow := 1, endRow := 1, declRow := 1, parents := ["A"] },
    { kind := .function, name := "h", startRow := 2, endRow := 9, declRow := 2, parents := [] }]

/-- Of two declarations with the same rows the second one has the line, and the blank line at the end is left out. -/
theorem syntaxChunks?_overlapping :
    ∃ chunks, syntaxChunks? overlappingText overlappingDefinitions = some chunks ∧
      chunks.map (fun c => (c.symbols, c.startLine, c.endLine)) = [(["A"], 1, 1), (["g"], 2, 2), (["h"], 3, 5)] ∧
      ∀ c ∈ chunks, ∃ place d first last, OwnedRange overlappingText overlappingDefinitions place d first last ∧
        c.TakenFrom overlappingText d first last := by
  have hforward : ∀ d ∈ overlappingDefinitions, d.startRow ≤ d.endRow := by decide
  obtain ⟨chunks, hchunks, -, hrange, -⟩ := syntaxChunks?_runs overlappingText hforward
  -- the declarations are in their order already
  have hsorted : outerToInner overlappingDefinitions = overlappingDefinitions :=
    List.mergeSort_of_pairwise (by decide)
  have hspans : (syntaxChunks? overlappingText overlappingDefinitions).map
      (List.map fun c => (c.symbols, c.startLine, c.endLine)) =
        some [(["A"], 1, 1), (["g"], 2, 2), (["h"], 3, 5)] := by
    simp only [syntaxChunks?, syntaxChunks, hsorted]
    decide +kernel
  rw [hchunks] at hspans
  exact ⟨chunks, hchunks, Option.some.inj hspans, hrange⟩

end Overlapping

end CodeSearch
