import CodeSearch.Proofs.Chunks.Checked
import CodeSearch.Proofs.OutlineRows

/-!
# Splitting a chunk place by place

Splitting a chunk goes over its lines three times. The units are ranges of lines, the fragments are ranges of units, and
rebalancing shifts the border between the last two of these. Each step looks up what an earlier one has noted. That it
finds it there rests on what all of them keep: the ranges follow one another without a gap, as the places of the parts
of a list do (`Checked.places`), and none is empty.

* `Checked.unitsFrom?_eq`, `Checked.packAfter?_eq`, `Checked.rebalance?_eq` — each loop gives the places of what the
  lists that it stands for are taken apart into;
* `Fragment.nil_not_mem_topUp` — no fragment is empty, so each has a first and a last unit (`Checked.span?_eq`);
* `Checked.chunksWith?_eq` — a text is cut in the same way by places and by lists, and fails to be for the same
  declarations;
* `Checked.chunksWith?_of_rowsInOrder` — declarations that were read off a tree with its rows in order are none of
  these.
-/

namespace CodeSearch

namespace Fragment

/-! ### Paragraphs and fragments that are not empty -/

section Parts

variable {limit least : Nat}

/-- Whether a paragraph ends between two lines. -/
def breaksAfter (l m : Line) : Bool := l.isBlank && !m.isBlank

/-- Lines without a break, up to one, are a paragraph. -/
theorem paragraphs_append {p r : List Line} (hne : p ≠ []) (hinner : p.IsChain fun l m => breaksAfter l m = false)
    (hends : ∀ l ∈ p.getLast?, r.head?.all (breaksAfter l) = true) : paragraphs (p ++ r) = p :: paragraphs r := by
  induction p with
  | nil => exact absurd rfl hne
  | cons l p ih =>
    cases p with
    | nil =>
      -- the last line of the paragraph ends it, if lines follow
      have hbreak := hends l rfl
      cases r with
      | nil => rfl
      | cons m r => exact if_pos hbreak
    | cons m p =>
      -- no line before the last one ends it
      rw [List.isChain_cons_cons] at hinner
      rw [List.getLast?_cons_cons] at hends
      have hrest := ih (List.cons_ne_nil m p) hinner.2 hends
      rw [List.cons_append] at hrest
      rw [List.cons_append, List.cons_append, paragraphs, hrest]
      exact if_neg (Bool.eq_false_iff.1 hinner.1)

/-- The units of some paragraphs are those of the first, and then those of the others. -/
theorem units_cons (p : List Line) (ps : List (List Line)) :
    units limit (p :: ps) = (if limit < Line.size p then p.map fun l => [l] else [p]) ++ units limit ps :=
  List.flatMap_cons

/-- No fragment is empty. -/
theorem nil_not_mem_packAfter (limit : Nat) {fragment : List (List Line)} (hne : fragment ≠ [])
    (us : List (List Line)) : [] ∉ packAfter limit fragment us := by
  induction us generalizing fragment with
  | nil =>
    rw [packAfter, List.mem_singleton]
    exact hne.symm
  | cons u us ih =>
    rw [packAfter]
    split
    · -- a fragment that goes on has a unit more
      exact ih (List.append_ne_nil_of_right_ne_nil fragment (List.cons_ne_nil u []))
    · rw [List.mem_cons, not_or]
      exact ⟨hne.symm, ih (List.cons_ne_nil u [])⟩

/-- So no fragment is empty after packing, -/
theorem nil_not_mem_pack (limit : Nat) (us : List (List Line)) : [] ∉ pack limit us := by
  cases us with
  | nil => exact List.not_mem_nil
  | cons u us => exact nil_not_mem_packAfter limit (List.cons_ne_nil u []) us

/-- and rebalancing does not take all units away, -/
theorem snd_rebalance_ne_nil (limit least : Nat) (before : List (List Line)) {last : List (List Line)}
    (hne : last ≠ []) : (rebalance limit least before last).2 ≠ [] := by
  fun_induction rebalance limit least before last with
  | case1 => exact hne
  | case2 u v before last h ih => exact ih (List.cons_ne_nil u last)
  | case3 => exact hne

/-- so that none is empty after topping up. -/
theorem nil_not_mem_topUp {gs : List (List (List Line))} (hnil : [] ∉ gs) : [] ∉ topUp limit least gs := by
  rcases topUp_cases limit least gs with ⟨hsame, -⟩ | ⟨before, g, last, rfl, htop⟩
  · rwa [hsame]
  · rw [List.mem_append, List.mem_cons, List.mem_singleton, not_or, not_or] at hnil
    obtain ⟨hbefore, hg, hlast⟩ := hnil
    have hkept := rebalance_ne_nil limit least (mt List.reverse_eq_nil_iff.1 (Ne.symm hg)) last
    rw [htop, List.mem_append, List.mem_cons, List.mem_singleton, not_or, not_or]
    exact ⟨hbefore, fun h => hkept (List.reverse_eq_nil_iff.1 h.symm),
      (snd_rebalance_ne_nil limit least g.reverse (Ne.symm hlast)).symm⟩

end Parts

end Fragment

namespace Checked

open Fragment (breaksAfter paragraphs units packAfter pack rebalance topUp)

/-! ### Places of parts -/

section Places

variable {α : Type}

/-- The places of the parts that a list is made of, each with the place behind it. -/
def places (first : Nat) : List (List α) → List (Nat × Nat)
  | [] => []
  | x :: xs => (first, first + x.length) :: places (first + x.length) xs

/-- The places of two lists of parts are those of the first, and then those of the second behind it. -/
theorem places_append (first : Nat) (xs ys : List (List α)) :
    places first (xs ++ ys) = places first xs ++ places (first + xs.flatten.length) ys := by
  induction xs generalizing first with
  | nil => rfl
  | cons x xs ih =>
    rw [List.cons_append, places, ih, places, List.flatten_cons, List.length_append, Nat.add_assoc]
    rfl

/-- Every part has a place. -/
theorem length_places (first : Nat) (xs : List (List α)) : (places first xs).length = xs.length := by
  induction xs generalizing first with
  | nil => rfl
  | cons x xs ih => rw [places, List.length_cons, ih, List.length_cons]

/-- A part has its place. -/
theorem getElem?_places (first : Nat) (before : List (List α)) (x : List α) (after : List (List α)) :
    (places first (before ++ x :: after))[before.length]? =
      some (first + before.flatten.length, first + before.flatten.length + x.length) := by
  rw [places_append, List.getElem?_append_right (by rw [length_places]), length_places, Nat.sub_self]
  rfl

/-- The places of single items. -/
theorem places_singletons (first : Nat) (x : List α) :
    places first (x.map fun a => [a]) = (List.range' first x.length).map fun n => (n, n + 1) := by
  induction x generalizing first with
  | nil => rfl
  | cons a x ih =>
    rw [List.map_cons, places, List.length_singleton, ih, List.length_cons, List.range'_succ, List.map_cons]

end Places

/-! ### Units -/

section Units

variable {limit : Nat}

/-- The size of lines is that of the places between which they stand. -/
theorem size?_eq (before own after : List Line) :
    size? (Line.texts (before ++ (own ++ after))) before.length (before.length + own.length) =
      some (Line.size own) := by
  rw [size?, slice?_texts, Line.size_eq_sum]
  simp only [Option.bind_eq_bind, Option.bind_some, Line.texts, List.map_map]
  rfl

/-- A line is compared with the next one, if there is one. -/
theorem endsParagraph?_eq (before : List Line) (l : Line) (after : List Line) :
    endsParagraph? (Line.texts (before ++ l :: after)) before.length =
      some (after.head?.all (breaksAfter l)) := by
  have hlength : (Line.texts (before ++ l :: after)).length = before.length + 1 + after.length := by
    rw [Line.texts, List.length_map, List.length_append, List.length_cons]
    omega
  rw [endsParagraph?, hlength]
  -- the last line of all ends a paragraph
  cases after with
  | nil => exact if_pos rfl
  | cons m after =>
    -- the next line stands at the place behind
    have hnext : (Line.texts (before ++ l :: m :: after))[before.length + 1]? = some m.text := by
      have := getElem?_texts (before ++ [l]) m after
      rwa [List.length_append, List.length_singleton, List.append_assoc, List.singleton_append] at this
    rw [if_neg (by simp), getElem?_texts, hnext]
    show (if l.isBlank = true then some (!m.isBlank) else some false) = some (l.isBlank && !m.isBlank)
    cases l.isBlank <;> rfl

/-- **The units of the lines that are left**, where the paragraph that they begin with has begun already. -/
theorem unitsFrom?_eq (limit : Nat) (done begun rest : List Line)
    (hinner : (begun ++ rest.take 1).IsChain fun l m => breaksAfter l m = false) (hrest : rest = [] → begun = []) :
    unitsFrom? limit (Line.texts (done ++ (begun ++ rest))) rest.length (done.length + begun.length) done.length =
      some (places done.length (units limit (paragraphs (begun ++ rest)))) := by
  induction rest generalizing done begun with
  | nil =>
    -- no line is left, so no paragraph has begun
    rw [hrest rfl]
    rfl
  | cons l rest ih =>
    -- the row is the number of lines before it
    have hrow : done.length + begun.length = (done ++ begun).length := List.length_append.symm
    have hnext : (done ++ begun).length + 1 = done.length + (begun ++ [l]).length := by
      rw [List.length_append, List.length_append, List.length_singleton, Nat.add_assoc]
    have hlist : begun ++ l :: rest = begun ++ [l] ++ rest := List.append_cons ..
    have hlist' : done ++ (begun ++ [l] ++ rest) = done ++ begun ++ l :: rest := by simp
    rw [List.length_cons, unitsFrom?, hrow, hlist, hlist', endsParagraph?_eq, hnext]
    simp only [Option.bind_eq_bind, Option.bind_some]
    rw [← hlist']
    cases hends : rest.head?.all (breaksAfter l) with
    | true =>
      -- the line ends the paragraph, so the next one begins behind it
      have hpar : paragraphs (begun ++ [l] ++ rest) = (begun ++ [l]) :: paragraphs rest := by
        apply Fragment.paragraphs_append (by simp) hinner
        intro m hm
        obtain rfl : l = m := by simpa using hm
        exact hends
      have hmore := ih (done ++ (begun ++ [l])) [] (by cases rest <;> simp) fun _ => rfl
      rw [List.nil_append, List.length_nil, Nat.add_zero, List.length_append, List.append_assoc done] at hmore
      rw [if_pos rfl, size?_eq, hmore, hpar, Fragment.units_cons]
      simp only [Option.bind_some, Nat.add_sub_cancel_left]
      -- the paragraph is a unit of its own, or taken apart into its lines
      split
      · rw [places_append, places_singletons, ← List.flatMap_def, List.flatMap_singleton']
        rfl
      · rfl
    | false =>
      cases rest with
      | nil => cases hends
      | cons m rest =>
        -- the line does not end the paragraph, which goes on with it
        have hlast : (begun ++ [l] ++ [m]).IsChain fun l m => breaksAfter l m = false := by
          apply List.isChain_append.2
          refine ⟨hinner, List.isChain_singleton m, fun a ha b hb => ?_⟩
          obtain rfl : l = a := by simpa using ha
          obtain rfl : m = b := Option.some.inj hb
          exact hends
        have hmore := ih done (begun ++ [l]) hlast nofun
        rw [if_neg Bool.false_ne_true]
        exact hmore

end Units

/-! ### Fragments -/

section Fragments

variable {limit least : Nat}

/-- The lines of some units that stand between others. -/
theorem size?_flatten (done own after : List (List Line)) :
    size? (Line.texts (done ++ (own ++ after)).flatten) done.flatten.length
        (done.flatten.length + own.flatten.length) = some (Line.size own.flatten) := by
  rw [List.flatten_append, List.flatten_append, size?_eq]

/-- **Packing goes through the units that are left**, and looks up the first unit of the open fragment. -/
theorem packAfter?_eq (limit : Nat) (done fragment left : List (List Line)) (hne : fragment ≠ []) :
    packAfter? limit (Line.texts (done ++ (fragment ++ left)).flatten) (places 0 (done ++ (fragment ++ left)))
        (places (done ++ fragment).flatten.length left) done.length (done.length + fragment.length) =
      some (places done.length (packAfter limit fragment left)) := by
  induction left generalizing done fragment with
  -- no unit is left, and the fragment is the last one
  | nil => rfl
  | cons u left ih =>
    obtain ⟨v, vs, rfl⟩ := List.exists_cons_of_ne_nil hne
    have hlist : v :: vs ++ u :: left = v :: vs ++ [u] ++ left := List.append_cons ..
    -- the first line of the fragment is looked up at the place of its first unit
    have hfirst : (places 0 (done ++ (v :: vs ++ [u] ++ left)))[done.length]? =
        some (done.flatten.length, done.flatten.length + v.length) := by
      rw [List.cons_append, List.cons_append, getElem?_places, Nat.zero_add]
    have hstop : (done ++ v :: vs).flatten.length + u.length =
        done.flatten.length + (v :: vs ++ [u]).flatten.length := by
      rw [List.flatten_append, List.flatten_append, List.length_append, List.length_append, List.flatten_singleton,
        Nat.add_assoc]
    have hstop' : (done ++ (v :: vs ++ [u])).flatten.length =
        done.flatten.length + (v :: vs ++ [u]).flatten.length := by
      rw [List.flatten_append, List.length_append]
    rw [hlist, places, hstop, packAfter?, hfirst, packAfter]
    simp only [Option.bind_eq_bind, Option.bind_some, size?_flatten]
    split
    · -- the unit goes into the open fragment
      have hmore := ih done (v :: vs ++ [u]) (by simp)
      rw [hstop', List.length_append, List.length_singleton, ← Nat.add_assoc] at hmore
      exact hmore
    · -- the unit opens the next one
      have hmore := ih (done ++ v :: vs) [u] (List.cons_ne_nil u [])
      rw [List.append_assoc, List.append_assoc, ← List.append_assoc (v :: vs), hstop', List.length_append,
        List.length_singleton] at hmore
      rw [hmore]
      rfl

/-- Packing begins with the first unit, if there is one. -/
theorem pack?_eq (limit : Nat) (us : List (List Line)) :
    pack? limit (Line.texts us.flatten) (places 0 us) = some (places 0 (pack limit us)) := by
  cases us with
  | nil => rfl
  | cons u us =>
    have h := packAfter?_eq limit [] [u] us (List.cons_ne_nil u [])
    rw [List.nil_append, List.nil_append, List.flatten_singleton] at h
    show packAfter? limit _ _ (places (0 + u.length) us) 0 1 = _
    rw [Nat.zero_add]
    exact h

/-- A fragment goes from its first unit to its last one. -/
theorem span?_eq (done g after : List (List Line)) (hne : g ≠ []) :
    span? (places 0 (done ++ (g ++ after))) (done.length, done.length + g.length) =
      some (done.flatten.length, done.flatten.length + g.flatten.length) := by
  have hpos : 0 < done.length + g.length := by
    have := List.length_pos_iff.2 hne
    omega
  -- the first unit of the fragment tells its first line
  have hfirst : ∃ stop, (places 0 (done ++ (g ++ after)))[done.length]? = some (done.flatten.length, stop) := by
    obtain ⟨u, us, rfl⟩ := List.exists_cons_of_ne_nil hne
    rw [List.cons_append, getElem?_places, Nat.zero_add]
    exact ⟨_, rfl⟩
  -- and the last one tells the line behind it
  have hlast : ∃ start, (places 0 (done ++ (g ++ after)))[done.length + g.length - 1]? =
      some (start, done.flatten.length + g.flatten.length) := by
    obtain ⟨us, u, rfl⟩ := List.eq_nil_or_concat' g |>.resolve_left hne
    have hplace : done.length + (us ++ [u]).length - 1 = (done ++ us).length := by
      rw [List.length_append, List.length_append, List.length_singleton]
      omega
    have hlist : done ++ (us ++ [u] ++ after) = done ++ us ++ u :: after := by simp
    rw [hplace, hlist, getElem?_places, Nat.zero_add]
    refine ⟨_, congrArg some (Prod.ext rfl ?_)⟩
    simp [Nat.add_assoc]
  obtain ⟨stop, hfirst⟩ := hfirst
  obtain ⟨start, hlast⟩ := hlast
  rw [span?, hfirst, before?_of_pos hpos]
  simp only [Option.bind_eq_bind, Option.bind_some, hlast]
  rfl

/-- **One step of rebalancing.** The unit `u` stands at the end of a fragment that begins at the place `first` and has
other units, and it stays there if the next fragment is large enough without it or too large with it. -/
theorem rebalance?_step (limit least : Nat) {first : Nat} {kept : List (List Line)} (hfirst : first < kept.length)
    (u : List Line) {last : List (List Line)} (hlast : last ≠ []) :
    rebalance? limit least (Line.texts (kept ++ u :: last).flatten) (places 0 (kept ++ u :: last))
        (first, kept.length + 1) (kept.length + 1, kept.length + (u :: last).length) =
      if least ≤ Line.size last.flatten ∨ limit < Line.size (u ++ last.flatten) then
        some ((first, kept.length + 1), (kept.length + 1, kept.length + (u :: last).length))
      else rebalance? limit least (Line.texts (kept ++ u :: last).flatten) (places 0 (kept ++ u :: last))
        (first, kept.length) (kept.length, kept.length + (u :: last).length) := by
  -- the fragment has at least two units
  have hcount : 1 < kept.length + 1 - first := by omega
  have hunit : kept ++ u :: last = kept ++ [u] ++ (last ++ []) := by simp
  -- the next fragment is measured first
  have hspan : span? (places 0 (kept ++ u :: last)) (kept.length + 1, kept.length + (u :: last).length) =
      some ((kept ++ [u]).flatten.length, (kept ++ [u]).flatten.length + last.flatten.length) := by
    have hbehind := span?_eq (kept ++ [u]) last [] hlast
    rw [← hunit, List.length_append, List.length_singleton, Nat.add_assoc, Nat.add_comm 1] at hbehind
    exact hbehind
  have hsize : size? (Line.texts (kept ++ u :: last).flatten) (kept ++ [u]).flatten.length
      ((kept ++ [u]).flatten.length + last.flatten.length) = some (Line.size last.flatten) := by
    rw [hunit, size?_flatten]
  -- and then with the unit in front of it
  have hmoved : size? (Line.texts (kept ++ u :: last).flatten) (0 + kept.flatten.length)
      ((kept ++ [u]).flatten.length + last.flatten.length) = some (Line.size (u ++ last.flatten)) := by
    have hbytes := size?_flatten kept (u :: last) []
    rw [List.append_nil, List.flatten_cons, List.length_append, ← Nat.add_assoc] at hbytes
    have hbehind : (kept ++ [u]).flatten.length = kept.flatten.length + u.length := by
      rw [List.flatten_append, List.length_append, List.flatten_singleton]
    rw [Nat.zero_add, hbehind]
    exact hbytes
  rw [rebalance?, sub?, if_pos (by omega)]
  simp only [Option.bind_eq_bind, Option.bind_some, if_neg (Nat.not_le.2 hcount), hspan, before?, hsize,
    getElem?_places, hmoved]
  -- it stays as it is if it is large enough, or if it would become too large
  by_cases hlarge : least ≤ Line.size last.flatten
  · rw [if_pos hlarge, if_pos (Or.inl hlarge)]
    rfl
  · rw [if_neg hlarge]
    by_cases hfull : limit < Line.size (u ++ last.flatten)
    · rw [if_pos hfull, if_pos (Or.inr hfull)]
      rfl
    · -- and otherwise the unit is moved, and looking goes on
      rw [if_neg hfull, if_neg (not_or.2 ⟨hlarge, hfull⟩)]

/-- **Rebalancing goes on as long as there are two units**, so there is always one to look at. -/
theorem rebalance?_eq (limit least : Nat) (done before last : List (List Line)) (hbefore : before ≠ [])
    (hlast : last ≠ []) :
    rebalance? limit least (Line.texts (done ++ (before.reverse ++ last)).flatten)
        (places 0 (done ++ (before.reverse ++ last))) (done.length, done.length + before.length)
        (done.length + before.length, done.length + before.length + last.length) =
      some ((done.length, done.length + (rebalance limit least before last).1.length),
        (done.length + (rebalance limit least before last).1.length, done.length + before.length + last.length)) := by
  induction before generalizing last with
  | nil => exact absurd rfl hbefore
  | cons u before ih =>
    cases before with
    | nil =>
      -- a fragment with one unit keeps it
      rw [rebalance?, sub?, if_pos (Nat.le_add_right _ _), Nat.add_sub_cancel_left]
      rfl
    | cons v before =>
      have hmore := ih (u :: last) (List.cons_ne_nil v before) (List.cons_ne_nil u last)
      have hlist : done ++ ((u :: v :: before).reverse ++ last) = done ++ ((v :: before).reverse ++ u :: last) := by
        simp
      have hlength : done.length + (u :: v :: before).length = done.length + (v :: before).length + 1 := rfl
      have hstop : done.length + (v :: before).length + 1 + last.length =
          done.length + (v :: before).length + (u :: last).length := by
        rw [Nat.add_assoc, Nat.add_comm 1]
        rfl
      -- the fragment keeps `kept`, and `u` is what may go over to the next one
      obtain ⟨kept, hkept⟩ : ∃ kept, done ++ (v :: before).reverse = kept := ⟨_, rfl⟩
      have hcount : done.length + (v :: before).length = kept.length := by
        rw [← hkept, List.length_append, List.length_reverse]
      have hfirst : done.length < kept.length := by
        rw [← hcount, List.length_cons]
        omega
      rw [hlist, hlength, hstop, ← List.append_assoc, hkept, hcount, rebalance?_step limit least hfirst u hlast,
        rebalance]
      split
      · -- the unit stays
        rw [hlength, hcount]
      · -- the unit goes over, and the one before it is next
        rw [← List.append_assoc, hkept, hcount] at hmore
        exact hmore

/-- **Topping up changes the places of the last two fragments only.** -/
theorem topUp?_eq (limit least : Nat) (done : List (List Line)) (gs : List (List (List Line))) (hnil : [] ∉ gs) :
    topUp? limit least (Line.texts (done ++ gs.flatten).flatten) (places 0 (done ++ gs.flatten))
        (places done.length gs) = some (places done.length (topUp limit least gs)) := by
  induction gs generalizing done with
  | nil => rfl
  | cons g gs ih =>
    rw [List.mem_cons, not_or] at hnil
    cases gs with
    -- a single fragment has none behind it to top up
    | nil => rfl
    | cons g' gs =>
      cases gs with
      | nil =>
        -- the last two fragments are rebalanced
        have hlast : g' ≠ [] := fun h => hnil.2 (h ▸ List.mem_cons_self)
        have hmoved := rebalance?_eq limit least done g.reverse g' (mt List.reverse_eq_nil_iff.1 (Ne.symm hnil.1)) hlast
        -- no unit is lost or added, so that the place behind both is the same
        have hlength := congrArg List.length (Fragment.rebalance_flatten limit least g.reverse g')
        rw [List.reverse_reverse, List.length_reverse] at hmoved
        rw [List.length_append, List.length_append, List.length_reverse, List.reverse_reverse] at hlength
        show (rebalance? limit least (Line.texts (done ++ (g ++ (g' ++ []))).flatten)
          (places 0 (done ++ (g ++ (g' ++ [])))) (done.length, done.length + g.length)
            (done.length + g.length, done.length + g.length + g'.length) >>= _ : Option (List (Nat × Nat))) =
              some (places done.length [_, _])
        rw [List.append_nil, hmoved, places, places, places, List.length_reverse, Nat.add_assoc, Nat.add_assoc,
          hlength]
        rfl
      | cons g'' gs =>
        -- a fragment with two behind it stays
        have hmore := ih (done ++ g) hnil.2
        rw [List.length_append, List.append_assoc, ← List.flatten_cons] at hmore
        show (topUp? limit least _ _ (places (done.length + g.length) (g' :: g'' :: gs)) >>= _ :
          Option (List (Nat × Nat))) = _
        rw [hmore]
        rfl

/-- Each fragment has its lines. -/
theorem mapM_span?_eq (done : List (List Line)) (gs : List (List (List Line))) (hnil : [] ∉ gs) :
    (places done.length gs).mapM (span? (places 0 (done ++ gs.flatten))) =
      some (places done.flatten.length (gs.map List.flatten)) := by
  induction gs generalizing done with
  | nil => rfl
  | cons g gs ih =>
    rw [List.mem_cons, not_or] at hnil
    have hmore := ih (done ++ g) hnil.2
    rw [List.length_append, List.append_assoc, ← List.flatten_cons, List.flatten_append, List.length_append] at hmore
    -- the first fragment goes from its first line to its last, and the others come after it
    rw [places, List.mapM_cons, hmore, List.flatten_cons, span?_eq done g gs.flatten (Ne.symm hnil.1)]
    rfl

/-- **Lines are split at places as they are into fragments.** -/
theorem spans?_eq (limit least : Nat) (ls : List Line) :
    spans? limit least (Line.texts ls) = some (places 0 (Fragment.split limit least ls)) := by
  have hcount : (Line.texts ls).length = ls.length := List.length_map _
  have hunits : unitsFrom? limit (Line.texts ls) ls.length 0 0 = some (places 0 (units limit (paragraphs ls))) :=
    unitsFrom?_eq limit [] [] ls (by cases ls <;> simp) fun _ => rfl
  -- the units are made of all the lines
  have hflatten : (units limit (paragraphs ls)).flatten = ls := by
    rw [Fragment.units_flatten, Fragment.paragraphs_flatten]
  rw [spans?, Fragment.split, hcount, hunits]
  generalize units limit (paragraphs ls) = us at hflatten ⊢
  -- each step is taken at places as it is with the units themselves
  have hpack := pack?_eq limit us
  have hnil := Fragment.nil_not_mem_pack limit us
  have htop : topUp? limit least (Line.texts ([] ++ (pack limit us).flatten).flatten)
      (places 0 ([] ++ (pack limit us).flatten)) (places 0 (pack limit us)) =
        some (places 0 (topUp limit least (pack limit us))) :=
    topUp?_eq limit least [] (pack limit us) hnil
  have hspans : (places 0 (topUp limit least (pack limit us))).mapM
      (span? (places 0 ([] ++ (topUp limit least (pack limit us)).flatten))) =
        some (places 0 ((topUp limit least (pack limit us)).map List.flatten)) :=
    mapM_span?_eq [] (topUp limit least (pack limit us)) (Fragment.nil_not_mem_topUp hnil)
  rw [List.nil_append, Fragment.topUp_flatten, Fragment.pack_flatten] at hspans
  rw [List.nil_append, Fragment.pack_flatten, hflatten] at htop
  rw [hflatten] at hpack
  simp only [Option.bind_eq_bind, Option.bind_some, hpack, htop, hspans]

end Fragments

/-! ### Chunks of a text -/

section Chunks

/-- The parts of a chunk, one for each fragment of its lines that is not blank. -/
theorem mapM_part?_eq (kind : ChunkKind) (symbols parents : List String) {offset : Nat} {lines : List (List Char)}
    (before : List Line) (fs : List (List Line)) (h : Line.numbered offset lines = before ++ fs.flatten) :
    ((places before.length fs).mapM fun g => part? lines offset kind symbols parents g.1 g.2) =
      some (fs.map fun ls => Chunk.ofLines? ls kind symbols parents) := by
  induction fs generalizing before with
  | nil => rfl
  | cons f fs ih =>
    have hmore := ih (before ++ f) (by rw [h, List.flatten_cons, List.append_assoc])
    rw [List.length_append] at hmore
    rw [places, List.mapM_cons, part?_eq kind symbols parents h, hmore]
    rfl

/-- **A chunk is split at places as it is into fragments.** -/
theorem split?_eq (s : ChunkSettings) (c : Chunk) : split? s c = some (Chunk.split s c) := by
  rw [split?, Chunk.split]
  split
  · -- a small chunk is left whole
    rfl
  · -- the lines of the fragments are those of the parts
    have hspans := spans?_eq s.maxChunkSize s.minFragmentSize c.ownLines
    have hparts := mapM_part?_eq c.kind c.symbols c.parents []
      (Fragment.split s.maxChunkSize s.minFragmentSize c.ownLines) (Fragment.split_flatten _ _ c.ownLines).symm
    rw [List.length_nil] at hparts
    rw [Chunk.ownLines, Line.texts_numbered, ← Chunk.ownLines] at hspans
    simp only [Option.bind_eq_bind, hspans, Option.bind_some, hparts]
    show some _ = some _
    rw [List.filterMap_map]
    rfl

/-- **A text is cut at places as it is into chunks.** Only a declaration that runs backwards keeps it from being cut:
nothing else that is looked up, cut out or taken away is missing. -/
theorem chunksWith?_eq (s : ChunkSettings) (content : String) (definitions : List Definition) :
    chunksWith? s content definitions = CodeSearch.chunksWith? s content definitions := by
  rw [chunksWith?, syntaxChunks?_eq, CodeSearch.chunksWith?, CodeSearch.syntaxChunks?]
  split
  · rfl
  · have hsplit : split? s = fun c => pure (Chunk.split s c) := funext (split?_eq s)
    simp only [Option.bind_eq_bind, Option.bind_some, hsplit, List.mapM_pure]
    rfl

/-- A declaration that ends two rows before it starts is no range of rows. -/
example : chunksWith? { maxChunkSize := 0, minFragmentSize := 0 } "a\nb\nc\n"
    [{ kind := .function, name := "f", startRow := 2, endRow := 0, declRow := 2, parents := [] }] = none := by
  rw [chunksWith?_eq]
  decide +kernel

end Chunks

/-! ### Parsing and cutting -/

section Parsing

variable {g : Grammars} {l : Language} {source : String} {t : SyntaxTree}

/-- **Parsing and then cutting a text does not fail.** If the rows of a tree are in order, then so are those of each
declaration that is read off it, and no step of cutting a text by these declarations looks up, cuts out or takes away
what is not there, whether or not the text has as many lines as the tree has rows. -/
theorem chunksWith?_of_rowsInOrder (hl : g.supports l = true) (ht : g.parse l source = some t)
    (hrows : t.rowsInOrder = true) :
    ∃ o, Outline.ofSource? g l source = some o ∧
      (∀ d ∈ o.definitions, d.startRow ≤ d.declRow ∧ d.declRow ≤ d.endRow) ∧
      ∀ s content, chunksWith? s content o.definitions = some (chunksWith s content o.definitions) := by
  -- there is an outline, as the grammar supports the language
  have hsource : Outline.ofSource? g l source = some (Outline.ofTree l source t) := by
    rw [Outline.ofSource?, if_pos hl, ht, Option.map_some]
  have hdefinitions : ∀ d ∈ (Outline.ofTree l source t).definitions,
      d.startRow ≤ d.declRow ∧ d.declRow ≤ d.endRow := fun d hd => Outline.rows_of_ofTree hrows hd
  refine ⟨_, hsource, hdefinitions, fun s content => ?_⟩
  -- no declaration runs backwards, so no step of cutting fails
  have hforward : ∀ d ∈ (Outline.ofTree l source t).definitions, d.startRow ≤ d.endRow := fun d hd =>
    (hdefinitions d hd).1.trans (hdefinitions d hd).2
  rw [chunksWith?_eq, CodeSearch.chunksWith?, syntaxChunks?_eq_some content hforward, Option.map_some]

/-- A tree of seven rows, and a text of one line. -/
theorem chunksWith?_store :
    let g := Grammars.ofTrees fun _ _ => some Outline.storeTree
    g.supports .python = true ∧ g.parse .python Outline.storeText = some Outline.storeTree ∧
      Outline.storeTree.rowsInOrder = true ∧
      ∃ o, Outline.ofSource? g .python Outline.storeText = some o ∧
        (∀ d ∈ o.definitions, d.startRow ≤ d.declRow ∧ d.declRow ≤ d.endRow) ∧
        ∀ s, chunksWith? s "import os\n" o.definitions = some (chunksWith s "import os\n" o.definitions) := by
  intro g
  have hl : g.supports .python = true := rfl
  have ht : g.parse .python Outline.storeText = some Outline.storeTree := rfl
  have hrows : Outline.storeTree.rowsInOrder = true := by decide
  obtain ⟨o, ho, hdefinitions, hchunks⟩ := chunksWith?_of_rowsInOrder hl ht hrows
  exact ⟨hl, ht, hrows, o, ho, hdefinitions, fun s => hchunks s "import os\n"⟩

end Parsing

end Checked

end CodeSearch
