import CodeSearch.Proofs.Chunks.Partition
import CodeSearch.Proofs.Outline

/-!
# What chunks are named after

A chunk is cut out of a declaration, and then it has its kind and its name, or it is a part of a text without
declarations, and then it has no name (`Chunk.Named`). The declarations that an outline tells have names
that are not blank (`Outline.proper_of_ofSource?`). So whether a chunk has a name can be seen from its kind
(`Chunk.Named.name?_eq_none_iff`), and a blank name says that there is none (`Chunk.Named.name?_ne_blank`).

* `named_chunksWith` — the chunks that a text is cut into.
-/

namespace CodeSearch

/-! ### Names of declarations -/

/-- Whether a declaration has a name, and is one of a type, a function or a method. -/
structure Definition.Proper (d : Definition) : Prop where
  name_ne : d.name ≠ ""
  kind_ne : d.kind ≠ .fileScope

namespace Outline

open SyntaxTree (Site)

variable {l : Language} {source : String}

/-- A name that is found is not blank. -/
theorem declaredName?_ne_blank {t : SyntaxTree} {name : String}
    (h : declaredName? source t = some name) : name ≠ "" := by
  obtain ⟨n, -, hn⟩ := Option.bind_eq_some_iff.1 h
  dsimp only at hn
  split at hn
  · cases hn
  · next hne => exact Option.some.inj hn ▸ hne

/-- What is declared is no whole file. -/
theorem kind?_ne_fileScope {s : Site} {kind : ChunkKind} (h : s.kind? l = some kind) :
    kind ≠ .fileScope := by
  rintro rfl
  rw [Site.kind?] at h
  split at h
  · cases h
  · cases h
  · split at h <;> cases h
  all_goals cases h

/-- A declaration at a site has a name and one of the kinds. -/
theorem proper_of_definition? {s : Site} {d : Definition} (h : s.definition? l source = some d) :
    d.Proper := by
  rw [Site.definition?] at h
  split at h
  · cases h
  · obtain ⟨kind, hkind, h⟩ := Option.bind_eq_some_iff.1 h
    obtain ⟨name, hname, rfl⟩ := Option.map_eq_some_iff.1 h
    exact ⟨declaredName?_ne_blank hname, kind?_ne_fileScope hkind⟩

/-- **The declarations of an outline have names.** -/
theorem proper_of_ofSource? {g : Grammars} {o : Outline} (h : ofSource? g l source = some o) {d : Definition}
    (hd : d ∈ o.definitions) : d.Proper := by
  rw [ofSource?] at h
  split at h
  · obtain ⟨t, -, rfl⟩ := Option.map_eq_some_iff.1 h
    rw [ofTree, ofNode_eq_ofSites (Context.fits_nil l source) rfl] at hd
    obtain ⟨s, -, hs⟩ := List.mem_filterMap.1 hd
    exact proper_of_definition? hs
  · cases h

end Outline

/-! ### Names of chunks -/

/-- What a chunk says of itself: the kind and the name of a declaration, or that it has none. -/
inductive Chunk.Named (c : Chunk) : Prop where
  | declared (d : Definition) (hd : d.Proper) (hkind : c.kind = d.kind) (hsymbols : c.symbols = [d.name])
  | whole (hkind : c.kind = .fileScope) (hsymbols : c.symbols = [])

namespace Chunk.Named

variable {c : Chunk}

/-- A chunk that says a name does not say a blank one. -/
theorem name?_ne_blank (h : c.Named) : c.name? ≠ some "" := by
  cases h with
  | declared d hd hkind hsymbols =>
    rw [Chunk.name?, hsymbols]
    exact fun hname => hd.name_ne (Option.some.inj hname)
  | whole hkind hsymbols =>
    rw [Chunk.name?, hsymbols]
    exact nofun

/-- Only the chunk of a whole file says no name. -/
theorem name?_eq_none_iff (h : c.Named) : c.name? = none ↔ c.kind = .fileScope := by
  cases h with
  | declared d hd hkind hsymbols =>
    rw [Chunk.name?, hsymbols, hkind]
    exact iff_of_false nofun hd.kind_ne
  | whole hkind hsymbols =>
    rw [Chunk.name?, hsymbols]
    exact iff_of_true rfl hkind

end Chunk.Named

/-- What owns a line is one of the declarations. -/
theorem mem_of_owner? {ordered : List Definition} {number n : Nat} {d : Definition}
    (h : owner? ordered number = some (n, d)) : d ∈ ordered := by
  -- the declaration is found as the last one that covers the line, wherever the search has come
  suffices hfold : ∀ (es : List (Definition × Nat)) (o : Option (Nat × Definition)),
      es.foldl (fun o e => if e.1.covers number then some (e.2, e.1) else o) o = some (n, d) →
        (d, n) ∈ es ∨ o = some (n, d) by
    rcases hfold ordered.zipIdx none h with h | h
    · exact (List.mem_zipIdx' h).2 ▸ List.getElem_mem _
    · cases h
  intro es
  induction es with
  | nil => exact fun o h => Or.inr h
  | cons e es ih =>
    intro o h
    rcases ih _ h with h | h
    · -- a declaration that was found before is one of those that came before
      exact Or.inl (List.mem_cons_of_mem e h)
    · dsimp only at h
      split at h
      · cases h
        exact Or.inl List.mem_cons_self
      · exact Or.inr h

variable {content : String} {definitions : List Definition}

/-- A chunk before splitting is named after what owns its first line. -/
theorem named_of_mem_firstChunks (hd : ∀ d ∈ definitions, d.Proper) {c : Chunk}
    (hc : c ∈ firstChunks content definitions) : c.Named := by
  rw [firstChunks] at hc
  split at hc
  · -- the whole text is named after no declaration
    rw [List.mem_singleton.1 hc]
    exact .whole rfl rfl
  · rw [syntaxChunks_eq] at hc
    obtain ⟨run, hrun, hchunk⟩ := List.mem_filterMap.1 hc
    rw [chunkOfRun?] at hchunk
    split at hchunk
    · next l n d hhead =>
      -- the first line of the run has an owner, whose name and kind the chunk has
      obtain ⟨-, hkind, hsymbols, -⟩ := Chunk.madeOf_of_ofLines? hchunk
      have hline : (l, some (n, d)) ∈ ownedLines content definitions := by
        rw [← runs_flatten (fun o => o.2.map Prod.fst) (ownedLines content definitions)]
        exact List.mem_flatten.2 ⟨run, hrun, List.mem_of_head? hhead⟩
      obtain ⟨l', -, hl'⟩ := List.mem_map.1 hline
      have howner := mem_of_owner? (Prod.mk.inj hl').2
      exact .declared d (hd d ((List.mergeSort_perm _ _).mem_iff.1 howner)) hkind hsymbols
    · cases hchunk

/-- **Every chunk of a text is named after a declaration**, or has no name and is one of no declaration. -/
theorem named_chunksWith (hd : ∀ d ∈ definitions, d.Proper) {s : ChunkSettings} {c : Chunk}
    (hc : c ∈ chunksWith s content definitions) : c.Named := by
  obtain ⟨w, hw, hc⟩ := List.mem_flatMap.1 hc
  obtain ⟨-, hkind, hsymbols, -⟩ := ((mirrors_of_mem_firstChunks hw).partOf_of_mem_split hc).1
  -- a part says of itself what the whole does
  cases named_of_mem_firstChunks hd hw with
  | declared d hd hkind' hsymbols' =>
    exact .declared d hd (hkind.trans hkind') (hsymbols.trans hsymbols')
  | whole hkind' hsymbols' => exact .whole (hkind.trans hkind') (hsymbols.trans hsymbols')

end CodeSearch
