/-!
# Steps that may fail

Steps that come one after another succeed if all of them do, and fail as one of them does (`exists_of_bind_eq_ok`,
`cases_of_bind_eq_error`). So do lists of them (`exists_ok_of_mapM`, `exists_error_of_mapM`), and they give what the
steps give, one by one (`mapM_eq_ok`, `mapM_eq_map`, `exists_of_mem_mapM`). And of the items of a list for which
something holds there is a last one (`exists_last`).
-/

namespace CodeSearch

variable {ε α β : Type} {x : Except ε α} {f : α → Except ε β}

/-- Of two steps that succeed the first one does, and the second one with what it gives. -/
theorem exists_of_bind_eq_ok {b : β} (h : x >>= f = .ok b) : ∃ a, x = .ok a ∧ f a = .ok b := by
  cases x with
  | error e => cases h
  | ok a => exact ⟨a, rfl, h⟩

/-- Of two steps that fail the first one does, or the second one with what the first one gives. -/
theorem cases_of_bind_eq_error {e : ε} (h : x >>= f = .error e) :
    x = .error e ∨ ∃ a, x = .ok a ∧ f a = .error e := by
  cases x with
  | error e' => exact Or.inl (congrArg Except.error (Except.error.inj h))
  | ok a => exact Or.inr ⟨a, rfl, h⟩

/-- What is gone through without a failure did not fail anywhere. -/
theorem exists_ok_of_mapM {as : List α} {bs : List β} (h : as.mapM f = .ok bs) : ∀ a ∈ as, ∃ b, f a = .ok b := by
  induction as generalizing bs with
  | nil => exact List.forall_mem_nil _
  | cons a as ih =>
    rw [List.mapM_cons] at h
    obtain ⟨b, ha, h⟩ := exists_of_bind_eq_ok h
    obtain ⟨bs', has, -⟩ := exists_of_bind_eq_ok h
    exact List.forall_mem_cons.2 ⟨⟨b, ha⟩, ih has⟩

/-- What is gone through with a failure failed somewhere. -/
theorem exists_error_of_mapM {as : List α} {e : ε} (h : as.mapM f = .error e) : ∃ a ∈ as, f a = .error e := by
  induction as with
  | nil => cases h
  | cons a as ih =>
    rw [List.mapM_cons] at h
    rcases cases_of_bind_eq_error h with h | ⟨b, -, h⟩
    · exact ⟨a, List.mem_cons_self, h⟩
    · -- the first item is fine, so it is one of the others
      rcases cases_of_bind_eq_error h with h | ⟨bs, -, h⟩
      · obtain ⟨a', ha', herror⟩ := ih h
        exact ⟨a', List.mem_cons_of_mem _ ha', herror⟩
      · cases h

/-- Steps of which none fails give what each of them gives. -/
theorem mapM_eq_ok {g : α → β} {as : List α} (hf : ∀ a ∈ as, f a = .ok (g a)) : as.mapM f = .ok (as.map g) := by
  induction as with
  | nil => rfl
  | cons a as ih =>
    rw [List.mapM_cons, hf a List.mem_cons_self, ih fun b hb => hf b (List.mem_cons_of_mem _ hb)]
    rfl

/-- Going through a list with a function that cannot give anything else gives what the function does. -/
theorem mapM_eq_map {g : α → β} (hf : ∀ a b, f a = .ok b → b = g a) {as : List α} {bs : List β}
    (h : as.mapM f = .ok bs) : bs = as.map g := by
  induction as generalizing bs with
  | nil =>
    cases h
    rfl
  | cons a as ih =>
    rw [List.mapM_cons] at h
    -- neither the first element nor the rest can have failed
    obtain ⟨b, ha, h⟩ := exists_of_bind_eq_ok h
    obtain ⟨bs', has, h⟩ := exists_of_bind_eq_ok h
    obtain rfl := Except.ok.inj h
    rw [List.map_cons, ← hf a b ha, ← ih has]

/-- All that is found in going through a list is found of some item. -/
theorem exists_of_mem_mapM {as : List α} {bs : List β} (h : as.mapM f = .ok bs) {b : β} (hb : b ∈ bs) :
    ∃ a ∈ as, f a = .ok b := by
  induction as generalizing bs with
  | nil =>
    obtain rfl := Except.ok.inj h
    cases hb
  | cons a as ih =>
    rw [List.mapM_cons] at h
    obtain ⟨first, ha, h⟩ := exists_of_bind_eq_ok h
    obtain ⟨rest, has, h⟩ := exists_of_bind_eq_ok h
    obtain rfl := Except.ok.inj h
    -- it was found of the first item, or of one of the others
    rcases List.mem_cons.1 hb with rfl | hb
    · exact ⟨a, List.mem_cons_self, ha⟩
    · obtain ⟨a', ha', hgives⟩ := ih has hb
      exact ⟨a', List.mem_cons_of_mem _ ha', hgives⟩

/-- Nothing is left out or added in going through a list. -/
theorem length_of_mapM {as : List α} {bs : List β} (h : as.mapM f = .ok bs) : bs.length = as.length := by
  induction as generalizing bs with
  | nil =>
    obtain rfl := Except.ok.inj h
    rfl
  | cons a as ih =>
    rw [List.mapM_cons] at h
    obtain ⟨b, -, h⟩ := exists_of_bind_eq_ok h
    -- each item gives one result, and the first was fine
    obtain ⟨bs', has, h⟩ := exists_of_bind_eq_ok h
    obtain rfl := Except.ok.inj h
    rw [List.length_cons, List.length_cons, ih has]

/-- **Of the items for which something holds there is a last one.** -/
theorem exists_last {p : α → Prop} {l : List α} (h : ∃ a ∈ l, p a) :
    ∃ before a after, l = before ++ a :: after ∧ p a ∧ ∀ b ∈ after, ¬p b := by
  induction l with
  | nil =>
    obtain ⟨a, ha, -⟩ := h
    cases ha
  | cons a l ih =>
    -- of an item and a later one the later one counts
    by_cases hlater : ∃ b ∈ l, p b
    · obtain ⟨before, b, after, rfl, hb, hafter⟩ := ih hlater
      exact ⟨a :: before, b, after, rfl, hb, hafter⟩
    · obtain ⟨b, hb, hpb⟩ := h
      obtain rfl := (List.mem_cons.1 hb).resolve_right fun hb => hlater ⟨b, hb, hpb⟩
      exact ⟨[], b, l, rfl, hpb, fun c hc hpc => hlater ⟨c, hc, hpc⟩⟩

end CodeSearch
