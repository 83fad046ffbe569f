import RemoteDebug.Proofs.SlotTable

/-!
# Ids that were given

Each slot of a table counts how often it was claimed (`generations`), and these counts say which ids the table has given
so far, to values that may be gone by now (`Given`). Only a claim changes the counts, and the id of a claim was not
given before (`not_given_of_insert?`). So an id that was given and is not live any more is never live again.
-/

namespace RemoteDebug.SlotTable

variable {α : Type} {t u : SlotTable α} {id : Nat} {v : α}

/-- Whether slots claimed so many times have given an id. -/
def GivenBy (generations : List Nat) (id : Nat) : Prop :=
  ∃ i n g, generations[i]? = some n ∧ g < n ∧ idAt generations.length i g = id

/-- How often each slot was claimed. -/
def generations (t : SlotTable α) : List Nat := t.slots.map Slot.nextGeneration

/-- Whether an id was given to a value, live or not. -/
def Given (t : SlotTable α) (id : Nat) : Prop := GivenBy t.generations id

@[simp] theorem length_generations (t : SlotTable α) : t.generations.length = t.capacity := by
  simp [generations, capacity]

theorem Given.of_generations_eq (h : t.Given id) (heq : u.generations = t.generations) : u.Given id := by
  unfold Given
  rw [heq]
  exact h

theorem given_of_get? (h : t.get? id = some v) : t.Given id := by
  obtain ⟨i, g, hs, rfl⟩ := get?_eq_some_iff.1 h
  refine ⟨i, g + 1, g, ?_, Nat.lt_succ_self g, by rw [length_generations]⟩
  simp [generations, hs, Slot.nextGeneration]

/-! ## Claiming a slot -/

/-- What a claim does to the counts. -/
theorem generations_insert? (h : t.insert? v = some (id, u)) :
    ∃ i n, t.generations[i]? = some n ∧ id = idAt t.capacity i n ∧
      u.generations = t.generations.set i (n + 1) := by
  unfold insert? at h
  split at h
  · cases h
  · rename_i i g hfree
    simp only [Option.ite_none_right_eq_some, Option.some.injEq, Prod.mk.injEq] at h
    obtain ⟨-, rfl, rfl⟩ := h
    obtain ⟨s, hs, -, rfl⟩ := free?_eq_some hfree
    refine ⟨i, s.nextGeneration, by simp [generations, hs], rfl, ?_⟩
    simp [generations, List.map_set, Slot.nextGeneration]

/-- The generation of an id is read off the id. -/
theorem generation_eq {capacity i g g' : Nat} (hi : i < capacity) (h : idAt capacity i g = idAt capacity i g') :
    g = g' := by
  have same : g * capacity = g' * capacity := by
    simp only [idAt] at h
    omega
  exact Nat.eq_of_mul_eq_mul_right (by omega) same

/-- A new value comes in under an id that was never given. -/
theorem not_given_of_insert? (h : t.insert? v = some (id, u)) : ¬ t.Given id := by
  obtain ⟨i, n, hn, rfl, -⟩ := generations_insert? h
  rintro ⟨j, m, g, hm, hlt, heq⟩
  have hi : i < t.capacity := by
    rw [← length_generations]
    exact (List.getElem?_eq_some_iff.1 hn).1
  have hj : j < t.capacity := by
    rw [← length_generations]
    exact (List.getElem?_eq_some_iff.1 hm).1
  rw [length_generations] at heq
  obtain rfl := idAt_inj hj hi heq
  have hg := generation_eq hj heq
  rw [hn, Option.some.injEq] at hm
  omega

/-- An id that was given stays given when a slot is claimed. -/
theorem Given.insert? (hg : t.Given id) {id' : Nat} (h : t.insert? v = some (id', u)) : u.Given id := by
  obtain ⟨i, n, hn, -, hu⟩ := generations_insert? h
  obtain ⟨j, m, g, hm, hlt, rfl⟩ := hg
  unfold Given
  rw [hu]
  by_cases hij : i = j
  · subst hij
    rw [hn, Option.some.injEq] at hm
    have hi := (List.getElem?_eq_some_iff.1 hn).1
    exact ⟨i, n + 1, g, List.getElem?_set_self hi, by omega, by rw [List.length_set]⟩
  · exact ⟨j, m, g, by rw [List.getElem?_set_ne hij, hm], hlt, by rw [List.length_set]⟩

/-! ## Everything else -/

/-- What no change of a slot shows, a change of one slot does not show. -/
theorem map_modify_of_eq {β : Type} {f : Slot α → Slot α} {g : Slot α → β} (h : ∀ s, g (f s) = g s)
    (slots : List (Slot α)) (i : Nat) : (slots.modify i f).map g = slots.map g := by
  apply List.ext_getElem?
  intro j
  rw [List.getElem?_map, List.getElem?_map, List.getElem?_modify]
  cases slots[j]? with
  | none => rfl
  | some s =>
    by_cases hij : i = j
    · simp [hij, h]
    · simp [hij]

@[simp] theorem generations_modify (t : SlotTable α) (id : Nat) (f : α → α) :
    (t.modify id f).generations = t.generations := by
  unfold modify
  split
  · exact map_modify_of_eq (fun s => by cases s <;> rfl) _ _
  · rfl

@[simp] theorem generations_retire (t : SlotTable α) (id : Nat) : (t.retire id).generations = t.generations := by
  unfold retire
  split
  · exact map_modify_of_eq (fun s => by cases s <;> rfl) _ _
  · rfl

@[simp] theorem generations_mapLive (t : SlotTable α) (f : (id : Nat) → α → α) :
    (t.mapLive f).generations = t.generations := by
  apply List.ext_getElem?
  intro i
  simp only [generations, mapLive, List.getElem?_map, List.getElem?_mapIdx, Option.map_map]
  congr 1
  funext s
  cases s <;> rfl

end RemoteDebug.SlotTable
