import RemoteDebug.Proofs.SlotTable.Given

/-!
# Which slot is claimed

A claim takes the first slot, counted in a circle from the cursor on, that holds no live value (`FirstFree`), and gives
the next id of that slot (`nextId`). It fails if there is no such slot or that id needs more than 64 bits, and in no
other case. Main statements: `insert?_eq_some_iff`, `insert?_eq_none_iff`.
-/

namespace RemoteDebug.SlotTable

variable {α : Type} {t u : SlotTable α} {v : α}

/-! ## First hits -/

theorem findSome?_range_eq_some {β : Type} {f : Nat → Option β} {n : Nat} {b : β} :
    (List.range n).findSome? f = some b ↔ ∃ k < n, f k = some b ∧ ∀ j < k, f j = none := by
  induction n with
  | zero => simp
  | succ n ih =>
    rw [List.range_succ, List.findSome?_append, Option.or_eq_some_iff, ih, List.findSome?_eq_none_iff,
      List.findSome?_singleton]
    constructor
    · rintro (⟨k, hk, hit, before⟩ | ⟨none, hit⟩)
      · exact ⟨k, Nat.lt_succ_of_lt hk, hit, before⟩
      · exact ⟨n, Nat.lt_succ_self n, hit, fun j hj => none j (List.mem_range.2 hj)⟩
    · rintro ⟨k, hk, hit, before⟩
      rcases Nat.lt_succ_iff_lt_or_eq.1 hk with h | rfl
      · exact Or.inl ⟨k, h, hit, before⟩
      · exact Or.inr ⟨fun j hj => before j (List.mem_range.1 hj), hit⟩

/-! ## The slot and its id -/

/-- Slot number `i` holds a value that is not retired. -/
def IsLiveAt (t : SlotTable α) (i : Nat) : Prop := ∃ g v, t.slots[i]? = some (.live g v)

/-- How often slot number `i` was claimed. -/
def claims (t : SlotTable α) (i : Nat) : Nat := t.generations.getD i 0

/-- The id that slot number `i` gives next. -/
def nextId (t : SlotTable α) (i : Nat) : Nat := idAt t.capacity i (t.claims i)

/-- Of the slots counted in a circle from `start` on, slot number `i` is the first that holds no live value. -/
def FirstFree (t : SlotTable α) (start i : Nat) : Prop :=
  ∃ k < t.capacity, i = (start + k) % t.capacity ∧ ¬ t.IsLiveAt i ∧
    ∀ j < k, t.IsLiveAt ((start + j) % t.capacity)

theorem FirstFree.lt {start i : Nat} (h : t.FirstFree start i) : i < t.capacity := by
  obtain ⟨k, hk, rfl, -⟩ := h
  exact Nat.mod_lt _ (by omega)

theorem claims_of_slot {i : Nat} {s : Slot α} (h : t.slots[i]? = some s) : t.claims i = s.nextGeneration := by
  simp [claims, generations, List.getD_eq_getElem?_getD, h]

theorem isLive_iff {i : Nat} {s : Slot α} (h : t.slots[i]? = some s) : s.isLive = true ↔ t.IsLiveAt i := by
  unfold IsLiveAt
  rw [h]
  cases s <;> simp [Slot.isLive]

/-- What the search says of one slot. -/
theorem tried_eq {i : Nat} (hi : i < t.capacity) :
    (match t.slots[i]? with
      | some s => if s.isLive then none else some (i, s.nextGeneration)
      | none => none : Option (Nat × Nat)) = none ↔ t.IsLiveAt i := by
  have hs : t.slots[i]? = some t.slots[i] := List.getElem?_eq_getElem hi
  rw [← isLive_iff hs, hs]
  simp

theorem free?_eq_some_iff {i g : Nat} :
    t.free? = some (i, g) ↔ t.FirstFree t.cursor i ∧ g = t.claims i := by
  have mod_lt {k : Nat} (h : k < t.capacity) (j : Nat) : (t.cursor + j) % t.capacity < t.capacity :=
    Nat.mod_lt _ (by omega)
  unfold free? tryOrder
  simp only [List.findSome?_map, findSome?_range_eq_some, Function.comp_def]
  constructor
  · rintro ⟨k, hk, hit, before⟩
    have hs := List.getElem?_eq_getElem (l := t.slots) (mod_lt hk k)
    rw [hs] at hit
    simp only [Option.ite_none_left_eq_some, Option.some.injEq, Prod.mk.injEq] at hit
    obtain ⟨notLive, rfl, rfl⟩ := hit
    refine ⟨⟨k, hk, rfl, ?_, fun j hj => (tried_eq (mod_lt hk j)).1 (before j hj)⟩, (claims_of_slot hs).symm⟩
    rwa [← isLive_iff hs]
  · rintro ⟨⟨k, hk, rfl, notLive, before⟩, rfl⟩
    have hs := List.getElem?_eq_getElem (l := t.slots) (mod_lt hk k)
    refine ⟨k, hk, ?_, fun j hj => (tried_eq (mod_lt hk j)).2 (before j hj)⟩
    rw [← isLive_iff hs] at notLive
    rw [hs, claims_of_slot hs]
    simp [notLive]

/-- Counting in a circle reaches every slot. -/
theorem exists_offset {n i : Nat} (hi : i < n) (start : Nat) : ∃ k < n, (start + k) % n = i := by
  have hstart : start % n < n := Nat.mod_lt _ (by omega)
  by_cases ahead : start % n ≤ i
  · refine ⟨i - start % n, by omega, ?_⟩
    rw [Nat.add_mod, Nat.mod_eq_of_lt (show i - start % n < n by omega), Nat.add_sub_cancel' ahead, Nat.mod_eq_of_lt hi]
  · refine ⟨i + n - start % n, by omega, ?_⟩
    rw [Nat.add_mod, Nat.mod_eq_of_lt (show i + n - start % n < n by omega),
      show start % n + (i + n - start % n) = i + n by omega, Nat.add_mod_right, Nat.mod_eq_of_lt hi]

theorem free?_eq_none_iff : t.free? = none ↔ ∀ i < t.capacity, t.IsLiveAt i := by
  unfold free? tryOrder
  simp only [List.findSome?_eq_none_iff, List.mem_map, List.mem_range, forall_exists_index, and_imp,
    forall_apply_eq_imp_iff₂]
  constructor
  · intro h i hi
    obtain ⟨k, hk, rfl⟩ := exists_offset hi t.cursor
    exact (tried_eq hi).1 (h k hk)
  · intro h k hk
    have hi : (t.cursor + k) % t.capacity < t.capacity := Nat.mod_lt _ (by omega)
    exact (tried_eq hi).2 (h _ hi)

theorem FirstFree.unique {start i j : Nat} (hi : t.FirstFree start i) (hj : t.FirstFree start j) : i = j := by
  obtain ⟨k, -, rfl, freeI, beforeI⟩ := hi
  obtain ⟨l, -, rfl, freeJ, beforeJ⟩ := hj
  rcases Nat.lt_trichotomy k l with h | rfl | h
  · exact absurd (beforeJ k h) freeI
  · rfl
  · exact absurd (beforeI l h) freeJ

/-! ## Claims -/

theorem insert?_eq_some_iff {id : Nat} :
    t.insert? v = some (id, u) ↔ ∃ i, t.FirstFree t.cursor i ∧ id = t.nextId i ∧ id < 2 ^ 64 ∧
      u = ⟨t.slots.set i (.live (t.claims i) v), (i + 1) % t.capacity⟩ := by
  unfold insert?
  constructor
  · intro h
    split at h
    · cases h
    · rename_i i g hfree
      obtain ⟨first, rfl⟩ := free?_eq_some_iff.1 hfree
      simp only [Option.ite_none_right_eq_some, Option.some.injEq, Prod.mk.injEq] at h
      obtain ⟨small, rfl, rfl⟩ := h
      exact ⟨i, first, rfl, small, rfl⟩
  · rintro ⟨i, first, rfl, small, rfl⟩
    rw [free?_eq_some_iff.2 ⟨first, rfl⟩]
    exact if_pos small

/-- A claim fails if every slot is live, as without any slots, or if the id would need more than 64 bits. -/
theorem insert?_eq_none_iff : t.insert? v = none ↔
    (∀ i < t.capacity, t.IsLiveAt i) ∨ ∃ i, t.FirstFree t.cursor i ∧ 2 ^ 64 ≤ t.nextId i := by
  unfold insert?
  cases hfree : t.free? with
  | none => exact iff_of_true rfl (Or.inl (free?_eq_none_iff.1 hfree))
  | some hit =>
    obtain ⟨i, g⟩ := hit
    obtain ⟨first, rfl⟩ := free?_eq_some_iff.1 hfree
    have notAll : ¬ ∀ i < t.capacity, t.IsLiveAt i := by
      rw [← free?_eq_none_iff, hfree]
      nofun
    constructor
    · intro h
      refine Or.inr ⟨i, first, Nat.not_lt.1 fun small => ?_⟩
      exact Option.some_ne_none _ ((if_pos small).symm.trans h)
    · rintro (all | ⟨j, firstJ, large⟩)
      · exact absurd all notAll
      · obtain rfl := first.unique firstJ
        exact if_neg (Nat.not_lt.2 large)

/-! ## Ids that run out -/

/-- There is a slot to claim, but its next id would need more than 64 bits. -/
def Exhausted (t : SlotTable α) : Prop := ∃ i, t.FirstFree t.cursor i ∧ 2 ^ 64 ≤ t.nextId i

theorem isFull_iff : t.isFull = true ↔ ∀ i < t.capacity, t.IsLiveAt i := by
  unfold isFull
  rw [List.all_eq_true]
  constructor
  · intro h i hi
    have hs := List.getElem?_eq_getElem (l := t.slots) hi
    exact (isLive_iff hs).1 (h _ (List.getElem_mem hi))
  · intro h s hmem
    obtain ⟨i, hi, rfl⟩ := List.mem_iff_getElem.1 hmem
    exact (isLive_iff (List.getElem?_eq_getElem hi)).2 (h i hi)

/-- A table that is not full refuses a value for its ids alone. -/
theorem exhausted_of_insert?_eq_none (room : t.isFull = false) (h : t.insert? v = none) : t.Exhausted := by
  rcases insert?_eq_none_iff.1 h with all | exhausted
  · rw [isFull_iff.2 all] at room
    cases room
  · exact exhausted

end RemoteDebug.SlotTable
