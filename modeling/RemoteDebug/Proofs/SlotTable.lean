import RemoteDebug.SlotTable

/-!
# What a slot table holds

The list of the live values with their ids (`SlotTable.toList`) says everything that a lookup says (`mem_toList`), and
every operation on a table is an operation on that list: `toList_modify`, `toList_retire`, `toList_mapLive`,
`toList_visit`, and `toList_insert?`, by which a new value comes in somewhere among the old ones. No id stands in the
list twice (`nodup_ids`).
-/

namespace RemoteDebug.SlotTable

variable {α : Type}

/-! ## Lookups -/

/-- The live value of slot number `index`, if there is one. -/
def liveAt (capacity index : Nat) : Slot α → List (Nat × α)
  | .live g v => [(idAt capacity index g, v)]
  | _ => []

/-- The live values of slots numbered from `index` on. -/
def liveFrom (capacity : Nat) : (index : Nat) → List (Slot α) → List (Nat × α)
  | _, [] => []
  | index, s :: slots => liveAt capacity index s ++ liveFrom capacity (index + 1) slots

theorem toList_eq (t : SlotTable α) : t.toList = liveFrom t.capacity 0 t.slots := by
  unfold toList
  -- The index that the slots start at grows as they are walked, the capacity in the ids does not.
  generalize t.capacity = capacity, t.slots = slots, 0 = index
  induction slots generalizing index with
  | nil => rfl
  | cons s slots ih => cases s <;> simp [List.zipIdx_cons, liveFrom, liveAt, ih]

theorem liveFrom_append (capacity index : Nat) (a b : List (Slot α)) :
    liveFrom capacity index (a ++ b) = liveFrom capacity index a ++ liveFrom capacity (index + a.length) b := by
  induction a generalizing index with
  | nil => rfl
  | cons s a ih =>
    simp only [List.cons_append, liveFrom, ih, List.append_assoc, List.length_cons]
    rw [show index + 1 + a.length = index + (a.length + 1) by omega]

theorem liveFrom_around (capacity : Nat) (a : List (Slot α)) (s : Slot α) (b : List (Slot α)) :
    liveFrom capacity 0 (a ++ s :: b) =
      liveFrom capacity 0 a ++ (liveAt capacity a.length s ++ liveFrom capacity (a.length + 1) b) := by
  rw [liveFrom_append, Nat.zero_add]
  rfl

theorem mem_liveAt {capacity index id : Nat} {v : α} {s : Slot α} :
    (id, v) ∈ liveAt capacity index s ↔ ∃ g, s = .live g v ∧ idAt capacity index g = id := by
  cases s with
  | live g w =>
    simp only [liveAt, List.mem_singleton, Prod.mk.injEq, Slot.live.injEq]
    constructor
    · rintro ⟨rfl, rfl⟩
      exact ⟨g, ⟨rfl, rfl⟩, rfl⟩
    · rintro ⟨g', ⟨rfl, rfl⟩, rfl⟩
      exact ⟨rfl, rfl⟩
  | fresh => simp [liveAt]
  | retired g w => simp [liveAt]

theorem mem_liveFrom {capacity index id : Nat} {v : α} {slots : List (Slot α)} :
    (id, v) ∈ liveFrom capacity index slots ↔
      ∃ i g, slots[i]? = some (.live g v) ∧ idAt capacity (index + i) g = id := by
  induction slots generalizing index with
  | nil => simp [liveFrom]
  | cons s slots ih =>
    rw [liveFrom, List.mem_append, mem_liveAt, ih]
    constructor
    · rintro (⟨g, rfl, rfl⟩ | ⟨i, g, hs, rfl⟩)
      · exact ⟨0, g, rfl, rfl⟩
      · exact ⟨i + 1, g, hs, by rw [show index + (i + 1) = index + 1 + i by omega]⟩
    · rintro ⟨i, g, hs, rfl⟩
      cases i with
      | zero => exact Or.inl ⟨g, Option.some.inj hs, rfl⟩
      | succ i => exact Or.inr ⟨i, g, hs, by rw [show index + (i + 1) = index + 1 + i by omega]⟩

theorem get?_eq_some_iff {t : SlotTable α} {id : Nat} {v : α} :
    t.get? id = some v ↔ ∃ i g, t.slots[i]? = some (.live g v) ∧ idAt t.capacity i g = id := by
  simp only [get?]
  constructor
  · intro h
    split at h
    · rename_i g w hs
      simp only [Option.ite_none_right_eq_some, Option.some.injEq] at h
      obtain ⟨hid, rfl⟩ := h
      exact ⟨_, g, hs, hid⟩
    · cases h
  · rintro ⟨i, g, hs, rfl⟩
    have hi : i < t.capacity := (List.getElem?_eq_some_iff.1 hs).1
    simp only [indexOf_idAt hi, hs, if_true]

/-- A value is live under an id exactly if the list has it under that id. -/
theorem mem_toList {t : SlotTable α} {id : Nat} {v : α} : (id, v) ∈ t.toList ↔ t.get? id = some v := by
  rw [toList_eq, mem_liveFrom, get?_eq_some_iff]
  simp only [Nat.zero_add]

/-- Ids of different slots differ. -/
theorem idAt_inj {capacity i j g h : Nat} (hi : i < capacity) (hj : j < capacity)
    (heq : idAt capacity i g = idAt capacity j h) : i = j := by
  rw [← indexOf_idAt hi g, heq, indexOf_idAt hj h]

/-- The ids come in the order of their slots, at most one of each. -/
theorem pairwise_liveFrom {capacity : Nat} {slots : List (Slot α)} :
    ∀ {index : Nat}, index + slots.length ≤ capacity →
    ((liveFrom capacity index slots).map Prod.fst).Pairwise fun a b => indexOf capacity a < indexOf capacity b := by
  induction slots with
  | nil => intro index _; exact List.Pairwise.nil
  | cons s slots ih =>
    intro index h
    simp only [List.length_cons] at h
    have rest := @ih (index + 1) (by omega)
    cases s with
    | fresh => exact rest
    | retired g v => exact rest
    | live g v =>
      refine List.pairwise_cons.2 ⟨fun id hmem => ?_, rest⟩
      obtain ⟨⟨_, w⟩, hw, rfl⟩ := List.mem_map.1 hmem
      obtain ⟨j, g', hj, rfl⟩ := mem_liveFrom.1 hw
      have hlt := (List.getElem?_eq_some_iff.1 hj).1
      rw [indexOf_idAt (by omega), indexOf_idAt (by omega)]
      omega

theorem pairwise_ids (t : SlotTable α) : t.ids.Pairwise fun a b => indexOf t.capacity a < indexOf t.capacity b := by
  unfold ids
  rw [toList_eq]
  exact pairwise_liveFrom (by simp [capacity])

theorem nodup_ids (t : SlotTable α) : t.ids.Nodup := by
  apply (pairwise_ids t).imp
  rintro a b hlt rfl
  exact Nat.lt_irrefl _ hlt

/-- No other value stands in the list under the id of one. -/
theorem ne_of_around {t : SlotTable α} {p q : List (Nat × α)} {id : Nat} {v : α} (h : t.toList = p ++ (id, v) :: q)
    {e : Nat × α} (he : e ∈ p ++ q) : e.1 ≠ id := by
  have once := nodup_ids t
  rw [ids, h, List.map_append, List.map_cons] at once
  obtain ⟨-, later, earlier⟩ := List.nodup_append.1 once
  rcases List.mem_append.1 he with hp | hq
  · exact earlier e.1 (List.mem_map.2 ⟨e, hp, rfl⟩) id List.mem_cons_self
  · rintro rfl
    exact (List.nodup_cons.1 later).1 (List.mem_map.2 ⟨e, hq, rfl⟩)

@[simp] theorem toList_empty (capacity : Nat) : (empty capacity : SlotTable α).toList = [] := by
  apply List.eq_nil_iff_forall_not_mem.2
  rintro ⟨id, v⟩ h
  rw [mem_toList, get?_eq_some_iff] at h
  obtain ⟨i, g, hs, -⟩ := h
  simp only [empty, List.getElem?_replicate] at hs
  split at hs <;> cases hs

/-! ## Operations on one value -/

/-- The list around a live value, and what stands there once its slot is changed. -/
theorem toList_modify_slot {t : SlotTable α} {id : Nat} {v : α} (h : t.get? id = some v) (f : Slot α → Slot α) :
    ∃ i g p q, idAt t.capacity i g = id ∧ t.toList = p ++ (id, v) :: q ∧
      liveFrom t.capacity 0 (t.slots.modify (indexOf t.capacity id) f) =
        p ++ (liveAt t.capacity i (f (.live g v)) ++ q) := by
  obtain ⟨i, g, hs, hid⟩ := get?_eq_some_iff.1 h
  obtain ⟨hi, hv⟩ := List.getElem?_eq_some_iff.1 hs
  obtain ⟨a, s, b, hslots, hlen, hmod⟩ := List.exists_of_modify f hi
  have hs' : s = .live g v := by
    rw [← hv]
    simp [hslots, ← hlen]
  have hat : indexOf t.capacity id = i := by rw [← hid]; exact indexOf_idAt hi g
  refine ⟨i, g, liveFrom t.capacity 0 a, liveFrom t.capacity (i + 1) b, hid, ?_, ?_⟩
  · rw [toList_eq, hslots, liveFrom_around, hs', hlen, ← hid]
    rfl
  · rw [hat, hmod, liveFrom_around, hs', hlen]

/-- Changing a value changes it where it stands. -/
theorem toList_modify {t : SlotTable α} {id : Nat} {v : α} (h : t.get? id = some v) (f : α → α) :
    ∃ p q, t.toList = p ++ (id, v) :: q ∧ (t.modify id f).toList = p ++ (id, f v) :: q := by
  obtain ⟨i, g, p, q, hid, before, after⟩ := toList_modify_slot h (Slot.map f)
  refine ⟨p, q, before, ?_⟩
  have hslots : (t.modify id f).slots = t.slots.modify (indexOf t.capacity id) (Slot.map f) := by
    simp [modify, h]
  rw [toList_eq, capacity_modify, hslots, after, ← hid]
  rfl

theorem modify_of_get?_eq_none {t : SlotTable α} {id : Nat} (h : t.get? id = none) (f : α → α) :
    t.modify id f = t := by
  simp [modify, h]

/-- Putting a value where it stands changes nothing. -/
theorem modify_self {t : SlotTable α} {id : Nat} {v : α} (h : t.get? id = some v) :
    t.modify id (fun _ => v) = t := by
  obtain ⟨i, g, hs, rfl⟩ := get?_eq_some_iff.1 h
  have hi : i < t.capacity := (List.getElem?_eq_some_iff.1 hs).1
  have same : t.slots.modify i (Slot.map fun _ => v) = t.slots := by
    apply List.ext_getElem?
    intro j
    by_cases hj : i = j
    · subst hj
      simp [hs, Slot.map]
    · rw [List.getElem?_modify_ne _ _ hj]
  simp only [modify, h, Option.isSome_some, if_true, indexOf_idAt hi, same]

/-- Retiring a value takes it out of the list. -/
theorem toList_retire {t : SlotTable α} {id : Nat} {v : α} (h : t.get? id = some v) :
    ∃ p q, t.toList = p ++ (id, v) :: q ∧ (t.retire id).toList = p ++ q := by
  obtain ⟨i, g, p, q, hid, before, after⟩ := toList_modify_slot h Slot.retire
  refine ⟨p, q, before, ?_⟩
  have hslots : (t.retire id).slots = t.slots.modify (indexOf t.capacity id) Slot.retire := by
    simp [retire, h]
  rw [toList_eq, capacity_retire, hslots, after]
  rfl

/-- The place that is claimed next holds no live value. -/
theorem free?_eq_some {t : SlotTable α} {i g : Nat} (h : t.free? = some (i, g)) :
    ∃ s, t.slots[i]? = some s ∧ s.isLive = false ∧ g = s.nextGeneration := by
  obtain ⟨j, -, hj⟩ := List.exists_of_findSome?_eq_some h
  split at hj
  · rename_i s hs
    cases hl : s.isLive with
    | true => simp [hl] at hj
    | false =>
      simp only [hl, Bool.false_eq_true, if_false, Option.some.injEq, Prod.mk.injEq] at hj
      obtain ⟨rfl, rfl⟩ := hj
      exact ⟨s, hs, hl, rfl⟩
  · cases hj

/-- A new value comes in among the old ones, under an id of 64 bits. -/
theorem toList_insert? {t u : SlotTable α} {value : α} {id : Nat} (h : t.insert? value = some (id, u)) :
    0 < id ∧ id < 2 ^ 64 ∧ ∃ p q, t.toList = p ++ q ∧ u.toList = p ++ (id, value) :: q := by
  have hc := capacity_insert? h
  unfold insert? at h
  split at h
  · cases h
  · rename_i i g hfree
    simp only [Option.ite_none_right_eq_some, Option.some.injEq, Prod.mk.injEq] at h
    obtain ⟨hlt, rfl, rfl⟩ := h
    obtain ⟨s, hs, hl, -⟩ := free?_eq_some hfree
    obtain ⟨hi, rfl⟩ := List.getElem?_eq_some_iff.1 hs
    -- claiming a slot is changing it, whatever it held
    obtain ⟨a, s, b, hslots, hlen, hmod⟩ := List.exists_of_modify (fun _ => Slot.live g value) hi
    have hset : t.slots.set i (.live g value) = a ++ .live g value :: b := by
      rw [hslots, ← hlen, List.set_append_right _ _ (Nat.le_refl _), Nat.sub_self]
      rfl
    have hs' : t.slots[i] = s := by simp [hslots, ← hlen]
    refine ⟨idAt_pos _ _ _, hlt, liveFrom t.capacity 0 a, liveFrom t.capacity (i + 1) b, ?_, ?_⟩
    · rw [toList_eq, hslots, liveFrom_around, hlen]
      rw [hs'] at hl
      cases s with
      | live g v => cases hl
      | fresh => rfl
      | retired g v => rfl
    · rw [toList_eq, hc]
      simp only [hset]
      rw [liveFrom_around, hlen]
      rfl

/-! ## Operations on all values -/

/-- Changes the live values of slots numbered from `index` on. -/
def mapLiveFrom (capacity : Nat) (f : (id : Nat) → α → α) : (index : Nat) → List (Slot α) → List (Slot α)
  | _, [] => []
  | index, .live g v :: slots => .live g (f (idAt capacity index g) v) :: mapLiveFrom capacity f (index + 1) slots
  | index, s :: slots => s :: mapLiveFrom capacity f (index + 1) slots

theorem mapIdx_eq_mapLiveFrom (capacity : Nat) (f : (id : Nat) → α → α) (index : Nat) (slots : List (Slot α)) :
    (slots.mapIdx fun i s =>
      match s with
      | .live g v => .live g (f (idAt capacity (index + i) g) v)
      | s => s) = mapLiveFrom capacity f index slots := by
  induction slots generalizing index with
  | nil => rfl
  | cons s slots ih =>
    have tail : (slots.mapIdx fun i s =>
        match s with
        | .live g v => .live g (f (idAt capacity (index + (i + 1)) g) v)
        | s => s) = mapLiveFrom capacity f (index + 1) slots := by
      rw [← ih]
      congr 1
      funext i s
      rw [show index + (i + 1) = index + 1 + i by omega]
    rw [List.mapIdx_cons, tail]
    cases s <;> rfl

theorem mapLive_eq (t : SlotTable α) (f : (id : Nat) → α → α) :
    t.mapLive f = { t with slots := mapLiveFrom t.capacity f 0 t.slots } := by
  rw [← mapIdx_eq_mapLiveFrom]
  simp only [Nat.zero_add]
  rfl

theorem liveFrom_mapLiveFrom (capacity : Nat) (f : (id : Nat) → α → α) (index : Nat) (slots : List (Slot α)) :
    liveFrom capacity index (mapLiveFrom capacity f index slots) =
      (liveFrom capacity index slots).map fun (id, v) => (id, f id v) := by
  induction slots generalizing index with
  | nil => rfl
  | cons s slots ih => cases s <;> simp [mapLiveFrom, liveFrom, liveAt, ih]

theorem toList_mapLive (t : SlotTable α) (f : (id : Nat) → α → α) :
    (t.mapLive f).toList = t.toList.map fun (id, v) => (id, f id v) := by
  have hc : (t.mapLive f).capacity = t.capacity := by simp [mapLive, capacity]
  rw [toList_eq, hc, toList_eq, mapLive_eq]
  exact liveFrom_mapLiveFrom _ _ _ _

theorem get?_mapLive (t : SlotTable α) (f : (id : Nat) → α → α) (id : Nat) :
    (t.mapLive f).get? id = (t.get? id).map (f id) := by
  apply Option.ext
  intro v
  rw [← mem_toList, toList_mapLive, Option.map_eq_some_iff]
  simp only [List.mem_map, Prod.exists, Prod.mk.injEq, mem_toList]
  constructor
  · rintro ⟨_, w, hw, rfl, rfl⟩
    exact ⟨w, hw, rfl⟩
  · rintro ⟨w, hw, rfl⟩
    exact ⟨id, w, hw, rfl, rfl⟩

theorem mapLive_mapLive (t : SlotTable α) (f g : (id : Nat) → α → α) :
    (t.mapLive g).mapLive f = t.mapLive fun id v => f id (g id v) := by
  simp only [mapLive, SlotTable.mk.injEq, and_true]
  apply List.ext_getElem?
  intro i
  simp only [capacity, List.getElem?_mapIdx, List.length_mapIdx, Option.map_map]
  congr 1
  funext s
  cases s <;> rfl

/-- A change that does not show once all values are changed. -/
theorem mapLive_modify {t : SlotTable α} {id : Nat} {f : α → α} {g : (id : Nat) → α → α}
    (h : ∀ v, t.get? id = some v → g id (f v) = g id v) : (t.modify id f).mapLive g = t.mapLive g := by
  cases hv : t.get? id with
  | none => rw [modify_of_get?_eq_none hv]
  | some v =>
    obtain ⟨i, n, hs, rfl⟩ := get?_eq_some_iff.1 hv
    have hi : i < t.capacity := (List.getElem?_eq_some_iff.1 hs).1
    have slots : (t.modify (idAt t.capacity i n) f).slots = t.slots.modify i (Slot.map f) := by
      simp [modify, hv, indexOf_idAt hi]
    have cursor : (t.modify (idAt t.capacity i n) f).cursor = t.cursor := by simp [modify, hv]
    simp only [mapLive, capacity_modify, slots, cursor, mk.injEq, and_true]
    apply List.ext_getElem?
    intro j
    rw [List.getElem?_mapIdx, List.getElem?_mapIdx, List.getElem?_modify]
    by_cases hij : i = j
    · subst hij
      simp [hs, Slot.map, h v hv]
    · simp [hij]

/-- Visits the values of a list in turn, and hands a state from one to the next. -/
def visitList {σ : Type} (f : (id : Nat) → α → σ → α × σ) :
    List (Nat × α) → σ → List (Nat × α) × σ
  | [], s => ([], s)
  | (id, v) :: rest, s =>
    let (v, s) := f id v s
    let (rest, s) := visitList f rest s
    ((id, v) :: rest, s)

section Visit

variable {σ : Type}

theorem length_visitFrom (capacity : Nat) (f : (id : Nat) → α → σ → α × σ) (index : Nat)
    (slots : List (Slot α)) (s : σ) : (visitFrom capacity f index slots s).1.length = slots.length := by
  induction slots generalizing index s with
  | nil => rfl
  | cons slot slots ih => cases slot <;> simp [visitFrom, ih]

theorem liveFrom_visitFrom (capacity : Nat) (f : (id : Nat) → α → σ → α × σ) (index : Nat)
    (slots : List (Slot α)) (s : σ) :
    (liveFrom capacity index (visitFrom capacity f index slots s).1, (visitFrom capacity f index slots s).2) =
      visitList f (liveFrom capacity index slots) s := by
  induction slots generalizing index s with
  | nil => rfl
  | cons slot slots ih =>
    cases slot with
    | live g v => simp [visitFrom, liveFrom, liveAt, visitList, ← ih (index + 1)]
    | fresh => exact ih (index + 1) s
    | retired g v => exact ih (index + 1) s

@[simp] theorem capacity_visit (t : SlotTable α) (f : (id : Nat) → α → σ → α × σ) (s : σ) :
    (t.visit f s).1.capacity = t.capacity := length_visitFrom t.capacity f 0 t.slots s

/-- Visiting a table is visiting its list. -/
theorem toList_visit (t : SlotTable α) (f : (id : Nat) → α → σ → α × σ) (s : σ) :
    ((t.visit f s).1.toList, (t.visit f s).2) = visitList f t.toList s := by
  rw [toList_eq, capacity_visit, toList_eq]
  exact liveFrom_visitFrom t.capacity f 0 t.slots s

theorem toList_visit_fst (t : SlotTable α) (f : (id : Nat) → α → σ → α × σ) (s : σ) :
    (t.visit f s).1.toList = (visitList f t.toList s).1 := congrArg Prod.fst (toList_visit t f s)

theorem visit_snd (t : SlotTable α) (f : (id : Nat) → α → σ → α × σ) (s : σ) :
    (t.visit f s).2 = (visitList f t.toList s).2 := congrArg Prod.snd (toList_visit t f s)

theorem visitList_append (f : (id : Nat) → α → σ → α × σ) (a b : List (Nat × α)) (s : σ) :
    visitList f (a ++ b) s =
      ((visitList f a s).1 ++ (visitList f b (visitList f a s).2).1, (visitList f b (visitList f a s).2).2) := by
  induction a generalizing s with
  | nil => rfl
  | cons e a ih => simp only [List.cons_append, visitList, ih]

/-- A value in a visited list is what a visit made of one, between the first state and the last. -/
theorem mem_visitList_between {f : (id : Nat) → α → σ → α × σ} {R : σ → σ → Prop} (refl : ∀ s, R s s)
    (trans : ∀ {s s' s''}, R s s' → R s' s'' → R s s'') (visit : ∀ id v s, R s (f id v s).2)
    {l : List (Nat × α)} {id : Nat} {w : α} {s : σ} (h : (id, w) ∈ (visitList f l s).1) :
    ∃ v s', (id, v) ∈ l ∧ w = (f id v s').1 ∧ R s s' ∧ R (f id v s').2 (visitList f l s).2 := by
  have onward (l : List (Nat × α)) (s : σ) : R s (visitList f l s).2 := by
    induction l generalizing s with
    | nil => exact refl s
    | cons p l ih => exact trans (visit p.1 p.2 s) (ih _)
  induction l generalizing s with
  | nil => cases h
  | cons p l ih =>
    obtain ⟨id', v⟩ := p
    rcases List.mem_cons.1 h with h | h
    · simp only [Prod.mk.injEq] at h
      obtain ⟨rfl, rfl⟩ := h
      exact ⟨v, s, List.mem_cons_self, rfl, refl s, onward l _⟩
    · obtain ⟨v', s', hv', hw, before, after⟩ := ih h
      exact ⟨v', s', List.mem_cons_of_mem _ hv', hw, trans (visit id' v s) before, after⟩

theorem mem_visitList {f : (id : Nat) → α → σ → α × σ} {l : List (Nat × α)} {id : Nat} {w : α} {s : σ}
    (h : (id, w) ∈ (visitList f l s).1) : ∃ v s, (id, v) ∈ l ∧ w = (f id v s).1 := by
  obtain ⟨v, s', hv, hw, -⟩ := mem_visitList_between (R := fun _ _ => True) (fun _ => trivial) (fun _ _ => trivial)
    (fun _ _ _ => trivial) h
  exact ⟨v, s', hv, hw⟩

/-- What no visit changes about a value stays as it is all along the list. -/
theorem map_visitList {β : Type} {f : (id : Nat) → α → σ → α × σ} {g : α → β}
    (h : ∀ id v s, g (f id v s).1 = g v) (l : List (Nat × α)) (s : σ) :
    (visitList f l s).1.map (fun p => (p.1, g p.2)) = l.map fun p => (p.1, g p.2) := by
  induction l generalizing s with
  | nil => rfl
  | cons p l ih => simp [visitList, h, ih]

theorem map_value_visitList {β : Type} {f : (id : Nat) → α → σ → α × σ} {g : α → β}
    (h : ∀ id v s, g (f id v s).1 = g v) (l : List (Nat × α)) (s : σ) :
    (visitList f l s).1.map (fun p => g p.2) = l.map fun p => g p.2 := by
  have kept := congrArg (List.map Prod.snd) (map_visitList h l s)
  rw [List.map_map, List.map_map] at kept
  exact kept

theorem mapLiveFrom_visitFrom {f : (id : Nat) → α → σ → α × σ} {g g' : (id : Nat) → α → α}
    (h : ∀ id v s, g id (f id v s).1 = g' id v) (capacity index : Nat) (slots : List (Slot α)) (s : σ) :
    mapLiveFrom capacity g index (visitFrom capacity f index slots s).1 = mapLiveFrom capacity g' index slots := by
  induction slots generalizing index s with
  | nil => rfl
  | cons slot slots ih => cases slot <;> simp [visitFrom, mapLiveFrom, ih, h]

/-- A visit after which each value is changed as if it had not been visited. -/
theorem mapLive_visit {f : (id : Nat) → α → σ → α × σ} {g g' : (id : Nat) → α → α}
    (h : ∀ id v s, g id (f id v s).1 = g' id v) (t : SlotTable α) (s : σ) :
    (t.visit f s).1.mapLive g = t.mapLive g' := by
  rw [mapLive_eq, mapLive_eq, capacity_visit]
  exact congrArg (fun slots => ({ t with slots } : SlotTable α)) (mapLiveFrom_visitFrom h _ _ _ _)

theorem mapLive_id (t : SlotTable α) : (t.mapLive fun _ v => v) = t := by
  have same (capacity index : Nat) (slots : List (Slot α)) :
      mapLiveFrom capacity (fun _ v => v) index slots = slots := by
    induction slots generalizing index with
    | nil => rfl
    | cons s slots ih => cases s <;> simp [mapLiveFrom, ih]
  rw [mapLive_eq, same]

/-- A visit that changes each value regardless of the state at hand. -/
theorem visit_fst_eq_mapLive {f : (id : Nat) → α → σ → α × σ} {g : (id : Nat) → α → α}
    (h : ∀ id v s, (f id v s).1 = g id v) (t : SlotTable α) (s : σ) : (t.visit f s).1 = t.mapLive g := by
  rw [← mapLive_visit (g := fun _ v => v) h t s, mapLive_id]

end Visit

end RemoteDebug.SlotTable
