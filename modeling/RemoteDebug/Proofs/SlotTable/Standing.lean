import Mathlib.Data.Nat.ModEq
import RemoteDebug.Proofs.SlotTable.Claim

/-!
# What stands under an id

A client of a table writes down what it did with it and which answers it got (`SlotTable.Record`). Under each id stands
a value that was given it, live or retired, or nothing (`SlotTable.standing?`), and lookups read it off
(`get?_eq_some_iff_standing?`, `entry?_eq`). What every use makes of it is said here.
-/

namespace RemoteDebug.SlotTable

variable {α : Type}

/-! ## Uses and records -/

/-- What a client does with a table. -/
inductive Use (α : Type)
  | insert (value : α)
  | retire (id : Nat)
  | write (id : Nat) (f : α → α)
  | writeAll (f : (id : Nat) → α → α)

/-- What a client has done, and what it was answered. -/
inductive Record (α : Type)
  | inserted (value : α) (id : Nat)
  | refused (value : α)
  | retired (id : Nat) (done : Bool)
  | wrote (id : Nat) (f : α → α)
  | wroteAll (f : (id : Nat) → α → α)

/-- Retires the value under an id in one look at its slot, and says whether there was one. -/
def retire? (t : SlotTable α) (id : Nat) : SlotTable α × Bool :=
  let i := indexOf t.capacity id
  match t.slots[i]? with
  | some (.live g v) =>
    if idAt t.capacity i g = id then ({ t with slots := t.slots.set i (.retired g v) }, true) else (t, false)
  | _ => (t, false)

/-- One use of a table. -/
def step (t : SlotTable α) : Use α → SlotTable α × Record α
  | .insert v =>
    match t.insert? v with
    | some (id, u) => (u, .inserted v id)
    | none => (t, .refused v)
  | .retire id => ((t.retire? id).1, .retired id (t.retire? id).2)
  | .write id f => (t.modify id f, .wrote id f)
  | .writeAll f => (t.mapLive f, .wroteAll f)

/-- Uses one after the other, with their records. -/
def run (t : SlotTable α) : List (Use α) → SlotTable α × List (Record α)
  | [] => (t, [])
  | use :: rest =>
    let (u, r) := t.step use
    let (last, log) := u.run rest
    (last, r :: log)

/-- What was last stored under an id, as long as it was live, if this value was inserted before these records. -/
def lastStored (id : Nat) : (value : α) → List (Record α) → α
  | v, [] => v
  | v, .retired id' _ :: rest => if id = id' then v else lastStored id v rest
  | v, .wrote id' f :: rest => lastStored id (if id = id' then f v else v) rest
  | v, .wroteAll f :: rest => lastStored id (f id v) rest
  | v, .inserted _ _ :: rest => lastStored id v rest
  | v, .refused _ :: rest => lastStored id v rest

theorem run_append (t : SlotTable α) (a b : List (Use α)) :
    t.run (a ++ b) = (((t.run a).1.run b).1, (t.run a).2 ++ ((t.run a).1.run b).2) := by
  induction a generalizing t with
  | nil => rfl
  | cons use a ih => simp [run, ih]

@[simp] theorem length_run (t : SlotTable α) (uses : List (Use α)) : (t.run uses).2.length = uses.length := by
  induction uses generalizing t with
  | nil => rfl
  | cons use uses ih => simp [run, ih]

/-- Where the records come apart, the run does. -/
theorem run_split {t : SlotTable α} {uses : List (Use α)} {before after : List (Record α)}
    (h : (t.run uses).2 = before ++ after) : ∃ a b, uses = a ++ b ∧ (t.run a).2 = before ∧
      ((t.run a).1.run b).2 = after ∧ ((t.run a).1.run b).1 = (t.run uses).1 := by
  have split : uses = uses.take before.length ++ uses.drop before.length := (List.take_append_drop _ _).symm
  have whole := run_append t (uses.take before.length) (uses.drop before.length)
  rw [← split] at whole
  have length : (t.run (uses.take before.length)).2.length = before.length := by
    have total := congrArg List.length h
    rw [length_run, List.length_append] at total
    rw [length_run, List.length_take]
    omega
  have parts := h.symm.trans (congrArg Prod.snd whole)
  obtain ⟨first, second⟩ := List.append_inj parts length.symm
  exact ⟨_, _, split, first.symm, second.symm, (congrArg Prod.fst whole).symm⟩

/-! ## What stands under an id -/

/-- What an id leads to in slot number `index`: the value, and whether it is live. -/
def standsIn (capacity index id : Nat) : Slot α → Option (Bool × α)
  | .fresh => none
  | .live g v => if idAt capacity index g = id then some (true, v) else none
  | .retired g v => if idAt capacity index g = id then some (false, v) else none

/-- What stands under an id: the value, and whether it is live. -/
def standing? (t : SlotTable α) (id : Nat) : Option (Bool × α) :=
  t.slots[indexOf t.capacity id]?.bind (standsIn t.capacity (indexOf t.capacity id) id)

variable {t u : SlotTable α} {v w : α} {id id' n : Nat}

theorem get?_eq_some_iff_standing? : t.get? id = some v ↔ t.standing? id = some (true, v) := by
  simp only [get?, standing?]
  cases t.slots[indexOf t.capacity id]? with
  | none => simp
  | some s => cases s <;> simp [standsIn]

theorem entry?_eq (t : SlotTable α) (id : Nat) : entry? t id = (t.standing? id).map Prod.snd := by
  simp only [standing?, entry?]
  cases t.slots[indexOf t.capacity id]? with
  | none => rfl
  | some s =>
    cases s with
    | fresh => rfl
    | live g v | retired g v =>
      simp only [Option.bind_some, standsIn]
      split <;> rfl

/-- Nothing stands under zero, which is no id. -/
theorem standing?_zero (t : SlotTable α) : t.standing? 0 = none := by
  have none (g : Nat) : idAt t.capacity (indexOf t.capacity 0) g ≠ 0 := Nat.ne_of_gt (idAt_pos _ _ _)
  unfold standing?
  cases t.slots[indexOf t.capacity 0]? with
  | none => rfl
  | some s => cases s <;> simp [standsIn, none]

/-- Ids of one slot are ids of the same remainder. -/
theorem indexOf_eq_iff (hid : 0 < id) (hid' : 0 < id') : indexOf n id = indexOf n id' ↔ id % n = id' % n := by
  obtain ⟨k, rfl⟩ : ∃ k, id = k + 1 := ⟨id - 1, by omega⟩
  obtain ⟨k', rfl⟩ : ∃ k', id' = k' + 1 := ⟨id' - 1, by omega⟩
  constructor
  · intro h
    exact Nat.ModEq.add_right 1 h
  · intro h
    exact Nat.ModEq.add_right_cancel' 1 h

theorem set_eq_modify {slots : List (Slot α)} {i : Nat} {s s' : Slot α} {f : Slot α → Slot α}
    (h : slots[i]? = some s) (hf : f s = s') : slots.set i s' = slots.modify i f := by
  apply List.ext_getElem?
  intro j
  rw [List.getElem?_modify, List.getElem?_set']
  by_cases hij : i = j
  · subst hij
    simp [h, hf]
  · simp [hij]

/-- A table with one slot changed. -/
theorem standing?_modify_slot (t : SlotTable α) (i : Nat) (f : Slot α → Slot α) (cursor id : Nat) :
    (⟨t.slots.modify i f, cursor⟩ : SlotTable α).standing? id =
      if i = indexOf t.capacity id then t.slots[i]?.bind fun s => standsIn t.capacity i id (f s)
      else t.standing? id := by
  have same : (⟨t.slots.modify i f, cursor⟩ : SlotTable α).capacity = t.capacity := List.length_modify f t.slots i
  unfold standing?
  rw [same]
  simp only [List.getElem?_modify]
  split
  · rename_i hi
    subst hi
    cases t.slots[indexOf t.capacity id]? <;> rfl
  · cases t.slots[indexOf t.capacity id]? <;> rfl

theorem standing?_insert? (h : t.insert? w = some (id', u)) (id : Nat) : u.standing? id =
    if id = id' then some (true, w) else if id % t.capacity = id' % t.capacity then none else t.standing? id := by
  obtain ⟨i, first, rfl, -, rfl⟩ := insert?_eq_some_iff.1 h
  have hi := first.lt
  have hs : t.slots[i]? = some t.slots[i] := List.getElem?_eq_getElem hi
  have own : indexOf t.capacity (t.nextId i) = i := indexOf_idAt hi _
  have stands : standsIn t.capacity i id (.live (t.claims i) w) = if t.nextId i = id then some (true, w) else none :=
    rfl
  rw [set_eq_modify (f := fun _ => .live (t.claims i) w) hs rfl, standing?_modify_slot, hs, Option.bind_some, stands]
  by_cases hid : id = t.nextId i
  · simp [hid, own]
  · rw [if_neg hid, if_neg (Ne.symm hid)]
    rcases Nat.eq_zero_or_pos id with rfl | pos
    · simp [standing?_zero]
    · have slots := indexOf_eq_iff (n := t.capacity) pos (idAt_pos t.capacity i (t.claims i))
      rw [← nextId, own] at slots
      simp only [← slots, eq_comm]

/-- A change of one live value. What is retired stays as it is. -/
theorem standing?_changeLive {f : Slot α → Slot α} {change : Bool × α → Bool × α}
    (t : SlotTable α) (id' id : Nat)
    (live : ∀ i g v, standsIn t.capacity i id (f (.live g v)) = (standsIn t.capacity i id (.live g v)).map change)
    (retired : ∀ v, change (false, v) = (false, v)) :
    (if (t.get? id').isSome then { t with slots := t.slots.modify (indexOf t.capacity id') f } else t).standing? id =
      if id = id' then (t.standing? id).map change else t.standing? id := by
  cases hv : t.get? id' with
  | none =>
    by_cases hid : id = id'
    · subst hid
      cases hs : t.standing? id with
      | none => simp [hs]
      | some s =>
        obtain ⟨_ | _, v⟩ := s
        · simp [hs, retired]
        · rw [get?_eq_some_iff_standing?.2 hs] at hv
          cases hv
    · simp [hid]
  | some v =>
    obtain ⟨i, g, hs, rfl⟩ := get?_eq_some_iff.1 hv
    have hi : i < t.capacity := (List.getElem?_eq_some_iff.1 hs).1
    have before (h : i = indexOf t.capacity id) : t.standing? id = standsIn t.capacity i id (.live g v) := by
      unfold standing?
      rw [← h, hs, Option.bind_some]
    rw [Option.isSome_some, if_pos rfl, indexOf_idAt hi, standing?_modify_slot, hs, Option.bind_some, live]
    by_cases hid : id = idAt t.capacity i g
    · have own : i = indexOf t.capacity id := by rw [hid, indexOf_idAt hi]
      rw [if_pos own, if_pos hid, before own]
    · rw [if_neg hid]
      split
      · rename_i own
        simp [before own, standsIn, Ne.symm hid]
      · rfl

/-- What becomes of a value under an id, live or not, if live values change so. -/
def changed (f : α → α) : Bool × α → Bool × α
  | (true, v) => (true, f v)
  | (false, v) => (false, v)

theorem standing?_retire (t : SlotTable α) (id' id : Nat) : (t.retire id').standing? id =
    if id = id' then (t.standing? id).map fun s => (false, s.2) else t.standing? id := by
  apply standing?_changeLive t id' id _ fun _ => rfl
  intro i g v
  simp only [Slot.retire, standsIn]
  split <;> rfl

theorem standing?_modify (t : SlotTable α) (id' : Nat) (f : α → α) (id : Nat) : (t.modify id' f).standing? id =
    if id = id' then (t.standing? id).map (changed f) else t.standing? id := by
  apply standing?_changeLive t id' id _ fun _ => rfl
  intro i g v
  simp only [Slot.map, standsIn]
  split <;> rfl

theorem standing?_mapLive (t : SlotTable α) (f : (id : Nat) → α → α) (id : Nat) :
    (t.mapLive f).standing? id = (t.standing? id).map (changed (f id)) := by
  have same : (t.mapLive f).capacity = t.capacity := List.length_mapIdx
  unfold standing?
  rw [same]
  simp only [mapLive, List.getElem?_mapIdx]
  cases t.slots[indexOf t.capacity id]? with
  | none => rfl
  | some s =>
    cases s with
    | fresh => rfl
    | live g v | retired g v =>
      simp only [Option.map_some, Option.bind_some, standsIn]
      split
      · rename_i own
        simp [changed, own]
      · rfl

/-- The one look at the slot does what two do. -/
theorem retire?_eq (t : SlotTable α) (id : Nat) : t.retire? id = (t.retire id, (t.get? id).isSome) := by
  cases hv : t.get? id with
  | some v =>
    obtain ⟨i, g, hs, rfl⟩ := get?_eq_some_iff.1 hv
    have hi : i < t.capacity := (List.getElem?_eq_some_iff.1 hs).1
    simp only [retire?, retire, hv, indexOf_idAt hi, hs, if_true, Option.isSome_some]
    rw [(set_eq_modify hs rfl : t.slots.set i (.retired g v) = t.slots.modify i Slot.retire)]
  | none =>
    have other (g : Nat) (v : α) (hs : t.slots[indexOf t.capacity id]? = some (.live g v)) :
        idAt t.capacity (indexOf t.capacity id) g ≠ id := by
      intro own
      rw [get?_eq_some_iff.2 ⟨_, g, hs, own⟩] at hv
      cases hv
    simp only [retire?, retire, hv, Option.isSome_none, Bool.false_eq_true, if_false]
    split
    · rename_i hs
      rw [if_neg (other _ _ hs)]
    · rfl

end RemoteDebug.SlotTable
