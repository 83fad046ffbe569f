/-!
# Slot tables

A slot table holds values under ids that are never handed out twice. Its slots are claimed in turn, starting after the
last one claimed; the value claimed in slot `i` of `n` for the `g`-th time has id `g * n + i + 1`, so a slot is found
from an id by one division. A retired value stays in its slot until the slot is claimed again.

Main statement: the id of a slot leads back to that slot (`indexOf_idAt`).
-/

-- A power of numbers means the core one, whatever else a module imports.
attribute [instance (high), default_instance (high + 1)] instPowNat

namespace RemoteDebug

/-- One place of a slot table. `generation` counts the earlier claims of the place. -/
inductive Slot (α : Type)
  | fresh
  | live (generation : Nat) (value : α)
  | retired (generation : Nat) (value : α)
  deriving DecidableEq, Repr

namespace Slot

variable {α : Type}

/-- Whether the place holds a value that is not retired. -/
def isLive : Slot α → Bool
  | .live _ _ => true
  | _ => false

/-- The generation of the next value claimed here. -/
def nextGeneration : Slot α → Nat
  | .fresh => 0
  | .live g _ | .retired g _ => g + 1

/-- Changes the value held here, retired or not. -/
def map (f : α → α) : Slot α → Slot α
  | .fresh => .fresh
  | .live g v => .live g (f v)
  | .retired g v => .retired g v

/-- Retires the value held here. -/
def retire : Slot α → Slot α
  | .live g v => .retired g v
  | s => s

end Slot

/-- Values under ids, in a fixed number of slots. -/
structure SlotTable (α : Type) where
  slots : List (Slot α)
  cursor : Nat
  deriving DecidableEq, Repr

namespace SlotTable

variable {α : Type}

/-- A table of `capacity` slots that were never claimed. -/
def empty (capacity : Nat) : SlotTable α := ⟨List.replicate capacity .fresh, 0⟩

/-- The number of slots. -/
def capacity (t : SlotTable α) : Nat := t.slots.length

/-- The id of generation `generation` in slot `index` of `capacity`. -/
def idAt (capacity index generation : Nat) : Nat := generation * capacity + index + 1

/-- The slot that an id of a table of `capacity` slots belongs to. -/
def indexOf (capacity id : Nat) : Nat := (id - 1) % capacity

/-- Whether no slot can be claimed. -/
def isFull (t : SlotTable α) : Bool := t.slots.all Slot.isLive

/-- The slot numbers in the order in which they are tried. -/
def tryOrder (t : SlotTable α) : List Nat :=
  let n := t.capacity
  (List.range n).map fun i => (t.cursor + i) % n

/-- The first slot that can be claimed, with the generation of the claim. -/
def free? (t : SlotTable α) : Option (Nat × Nat) :=
  t.tryOrder.findSome? fun i =>
    match t.slots[i]? with
    | some s => if s.isLive then none else some (i, s.nextGeneration)
    | none => none

/-- Claims a slot for a value; nothing if there is none, or its next id needs more than 64 bits. -/
def insert? (t : SlotTable α) (value : α) : Option (Nat × SlotTable α) :=
  match t.free? with
  | none => none
  | some (i, g) =>
    let id := idAt t.capacity i g
    if id < 2 ^ 64 then some (id, ⟨t.slots.set i (.live g value), (i + 1) % t.capacity⟩) else none

/-- The value under an id, retired or not. -/
def entry? (t : SlotTable α) (id : Nat) : Option α :=
  let i := indexOf t.capacity id
  match t.slots[i]? with
  | some (.live g v) | some (.retired g v) => if idAt t.capacity i g = id then some v else none
  | _ => none

/-- The value under an id that is not retired. -/
def get? (t : SlotTable α) (id : Nat) : Option α :=
  let i := indexOf t.capacity id
  match t.slots[i]? with
  | some (.live g v) => if idAt t.capacity i g = id then some v else none
  | _ => none

/-- Changes the value under an id; retired values stay as they are. -/
def modify (t : SlotTable α) (id : Nat) (f : α → α) : SlotTable α :=
  if (t.get? id).isSome then { t with slots := t.slots.modify (indexOf t.capacity id) (Slot.map f) } else t

/-- Retires the value under an id. -/
def retire (t : SlotTable α) (id : Nat) : SlotTable α :=
  if (t.get? id).isSome then { t with slots := t.slots.modify (indexOf t.capacity id) Slot.retire } else t

/-- Changes every value that is not retired. -/
def mapLive (t : SlotTable α) (f : (id : Nat) → α → α) : SlotTable α :=
  { t with slots := t.slots.mapIdx fun i s =>
      match s with
      | .live g v => .live g (f (idAt t.capacity i g) v)
      | s => s }

/-- Visits the values of slots numbered from `index` on, as `visit` says. -/
def visitFrom {σ : Type} (capacity : Nat) (f : (id : Nat) → α → σ → α × σ) :
    (index : Nat) → List (Slot α) → σ → List (Slot α) × σ
  | _, [], s => ([], s)
  | index, .live g v :: rest, s =>
    let (v, s) := f (idAt capacity index g) v s
    let (rest, s) := visitFrom capacity f (index + 1) rest s
    (.live g v :: rest, s)
  | index, slot :: rest, s =>
    let (rest, s) := visitFrom capacity f (index + 1) rest s
    (slot :: rest, s)

/-- Changes every value that is not retired, in the order of the slots, and hands a state from one to the next. -/
def visit {σ : Type} (t : SlotTable α) (f : (id : Nat) → α → σ → α × σ) (s : σ) : SlotTable α × σ :=
  let (slots, s) := visitFrom t.capacity f 0 t.slots s
  ({ t with slots }, s)

/-- The values that are not retired, with their ids, in the order of the slots. -/
def toList (t : SlotTable α) : List (Nat × α) :=
  t.slots.zipIdx.filterMap fun (s, i) =>
    match s with
    | .live g v => some (idAt t.capacity i g, v)
    | _ => none

/-- The ids that are not retired, in the order of the slots. -/
def ids (t : SlotTable α) : List Nat := t.toList.map Prod.fst

/-! ## Small facts -/

theorem indexOf_idAt {capacity index : Nat} (h : index < capacity) (generation : Nat) :
    indexOf capacity (idAt capacity index generation) = index := by
  simp [indexOf, idAt, Nat.mod_eq_of_lt h]

theorem idAt_pos (capacity index generation : Nat) : 0 < idAt capacity index generation := Nat.succ_pos _

@[simp] theorem capacity_modify (t : SlotTable α) (id : Nat) (f : α → α) :
    (t.modify id f).capacity = t.capacity := by
  unfold modify
  split <;> simp [capacity]

@[simp] theorem capacity_retire (t : SlotTable α) (id : Nat) : (t.retire id).capacity = t.capacity := by
  unfold retire
  split <;> simp [capacity]

theorem capacity_insert? {t u : SlotTable α} {value : α} {id : Nat} (h : t.insert? value = some (id, u)) :
    u.capacity = t.capacity := by
  unfold insert? at h
  split at h
  · cases h
  · simp only [Option.ite_none_right_eq_some, Option.some.injEq, Prod.mk.injEq] at h
    obtain ⟨_, _, rfl⟩ := h
    simp [capacity]

end SlotTable
end RemoteDebug
