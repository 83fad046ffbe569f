import RemoteDebug.Cpu.DebugSlot

/-!
# Breakpoint tables

Each inferior has a table of its breakpoints: the instructions that a trap was put over, in a limited number of places,
and the triggers in the debug slots. Every thread of the inferior holds the same triggers, so the place of a trigger in
the table is the number of its slot.
-/

namespace RemoteDebug

/-- Why a breakpoint was not set or not removed. -/
inductive BreakpointError
  | zeroAddress
  | invalidSize
  | noFreeSlot
  | notFound
  | memory
  | thread
  deriving DecidableEq, Repr

/-- The wording of the failure. -/
def BreakpointError.message : BreakpointError → String
  | .zeroAddress => "cannot set a breakpoint at address 0"
  | .invalidSize => "unsupported watchpoint size"
  | .noFreeSlot => "no free breakpoint slot"
  | .notFound => "no such breakpoint"
  | .memory => "could not access inferior memory"
  | .thread => "could not program thread debug registers"

/-- A trap in memory, and the word that was read where it went. -/
structure Patch where
  addr : UInt64
  covered : UInt64
  deriving DecidableEq, Repr

/-- The breakpoints of an inferior. -/
structure BreakpointTable where
  patches : List (Option Patch)
  slots : List (Option Cpu.Trigger)
  deriving DecidableEq, Repr

namespace BreakpointTable

/-- No breakpoints, and places for `maxPatches` traps. -/
def empty (maxPatches : Nat) : BreakpointTable :=
  ⟨List.replicate maxPatches none, List.replicate Cpu.slotCount none⟩

/-- The traps in memory. -/
def patchList (t : BreakpointTable) : List Patch := t.patches.filterMap id

/-- The trap at an address, and its place. -/
def patchAt? (t : BreakpointTable) (addr : UInt64) : Option (Nat × Patch) :=
  t.patches.zipIdx.findSome? fun (p, i) =>
    match p with
    | some p => if p.addr = addr then some (i, p) else none
    | none => none

/-- The first place without a trap. -/
def freePatch? (t : BreakpointTable) : Option Nat := t.patches.findIdx? (·.isNone)

/-- Sets or empties the place of a trap. -/
def setPatch (t : BreakpointTable) (index : Nat) (patch : Option Patch) : BreakpointTable :=
  { t with patches := t.patches.set index patch }

/-- Forgets the trap at an address. -/
def forgetPatch (t : BreakpointTable) (addr : UInt64) : BreakpointTable :=
  match t.patchAt? addr with
  | some (i, _) => t.setPatch i none
  | none => t

/-- The trigger in a slot. -/
def trigger? (t : BreakpointTable) (slot : Nat) : Option Cpu.Trigger := t.slots[slot]?.join

/-- The trigger in a slot if it watches for data accesses. -/
def watch? (t : BreakpointTable) (slot : Nat) : Option (UInt64 × Cpu.Access × UInt64) :=
  match t.trigger? slot with
  | some ⟨addr, .data access size⟩ => some (addr, access, size)
  | _ => none

/-- The triggers in use with their slots, in the order of the slots. -/
def triggers (t : BreakpointTable) : List (Nat × Cpu.Trigger) :=
  t.slots.zipIdx.filterMap fun (trigger, slot) => trigger.map (slot, ·)

/-- The slot of a trigger. -/
def slotOf? (t : BreakpointTable) (trigger : Cpu.Trigger) : Option Nat :=
  trigger.condition.slots.find? fun slot => t.slots[slot]? = some (some trigger)

/-- The first unused slot that can hold a trigger of this condition. -/
def freeSlot? (t : BreakpointTable) (condition : Cpu.Condition) : Option Nat :=
  condition.slots.find? fun slot => t.slots[slot]? = some none

/-- Sets or empties a slot. -/
def setSlot (t : BreakpointTable) (slot : Nat) (trigger : Option Cpu.Trigger) : BreakpointTable :=
  { t with slots := t.slots.set slot trigger }

end BreakpointTable
end RemoteDebug
