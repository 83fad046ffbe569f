import RemoteDebug.Breakpoint.Table
import RemoteDebug.Kernel.Basic

/-!
# Triggers in debug slots

A trigger is set on all threads of an inferior or on none: the first thread that refuses it makes those before it clear
the slot again. A trigger that is removed frees its slot first, and every thread is asked to clear it whatever the
others say. A new thread takes over all triggers in use or none.
-/

namespace RemoteDebug

namespace Kernel

/-- Sets a slot on threads in turn, and clears it on those in `done` again once one refuses; true if none does. -/
def setSlotOnAll (slot : Nat) (trigger : Cpu.Trigger) : (done pending : List ThreadCap) → Kernel → Bool × Kernel
  | _, [], k => (true, k)
  | done, cap :: pending, k =>
    match k.callThread cap (.setSlot slot trigger) with
    | (true, k) => setSlotOnAll slot trigger (done ++ [cap]) pending k
    | (false, k) => (false, k.callEach (.clearSlot slot) done)

/-- Clears slots of a thread in turn. -/
def clearSlots (cap : ThreadCap) : List Nat → Kernel → Kernel
  | [], k => k
  | slot :: rest, k => clearSlots cap rest (k.callThread cap (.clearSlot slot)).2

/-- Sets slots of a thread in turn, and clears those in `done` again once it refuses one; true if it does not. -/
def setSlots (cap : ThreadCap) : (done : List Nat) → (pending : List (Nat × Cpu.Trigger)) → Kernel →
    Bool × Kernel
  | _, [], k => (true, k)
  | done, (slot, trigger) :: pending, k =>
    match k.callThread cap (.setSlot slot trigger) with
    | (true, k) => setSlots cap (done ++ [slot]) pending k
    | (false, k) => (false, clearSlots cap done k)

end Kernel

namespace BreakpointTable

/-- Sets a trigger on all threads; one that is set already is left alone. -/
def insertTrigger (t : BreakpointTable) (threads : List Kernel.ThreadCap) (trigger : Cpu.Trigger) (k : Kernel) :
    Except BreakpointError Unit × BreakpointTable × Kernel :=
  if trigger.addr = 0 then (.error .zeroAddress, t, k)
  else if !trigger.condition.supported then (.error .invalidSize, t, k)
  else if (t.slotOf? trigger).isSome then (.ok (), t, k)
  else
    match t.freeSlot? trigger.condition with
    | none => (.error .noFreeSlot, t, k)
    | some slot =>
      match k.setSlotOnAll slot trigger [] threads with
      | (true, k) => (.ok (), t.setSlot slot (some trigger), k)
      | (false, k) => (.error .thread, t, k)

/-- Removes a trigger from all threads. -/
def removeTrigger (t : BreakpointTable) (threads : List Kernel.ThreadCap) (trigger : Cpu.Trigger) (k : Kernel) :
    Except BreakpointError Unit × BreakpointTable × Kernel :=
  match t.slotOf? trigger with
  | none => (.error .notFound, t, k)
  | some slot =>
    match k.callAll (.clearSlot slot) threads with
    | (true, k) => (.ok (), t.setSlot slot none, k)
    | (false, k) => (.error .thread, t.setSlot slot none, k)

/-- Removes triggers in turn, whether the threads go along or not. -/
def removeTriggers (threads : List Kernel.ThreadCap) :
    List Cpu.Trigger → BreakpointTable → Kernel → BreakpointTable × Kernel
  | [], t, k => (t, k)
  | trigger :: rest, t, k =>
    let (_, t, k) := t.removeTrigger threads trigger k
    removeTriggers threads rest t k

/-- Sets all triggers in use on a new thread; true if it takes them. -/
def programThread (t : BreakpointTable) (cap : Kernel.ThreadCap) (k : Kernel) : Bool × Kernel :=
  k.setSlots cap [] t.triggers

end BreakpointTable
end RemoteDebug
