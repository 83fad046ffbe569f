import RemoteDebug.Breakpoint.Patch
import RemoteDebug.Breakpoint.Trigger
import RemoteDebug.Registry.Basic

/-!
# The debuggee

The registry together with the kernel whose objects it holds capabilities for. Whatever calls a capability is an
operation on both.
-/

namespace RemoteDebug

/-! ## Threads -/

/-- Turns single-stepping on or off: whether that changed anything, or nothing if the thread refuses. -/
def Thread.setStepping (t : Thread) (on : Bool) (k : Kernel) : Option Bool × Thread × Kernel :=
  if t.stepping = on then (some false, t, k)
  else
    match k.callThread t.cap (.singleStep on) with
    | (true, k) => (some true, { t with stepping := on }, k)
    | (false, k) => (none, t, k)

/-- Lets a thread run if it is to wake up. -/
def Thread.wake (t : Thread) (k : Kernel) : Thread × Kernel :=
  if t.wakeup then ({ t with wakeup := false }, (k.callThread t.cap .resume).2) else (t, k)

/-! ## Inferiors -/

namespace Inferior

/-- Applies an operation on breakpoint tables to an inferior. -/
def onTable {α : Type} (inf : Inferior) (k : Kernel)
    (op : BreakpointTable → Kernel → α × BreakpointTable × Kernel) : α × Inferior × Kernel :=
  let (result, breakpoints, k) := op inf.breakpoints k
  (result, { inf with breakpoints }, k)

/-- Sets a software breakpoint. -/
def insertPatch (inf : Inferior) (addr : UInt64) (k : Kernel) : Except BreakpointError Unit × Inferior × Kernel :=
  inf.onTable k fun t k => t.insertPatch inf.space addr k

/-- Removes a software breakpoint. -/
def removePatch (inf : Inferior) (addr : UInt64) (k : Kernel) : Except BreakpointError Unit × Inferior × Kernel :=
  inf.onTable k fun t k => t.removePatch inf.space addr k

/-- Sets a hardware breakpoint or a watchpoint. -/
def insertTrigger (inf : Inferior) (trigger : Cpu.Trigger) (k : Kernel) :
    Except BreakpointError Unit × Inferior × Kernel :=
  inf.onTable k fun t k => t.insertTrigger inf.caps trigger k

/-- Removes a hardware breakpoint or a watchpoint. -/
def removeTrigger (inf : Inferior) (trigger : Cpu.Trigger) (k : Kernel) :
    Except BreakpointError Unit × Inferior × Kernel :=
  inf.onTable k fun t k => t.removeTrigger inf.caps trigger k

/-- Removes every breakpoint and ends single-stepping on every thread, as far as memory and threads go along. -/
def clearDebugState (inf : Inferior) (k : Kernel) : Inferior × Kernel :=
  let table := inf.breakpoints
  let (table, k) := BreakpointTable.removePatches inf.space (table.patchList.map (·.addr)) table k
  let (table, k) := BreakpointTable.removeTriggers inf.caps (table.triggers.map (·.2)) table k
  let (threads, k) := inf.threads.visit (fun _ t k => (t.setStepping false k).2) k
  ({ inf with breakpoints := table, threads }, k)

end Inferior

/-! ## All of it -/

/-- What is under debug, and the kernel it lives in. -/
structure Debuggee where
  registry : Registry
  kernel : Kernel

namespace Debuggee

/-- Applies an operation to one inferior; nothing happens if there is none. -/
def onInferior {α : Type} (d : Debuggee) (pid : Nat) (op : Inferior → Kernel → α × Inferior × Kernel) :
    Option α × Debuggee :=
  match d.registry.inferior? pid with
  | none => (none, d)
  | some inf =>
    let (result, inf, kernel) := op inf d.kernel
    (some result, { d with registry := d.registry.modifyInferior pid fun _ => inf, kernel })

/-- Applies an operation to one thread; nothing happens if there is none. -/
def onThread {α : Type} (d : Debuggee) (t : Ptid) (op : Thread → Kernel → α × Thread × Kernel) :
    Option α × Debuggee :=
  match d.registry.thread? t with
  | none => (none, d)
  | some thread =>
    let (result, thread, kernel) := op thread d.kernel
    (some result, { d with registry := d.registry.modifyThread t fun _ => thread, kernel })

/-- Registers an inferior. -/
def addInferior (d : Debuggee) (native : UInt64) (space : Kernel.SpaceCap) : Except RegistryError Nat × Debuggee :=
  match d.registry.addInferior native space with
  | .error e => (.error e, d)
  | .ok (pid, registry) => (.ok pid, { d with registry })

/-- Registers a thread, once all triggers of its inferior are set on it. The first thread of all is selected. -/
def addThread (d : Debuggee) (pid : Nat) (native : UInt64) (cap : Kernel.ThreadCap) :
    Except RegistryError Ptid × Debuggee :=
  match d.registry.inferior? pid with
  | none => (.error .unknownInferior, d)
  | some inf =>
    if inf.threads.toList.any fun (_, t) => t.native = native then (.error .alreadyRegistered, d)
    else if inf.threads.isFull then (.error .full, d)
    else
      match inf.breakpoints.programThread cap d.kernel with
      | (false, kernel) => (.error .debugSlots, { d with kernel })
      | (true, kernel) =>
        match inf.threads.insert? ⟨native, cap, false, false⟩ with
        | none => (.error .full, { d with kernel })
        | some (tid, threads) =>
          let name : Ptid := ⟨pid, tid⟩
          let registry := d.registry.modifyInferior pid fun inf => { inf with threads }
          (.ok name, { registry := if registry.current.isNone then registry.select name else registry, kernel })

/-- Lets go of an inferior. -/
def disable (d : Debuggee) (pid : Nat) : Except RegistryError Unit × Debuggee :=
  match d.registry.disable pid with
  | .error e => (.error e, d)
  | .ok registry => (.ok (), { d with registry })

/-- Lets go of a thread. -/
def exit (d : Debuggee) (t : Ptid) : Except RegistryError Unit × Debuggee :=
  match d.registry.exit t with
  | .error e => (.error e, d)
  | .ok registry => (.ok (), { d with registry })

/-- Selects a thread. -/
def select (d : Debuggee) (t : Ptid) : Debuggee := { d with registry := d.registry.select t }

/-- Asks every thread to stop, whether it does or not. -/
def suspendAll (d : Debuggee) : Debuggee := { d with kernel := d.kernel.callEach .suspend d.registry.caps }

/-- Visits every thread in turn, with the kernel at hand. -/
def visitThreads (d : Debuggee) (f : Thread → Kernel → Thread × Kernel) : Debuggee :=
  let (inferiors, kernel) := d.registry.inferiors.visit (fun _ inf k =>
    let (threads, k) := inf.threads.visit (fun _ t k => f t k) k
    ({ inf with threads }, k)) d.kernel
  { registry := { d.registry with inferiors }, kernel }

/-- Lets every thread run that is to wake up. -/
def resumeWoken (d : Debuggee) : Debuggee := d.visitThreads Thread.wake

/-- Removes the breakpoints of every inferior and ends all single-stepping. -/
def clearDebugState (d : Debuggee) : Debuggee :=
  let (inferiors, kernel) := d.registry.inferiors.visit (fun _ inf k => inf.clearDebugState k) d.kernel
  { registry := { d.registry with inferiors }, kernel }

end Debuggee
end RemoteDebug
