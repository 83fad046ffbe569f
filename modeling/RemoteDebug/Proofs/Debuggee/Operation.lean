import RemoteDebug.Kernel.Transfer
import RemoteDebug.Registry.Actions

/-!
# Operations on a debuggee

Everything that can be done to what is under debug, as data (`Operation`), and what it does (`Debuggee.perform`). A
thread or an address space comes with the operation that hands it over, so that no two registrations share one. A run
is a list of operations performed in turn (`Debuggee.performAll`).
-/

namespace RemoteDebug

/-- What can be done to a debuggee. `makeThread` and `program` make a thread that is never registered; the second sets
the triggers of an inferior on it. -/
inductive Operation
  | makeThread (tcb : Kernel.Tcb)
  | addInferior (native : UInt64) (space : Kernel.Space)
  | addThread (pid : Nat) (native : UInt64) (tcb : Kernel.Tcb)
  | disable (pid : Nat)
  | exit (thread : Ptid)
  | select (thread : Ptid)
  | insertPatch (pid : Nat) (addr : UInt64)
  | removePatch (pid : Nat) (addr : UInt64)
  | insertTrigger (pid : Nat) (trigger : Cpu.Trigger)
  | removeTrigger (pid : Nat) (trigger : Cpu.Trigger)
  | clear (pid : Nat)
  | program (pid : Nat) (tcb : Kernel.Tcb)
  | setStepping (thread : Ptid) (on : Bool)
  | setWakeup (thread : Ptid) (on : Bool)
  | suspendAll
  | resumeWoken
  | act (actions : List Action)
  | release
  | readRegisters (cap : Kernel.ThreadCap)
  | writeRegisters (cap : Kernel.ThreadCap) (registers : Cpu.Registers)
  | readMemory (space : Kernel.SpaceCap) (addr length : Nat)
  | writeMemory (space : Kernel.SpaceCap) (addr : Nat) (data : List UInt8)

/-- The operations of commands that leave alone which threads there are and which of them run. -/
def Operation.Quiet : Operation → Prop
  | .select _ | .insertPatch _ _ | .removePatch _ _ | .insertTrigger _ _ | .removeTrigger _ _ | .readRegisters _
  | .writeRegisters _ _ | .readMemory _ _ _ | .writeMemory _ _ _ => True
  | _ => False

/-- The thread that an operation hands over. -/
def Operation.tcb? : Operation → Option Kernel.Tcb
  | .makeThread tcb | .addThread _ _ tcb | .program _ tcb => some tcb
  | _ => none

namespace Debuggee

/-- Nothing under debug, and no kernel objects. -/
def empty (maxInferiors maxThreads maxPatches : Nat) : Debuggee :=
  ⟨Registry.empty maxInferiors maxThreads maxPatches, Kernel.empty⟩

/-- Makes a kernel object for a thread; the result is its capability. -/
def makeThread (d : Debuggee) (tcb : Kernel.Tcb) : Kernel.ThreadCap × Debuggee :=
  let (cap, kernel) := d.kernel.addThread tcb
  (cap, { d with kernel })

/-- Makes an address space; the result is its capability. -/
def makeSpace (d : Debuggee) (space : Kernel.Space) : Kernel.SpaceCap × Debuggee :=
  let (cap, kernel) := d.kernel.addSpace space
  (cap, { d with kernel })

/-- Sets the triggers of an inferior on a thread that is not registered. -/
def programThread (d : Debuggee) (pid : Nat) (cap : Kernel.ThreadCap) : Debuggee :=
  match d.registry.inferior? pid with
  | none => d
  | some inf => { d with kernel := (inf.breakpoints.programThread cap d.kernel).2 }

/-- Does an operation; its result is not looked at. -/
def perform (d : Debuggee) : Operation → Debuggee
  | .makeThread tcb => (d.makeThread tcb).2
  | .addInferior native space =>
    let (cap, d) := d.makeSpace space
    (d.addInferior native cap).2
  | .addThread pid native tcb =>
    let (cap, d) := d.makeThread tcb
    (d.addThread pid native cap).2
  | .disable pid => (d.disable pid).2
  | .exit t => (d.exit t).2
  | .select t => d.select t
  | .insertPatch pid addr => (d.onInferior pid (·.insertPatch addr)).2
  | .removePatch pid addr => (d.onInferior pid (·.removePatch addr)).2
  | .insertTrigger pid trigger => (d.onInferior pid (·.insertTrigger trigger)).2
  | .removeTrigger pid trigger => (d.onInferior pid (·.removeTrigger trigger)).2
  | .clear pid => (d.onInferior pid fun inf k => ((), inf.clearDebugState k)).2
  | .program pid tcb =>
    let (cap, d) := d.makeThread tcb
    d.programThread pid cap
  | .setStepping t on => (d.onThread t fun thread k => thread.setStepping on k).2
  | .setWakeup t on => (d.onThread t fun thread k => ((), { thread with wakeup := on }, k)).2
  | .suspendAll => d.suspendAll
  | .resumeWoken => d.resumeWoken
  | .act actions => applyActions actions [] d
  | .release => d.release
  | .readRegisters cap => { d with kernel := (d.kernel.readRegisters cap).2 }
  | .writeRegisters cap registers => { d with kernel := (d.kernel.callThread cap (.writeRegisters registers)).2 }
  | .readMemory space addr length => { d with kernel := (d.kernel.readBytes space addr length).2 }
  | .writeMemory space addr data => { d with kernel := (d.kernel.writeBytes space addr data).2 }

/-- Does operations in turn. -/
def performAll (d : Debuggee) (ops : List Operation) : Debuggee := ops.foldl perform d

@[simp] theorem performAll_nil (d : Debuggee) : d.performAll [] = d := rfl

@[simp] theorem performAll_cons (d : Debuggee) (op : Operation) (ops : List Operation) :
    d.performAll (op :: ops) = (d.perform op).performAll ops := rfl

theorem performAll_append (d : Debuggee) (a b : List Operation) :
    d.performAll (a ++ b) = (d.performAll a).performAll b := List.foldl_append

end Debuggee
end RemoteDebug
