import RemoteDebug.Cpu.DebugSlot
import RemoteDebug.Cpu.Registers

/-!
# Capability calls

The debugger touches an inferior only through calls on capabilities. A capability is the number of a kernel object; a
call names the object and what is asked of it, and is remembered together with its outcome.
-/

namespace RemoteDebug.Kernel

/-- The number of an address space object. -/
abbrev SpaceCap := Nat

/-- The number of a thread object. -/
abbrev ThreadCap := Nat

/-- What can be asked of an address space. -/
inductive SpaceCall
  | read (addr : UInt64)
  | write (addr word : UInt64)
  deriving DecidableEq, Repr

/-- What can be asked of a thread. -/
inductive ThreadCall
  | readRegisters
  | writeRegisters (registers : Cpu.Registers)
  | setSlot (slot : Nat) (trigger : Cpu.Trigger)
  | clearSlot (slot : Nat)
  | singleStep (on : Bool)
  | suspend
  | resume
  deriving DecidableEq, Repr

/-- A call on some object. -/
inductive Call
  | space (cap : SpaceCap) (call : SpaceCall)
  | thread (cap : ThreadCap) (call : ThreadCall)
  deriving DecidableEq, Repr

/-- A call that was made, and whether it was done. -/
structure Record where
  call : Call
  done : Bool
  deriving DecidableEq, Repr

end RemoteDebug.Kernel
