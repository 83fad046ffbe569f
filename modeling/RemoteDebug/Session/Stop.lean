import RemoteDebug.Registry.Basic
import RemoteDebug.Reply.Buffer
import RemoteDebug.Signal

/-!
# Stop replies

What the kernel reports about a thread, a fault, becomes a reason to stop (`StopReason.ofFault`), and every reason has
one written form (`StopReason.pieces`).
-/

namespace RemoteDebug

/-- What the kernel reports about a thread. -/
inductive Fault
  | instructionBreakpoint
  | dataBreakpoint (slot : Nat) (addr : UInt64)
  | singleStep
  | softwareBreak
  | other (label : UInt64)
  deriving DecidableEq, Repr

/-- Whether the kernel waits for an answer before the thread can run again. -/
def Fault.wantsReply : Fault → Bool
  | .other _ => false
  | _ => true

/-- Why threads were stopped. -/
inductive StopReason
  | softwareBreak (thread : Ptid)
  | hardwareBreak (thread : Ptid)
  | watch (thread : Ptid) (access : Cpu.Access) (addr : UInt64)
  | signal (thread : Ptid) (number : Signal)
  | cloned (parent child : Ptid)
  | exited (thread : Ptid)
  deriving DecidableEq, Repr

namespace StopReason

/-- The stop that a fault of a thread leads to. A data breakpoint in a slot that watches for nothing is a plain trap. -/
def ofFault (r : Registry) (thread : Ptid) : Fault → StopReason
  | .softwareBreak => .softwareBreak thread
  | .instructionBreakpoint | .singleStep => .hardwareBreak thread
  | .dataBreakpoint slot addr =>
    match (r.inferior? thread.pid).bind (·.breakpoints.watch? slot) with
    | some (_, access, _) => .watch thread access addr
    | none => .signal thread .trap
  | .other _ => .signal thread .abort

/-- The thread that is selected once the stop has been reported. -/
def thread? : StopReason → Option Ptid
  | .softwareBreak t | .hardwareBreak t | .watch t _ _ | .signal t _ | .cloned t _ => some t
  | .exited _ => none

/-- The beginning of a stop reply about a thread. -/
def header (signal : Signal) (t : Ptid) : List Reply.Piece :=
  [.text (ascii "T"), .hexByte signal.number, .text (ascii "thread:"), .ptid t, .text (ascii ";")]

/-- The name of a watchpoint in a stop reply. -/
def watchName : Cpu.Access → String
  | .write => "watch:"
  | .read => "rwatch:"
  | .readWrite => "awatch:"

/-- The stop reply of a reason. -/
def pieces : StopReason → List Reply.Piece
  | .softwareBreak t => header .trap t ++ [.text (ascii "swbreak:;")]
  | .hardwareBreak t => header .trap t ++ [.text (ascii "hwbreak:;")]
  | .watch t access addr =>
    header .trap t ++ [.text (ascii (watchName access)), .text (Hex.fixed 16 addr.toNat), .text (ascii ";")]
  | .signal t number => header number t
  | .cloned parent child =>
    [.text (ascii "T"), .hexByte Signal.trap.number, .text (ascii "clone:"), .ptid child,
      .text (ascii ";thread:"), .ptid parent, .text (ascii ";")]
  | .exited t => [.text (ascii "w00;"), .ptid t]

end StopReason
end RemoteDebug
