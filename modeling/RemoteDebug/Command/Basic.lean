import RemoteDebug.Ascii
import RemoteDebug.Thread.Id

/-!
# Commands

A command is a name at the front of a packet's body and an argument after it. `Name.all` lists the names that are known,
in the order in which they are tried; no name comes after a shorter one that begins it (`Name.all_pairwise`).
-/

namespace RemoteDebug

/-- What breakpoint commands are about. -/
inductive BreakpointKind
  | software
  | hardware
  | write
  | read
  | access
  deriving DecidableEq, Repr

/-- The argument of a breakpoint command. `size` is that of an instruction, or of the watched bytes. -/
structure BreakpointSpec where
  kind : BreakpointKind
  addr : UInt64
  size : UInt64
  deriving DecidableEq, Repr

/-- What later commands a selected thread is meant for. -/
inductive Purpose
  | inspect
  | resume
  deriving DecidableEq, Repr

/-- Whether a client has a feature. -/
inductive Support
  | yes
  | no
  | maybe
  deriving DecidableEq, Repr

/-- A feature that a client announces. -/
structure Feature where
  name : List UInt8
  value : Option (List UInt8)
  support : Support
  deriving DecidableEq, Repr

/-- How a thread is to be resumed; the signals that may come along are not delivered. -/
inductive Motion
  | continue
  | continueWith (signal : UInt8)
  | step
  | stepWith (signal : UInt8)
  deriving DecidableEq, Repr

/-- Whether the thread is to stop again after one instruction. -/
def Motion.isStep : Motion → Bool
  | .step | .stepWith _ => true
  | .continue | .continueWith _ => false

/-- One action of a resumption: a motion for the threads named, or for all if none is. -/
structure Action where
  motion : Motion
  threads : Option ThreadId
  deriving DecidableEq, Repr

/-- The command names. -/
inductive CommandName
  | haltReason
  | detach
  | readRegisters
  | writeRegisters
  | selectThread
  | readMemory
  | writeMemory
  | attached
  | currentThread
  | firstThreads
  | nextThreads
  | supported
  | symbols
  | traceStatus
  | threadAlive
  | removeBreakpoint
  | insertBreakpoint
  | resumptions
  | resume
  deriving DecidableEq, Repr

namespace CommandName

/-- The letters of a name. -/
def text : CommandName → String
  | haltReason => "?"
  | detach => "D"
  | readRegisters => "g"
  | writeRegisters => "G"
  | selectThread => "H"
  | readMemory => "m"
  | writeMemory => "M"
  | attached => "qAttached"
  | currentThread => "qC"
  | firstThreads => "qfThreadInfo"
  | nextThreads => "qsThreadInfo"
  | supported => "qSupported"
  | symbols => "qSymbol"
  | traceStatus => "qTStatus"
  | threadAlive => "T"
  | removeBreakpoint => "z"
  | insertBreakpoint => "Z"
  | resumptions => "vCont?"
  | resume => "vCont"

/-- The bytes of a name. -/
def bytes (name : CommandName) : List UInt8 := ascii name.text

/-- All names, a longer one before its beginnings. -/
def all : List CommandName :=
  [haltReason, detach, readRegisters, writeRegisters, selectThread, readMemory, writeMemory, attached, currentThread,
    firstThreads, nextThreads, supported, symbols, traceStatus, threadAlive, removeBreakpoint, insertBreakpoint,
    resumptions, resume]

theorem mem_all (name : CommandName) : name ∈ all := by
  cases name <;> decide

/-- No name follows one that begins it. -/
theorem all_pairwise : all.Pairwise fun first later => ¬ first.bytes <+: later.bytes := by
  decide

end CommandName

/-- A command with its argument. -/
inductive Command
  | haltReason
  | detach (pid : Option Nat)
  | readRegisters
  | writeRegisters (digits : List UInt8)
  | selectThread (purpose : Purpose) (thread : Option ThreadId)
  | readMemory (addr : UInt64) (length : Nat)
  | writeMemory (addr : UInt64) (length : Nat) (digits : List UInt8)
  | attached
  | currentThread
  | firstThreads
  | nextThreads
  | supported (features : List (Option Feature))
  | symbols
  | traceStatus
  | threadAlive (thread : ThreadId)
  | removeBreakpoint (spec : BreakpointSpec)
  | insertBreakpoint (spec : BreakpointSpec)
  | resumptions
  | resume (actions : List (Option Action))
  | unknown (body : List UInt8)
  deriving DecidableEq, Repr

/-- Why a body is no command. -/
inductive CommandError
  | empty
  | malformed (name : CommandName)
  deriving DecidableEq, Repr

end RemoteDebug
