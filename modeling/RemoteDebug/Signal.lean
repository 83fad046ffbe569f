/-!
# Signals

Stop replies carry a signal number. Only three numbers are ever sent, and only they have a description of their own.
-/

namespace RemoteDebug

/-- A signal number of the protocol. -/
structure Signal where
  number : UInt8
  deriving DecidableEq, Repr

namespace Signal

/-- The client asked for a stop. -/
def interrupt : Signal := ⟨2⟩

/-- A breakpoint or a finished step. -/
def trap : Signal := ⟨5⟩

/-- A fault that is none of the debugger's doing. -/
def abort : Signal := ⟨6⟩

/-- A description for people. -/
def describe (s : Signal) : String :=
  if s = interrupt then "SIGINT - Interrupt"
  else if s = trap then "SIGTRAP - Trace/breakpoint trap"
  else if s = abort then "SIGABRT - Aborted"
  else "signal " ++ toString s.number.toNat

end Signal
end RemoteDebug
