import RemoteDebug.Ascii
import RemoteDebug.Hex.Digit

/-!
# Names of registered threads

A registered thread is named by the process id of its inferior and its own thread id, written `p<pid>.<tid>`.
-/

namespace RemoteDebug

/-- The name of a registered thread. -/
structure Ptid where
  pid : Nat
  tid : Nat
  deriving DecidableEq, Repr

/-- The written form of a thread name, both ids in as few hexadecimal digits as they need. -/
def Ptid.render (t : Ptid) : List UInt8 :=
  ascii "p" ++ Hex.compact t.pid ++ ascii "." ++ Hex.compact t.tid

end RemoteDebug
