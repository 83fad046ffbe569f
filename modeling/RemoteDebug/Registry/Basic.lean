import RemoteDebug.Breakpoint.Table
import RemoteDebug.Kernel.Call
import RemoteDebug.SlotTable
import RemoteDebug.Thread.Id
import RemoteDebug.Thread.Ptid

/-!
# The registry

The registry knows the inferiors under debug and their threads by ids of its own, which are never given twice, and which
of the threads is selected. Inferiors and threads also have native ids, which only the kernel understands.
-/

namespace RemoteDebug

/-- A thread under debug. `wakeup` says that it is to run when the client next lets threads run. -/
structure Thread where
  native : UInt64
  cap : Kernel.ThreadCap
  wakeup : Bool
  stepping : Bool
  deriving DecidableEq, Repr

/-- A protection domain under debug. -/
structure Inferior where
  native : UInt64
  space : Kernel.SpaceCap
  threads : SlotTable Thread
  breakpoints : BreakpointTable
  deriving DecidableEq, Repr

/-- The capabilities of an inferior's threads. -/
def Inferior.caps (inf : Inferior) : List Kernel.ThreadCap := inf.threads.toList.map (·.2.cap)

/-- Why the registry did not change. -/
inductive RegistryError
  | full
  | alreadyRegistered
  | unknownInferior
  | unknownThread
  | debugSlots
  deriving DecidableEq, Repr

/-- The wording of the failure. -/
def RegistryError.message : RegistryError → String
  | .full => "no free registry slot"
  | .alreadyRegistered => "native id is already registered"
  | .unknownInferior => "unknown inferior"
  | .unknownThread => "unknown thread"
  | .debugSlots => "could not program debug slots onto the thread"

/-- Everything under debug, and how much more there may be. -/
structure Registry where
  inferiors : SlotTable Inferior
  maxThreads : Nat
  maxPatches : Nat
  current : Option Ptid
  deriving DecidableEq, Repr

namespace Registry

/-- Nothing under debug. -/
def empty (maxInferiors maxThreads maxPatches : Nat) : Registry :=
  ⟨SlotTable.empty maxInferiors, maxThreads, maxPatches, none⟩

/-! ## Looking up -/

/-- The inferior with a process id. -/
def inferior? (r : Registry) (pid : Nat) : Option Inferior := r.inferiors.get? pid

/-- The thread of a name. -/
def thread? (r : Registry) (t : Ptid) : Option Thread := (r.inferior? t.pid).bind (·.threads.get? t.tid)

/-- The process id of the inferior with a native id. -/
def findInferior? (r : Registry) (native : UInt64) : Option Nat :=
  (r.inferiors.toList.find? fun (_, inf) => inf.native = native).map Prod.fst

/-- The name of the thread with a native id in the inferior with a native id. -/
def findThread? (r : Registry) (inferior thread : UInt64) : Option Ptid :=
  match r.findInferior? inferior with
  | none => none
  | some pid =>
    match r.inferior? pid with
    | none => none
    | some inf => (inf.threads.toList.find? fun (_, t) => t.native = thread).map fun (tid, _) => ⟨pid, tid⟩

/-- The names of all threads, inferior by inferior in the order of the slots. -/
def threads (r : Registry) : List Ptid :=
  r.inferiors.toList.flatMap fun (pid, inf) => inf.threads.ids.map fun tid => ⟨pid, tid⟩

/-- The capabilities of all threads, in the same order. -/
def caps (r : Registry) : List Kernel.ThreadCap := r.inferiors.toList.flatMap fun (_, inf) => inf.caps

/-- The selected inferior. -/
def currentInferior? (r : Registry) : Option (Nat × Inferior) :=
  r.current.bind fun t => (r.inferior? t.pid).map (t.pid, ·)

/-- The selected thread. -/
def currentThread? (r : Registry) : Option Thread := r.current.bind r.thread?

/-- The inferior that a thread id refers to: the one it names; otherwise the selected one, or the first. -/
def processOf? (r : Registry) (id : ThreadId) : Option Nat :=
  match id.process with
  | some (.only pid) => some pid
  | _ =>
    match r.current with
    | some t => some t.pid
    | none => r.inferiors.ids.head?

/-- The thread that a thread id refers to: the one it names, or the first of its inferior. -/
def resolve? (r : Registry) (id : ThreadId) : Option Ptid :=
  match r.processOf? id with
  | none => none
  | some pid =>
    match r.inferior? pid with
    | none => none
    | some inf =>
      match id.thread with
      | .only tid => (inf.threads.get? tid).map fun _ => ⟨pid, tid⟩
      | .any | .all => inf.threads.ids.head?.map fun tid => ⟨pid, tid⟩

/-! ## Changing -/

/-- Selects a thread. -/
def select (r : Registry) (t : Ptid) : Registry := { r with current := some t }

/-- Changes one inferior. -/
def modifyInferior (r : Registry) (pid : Nat) (f : Inferior → Inferior) : Registry :=
  { r with inferiors := r.inferiors.modify pid f }

/-- Changes one thread. -/
def modifyThread (r : Registry) (t : Ptid) (f : Thread → Thread) : Registry :=
  r.modifyInferior t.pid fun inf => { inf with threads := inf.threads.modify t.tid f }

/-- Changes every thread. -/
def mapThreads (r : Registry) (f : Ptid → Thread → Thread) : Registry :=
  { r with inferiors := r.inferiors.mapLive fun pid inf =>
      { inf with threads := inf.threads.mapLive fun tid t => f ⟨pid, tid⟩ t } }

/-- Registers an inferior and gives it a process id. -/
def addInferior (r : Registry) (native : UInt64) (space : Kernel.SpaceCap) : Except RegistryError (Nat × Registry) :=
  if (r.findInferior? native).isSome then .error .alreadyRegistered
  else
    match r.inferiors.insert? ⟨native, space, SlotTable.empty r.maxThreads, BreakpointTable.empty r.maxPatches⟩ with
    | none => .error .full
    | some (pid, inferiors) => .ok (pid, { r with inferiors })

/-- Lets go of an inferior and all of its threads; if one of them was selected, the first thread left is. -/
def disable (r : Registry) (pid : Nat) : Except RegistryError Registry :=
  match r.inferior? pid with
  | none => .error .unknownInferior
  | some _ =>
    let r := { r with inferiors := r.inferiors.retire pid }
    .ok (if r.current.any (·.pid = pid) then { r with current := r.threads.head? } else r)

/-- Lets go of a thread; if it was selected, the first thread left is. -/
def exit (r : Registry) (t : Ptid) : Except RegistryError Registry :=
  match r.inferior? t.pid with
  | none => .error .unknownInferior
  | some inf =>
    match inf.threads.get? t.tid with
    | none => .error .unknownThread
    | some _ =>
      let r := r.modifyInferior t.pid fun inf => { inf with threads := inf.threads.retire t.tid }
      .ok (if r.current = some t then { r with current := r.threads.head? } else r)

end Registry
end RemoteDebug
