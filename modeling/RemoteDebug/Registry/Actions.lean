import RemoteDebug.Command.Basic
import RemoteDebug.Registry.Debuggee

/-!
# Resumption actions

The actions of a resumption are applied from the left, and the first action that names a thread decides about it. An
action also decides, until a later one does, about all threads that none has named: they run if it continues, and stay
stopped if it steps.
-/

namespace RemoteDebug

/-- The threads that an action names. -/
def Registry.targets (r : Registry) : Option ThreadId → List Ptid
  | none => r.threads
  | some ⟨some .all, _⟩ => r.threads
  | some ⟨none, .all⟩ => r.threads
  | some ⟨some (.only pid), .all⟩ => r.threads.filter (·.pid = pid)
  | some id => (r.resolve? id).toList

namespace Debuggee

/-- Makes a thread wake up, stepping or not. -/
def applyMotion (d : Debuggee) (t : Ptid) (motion : Motion) : Debuggee :=
  (d.onThread t fun thread k =>
    let (_, thread, k) := thread.setStepping motion.isStep k
    ((), { thread with wakeup := true }, k)).2

/-- Applies a motion to those of the targets that no action has named yet, and adds them to the named ones. -/
def applyTargets (motion : Motion) : (targets named : List Ptid) → Debuggee → List Ptid × Debuggee
  | [], named, d => (named, d)
  | t :: rest, named, d =>
    if t ∈ named ∨ d.registry.thread? t = none then applyTargets motion rest named d
    else applyTargets motion rest (named ++ [t]) (d.applyMotion t motion)

/-- Applies actions in turn. -/
def applyActions : (actions : List Action) → (named : List Ptid) → Debuggee → Debuggee
  | [], _, d => d
  | action :: rest, named, d =>
    let registry := d.registry.mapThreads fun t thread =>
      if t ∈ named then thread else { thread with wakeup := !action.motion.isStep }
    let (named, d) := applyTargets action.motion (registry.targets action.threads) named { d with registry }
    applyActions rest named d

/-- Removes all debug state, and lets every thread run. -/
def release (d : Debuggee) : Debuggee :=
  let d := d.clearDebugState
  resumeWoken { d with registry := d.registry.mapThreads fun _ thread => { thread with wakeup := true } }

end Debuggee
end RemoteDebug
