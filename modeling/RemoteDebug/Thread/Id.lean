import RemoteDebug.Ascii
import RemoteDebug.Field
import RemoteDebug.Hex.Number

/-!
# Thread ids in commands

A command names threads by a thread id: an id of its own, or a process id after `p`, with or without a thread id behind
a dot. Either part may be the wildcard `-1` (all) or `0` (any). A process id alone means all of its threads.
-/

namespace RemoteDebug

/-- One part of a thread id. -/
inductive Selector
  | all
  | any
  | only (id : Nat)
  deriving DecidableEq, Repr

/-- A thread id, the process left out where the command leaves it out. -/
structure ThreadId where
  process : Option Selector
  thread : Selector
  deriving DecidableEq, Repr

/-- Reads a wildcard or a number other than zero. -/
def Selector.parse? (field : List UInt8) : Option Selector :=
  if field = ascii "-1" then some .all
  else if field = ascii "0" then some .any
  else
    match Hex.number? field with
    | some (id + 1) => some (.only (id + 1))
    | _ => none

/-- Reads a thread id. -/
def ThreadId.parse? (field : List UInt8) : Option ThreadId :=
  match field with
  | [] => none
  | b :: rest =>
    if b = 'p'.toUInt8 then
      match cut (· == '.'.toUInt8) rest with
      | (pid, none) => (Selector.parse? pid).map fun p => ⟨some p, .all⟩
      | (pid, some tid) =>
        match Selector.parse? pid, Selector.parse? tid with
        | some p, some t => some ⟨some p, t⟩
        | _, _ => none
    else (Selector.parse? field).map fun t => ⟨none, t⟩

end RemoteDebug
