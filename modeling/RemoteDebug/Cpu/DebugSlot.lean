/-!
# Debug slots

The processor has ten numbered debug slots: six that stop at an instruction and four that stop at a data access. What a
slot stops at is a trigger, and the trigger's condition says which slots can hold it.
-/

namespace RemoteDebug.Cpu

/-- The kinds of data access that a slot can stop at. -/
inductive Access
  | write
  | read
  | readWrite
  deriving DecidableEq, Repr

/-- What must happen at the address of a trigger. -/
inductive Condition
  | fetch
  | data (access : Access) (size : UInt64)
  deriving DecidableEq, Repr

/-- What a debug slot stops at. -/
structure Trigger where
  addr : UInt64
  condition : Condition
  deriving DecidableEq, Repr

/-- The number of debug slots. -/
def slotCount : Nat := 10

/-- The slots that can hold a trigger of this condition, the preferred one first. -/
def Condition.slots : Condition → List Nat
  | .fetch => [0, 1, 2, 3, 4, 5]
  | .data _ _ => [6, 7, 8, 9]

/-- Whether the processor can watch for this condition: data accesses of one, two, four or eight bytes. -/
def Condition.supported : Condition → Bool
  | .fetch => true
  | .data _ size => size = 1 || size = 2 || size = 4 || size = 8

end RemoteDebug.Cpu
