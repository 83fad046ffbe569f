import RemoteDebug.Kernel.Call
import RemoteDebug.Kernel.Memory

/-!
# Kernel objects

The objects behind the debugger's capabilities, and the history of the calls made on them. Any object may refuse any
call: whether it does is a function of the number of calls made before and of the call, so that every pattern of
failures is some kernel. A call that is refused changes nothing but the history.
-/

namespace RemoteDebug.Kernel

/-- An address space. -/
structure Space where
  memory : Memory
  refuses : Nat → SpaceCall → Bool

/-- A thread: its registers, its debug slots, and how it is scheduled. -/
structure Tcb where
  registers : Cpu.Registers
  slot? : Nat → Option Cpu.Trigger
  stepping : Bool
  suspended : Bool
  refuses : Nat → ThreadCall → Bool

/-- What a call does to a thread that does not refuse it. -/
def Tcb.perform (t : Tcb) : ThreadCall → Tcb
  | .readRegisters => t
  | .writeRegisters registers => { t with registers }
  | .setSlot slot trigger => { t with slot? := fun i => if i = slot then some trigger else t.slot? i }
  | .clearSlot slot => { t with slot? := fun i => if i = slot then none else t.slot? i }
  | .singleStep on => { t with stepping := on }
  | .suspend => { t with suspended := true }
  | .resume => { t with suspended := false }

/-- A thread that was never touched and refuses nothing. -/
def Tcb.fresh : Tcb := ⟨Cpu.Registers.zero, fun _ => none, false, false, fun _ _ => false⟩

/-- An address space with nothing mapped that refuses nothing. -/
def Space.fresh : Space := ⟨Memory.empty, fun _ _ => false⟩

end Kernel

/-- All objects, and the calls made so far, the earliest first. -/
structure Kernel where
  spaces : List Kernel.Space
  threads : List Kernel.Tcb
  history : Array Kernel.Record

namespace Kernel

/-- No objects yet. -/
def empty : Kernel := ⟨[], [], #[]⟩

/-- Remembers a call. -/
def record (k : Kernel) (call : Call) (done : Bool) : Kernel := { k with history := k.history.push ⟨call, done⟩ }

/-- Makes an address space. -/
def addSpace (k : Kernel) (space : Space) : SpaceCap × Kernel :=
  (k.spaces.length, { k with spaces := k.spaces ++ [space] })

/-- Makes a thread. -/
def addThread (k : Kernel) (tcb : Tcb) : ThreadCap × Kernel :=
  (k.threads.length, { k with threads := k.threads ++ [tcb] })

/-- Whether a thread would do a call if it were the next one. -/
def accepts (k : Kernel) (cap : ThreadCap) (call : ThreadCall) : Bool :=
  match k.threads[cap]? with
  | some tcb => !tcb.refuses k.history.size call
  | none => false

/-- Makes a call on a thread; true if it is done. -/
def callThread (k : Kernel) (cap : ThreadCap) (call : ThreadCall) : Bool × Kernel :=
  if k.accepts cap call then
    (true, { k with threads := k.threads.modify cap (·.perform call) }.record (.thread cap call) true)
  else (false, k.record (.thread cap call) false)

/-- Reads the registers of a thread. -/
def readRegisters (k : Kernel) (cap : ThreadCap) : Option Cpu.Registers × Kernel :=
  match k.callThread cap .readRegisters with
  | (true, k) => (k.threads[cap]?.map (·.registers), k)
  | (false, k) => (none, k)

/-- The word that a read would give if it were the next call. -/
def peekWord (k : Kernel) (cap : SpaceCap) (addr : UInt64) (call : SpaceCall) : Option UInt64 :=
  match k.spaces[cap]? with
  | some space => if space.refuses k.history.size call then none else space.memory.word? addr
  | none => none

/-- Reads a word. -/
def readWord (k : Kernel) (cap : SpaceCap) (addr : UInt64) : Option UInt64 × Kernel :=
  let word := k.peekWord cap addr (.read addr)
  (word, k.record (.space cap (.read addr)) word.isSome)

/-- Writes a word, all of whose bytes must be mapped; true if it is done. -/
def writeWord (k : Kernel) (cap : SpaceCap) (addr word : UInt64) : Bool × Kernel :=
  let call := SpaceCall.write addr word
  if (k.peekWord cap addr call).isSome then
    let after := { k with spaces := k.spaces.modify cap fun s => { s with memory := s.memory.storeWord addr word } }
    (true, after.record (.space cap call) true)
  else (false, k.record (.space cap call) false)

/-- Makes the same call on threads in turn, whether it is done or not. -/
def callEach (k : Kernel) (call : ThreadCall) : List ThreadCap → Kernel
  | [] => k
  | cap :: rest => (k.callThread cap call).2.callEach call rest

/-- Makes the same call on threads in turn; true if every one does it. -/
def callAll (k : Kernel) (call : ThreadCall) : List ThreadCap → Bool × Kernel
  | [] => (true, k)
  | cap :: rest =>
    let (done, k) := k.callThread cap call
    let (others, k) := k.callAll call rest
    (done && others, k)

end Kernel
end RemoteDebug
