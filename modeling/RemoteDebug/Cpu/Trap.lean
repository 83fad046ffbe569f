import RemoteDebug.LittleEndian

/-!
# The trap instruction

A software breakpoint puts a trap over the instruction at the lowest address of a word. An instruction has four bytes,
so the other four bytes of the word stay as they are, both when the trap goes in and when the instruction comes back.
-/

namespace RemoteDebug.Cpu

/-- The break instruction that debuggers use, `BRK #0x400`. -/
def trap : UInt32 := 0xd4208000

/-- The number of bytes of an instruction, the only size of an instruction breakpoint. -/
def instructionSize : UInt64 := 4

/-- The word with `instruction` at its lowest address. -/
def overlay (instruction : List UInt8) (word : UInt64) : UInt64 :=
  LittleEndian.toWord (instruction ++ (LittleEndian.ofWord word).drop 4)

/-- The word with the trap at its lowest address. -/
def insertTrap (word : UInt64) : UInt64 := overlay (LittleEndian.encode 4 trap.toNat) word

/-- The word with the first instruction of `covered` back at its lowest address. -/
def removeTrap (word covered : UInt64) : UInt64 := overlay ((LittleEndian.ofWord covered).take 4) word

end RemoteDebug.Cpu
