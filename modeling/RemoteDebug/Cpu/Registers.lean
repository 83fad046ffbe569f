import RemoteDebug.LittleEndian

/-!
# The register file

Thirty-one general registers, the stack pointer, the program counter and the processor state of a 64-bit ARM core. A
client sees them as 268 bytes: the registers in this order, each little-endian (`serialize`, `deserialize?`).
-/

namespace RemoteDebug.Cpu

/-- The core registers of a thread. -/
structure Registers where
  x : Vector UInt64 31
  sp : UInt64
  pc : UInt64
  cpsr : UInt32
  deriving DecidableEq, Repr

namespace Registers

/-- All registers zero. -/
def zero : Registers := ⟨Vector.replicate 31 0, 0, 0, 0⟩

instance : Inhabited Registers := ⟨zero⟩

/-- The number of bytes of a serialized register file. -/
def size : Nat := 268

/-- The register file as the client sees it. -/
def serialize (r : Registers) : List UInt8 :=
  (r.x.toList ++ [r.sp, r.pc]).flatMap LittleEndian.ofWord ++ LittleEndian.encode 4 r.cpsr.toNat

/-- The word that starts at byte `8 * i`. -/
def wordAt (bytes : List UInt8) (i : Nat) : UInt64 := LittleEndian.toWord ((bytes.drop (8 * i)).take 8)

/-- The register file in a byte string of exactly the right length. -/
def deserialize? (bytes : List UInt8) : Option Registers :=
  if bytes.length = size then
    some
      { x := Vector.ofFn fun i => wordAt bytes i
        sp := wordAt bytes 31
        pc := wordAt bytes 32
        cpsr := UInt32.ofNat (LittleEndian.decode (bytes.drop 264)) }
  else none

theorem deserialize?_isSome (bytes : List UInt8) : (deserialize? bytes).isSome ↔ bytes.length = size := by
  simp [deserialize?]

end Registers
end RemoteDebug.Cpu
