import RemoteDebug.Kernel.Basic

/-!
# Byte strings through word calls

An address space only reads and writes words, and transfers use aligned words alone: word `i` holds the bytes from
`8 * i` on. Reading takes the words of a range in ascending order and cuts off what lies outside; writing reads a word
first if the range covers only a part of it. Either stops at the first call that fails.
-/

namespace RemoteDebug.Kernel

/-- The words that a range of addresses reaches into. An empty range inside a word still has that word. -/
def wordSpan (addr length : Nat) : List Nat :=
  List.range' (addr / 8) ((addr + length + 7) / 8 - addr / 8)

/-- Reads words and keeps the bytes from `addr` up to, but without, `stop`. -/
def readSpan (space : SpaceCap) (addr stop : Nat) : List Nat → Kernel → Option (List UInt8) × Kernel
  | [], k => (some [], k)
  | i :: rest, k =>
    match k.readWord space (UInt64.ofNat (8 * i)) with
    | (none, k) => (none, k)
    | (some word, k) =>
      match readSpan space addr stop rest k with
      | (none, k) => (none, k)
      | (some bytes, k) => (some (((LittleEndian.ofWord word).take (stop - 8 * i)).drop (addr - 8 * i) ++ bytes), k)

/-- Reads `length` bytes from `addr` on. -/
def readBytes (k : Kernel) (space : SpaceCap) (addr length : Nat) : Option (List UInt8) × Kernel :=
  readSpan space addr (addr + length) (wordSpan addr length) k

/-- The word with `part` in it from byte `skip` on. -/
def mergeWord (word : UInt64) (skip : Nat) (part : List UInt8) : UInt64 :=
  let bytes := LittleEndian.ofWord word
  LittleEndian.toWord (bytes.take skip ++ part ++ bytes.drop (skip + part.length))

/-- Writes data that begins at `addr` or, past the first word, at the start of a word; true if all of it is written. -/
def writeSpan (space : SpaceCap) (addr : Nat) : List Nat → List UInt8 → Kernel → Bool × Kernel
  | [], _, k => (true, k)
  | i :: rest, data, k =>
    let place := UInt64.ofNat (8 * i)
    let skip := addr - 8 * i
    let part := data.take (8 - skip)
    match if part.length = 8 then (some 0, k) else k.readWord space place with
    | (none, k) => (false, k)
    | (some word, k) =>
      match k.writeWord space place (mergeWord word skip part) with
      | (false, k) => (false, k)
      | (true, k) => writeSpan space addr rest (data.drop part.length) k

/-- Writes bytes from `addr` on; true if all of them are written. -/
def writeBytes (k : Kernel) (space : SpaceCap) (addr : Nat) (data : List UInt8) : Bool × Kernel :=
  if data.isEmpty then (true, k) else writeSpan space addr (wordSpan addr data.length) data k

end RemoteDebug.Kernel
