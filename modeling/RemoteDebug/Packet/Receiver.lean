import RemoteDebug.Packet.Frame

/-!
# Receiving packets byte by byte

The receiver takes one byte at a time (`step`) and now and then reports an event. Outside a packet only `$` and the
interruption byte matter. Inside, `$` starts the body over, a body that outgrows the buffer is dropped without a word,
and the two bytes after `#` are the checksum whatever they are. `run` pumps a whole stream and lists the events with the
positions of the bytes that completed them.
-/

namespace RemoteDebug.Packet

/-- Where in a packet the receiver is. -/
inductive Receiver
  | outside
  | inside (received : Array UInt8)
  | checksumHigh (body : List UInt8)
  | checksumLow (body : List UInt8) (high : UInt8)
  deriving DecidableEq, Repr

namespace Receiver

/-- What a byte can complete. -/
inductive Event
  | interrupt
  | packet (body : List UInt8)
  | mismatch (claimed : Option UInt8) (computed : UInt8)
  deriving DecidableEq, Repr

/-- Compares the body with the checksum that followed it; digits that are none claim nothing. -/
def verdict (body : List UInt8) (claimed : Option UInt8) : Event :=
  if claimed = some (checksum body) then .packet body else .mismatch claimed (checksum body)

/-- Takes one byte, with room for bodies of `size` bytes. -/
def step (size : Nat) : Receiver → UInt8 → Receiver × Option Event
  | .outside, b =>
    if b = opening then (.inside #[], none)
    else if b = interruption then (.outside, some .interrupt)
    else (.outside, none)
  | .inside received, b =>
    if b = opening then (.inside #[], none)
    else if b = closing then (.checksumHigh received.toList, none)
    else if received.size = size then (.outside, none)
    else (.inside (received.push b), none)
  | .checksumHigh body, b => (.checksumLow body b, none)
  | .checksumLow body high, b => (.outside, some (verdict body (Hex.toByte? high b)))

/-- Takes a stream of bytes, the first of which has position `start`. -/
def run (size : Nat) : (receiver : Receiver) → (start : Nat) → List UInt8 → Receiver × List (Nat × Event)
  | receiver, _, [] => (receiver, [])
  | receiver, start, b :: rest =>
    let (next, event) := receiver.step size b
    let (last, events) := run size next (start + 1) rest
    (last, (event.map (start, ·)).toList ++ events)

/-! ## Small facts -/

theorem run_append (size : Nat) (receiver : Receiver) (start : Nat) (a b : List UInt8) :
    run size receiver start (a ++ b) =
      let (mid, first) := run size receiver start a
      let (last, second) := run size mid (start + a.length) b
      (last, first ++ second) := by
  induction a generalizing receiver start with
  | nil => simp [run]
  | cons x a ih =>
    simp only [List.cons_append, run, ih, List.length_cons]
    simp only [show start + 1 + a.length = start + (a.length + 1) by omega, List.append_assoc]

end Receiver
end RemoteDebug.Packet
