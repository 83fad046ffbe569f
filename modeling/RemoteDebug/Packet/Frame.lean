import RemoteDebug.Ascii
import RemoteDebug.Hex.Digit

/-!
# Packets on the wire

A packet is its body between `$` and `#`, followed by the byte sum of the body in two digits (`frame`). A body may begin
with a two-byte sequence id and a colon, to be repeated in the acknowledgement (`splitSequenceId`).
-/

namespace RemoteDebug.Packet

/-- Opens a packet. -/
def opening : UInt8 := '$'.toUInt8

/-- Closes the body of a packet. -/
def closing : UInt8 := '#'.toUInt8

/-- Acknowledges a packet. -/
def acceptance : UInt8 := '+'.toUInt8

/-- Refuses a packet whose checksum is wrong. -/
def refusal : UInt8 := '-'.toUInt8

/-- Asks from outside any packet that every thread be stopped. -/
def interruption : UInt8 := 3

/-- The sum of all bytes, modulo 256. -/
def checksum (body : List UInt8) : UInt8 := body.foldl (· + ·) 0

/-- A body made ready for the wire. -/
def frame (body : List UInt8) : List UInt8 := opening :: body ++ closing :: Hex.ofByte (checksum body)

/-- Splits a two-byte sequence id and its colon off the front of a body. -/
def splitSequenceId : List UInt8 → Option (UInt8 × UInt8) × List UInt8
  | a :: b :: c :: rest => if c = ':'.toUInt8 then (some (a, b), rest) else (none, a :: b :: c :: rest)
  | body => (none, body)

end RemoteDebug.Packet
