import RemoteDebug.Hex.Buffer
import RemoteDebug.Thread.Ptid

/-!
# Replies in a bounded buffer

A reply is built from pieces. Text and byte strings go into the buffer whole or not at all; every other piece goes in
byte by byte and stops where the buffer is full. A number is written if 64 bits without a sign hold it (`wordOf?`).
-/

namespace RemoteDebug.Reply

/-- What a reply is made of. -/
inductive Piece
  | byte (b : UInt8)
  | text (bytes : List UInt8)
  | hexByte (b : UInt8)
  | hexBytes (bytes : List UInt8)
  | number (n : Int)
  | ptid (t : Ptid)
  deriving DecidableEq, Repr

/-- A number in 64 bits without a sign, if they hold it. -/
def wordOf? : Int → Option UInt64
  | .ofNat n => if n < 2 ^ 64 then some (UInt64.ofNat n) else none
  | .negSucc _ => none

/-- Why a piece did not go into a buffer. -/
inductive CapacityError
  | full
  deriving DecidableEq, Repr

/-- The wording of the failure. -/
def CapacityError.message : CapacityError → String
  | .full => "reply does not fit into the outbound buffer"

/-- The part of a reply built so far, and the number of bytes it may grow to. -/
structure Buffer where
  capacity : Nat
  bytes : List UInt8
  deriving DecidableEq, Repr

namespace Buffer

/-- A buffer with nothing in it. -/
def empty (capacity : Nat) : Buffer := ⟨capacity, []⟩

/-- The number of bytes that still fit. -/
def room (buf : Buffer) : Nat := buf.capacity - buf.bytes.length

/-- Adds bytes one after the other, up to the first that finds the buffer full. -/
def pushEach (buf : Buffer) : List UInt8 → Except CapacityError Unit × Buffer
  | [] => (.ok (), buf)
  | b :: rest =>
    if buf.bytes.length = buf.capacity then (.error .full, buf)
    else { buf with bytes := buf.bytes ++ [b] }.pushEach rest

/-- Adds all of the bytes or none. -/
def pushWhole (buf : Buffer) (bytes : List UInt8) : Except CapacityError Unit × Buffer :=
  if buf.room < bytes.length then (.error .full, buf)
  else (.ok (), { buf with bytes := buf.bytes ++ bytes })

/-- Adds one piece. A number that 64 bits do not hold is refused before anything is written. -/
def write (buf : Buffer) : Piece → Except CapacityError Unit × Buffer
  | .byte b => buf.pushEach [b]
  | .text bytes => buf.pushWhole bytes
  | .hexByte b => buf.pushEach (Hex.ofByte b)
  | .hexBytes bytes => buf.pushWhole (Hex.encode bytes)
  | .number n =>
    match wordOf? n with
    | some word => buf.pushEach (Hex.compact word.toNat)
    | none => (.error .full, buf)
  | .ptid t => buf.pushEach t.render

/-- Adds pieces up to the first that does not go in. -/
def writeAll (buf : Buffer) : List Piece → Except CapacityError Unit × Buffer
  | [] => (.ok (), buf)
  | p :: rest =>
    match buf.write p with
    | (.ok (), buf) => buf.writeAll rest
    | (.error e, buf) => (.error e, buf)

/-- Forgets all bytes after the first `length`. -/
def truncate (buf : Buffer) (length : Nat) : Buffer := { buf with bytes := buf.bytes.take length }

/-- Forgets all bytes. -/
def clear (buf : Buffer) : Buffer := { buf with bytes := [] }

end Buffer

/-- The reply that the pieces make, if it has at most `capacity` bytes. -/
def render (capacity : Nat) (pieces : List Piece) : Option (List UInt8) :=
  match (Buffer.empty capacity).writeAll pieces with
  | (.ok (), buf) => some buf.bytes
  | (.error _, _) => none

end RemoteDebug.Reply
