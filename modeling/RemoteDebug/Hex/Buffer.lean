import RemoteDebug.Hex.Digit

/-!
# Bytes in hexadecimal

Each byte is two digits (`encode`, `decode?`). The second half of the module moves text and bytes through buffers of a
fixed length: what does not fit is refused before anything is written, and a bad pair stops a transfer where it stands
(`encodeInto`, `decodeInto`). Main statement: `decode?_encode`.
-/

namespace RemoteDebug.Hex

/-- The digits of a byte string. -/
def encode (bytes : List UInt8) : List UInt8 := bytes.flatMap ofByte

/-- The byte string that pairs of digits denote. -/
def decode? : List UInt8 → Option (List UInt8)
  | [] => some []
  | [_] => none
  | high :: low :: rest =>
    match toByte? high low, decode? rest with
    | some b, some bytes => some (b :: bytes)
    | _, _ => none

/-! ## Buffers of a fixed length -/

/-- Why a transfer through a buffer failed. -/
inductive BufferError
  | oddLength
  | smallBuffer
  | invalidDigit
  deriving DecidableEq, Repr

/-- Writes the digits of `bytes` to the front of `buffer`; the result is their number and the buffer afterwards. -/
def encodeInto (buffer bytes : List UInt8) : Except BufferError Nat × List UInt8 :=
  let count := 2 * bytes.length
  if buffer.length < count then (.error .smallBuffer, buffer)
  else (.ok count, encode bytes ++ buffer.drop count)

/-- Lays decoded bytes over the front of `buffer` up to the first bad pair; true if there is none. -/
def decodeOver : (digits buffer : List UInt8) → Bool × List UInt8
  | high :: low :: rest, old :: buffer =>
    match toByte? high low with
    | none => (false, old :: buffer)
    | some b =>
      let (done, after) := decodeOver rest buffer
      (done, b :: after)
  | _, buffer => (true, buffer)

/-- Writes the bytes that `digits` denote to the front of `buffer`; the result is their number and the buffer
afterwards. -/
def decodeInto (buffer digits : List UInt8) : Except BufferError Nat × List UInt8 :=
  if digits.length % 2 ≠ 0 then (.error .oddLength, buffer)
  else if buffer.length < digits.length / 2 then (.error .smallBuffer, buffer)
  else
    match decodeOver digits buffer with
    | (true, after) => (.ok (digits.length / 2), after)
    | (false, after) => (.error .invalidDigit, after)

/-! ## Small facts -/

@[simp] theorem encode_nil : encode [] = [] := rfl

@[simp] theorem encode_cons (b : UInt8) (bytes : List UInt8) : encode (b :: bytes) = ofByte b ++ encode bytes := rfl

@[simp] theorem length_encode (bytes : List UInt8) : (encode bytes).length = 2 * bytes.length := by
  induction bytes with
  | nil => rfl
  | cons b bytes ih => simp [ih]; omega

theorem ofByte_eq (b : UInt8) : ofByte b = [digit (b.toNat / 16), digit b.toNat] := by
  simp [ofByte, fixed]

theorem decode?_encode (bytes : List UInt8) : decode? (encode bytes) = some bytes := by
  induction bytes with
  | nil => rfl
  | cons b bytes ih => simp [ofByte_eq, decode?, toByte?_ofByte, ih]

end RemoteDebug.Hex
