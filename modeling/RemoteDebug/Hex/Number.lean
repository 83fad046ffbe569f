import RemoteDebug.Hex.Digit

/-!
# Numbers in hexadecimal

A number is a non-empty run of digits of either case, read from the left into a fixed number of bits (`number`). The
first fault on the way decides: a byte that is no digit, or a digit whose place would not fit any more.
-/

namespace RemoteDebug.Hex

/-- Why a run of bytes is no number. -/
inductive NumberError
  | empty
  | invalidDigit
  | overflow
  deriving DecidableEq, Repr

/-- Goes on reading a number of `bits` bits whose digits so far denote `value`. -/
def numberFrom (bits : Nat) : (value : Nat) → List UInt8 → Except NumberError Nat
  | value, [] => .ok value
  | value, c :: rest =>
    match digit? c with
    | none => .error .invalidDigit
    | some d => if value * 16 < 2 ^ bits then numberFrom bits (value * 16 + d) rest else .error .overflow

/-- Reads a number of `bits` bits. -/
def number (bits : Nat) (digits : List UInt8) : Except NumberError Nat :=
  if digits.isEmpty then .error .empty else numberFrom bits 0 digits

/-- Reads a 64-bit number, as most fields of a command are. -/
def number? (digits : List UInt8) : Option Nat :=
  match number 64 digits with
  | .ok n => some n
  | .error _ => none

/-- Reads a 64-bit number as an address or another word. -/
def word? (digits : List UInt8) : Option UInt64 := (number? digits).map UInt64.ofNat

/-! ## Small facts -/

/-- Adding a digit cannot overflow once the place before it fits. -/
theorem add_digit_lt {bits value d : Nat} (hb : 4 ≤ bits) (hd : d < 16) (h : value * 16 < 2 ^ bits) :
    value * 16 + d < 2 ^ bits := by
  obtain ⟨k, rfl⟩ := Nat.exists_eq_add_of_le hb
  rw [Nat.pow_add] at h ⊢
  omega

end RemoteDebug.Hex
