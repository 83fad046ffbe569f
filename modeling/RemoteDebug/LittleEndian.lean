/-!
# Little-endian numbers

A number as a fixed count of bytes, least significant first (`encode`), and the number that bytes denote (`decode`).
Main statements: `decode_encode` and `encode_decode`.
-/

-- A power of numbers means the core one, whatever else a module imports.
attribute [instance (high), default_instance (high + 1)] instPowNat

namespace RemoteDebug.LittleEndian

/-- The lowest `count` bytes of `n`. -/
def encode : (count n : Nat) → List UInt8
  | 0, _ => []
  | count + 1, n => UInt8.ofNat n :: encode count (n / 256)

/-- The number that `bytes` denote. -/
def decode : List UInt8 → Nat
  | [] => 0
  | b :: bytes => b.toNat + 256 * decode bytes

/-- The eight bytes of a word. -/
def ofWord (w : UInt64) : List UInt8 := encode 8 w.toNat

/-- The word that eight bytes denote. -/
def toWord (bytes : List UInt8) : UInt64 := UInt64.ofNat (decode bytes)

/-! ## Small facts -/

@[simp] theorem length_encode (count n : Nat) : (encode count n).length = count := by
  induction count generalizing n with
  | zero => rfl
  | succ count ih => simp [encode, ih]

@[simp] theorem length_ofWord (w : UInt64) : (ofWord w).length = 8 := length_encode 8 _

theorem decode_encode (count n : Nat) : decode (encode count n) = n % 256 ^ count := by
  induction count generalizing n with
  | zero => simp [encode, decode, Nat.mod_one]
  | succ count ih =>
    simp only [encode, decode, ih, UInt8.toNat_ofNat']
    rw [show (2 : Nat) ^ 8 = 256 by decide, Nat.pow_succ', Nat.mod_mul]

theorem encode_decode (bytes : List UInt8) : encode bytes.length (decode bytes) = bytes := by
  induction bytes with
  | nil => rfl
  | cons b bytes ih =>
    have hb : b.toNat < 256 := b.toNat_lt
    simp only [List.length_cons, encode, decode]
    rw [show (b.toNat + 256 * decode bytes) / 256 = decode bytes by omega, ih]
    congr 1
    apply UInt8.toNat_inj.1
    simp only [UInt8.toNat_ofNat']
    omega

theorem decode_lt (bytes : List UInt8) : decode bytes < 256 ^ bytes.length := by
  induction bytes with
  | nil => simp [decode]
  | cons b bytes ih =>
    have hb : b.toNat < 256 := b.toNat_lt
    simp only [decode, List.length_cons, Nat.pow_succ]
    omega

theorem toWord_ofWord (w : UInt64) : toWord (ofWord w) = w := by
  have hw : w.toNat < 2 ^ 64 := w.toNat_lt
  simp only [toWord, ofWord, decode_encode]
  rw [show (256 : Nat) ^ 8 = 2 ^ 64 by decide, Nat.mod_eq_of_lt hw, UInt64.ofNat_toNat]

theorem ofWord_toWord {bytes : List UInt8} (h : bytes.length = 8) : ofWord (toWord bytes) = bytes := by
  have hlt : decode bytes < 2 ^ 64 := by
    have := decode_lt bytes
    rw [h] at this
    exact this
  rw [ofWord, toWord, UInt64.toNat_ofNat', Nat.mod_eq_of_lt hlt, ← h]
  exact encode_decode bytes

end RemoteDebug.LittleEndian
