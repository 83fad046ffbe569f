/-!
# Hexadecimal digits

Reading accepts digits of either case (`digit?`); writing uses lowercase digits (`digit`), most significant first,
either in a fixed number of places (`fixed`) or in as few as the number needs (`compact`). Main statements: a written
digit reads back as its value (`digit?_digit`), and a fixed form has the length asked for (`length_fixed`).
-/

-- A power of numbers means the core one, whatever else a module imports.
attribute [instance (high), default_instance (high + 1)] instPowNat

namespace RemoteDebug.Hex

/-- The value of a hexadecimal digit of either case. -/
def digit? (c : UInt8) : Option Nat :=
  let n := c.toNat
  if 48 ≤ n ∧ n ≤ 57 then some (n - 48)
  else if 97 ≤ n ∧ n ≤ 102 then some (n - 87)
  else if 65 ≤ n ∧ n ≤ 70 then some (n - 55)
  else none

/-- Whether a byte is a hexadecimal digit of either case. -/
def isDigit (c : UInt8) : Bool := (digit? c).isSome

/-- The lowercase digit of the lowest hexadecimal place of `n`. -/
def digit (n : Nat) : UInt8 :=
  if n % 16 < 10 then UInt8.ofNat (48 + n % 16) else UInt8.ofNat (87 + n % 16)

/-- The lowest `places` hexadecimal places of `n`, leading zeros included. -/
def fixed : (places n : Nat) → List UInt8
  | 0, _ => []
  | places + 1, n => digit (n / 16 ^ places) :: fixed places n

/-- The shortest hexadecimal form of `n`: no leading zeros, and a single `0` for zero. -/
def compact (n : Nat) : List UInt8 := fixed (n.log2 / 4 + 1) n

/-- A byte as two digits. -/
def ofByte (b : UInt8) : List UInt8 := fixed 2 b.toNat

/-- The byte that two digits denote. -/
def toByte? (high low : UInt8) : Option UInt8 :=
  match digit? high, digit? low with
  | some h, some l => some (UInt8.ofNat (16 * h + l))
  | _, _ => none

/-! ## Small facts -/

theorem digit?_digit (n : Nat) : digit? (digit n) = some (n % 16) := by
  have h : n % 16 < 16 := Nat.mod_lt _ (by decide)
  unfold digit digit?
  generalize n % 16 = d at h
  split
  · have : (UInt8.ofNat (48 + d)).toNat = 48 + d := UInt8.toNat_ofNat_of_lt (by simp [UInt8.size]; omega)
    grind
  · have : (UInt8.ofNat (87 + d)).toNat = 87 + d := UInt8.toNat_ofNat_of_lt (by simp [UInt8.size]; omega)
    grind

theorem isDigit_digit (n : Nat) : isDigit (digit n) = true := by
  simp [isDigit, digit?_digit]

@[simp] theorem length_fixed (places n : Nat) : (fixed places n).length = places := by
  induction places with
  | zero => rfl
  | succ places ih => simp [fixed, ih]

@[simp] theorem length_ofByte (b : UInt8) : (ofByte b).length = 2 := length_fixed 2 _

theorem digit?_lt {c : UInt8} {d : Nat} (h : digit? c = some d) : d < 16 := by
  unfold digit? at h
  grind

/-- A byte written as two digits reads back. -/
theorem toByte?_ofByte (b : UInt8) : toByte? (digit (b.toNat / 16)) (digit b.toNat) = some b := by
  have hb : b.toNat < 256 := b.toNat_lt
  simp only [toByte?, digit?_digit]
  rw [show 16 * (b.toNat / 16 % 16) + b.toNat % 16 = b.toNat by omega, UInt8.ofNat_toNat]

end RemoteDebug.Hex
