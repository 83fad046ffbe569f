import Mathlib.Data.List.Induction
import RemoteDebug.Proofs.Hex.Denotation

/-!
# Where reading a number stops

Bytes that are no number have a first byte at which reading stops, behind digits whose number fits (`Hex.ReadsUpTo`). It
is a byte that is no digit (`Hex.number_eq_invalidDigit_iff`), or a digit with which the number does not fit any more
(`Hex.number_eq_overflow_iff`). A register that takes in digit by digit has two checks to make for each, one of the
product and one of the sum. It reads the same numbers (`Hex.number_eq_register`), and its second check never fails
(`Hex.register_ne_sum`).
-/

namespace RemoteDebug.Hex

variable {bits : Nat} {digits front : List UInt8} {c : UInt8}

/-! ## The first fault -/

/-- A digit makes the number too big as soon as the place before it does. -/
theorem le_mul_of_le_concat (hb : 4 ≤ bits) (h : 2 ^ bits ≤ valueOf (front ++ [c])) :
    2 ^ bits ≤ valueOf front * 16 := by
  by_contra fits
  have sum := add_digit_lt hb (getD_digit?_lt c) (Nat.lt_of_not_le fits)
  rw [valueOf_concat] at h
  omega

/-- Reading comes as far as the byte `c`: what stands in front of it are digits whose number fits. -/
structure ReadsUpTo (bits : Nat) (digits front : List UInt8) (c : UInt8) : Prop where
  split : ∃ rest, digits = front ++ c :: rest
  all : ∀ b ∈ front, isDigit b = true
  fits : valueOf front < 2 ^ bits

/-- The byte `c` stops reading. -/
def Bars (bits : Nat) (front : List UInt8) (c : UInt8) : Prop :=
  isDigit c = false ∨ 2 ^ bits ≤ valueOf (front ++ [c])

/-- Digits whose number fits are read, whatever follows. -/
theorem numberFrom_append {value : Nat} (all : ∀ b ∈ front, isDigit b = true)
    (fits : value * 16 ^ front.length + valueOf front < 2 ^ bits) (rest : List UInt8) :
    numberFrom bits value (front ++ rest) = numberFrom bits (value * 16 ^ front.length + valueOf front) rest := by
  induction front generalizing value with
  | nil => simp [valueOf]
  | cons c front ih =>
    obtain ⟨here, later⟩ := List.forall_mem_cons.1 all
    obtain ⟨d, hd⟩ := Option.isSome_iff_exists.1 here
    rw [places_cons hd] at fits ⊢
    have room : value * 16 < 2 ^ bits := Nat.lt_of_le_of_lt (mul_le_places value d front) fits
    rw [List.cons_append, numberFrom, hd]
    simp only [room, if_true]
    exact ih later fits

theorem number_append (all : ∀ b ∈ front, isDigit b = true) (fits : valueOf front < 2 ^ bits) (c : UInt8)
    (rest : List UInt8) : number bits (front ++ c :: rest) = numberFrom bits (valueOf front) (c :: rest) := by
  have filled : (front ++ c :: rest).isEmpty = false := by simp
  have read := @numberFrom_append bits front 0 all (by omega) (c :: rest)
  rw [Nat.zero_mul, Nat.zero_add] at read
  rw [number, filled]
  exact read

/-- What stops reading decides what is wrong. -/
theorem ReadsUpTo.number_eq (hb : 4 ≤ bits) (reads : ReadsUpTo bits digits front c) (bars : Bars bits front c) :
    number bits digits = .error (if isDigit c then .overflow else .invalidDigit) := by
  obtain ⟨rest, rfl⟩ := reads.split
  rw [number_append reads.all reads.fits, numberFrom]
  cases hd : digit? c with
  | none => simp [isDigit, hd]
  | some d =>
    have here : isDigit c = true := by rw [isDigit, hd]; rfl
    have tooBig : 2 ^ bits ≤ valueOf front * 16 :=
      le_mul_of_le_concat hb (bars.resolve_left (by rw [here]; decide))
    simp [here, Nat.not_lt.2 tooBig]

/-- Bytes are read to their end, or up to one that stops reading. -/
theorem reads_or_barred (bits : Nat) (digits : List UInt8) :
    ((∀ b ∈ digits, isDigit b = true) ∧ valueOf digits < 2 ^ bits) ∨
      ∃ front c, ReadsUpTo bits digits front c ∧ Bars bits front c := by
  induction digits using List.reverseRecOn with
  | nil => exact .inl ⟨List.forall_mem_nil _, Nat.two_pow_pos bits⟩
  | append_singleton digits c ih =>
    rcases ih with ⟨all, fits⟩ | ⟨front, b, ⟨⟨rest, rfl⟩, all, fits⟩, bars⟩
    · by_cases bars : Bars bits digits c
      · exact .inr ⟨digits, c, ⟨⟨[], rfl⟩, all, fits⟩, bars⟩
      · simp only [Bars, not_or, Bool.not_eq_false, Nat.not_le] at bars
        exact .inl ⟨List.forall_mem_append.2 ⟨all, List.forall_mem_singleton.2 bars.1⟩, bars.2⟩
    · exact .inr ⟨front, b, ⟨⟨rest ++ [c], by simp⟩, all, fits⟩, bars⟩

/-- A run of bytes that is no number has a byte that stops reading. -/
theorem exists_barred {e : NumberError} (hb : 4 ≤ bits) (h : number bits digits = .error e) (filled : digits ≠ []) :
    ∃ front c, ReadsUpTo bits digits front c ∧ Bars bits front c := by
  refine (reads_or_barred bits digits).resolve_left fun ⟨all, fits⟩ => ?_
  have read := (number_eq_ok_iff hb).2 ⟨filled, all, rfl, fits⟩
  cases read.symm.trans h

theorem number_eq_empty_iff (hb : 4 ≤ bits) : number bits digits = .error .empty ↔ digits = [] := by
  constructor
  · intro h
    by_contra filled
    obtain ⟨front, c, reads, bars⟩ := exists_barred hb h filled
    have stopped := (reads.number_eq hb bars).symm.trans h
    split at stopped <;> cases stopped
  · rintro rfl
    rfl

theorem filled_of_number_ne {e : NumberError} (h : number bits digits = .error e) (he : e ≠ .empty) :
    digits ≠ [] := by
  rintro rfl
  cases h
  exact he rfl

theorem number_eq_invalidDigit_iff (hb : 4 ≤ bits) : number bits digits = .error .invalidDigit ↔
    ∃ front c, ReadsUpTo bits digits front c ∧ isDigit c = false := by
  constructor
  · intro h
    obtain ⟨front, c, reads, bars⟩ := exists_barred hb h (filled_of_number_ne h (by decide))
    have stopped := (reads.number_eq hb bars).symm.trans h
    split at stopped
    · cases stopped
    · exact ⟨front, c, reads, Bool.eq_false_iff.2 ‹_›⟩
  · rintro ⟨front, c, reads, other⟩
    rw [reads.number_eq hb (.inl other), other]
    rfl

theorem number_eq_overflow_iff (hb : 4 ≤ bits) : number bits digits = .error .overflow ↔
    ∃ front c, ReadsUpTo bits digits front c ∧ isDigit c = true ∧ 2 ^ bits ≤ valueOf (front ++ [c]) := by
  constructor
  · intro h
    obtain ⟨front, c, reads, bars⟩ := exists_barred hb h (filled_of_number_ne h (by decide))
    have stopped := (reads.number_eq hb bars).symm.trans h
    split at stopped
    · rename_i here
      exact ⟨front, c, reads, here, bars.resolve_left (by rw [here]; decide)⟩
    · cases stopped
  · rintro ⟨front, c, reads, here, tooBig⟩
    rw [reads.number_eq hb (.inr tooBig), here]
    rfl

/-! ## Registers -/

/-- Why a register does not take in a digit. -/
inductive RegisterError
  | invalidDigit
  | product
  | sum
  deriving DecidableEq, Repr

/-- What that means for the number. -/
def RegisterError.toNumberError : RegisterError → NumberError
  | .invalidDigit => .invalidDigit
  | .product | .sum => .overflow

/-- Takes one more digit into a register of `bits` bits. Its value is multiplied by sixteen and the digit is added, and
each of the two must fit. -/
def takeIn (bits value : Nat) (c : UInt8) : Except RegisterError Nat :=
  match digit? c with
  | none => .error .invalidDigit
  | some d =>
    if 2 ^ bits ≤ value * 16 then .error .product
    else if 2 ^ bits ≤ value * 16 + d then .error .sum
    else .ok (value * 16 + d)

/-- Reads digits into a register of `bits` bits. -/
def register (bits : Nat) (digits : List UInt8) : Except RegisterError Nat := digits.foldlM (takeIn bits) 0

/-- The sum fits wherever the product does. -/
theorem takeIn_eq (hb : 4 ≤ bits) (value : Nat) (c : UInt8) : takeIn bits value c =
    match digit? c with
    | none => .error .invalidDigit
    | some d => if value * 16 < 2 ^ bits then .ok (value * 16 + d) else .error .product := by
  unfold takeIn
  cases hd : digit? c with
  | none => rfl
  | some d =>
    by_cases room : value * 16 < 2 ^ bits
    · have sum := add_digit_lt hb (digit?_lt hd) room
      simp [room, Nat.not_le.2 room, Nat.not_le.2 sum]
    · simp [room, Nat.le_of_not_lt room]

theorem takeIn_ne_sum (hb : 4 ≤ bits) (value : Nat) (c : UInt8) : takeIn bits value c ≠ .error .sum := by
  rw [takeIn_eq hb]
  intro h
  split at h
  · cases h
  · split at h <;> cases h

theorem foldlM_takeIn_ne_sum (hb : 4 ≤ bits) (value : Nat) (digits : List UInt8) :
    digits.foldlM (takeIn bits) value ≠ .error .sum := by
  induction digits generalizing value with
  | nil => nofun
  | cons c digits ih =>
    rw [List.foldlM_cons]
    cases h : takeIn bits value c with
    | error e =>
      intro same
      exact takeIn_ne_sum hb value c (h.trans same)
    | ok value => exact ih value

theorem register_ne_sum (hb : 4 ≤ bits) (digits : List UInt8) : register bits digits ≠ .error .sum :=
  foldlM_takeIn_ne_sum hb 0 digits

theorem numberFrom_eq_foldlM (hb : 4 ≤ bits) (value : Nat) (digits : List UInt8) :
    numberFrom bits value digits = (digits.foldlM (takeIn bits) value).mapError RegisterError.toNumberError := by
  induction digits generalizing value with
  | nil => rfl
  | cons c digits ih =>
    rw [List.foldlM_cons, takeIn_eq hb, numberFrom]
    cases digit? c with
    | none => rfl
    | some d =>
      by_cases room : value * 16 < 2 ^ bits
      · simp only [room, if_true]
        exact ih _
      · simp only [room, if_false]
        rfl

theorem number_eq_register (hb : 4 ≤ bits) (filled : digits ≠ []) :
    number bits digits = (register bits digits).mapError RegisterError.toNumberError := by
  have notEmpty : digits.isEmpty = false := by simpa using filled
  rw [number, notEmpty]
  exact numberFrom_eq_foldlM hb 0 digits

end RemoteDebug.Hex
