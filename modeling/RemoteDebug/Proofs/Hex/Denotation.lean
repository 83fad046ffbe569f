import RemoteDebug.Hex.Number

/-!
# What a run of digits denotes

Digits denote a number place by place, the first digit standing in the highest place (`Hex.valueOf`). What is read as a
number are the runs of digits, and just those, whose number fits the bits asked for; leading zeros do not matter
(`Hex.number_eq_ok_iff`).
-/

namespace RemoteDebug.Hex

variable {bits n : Nat} {digits : List UInt8}

/-- The number that digits denote. -/
def valueOf : List UInt8 → Nat
  | [] => 0
  | c :: rest => (digit? c).getD 0 * 16 ^ rest.length + valueOf rest

theorem getD_digit?_lt (c : UInt8) : (digit? c).getD 0 < 16 := by
  cases hd : digit? c with
  | none => decide
  | some d => exact digit?_lt hd

theorem valueOf_append (front rest : List UInt8) :
    valueOf (front ++ rest) = valueOf front * 16 ^ rest.length + valueOf rest := by
  induction front with
  | nil => simp [valueOf]
  | cons c front ih =>
    rw [List.cons_append, valueOf, ih, valueOf, List.length_append, Nat.pow_add, Nat.add_mul, Nat.mul_assoc,
      Nat.add_assoc]

theorem valueOf_concat (front : List UInt8) (c : UInt8) :
    valueOf (front ++ [c]) = valueOf front * 16 + (digit? c).getD 0 := by
  simp [valueOf_append, valueOf]

/-- A value so far, with a digit more and the digits behind it. -/
theorem places_cons {c : UInt8} {d : Nat} (hd : digit? c = some d) (value : Nat) (rest : List UInt8) :
    value * 16 ^ (c :: rest).length + valueOf (c :: rest) = (value * 16 + d) * 16 ^ rest.length + valueOf rest := by
  rw [valueOf, hd, Option.getD_some, List.length_cons, Nat.pow_succ, Nat.add_mul, Nat.mul_assoc, Nat.mul_comm 16,
    Nat.add_assoc]

/-- It is not less than the value so far, moved up by the place of that digit. -/
theorem mul_le_places (value d : Nat) (rest : List UInt8) :
    value * 16 ≤ (value * 16 + d) * 16 ^ rest.length + valueOf rest :=
  calc value * 16 ≤ (value * 16 + d) * 1 := by omega
    _ ≤ (value * 16 + d) * 16 ^ rest.length := Nat.mul_le_mul_left _ (Nat.one_le_pow _ _ (by decide))
    _ ≤ _ := Nat.le_add_right _ _

/-- Bytes are digits, at least one, that denote a number of so many bits. -/
structure Denotes (bits : Nat) (digits : List UInt8) (n : Nat) : Prop where
  filled : digits ≠ []
  all : ∀ c ∈ digits, isDigit c = true
  value : valueOf digits = n
  fits : n < 2 ^ bits

/-- A byte that is no digit does not stand in a number. -/
theorem Denotes.notMem (h : Denotes bits digits n) {c : UInt8} (hc : isDigit c = false) : c ∉ digits := by
  intro mem
  rw [h.all c mem] at hc
  cases hc

/-- Reading goes on to the number whose places are those of the value so far and of the digits left. -/
theorem numberFrom_eq_ok_iff (hb : 4 ≤ bits) {value : Nat} (hv : value < 2 ^ bits) :
    numberFrom bits value digits = .ok n ↔
      (∀ c ∈ digits, isDigit c = true) ∧ value * 16 ^ digits.length + valueOf digits = n ∧ n < 2 ^ bits := by
  induction digits generalizing value with
  | nil =>
    simp only [numberFrom, Except.ok.injEq, List.not_mem_nil, false_imp_iff, implies_true, List.length_nil,
      Nat.pow_zero, Nat.mul_one, valueOf, Nat.add_zero, true_and]
    constructor
    · rintro rfl
      exact ⟨rfl, hv⟩
    · exact And.left
  | cons c rest ih =>
    rw [numberFrom]
    cases hd : digit? c with
    | none => simp [isDigit, hd]
    | some d =>
      have here : isDigit c = true := by rw [isDigit, hd]; rfl
      simp only [List.mem_cons, forall_eq_or_imp, here, true_and, places_cons hd]
      split
      · exact ih (add_digit_lt hb (digit?_lt hd) ‹_›)
      · rename_i tooBig
        -- the places so far are too many already, whatever digits follow
        have grown := mul_le_places value d rest
        constructor
        · rintro ⟨⟩
        · rintro ⟨-, same, fits⟩
          omega

/-- A number is read from the digits that denote it, and from nothing else. -/
theorem number_eq_ok_iff (hb : 4 ≤ bits) : number bits digits = .ok n ↔ Denotes bits digits n := by
  have start : numberFrom bits 0 digits = .ok n ↔
      (∀ c ∈ digits, isDigit c = true) ∧ 0 * 16 ^ digits.length + valueOf digits = n ∧ n < 2 ^ bits :=
    numberFrom_eq_ok_iff hb (Nat.two_pow_pos bits)
  rw [Nat.zero_mul, Nat.zero_add] at start
  unfold number
  split
  · rename_i empty
    refine ⟨nofun, fun h => absurd (List.isEmpty_iff.1 empty) h.filled⟩
  · rename_i filled
    rw [start]
    exact ⟨fun ⟨all, value, fits⟩ => ⟨fun empty => filled (List.isEmpty_iff.2 empty), all, value, fits⟩,
      fun h => ⟨h.all, h.value, h.fits⟩⟩

theorem number?_eq_some_iff : number? digits = some n ↔ Denotes 64 digits n := by
  rw [← number_eq_ok_iff (by decide), number?]
  cases number 64 digits <;> simp

theorem word?_eq_some_iff {w : UInt64} : word? digits = some w ↔ Denotes 64 digits w.toNat := by
  rw [word?, Option.map_eq_some_iff]
  constructor
  · rintro ⟨n, read, rfl⟩
    have denotes := number?_eq_some_iff.1 read
    rwa [UInt64.toNat_ofNat', Nat.mod_eq_of_lt denotes.fits]
  · exact fun denotes => ⟨w.toNat, number?_eq_some_iff.2 denotes, UInt64.ofNat_toNat⟩

end RemoteDebug.Hex
