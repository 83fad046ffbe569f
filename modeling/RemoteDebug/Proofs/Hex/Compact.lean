import RemoteDebug.Proofs.Hex.Denotation

/-!
# Written numbers read back

A number written in a fixed number of places denotes its lowest places (`valueOf_fixed`), and the shortest form of a
number has enough of them to read back as the number (`number_compact`). Either form consists of digits
(`isDigit_of_mem_fixed`), so that no separator and no other mark of the protocol stands in it. The shortest form is the
one that numbers are printed in (`compact_eq_toDigits`).
-/

namespace RemoteDebug.Hex

theorem exists_digit_of_mem_fixed {places n : Nat} {b : UInt8} (h : b ∈ fixed places n) : ∃ m, digit m = b := by
  induction places with
  | zero => cases h
  | succ places ih =>
    rcases List.mem_cons.1 h with rfl | h
    · exact ⟨_, rfl⟩
    · exact ih h

theorem isDigit_of_mem_fixed {places n : Nat} {b : UInt8} (h : b ∈ fixed places n) : isDigit b = true := by
  obtain ⟨m, rfl⟩ := exists_digit_of_mem_fixed h
  exact isDigit_digit m

theorem isDigit_of_mem_compact {n : Nat} {b : UInt8} (h : b ∈ compact n) : isDigit b = true := isDigit_of_mem_fixed h

/-- The last place, behind the others. -/
theorem fixed_succ (places n : Nat) : fixed (places + 1) n = fixed places (n / 16) ++ [digit n] := by
  induction places with
  | zero => simp [fixed]
  | succ places ih =>
    have place : n / 16 ^ (places + 1) = n / 16 / 16 ^ places := by rw [Nat.div_div_eq_div_mul, Nat.pow_succ']
    rw [fixed, ih, place]
    rfl

theorem valueOf_fixed (places n : Nat) : valueOf (fixed places n) = n % 16 ^ places := by
  induction places generalizing n with
  | zero => simp [fixed, valueOf, Nat.mod_one]
  | succ places ih =>
    rw [fixed_succ, valueOf_concat, ih, digit?_digit, Option.getD_some, Nat.pow_succ', Nat.mod_mul]
    omega

/-- The shortest form has a place for every digit. -/
theorem lt_pow_places (n : Nat) : n < 16 ^ (n.log2 / 4 + 1) := by
  have h16 : (16 : Nat) ^ (n.log2 / 4 + 1) = 2 ^ (4 * (n.log2 / 4 + 1)) := by rw [Nat.pow_mul]
  rw [h16]
  exact Nat.lt_of_lt_of_le Nat.lt_log2_self (Nat.pow_le_pow_right (by decide) (by omega))

theorem valueOf_compact (n : Nat) : valueOf (compact n) = n := by
  rw [compact, valueOf_fixed, Nat.mod_eq_of_lt (lt_pow_places n)]

theorem compact_ne_nil (n : Nat) : compact n ≠ [] := by simp [compact, fixed]

theorem number_compact {n : Nat} (h : n < 2 ^ 64) : number 64 (compact n) = .ok n :=
  (number_eq_ok_iff (by decide)).2 ⟨compact_ne_nil n, fun _ => isDigit_of_mem_compact, valueOf_compact n, h⟩

theorem number?_compact {n : Nat} (h : n < 2 ^ 64) : number? (compact n) = some n := by
  rw [number?, number_compact h]

/-- A word in all of its sixteen places reads back. -/
theorem word?_fixed (w : UInt64) : word? (fixed 16 w.toNat) = some w := by
  have hw : w.toNat < 2 ^ 64 := w.toNat_lt
  have value : valueOf (fixed 16 w.toNat) = w.toNat := by
    rw [valueOf_fixed]
    exact Nat.mod_eq_of_lt hw
  exact word?_eq_some_iff.2 ⟨by simp [fixed], fun _ => isDigit_of_mem_fixed, value, hw⟩

theorem log2_div_lt {n places : Nat} (h : n < 16 ^ places) (filled : 0 < places) : n.log2 / 4 < places := by
  by_cases hn : n = 0
  · subst hn
    exact filled
  · have bits : n.log2 < 4 * places := (Nat.log2_lt hn).2 (by rwa [Nat.pow_mul])
    omega

theorem length_compact_le {n : Nat} (h : n < 2 ^ 64) : (compact n).length ≤ 16 := by
  have places : n < 16 ^ 16 := h
  rw [compact, length_fixed]
  exact log2_div_lt places (by decide)

/-! ## Printed numbers -/

theorem compact_of_lt {n : Nat} (h : n < 16) : compact n = [digit n] := by
  have places : n.log2 / 4 = 0 := Nat.lt_one_iff.1 (log2_div_lt h Nat.one_pos)
  rw [compact, places]
  simp [fixed]

theorem compact_of_le {n : Nat} (h : 16 ≤ n) : compact n = compact (n / 16) ++ [digit n] := by
  have places : n.log2 = (n / 16).log2 + 4 := by
    have half (m : Nat) (hm : 2 ≤ m) : m.log2 = (m / 2).log2 + 1 := by rw [Nat.log2_def, if_pos hm]
    rw [half n (by omega), half (n / 2) (by omega), half (n / 2 / 2) (by omega), half (n / 2 / 2 / 2) (by omega)]
    simp only [Nat.div_div_eq_div_mul]
  rw [compact, places, compact, ← fixed_succ, show ((n / 16).log2 + 4) / 4 = (n / 16).log2 / 4 + 1 by omega]

/-- The shortest form is the usual one in base sixteen. -/
theorem compact_eq_toDigits (n : Nat) : compact n = (Nat.toDigits 16 n).map Char.toUInt8 := by
  have letter : ∀ d < 16, digit d = (Nat.digitChar d).toUInt8 := by decide
  induction n using Nat.strongRecOn with
  | ind n ih =>
    by_cases h : n < 16
    · rw [compact_of_lt h, Nat.toDigits_of_lt_base h, letter n h]
      rfl
    · have last : digit n = digit (n % 16) := by simp [digit]
      have printed : Nat.toDigits 16 n = Nat.toDigits 16 (n / 16) ++ [Nat.digitChar (n % 16)] := by
        rw [Nat.toDigits_eq_if (by decide), if_neg h]
      rw [compact_of_le (by omega), ih (n / 16) (by omega), last, letter _ (by omega), printed, List.map_append]
      rfl

end RemoteDebug.Hex
