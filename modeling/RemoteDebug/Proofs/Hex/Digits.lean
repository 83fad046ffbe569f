import RemoteDebug.Ascii
import RemoteDebug.Hex.Buffer

/-!
# Strings of digits

Pairs of digits of either case denote bytes (`exists_decode?`), and bytes are written in lowercase (`mem_encode`). So
what is read and written again differs from what was there in nothing but its capitals (`encode_of_decode?`).
-/

namespace RemoteDebug.Hex

/-- A capital letter made small; any other byte stays as it is. -/
def lower (c : UInt8) : UInt8 := if 65 ≤ c.toNat ∧ c.toNat ≤ 90 then UInt8.ofNat (c.toNat + 32) else c

theorem digit_of_digit? {c : UInt8} {d : Nat} (h : digit? c = some d) : digit d = lower c := by
  unfold digit? at h
  dsimp only at h
  split at h
  · have small : c.toNat - 48 < 10 := by omega
    obtain rfl := Option.some.inj h
    rw [digit, lower, Nat.mod_eq_of_lt (by omega), if_pos small, if_neg (by omega),
      show 48 + (c.toNat - 48) = c.toNat by omega, UInt8.ofNat_toNat]
  · split at h
    · obtain rfl := Option.some.inj h
      rw [digit, lower, Nat.mod_eq_of_lt (by omega), if_neg (by omega), if_neg (by omega),
        show 87 + (c.toNat - 87) = c.toNat by omega, UInt8.ofNat_toNat]
    · split at h
      · obtain rfl := Option.some.inj h
        rw [digit, lower, Nat.mod_eq_of_lt (by omega), if_neg (by omega), if_pos (by omega),
          show 87 + (c.toNat - 55) = c.toNat + 32 by omega]
      · cases h

theorem ofByte_of_toByte? {high low b : UInt8} (h : toByte? high low = some b) :
    ofByte b = [lower high, lower low] := by
  unfold toByte? at h
  split at h
  · rename_i hi lo hhigh hlow
    obtain rfl := Option.some.inj h
    have hhi := digit?_lt hhigh
    have hlo := digit?_lt hlow
    have value : (UInt8.ofNat (16 * hi + lo)).toNat = 16 * hi + lo :=
      UInt8.toNat_ofNat_of_lt (by simp only [UInt8.size]; omega)
    have last : digit (16 * hi + lo) = digit lo := by simp only [digit, Nat.mul_add_mod]
    rw [ofByte_eq, value, last, show (16 * hi + lo) / 16 = hi by omega, digit_of_digit? hhigh, digit_of_digit? hlow]
  · cases h

theorem length_of_decode? {digits bytes : List UInt8} (h : decode? digits = some bytes) :
    digits.length = 2 * bytes.length := by
  fun_induction decode? digits generalizing bytes with
  | case1 =>
    cases h
    rfl
  | case2 => cases h
  | case3 high low rest b more hrest hb ih =>
    cases h
    rw [List.length_cons, List.length_cons, ih hrest, List.length_cons]
    omega
  | case4 => cases h

theorem exists_toByte? {high low : UInt8} (hhigh : isDigit high = true) (hlow : isDigit low = true) :
    ∃ b, toByte? high low = some b := by
  obtain ⟨hi, hhi⟩ := Option.isSome_iff_exists.1 hhigh
  obtain ⟨lo, hlo⟩ := Option.isSome_iff_exists.1 hlow
  exact ⟨_, by rw [toByte?, hhi, hlo]⟩

/-- Digits in pairs denote bytes. -/
theorem exists_decode? {digits : List UInt8} (h : digits.all isDigit = true) {count : Nat}
    (even : digits.length = 2 * count) : ∃ bytes, decode? digits = some bytes := by
  fun_induction decode? digits generalizing count with
  | case1 => exact ⟨[], rfl⟩
  | case2 =>
    rw [List.length_singleton] at even
    omega
  | case3 => exact ⟨_, rfl⟩
  | case4 high low rest none_of ih =>
    simp only [List.all_cons, Bool.and_eq_true] at h
    simp only [List.length_cons] at even
    have rest_even : rest.length = 2 * (count - 1) := by omega
    obtain ⟨bytes, hbytes⟩ := ih h.2.2 rest_even
    obtain ⟨b, hb⟩ := exists_toByte? h.1 h.2.1
    exact (none_of b bytes hb hbytes).elim

/-- What digits denote is written with the same digits in lowercase. -/
theorem encode_of_decode? {digits bytes : List UInt8} (h : decode? digits = some bytes) :
    encode bytes = digits.map lower := by
  fun_induction decode? digits generalizing bytes with
  | case1 =>
    cases h
    rfl
  | case2 => cases h
  | case3 high low rest b more hrest hb ih =>
    cases h
    rw [encode_cons, ofByte_of_toByte? hb, ih hrest]
    rfl
  | case4 => cases h

/-- The digits that are written. -/
def lowercase : List UInt8 := ascii "0123456789abcdef"

theorem digit_mem_lowercase (n : Nat) : digit n ∈ lowercase := by
  have small : ∀ d < 16, digit d ∈ lowercase := by decide
  have same : digit n = digit (n % 16) := by simp only [digit, Nat.mod_mod]
  rw [same]
  exact small _ (Nat.mod_lt _ (by decide))

theorem mem_encode {bytes : List UInt8} {c : UInt8} (h : c ∈ encode bytes) : c ∈ lowercase := by
  obtain ⟨b, -, hc⟩ := List.mem_flatMap.1 h
  simp only [ofByte_eq, List.mem_cons, List.not_mem_nil, or_false] at hc
  rcases hc with rfl | rfl <;> exact digit_mem_lowercase _

end RemoteDebug.Hex
