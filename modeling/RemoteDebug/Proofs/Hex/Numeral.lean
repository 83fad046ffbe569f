import RemoteDebug.Proofs.Hex.Compact
import RemoteDebug.Proofs.Hex.Digits
import RemoteDebug.Proofs.Hex.Fault
import RemoteDebug.Proofs.Reply.Encoding

/-!
# The usual form of a number

A number has many spellings, and one usual form among them (`Hex.Numeral`): small digits, and no zeros in front. That is
the compact form (`Hex.numeral_iff`), and no spelling has fewer digits (`Hex.length_compact_le_length`). The main
statement puts together what is read as a number and what is written for one (`Hex.numbers_read_and_written`).
-/

namespace RemoteDebug.Hex

variable {n : Nat} {digits : List UInt8}

/-! ## Values and places -/

theorem valueOf_lt (digits : List UInt8) : valueOf digits < 16 ^ digits.length := by
  induction digits with
  | nil => decide
  | cons c digits ih =>
    have top : (digit? c).getD 0 * 16 ^ digits.length ≤ 15 * 16 ^ digits.length :=
      Nat.mul_le_mul_right _ (Nat.le_of_lt_succ (getD_digit?_lt c))
    rw [valueOf, List.length_cons, Nat.pow_succ]
    omega

theorem exists_digit_of_mem_lowercase {c : UInt8} (h : c ∈ lowercase) : ∃ d < 16, digit d = c := by
  have all : lowercase = (List.range 16).map digit := by decide
  rw [all, List.mem_map] at h
  obtain ⟨d, hd, rfl⟩ := h
  exact ⟨d, List.mem_range.1 hd, rfl⟩

/-- Small digits are the places of the number that they denote. -/
theorem fixed_valueOf (small : ∀ c ∈ digits, c ∈ lowercase) : fixed digits.length (valueOf digits) = digits := by
  induction digits using List.reverseRecOn with
  | nil => rfl
  | append_singleton digits c ih =>
    obtain ⟨others, last⟩ := List.forall_mem_append.1 small
    obtain ⟨d, hd, rfl⟩ := exists_digit_of_mem_lowercase (List.forall_mem_singleton.1 last)
    have above : (valueOf digits * 16 + d) / 16 = valueOf digits := by omega
    have below : digit (valueOf digits * 16 + d) = digit d := by simp only [digit, Nat.mul_add_mod_self_right]
    rw [valueOf_concat, digit?_digit, Option.getD_some, Nat.mod_eq_of_lt hd, List.length_append, List.length_singleton,
      fixed_succ, above, below, ih others]

theorem le_log2_div {places : Nat} (h : 16 ^ places ≤ n) : places ≤ n.log2 / 4 := by
  have hn : n ≠ 0 := Nat.ne_of_gt (Nat.lt_of_lt_of_le (Nat.pow_pos (by decide)) h)
  have bits : 4 * places ≤ n.log2 := (Nat.le_log2 hn).2 (by rwa [Nat.pow_mul])
  omega

/-- No spelling of a number has fewer digits than the compact one. -/
theorem length_compact_le_length (filled : digits ≠ []) : (compact (valueOf digits)).length ≤ digits.length := by
  rw [compact, length_fixed]
  exact log2_div_lt (valueOf_lt digits) (List.length_pos_iff.2 filled)

/-! ## The usual form -/

/-- The usual form of a number: small digits, at least one, and no zero in front of others. -/
structure Numeral (digits : List UInt8) (n : Nat) : Prop where
  filled : digits ≠ []
  small : ∀ c ∈ digits, c ∈ lowercase
  leading : digits.head? = some '0'.toUInt8 → digits = ascii "0"
  value : valueOf digits = n

theorem mem_lowercase_of_mem_fixed {places : Nat} {c : UInt8} (h : c ∈ fixed places n) : c ∈ lowercase := by
  obtain ⟨m, rfl⟩ := exists_digit_of_mem_fixed h
  exact digit_mem_lowercase m

theorem compact_zero : compact 0 = ascii "0" := by decide

theorem numeral_compact (n : Nat) : Numeral (compact n) n := by
  refine ⟨compact_ne_nil n, fun c => mem_lowercase_of_mem_fixed, fun leading => ?_, valueOf_compact n⟩
  by_cases hn : n = 0
  · rw [hn, compact_zero]
  · -- the highest place of a number other than zero is not zero
    have top : 16 ^ (n.log2 / 4) ≤ n :=
      calc 16 ^ (n.log2 / 4) = 2 ^ (4 * (n.log2 / 4)) := by rw [Nat.pow_mul]
        _ ≤ 2 ^ n.log2 := Nat.pow_le_pow_right (by decide) (by omega)
        _ ≤ n := Nat.log2_self_le hn
    have positive : 0 < n / 16 ^ (n.log2 / 4) := Nat.div_pos top (Nat.pow_pos (by decide))
    have small : n / 16 ^ (n.log2 / 4) < 16 := by
      rw [Nat.div_lt_iff_lt_mul (Nat.pow_pos (by decide)), ← Nat.pow_succ']
      exact lt_pow_places n
    have read := digit?_digit (n / 16 ^ (n.log2 / 4))
    rw [show digit (n / 16 ^ (n.log2 / 4)) = '0'.toUInt8 from Option.some.inj leading, Nat.mod_eq_of_lt small] at read
    have zero : 0 = n / 16 ^ (n.log2 / 4) := Option.some.inj read
    omega

theorem Numeral.length_eq (h : Numeral digits n) : digits.length = (compact n).length := by
  obtain ⟨filled, small, leading, rfl⟩ := h
  refine Nat.le_antisymm ?_ (length_compact_le_length filled)
  cases digits with
  | nil => exact absurd rfl filled
  | cons c rest =>
    by_cases hc : c = '0'.toUInt8
    · rw [leading (congrArg some hc)]
      decide
    · have first : 1 ≤ (digit? c).getD 0 := by
        obtain ⟨d, hd, rfl⟩ := exists_digit_of_mem_lowercase (small c List.mem_cons_self)
        have nonzero : d ≠ 0 := by
          rintro rfl
          exact hc rfl
        rw [digit?_digit, Option.getD_some, Nat.mod_eq_of_lt hd]
        exact Nat.one_le_iff_ne_zero.2 nonzero
      have top : 16 ^ rest.length ≤ valueOf (c :: rest) :=
        calc 16 ^ rest.length ≤ (digit? c).getD 0 * 16 ^ rest.length := Nat.le_mul_of_pos_left _ first
          _ ≤ valueOf (c :: rest) := Nat.le_add_right _ _
      rw [compact, length_fixed, List.length_cons]
      exact Nat.succ_le_succ (le_log2_div top)

/-- A number has one usual form. -/
theorem numeral_iff : Numeral digits n ↔ digits = compact n := by
  constructor
  · intro h
    calc digits = fixed digits.length (valueOf digits) := (fixed_valueOf h.small).symm
      _ = fixed (compact n).length n := by rw [h.length_eq, h.value]
      _ = compact n := by rw [compact, length_fixed]
  · rintro rfl
    exact numeral_compact n

/-! ## Zeros in front -/

theorem valueOf_zeros (zeros : Nat) : valueOf (List.replicate zeros '0'.toUInt8) = 0 := by
  induction zeros with
  | zero => rfl
  | succ zeros ih => rw [List.replicate_succ, valueOf, ih, show (digit? '0'.toUInt8).getD 0 = 0 by decide, Nat.zero_mul]

theorem number_zeros (bits zeros : Nat) (filled : digits ≠ []) :
    number bits (List.replicate zeros '0'.toUInt8 ++ digits) = number bits digits := by
  have all : ∀ c ∈ List.replicate zeros '0'.toUInt8, isDigit c = true := by
    intro c hc
    rw [List.eq_of_mem_replicate hc]
    decide
  have read := @numberFrom_append bits (List.replicate zeros '0'.toUInt8) 0 all
    (by rw [valueOf_zeros, Nat.zero_mul]; exact Nat.two_pow_pos bits) digits
  rw [valueOf_zeros, Nat.zero_mul] at read
  have whole : (List.replicate zeros '0'.toUInt8 ++ digits).isEmpty = false := by simp [filled]
  have alone : digits.isEmpty = false := by simpa using filled
  rw [number, number, whole, alone]
  exact read

/-! ## Reading and writing -/

/-- What is read from bytes, and why nothing is: the number that they denote, with any zeros in front; an empty field is
refused as such, and of other bytes the first fault counts. A register that checks each product and each sum reads the
same, and no sum is too big where the product was not. -/
structure ReadsExactly (bits : Nat) (digits : List UInt8) : Prop where
  ok : ∀ n, number bits digits = .ok n ↔ Denotes bits digits n
  zeros : digits ≠ [] → ∀ zeros, number bits (List.replicate zeros '0'.toUInt8 ++ digits) = number bits digits
  empty : number bits digits = .error .empty ↔ digits = []
  invalidDigit : number bits digits = .error .invalidDigit ↔
    ∃ front c, ReadsUpTo bits digits front c ∧ isDigit c = false
  overflow : number bits digits = .error .overflow ↔
    ∃ front c, ReadsUpTo bits digits front c ∧ isDigit c = true ∧ 2 ^ bits ≤ valueOf (front ++ [c])
  register : digits ≠ [] → number bits digits = (register bits digits).mapError RegisterError.toNumberError
  sum : Hex.register bits digits ≠ .error .sum

theorem readsExactly {bits : Nat} (hb : 4 ≤ bits) (digits : List UInt8) : ReadsExactly bits digits where
  ok _ := number_eq_ok_iff hb
  zeros filled zeros := number_zeros bits zeros filled
  empty := number_eq_empty_iff hb
  invalidDigit := number_eq_invalidDigit_iff hb
  overflow := number_eq_overflow_iff hb
  register filled := number_eq_register hb filled
  sum := register_ne_sum hb digits

/-- What a number is written in: its one usual form. It is read as the number again, and no digits of either case that
denote the number are fewer. -/
structure Written (form : List UInt8) (v : UInt64) : Prop where
  usual : ∀ other, Numeral other v.toNat ↔ other = form
  read : number 64 form = .ok v.toNat
  shortest : ∀ other, other ≠ [] → (∀ c ∈ other, isDigit c = true) → valueOf other = v.toNat →
    form.length ≤ other.length

theorem written_compact (v : UInt64) : Written (compact v.toNat) v where
  usual _ := numeral_iff
  read := number_compact v.toNat_lt
  shortest _ filled _ same := same ▸ length_compact_le_length filled

/-- Numbers are read exactly, into any width of whole digits, and a number of 64 bits is written, wherever its digits
fit, in the one form from which it is read again with the fewest digits. -/
theorem numbers_read_and_written {bits : Nat} (hb : 4 ≤ bits) (digits : List UInt8) :
    ReadsExactly bits digits ∧
      ∀ v : UInt64, ∃ form, Written form v ∧
        ∀ buf : Reply.Buffer, buf.bytes.length + form.length ≤ buf.capacity →
          buf.write (.number v.toNat) = (.ok (), buf.append form) :=
  ⟨readsExactly hb digits, fun v =>
    ⟨compact v.toNat, written_compact v, fun _ room => Reply.Buffer.write_of_le (Reply.Piece.bytes?_word v) room⟩⟩

/-- With eight bits: a number with zeros in front, one that is too big before a byte that is no digit, and one that is
not; and a number written in three digits. -/
theorem numbers_of_eight_bits :
    number 8 (ascii "00fF") = .ok 255 ∧ number 8 (ascii "100g") = .error .overflow ∧
      number 8 (ascii "10g00") = .error .invalidDigit ∧
      (Reply.Buffer.empty 3).write (.number 418) = (.ok (), ⟨3, ascii "1a2"⟩) := by
  obtain ⟨whole, -⟩ := @numbers_read_and_written 8 (by decide) (ascii "00fF")
  obtain ⟨tooBig, -⟩ := @numbers_read_and_written 8 (by decide) (ascii "100g")
  obtain ⟨broken, writes⟩ := @numbers_read_and_written 8 (by decide) (ascii "10g00")
  refine ⟨(whole.ok 255).2 ⟨by decide, by decide +kernel, by decide, by decide⟩,
    tooBig.overflow.2 ⟨ascii "10", '0'.toUInt8, ?_⟩, broken.invalidDigit.2 ⟨ascii "10", 'g'.toUInt8, ?_⟩, ?_⟩
  · exact ⟨⟨⟨ascii "g", rfl⟩, by decide +kernel, by decide⟩, by decide, by decide⟩
  · exact ⟨⟨⟨ascii "00", rfl⟩, by decide +kernel, by decide⟩, by decide⟩
  · obtain ⟨form, written, fits⟩ := writes 418
    obtain rfl : ascii "1a2" = form := (written.usual _).1 ⟨by decide, by decide +kernel, by decide, by decide⟩
    exact fits (Reply.Buffer.empty 3) (by decide)

end RemoteDebug.Hex
