import RemoteDebug.Proofs.Hex.Digits

/-!
# Transfers through buffers

Bytes go into a buffer as digits, or digits as bytes, over the front of what it held; the rest of it stays
(`Hex.EncodesExactly`, `Hex.DecodesExactly`). Digits are taken pair by pair, so that the bytes in front of a bad pair
have been written when it is found (`Hex.BreaksOff`). Either transfer undoes the other, but for capitals, whatever the
buffers held (`Hex.transfers_exact_and_inverse`).
-/

namespace RemoteDebug.Hex

variable {bytes digits buffer : List UInt8} {high low : UInt8}

/-! ## Pairs -/

theorem toByte?_eq_none_iff : toByte? high low = none ↔ isDigit high = false ∨ isDigit low = false := by
  unfold toByte? isDigit
  cases digit? high <;> cases digit? low <;> simp

theorem isDigit_of_toByte? {b : UInt8} (h : toByte? high low = some b) :
    isDigit high = true ∧ isDigit low = true := by
  have paired : toByte? high low ≠ none := by simp [h]
  simpa [toByte?_eq_none_iff] using paired

/-- The bytes of the pairs in front of the first that is not one of digits. -/
def BreaksOff (digits bytes : List UInt8) : Prop :=
  ∃ pairs high low rest, digits = pairs ++ high :: low :: rest ∧ decode? pairs = some bytes ∧
    (isDigit high = false ∨ isDigit low = false)

theorem BreaksOff.cons {b : UInt8} (hb : toByte? high low = some b) (h : BreaksOff digits bytes) :
    BreaksOff (high :: low :: digits) (b :: bytes) := by
  obtain ⟨pairs, first, second, rest, rfl, before, bad⟩ := h
  exact ⟨high :: low :: pairs, first, second, rest, rfl, by simp [decode?, hb, before], bad⟩

/-- Bytes in pairs that are not all digits have a first bad pair. -/
theorem exists_breaksOff (even : digits.length % 2 = 0) (bad : ∃ c ∈ digits, isDigit c = false) :
    ∃ bytes, BreaksOff digits bytes := by
  fun_induction decode? digits with
  | case1 => simp at bad
  | case2 => simp at even
  | case3 high low rest b _ _ hb ih | case4 high low rest _ ih =>
    cases pair : toByte? high low with
    | none => exact ⟨[], [], high, low, rest, rfl, rfl, toByte?_eq_none_iff.1 pair⟩
    | some b =>
      obtain ⟨hhigh, hlow⟩ := isDigit_of_toByte? pair
      have later : ∃ c ∈ rest, isDigit c = false := by simpa [hhigh, hlow] using bad
      obtain ⟨bytes, breaks⟩ := ih (by simp only [List.length_cons] at even; omega) later
      exact ⟨b :: bytes, breaks.cons pair⟩

/-! ## Laying bytes over a buffer -/

/-- Pairs that denote bytes are laid over the front of a buffer, and what follows them goes behind. -/
theorem decodeOver_append (h : decode? digits = some bytes) (room : bytes.length ≤ buffer.length)
    (rest : List UInt8) : decodeOver (digits ++ rest) buffer =
      ((decodeOver rest (buffer.drop bytes.length)).1, bytes ++ (decodeOver rest (buffer.drop bytes.length)).2) := by
  fun_induction decode? digits generalizing bytes buffer with
  | case1 =>
    cases h
    rfl
  | case2 => cases h
  | case3 high low others b more hothers hb ih =>
    cases h
    cases buffer with
    | nil => cases room
    | cons old buffer =>
      have later := ih hothers (Nat.le_of_succ_le_succ room)
      simp only [List.cons_append, decodeOver, hb, later, List.length_cons, List.drop_succ_cons]
  | case4 => cases h

theorem decodeOver_of_decode? (h : decode? digits = some bytes) (room : bytes.length ≤ buffer.length) :
    decodeOver digits buffer = (true, bytes ++ buffer.drop bytes.length) := by
  have behind : decodeOver [] (buffer.drop bytes.length) = (true, buffer.drop bytes.length) := rfl
  have laid := decodeOver_append h room []
  rwa [List.append_nil, behind] at laid

theorem decodeOver_of_breaksOff (h : BreaksOff digits bytes) (room : digits.length / 2 ≤ buffer.length) :
    decodeOver digits buffer = (false, bytes ++ buffer.drop bytes.length) := by
  obtain ⟨pairs, high, low, rest, rfl, before, bad⟩ := h
  have length := length_of_decode? before
  simp only [List.length_append, List.length_cons] at room
  rw [decodeOver_append before (by omega)]
  -- there is a place for the byte of the bad pair, too
  cases places : buffer.drop bytes.length with
  | nil =>
    rw [List.drop_eq_nil_iff] at places
    omega
  | cons old behind => simp [decodeOver, toByte?_eq_none_iff.2 bad]

/-! ## Whole transfers -/

theorem encodeInto_of_le (room : 2 * bytes.length ≤ buffer.length) :
    encodeInto buffer bytes = (.ok (2 * bytes.length), encode bytes ++ buffer.drop (2 * bytes.length)) := by
  simp [encodeInto, Nat.not_lt.2 room]

theorem decodeInto_of_odd (odd : digits.length % 2 = 1) : decodeInto buffer digits = (.error .oddLength, buffer) := by
  simp [decodeInto, odd]

theorem decodeInto_of_lt (even : digits.length % 2 = 0) (small : buffer.length < digits.length / 2) :
    decodeInto buffer digits = (.error .smallBuffer, buffer) := by
  simp [decodeInto, even, small]

theorem decodeInto_of_breaksOff (even : digits.length % 2 = 0) (room : digits.length / 2 ≤ buffer.length)
    (h : BreaksOff digits bytes) :
    decodeInto buffer digits = (.error .invalidDigit, bytes ++ buffer.drop bytes.length) := by
  simp [decodeInto, even, Nat.not_lt.2 room, decodeOver_of_breaksOff h room]

theorem decodeInto_of_decode? (room : digits.length / 2 ≤ buffer.length) (h : decode? digits = some bytes) :
    decodeInto buffer digits = (.ok (digits.length / 2), bytes ++ buffer.drop bytes.length) := by
  have length := length_of_decode? h
  have even : digits.length % 2 = 0 := by omega
  have laid := decodeOver_of_decode? h (show bytes.length ≤ buffer.length by omega)
  simp [decodeInto, even, Nat.not_lt.2 room, laid]

/-- How bytes go into a buffer as digits: small ones, two for each byte, over the front of it; or not at all. -/
structure EncodesExactly (buffer bytes : List UInt8) : Prop where
  refused : ∀ e, (encodeInto buffer bytes).1 = .error e ↔ e = .smallBuffer ∧ buffer.length < 2 * bytes.length
  untouched : buffer.length < 2 * bytes.length → (encodeInto buffer bytes).2 = buffer
  written : 2 * bytes.length ≤ buffer.length → ∃ digits, digits.length = 2 * bytes.length ∧
    (∀ c ∈ digits, c ∈ lowercase) ∧ decode? digits = some bytes ∧
    encodeInto buffer bytes = (.ok (2 * bytes.length), digits ++ buffer.drop (2 * bytes.length))

theorem encodesExactly (buffer bytes : List UInt8) : EncodesExactly buffer bytes := by
  by_cases small : buffer.length < 2 * bytes.length
  · have result : encodeInto buffer bytes = (.error .smallBuffer, buffer) := by simp [encodeInto, small]
    refine ⟨fun e => ?_, fun _ => by rw [result], fun room => absurd small (Nat.not_lt.2 room)⟩
    simp [result, small, eq_comm]
  · have result := encodeInto_of_le (Nat.le_of_not_lt small)
    refine ⟨fun e => ?_, fun h => absurd h small, fun _ => ?_⟩
    · simp [result, small]
    · exact ⟨encode bytes, length_encode bytes, fun c => mem_encode, decode?_encode bytes, result⟩

/-- How digits go into a buffer as bytes. An odd number of digits counts before a small buffer, and either before a byte
that is no digit; such a byte is found when the bytes in front of it have been written. -/
structure DecodesExactly (buffer digits : List UInt8) : Prop where
  odd : (decodeInto buffer digits).1 = .error .oddLength ↔ digits.length % 2 = 1
  small : (decodeInto buffer digits).1 = .error .smallBuffer ↔
    digits.length % 2 = 0 ∧ buffer.length < digits.length / 2
  bad : (decodeInto buffer digits).1 = .error .invalidDigit ↔
    digits.length % 2 = 0 ∧ digits.length / 2 ≤ buffer.length ∧ ∃ c ∈ digits, isDigit c = false
  done : ∀ count, (decodeInto buffer digits).1 = .ok count ↔
    digits.length % 2 = 0 ∧ digits.length / 2 ≤ buffer.length ∧ (∀ c ∈ digits, isDigit c = true) ∧
      count = digits.length / 2
  untouched : digits.length % 2 = 1 ∨ buffer.length < digits.length / 2 → (decodeInto buffer digits).2 = buffer
  begun : (decodeInto buffer digits).1 = .error .invalidDigit → (∃ bytes, BreaksOff digits bytes) ∧
    ∀ bytes, BreaksOff digits bytes → (decodeInto buffer digits).2 = bytes ++ buffer.drop bytes.length
  written : ∀ count, (decodeInto buffer digits).1 = .ok count → ∃ bytes, bytes.length = digits.length / 2 ∧
    decode? digits = some bytes ∧ (decodeInto buffer digits).2 = bytes ++ buffer.drop (digits.length / 2)

theorem decodesExactly (buffer digits : List UInt8) : DecodesExactly buffer digits := by
  rcases Nat.mod_two_eq_zero_or_one digits.length with even | odd
  · by_cases small : buffer.length < digits.length / 2
    · have result := decodeInto_of_lt even small
      constructor <;> simp [result, even, small, Nat.not_le.2 small]
    · have room : digits.length / 2 ≤ buffer.length := Nat.le_of_not_lt small
      by_cases all : ∀ c ∈ digits, isDigit c = true
      · have pairs : digits.length = 2 * (digits.length / 2) := by omega
        obtain ⟨bytes, hbytes⟩ := exists_decode? (List.all_eq_true.2 all) pairs
        have length : bytes.length = digits.length / 2 := by
          have twice := length_of_decode? hbytes
          omega
        have result := decodeInto_of_decode? room hbytes
        refine ⟨by simp [result, even], by simp [result, small], by simpa [result, even, room] using all,
          fun count => ?_, by simp [even, small], by simp [result], fun _ _ => ⟨bytes, length, hbytes, ?_⟩⟩
        · rw [result]
          constructor
          · intro h
            exact ⟨even, room, all, (Except.ok.inj h).symm⟩
          · rintro ⟨-, -, -, rfl⟩
            rfl
        · rw [result, length]
      · have bad : ∃ c ∈ digits, isDigit c = false := by simpa using all
        obtain ⟨bytes, breaks⟩ := exists_breaksOff even bad
        have result := decodeInto_of_breaksOff even room breaks
        exact ⟨by simp [result, even], by simp [result, small], by simpa [result, even, room] using bad,
          fun count => by simp [result, all], by simp [even, small],
          fun _ => ⟨⟨bytes, breaks⟩, fun _ other => by rw [decodeInto_of_breaksOff even room other]⟩,
          by simp [result]⟩
  · have result : decodeInto buffer digits = (.error .oddLength, buffer) := decodeInto_of_odd odd
    constructor <;> simp [result, odd]

/-- What a transfer hands back: the part of the buffer that it has written. -/
def returned : Except BufferError Nat × List UInt8 → Except BufferError (List UInt8)
  | (.ok count, buffer) => .ok (buffer.take count)
  | (.error e, _) => .error e

theorem returned_encodeInto (room : 2 * bytes.length ≤ buffer.length) :
    returned (encodeInto buffer bytes) = .ok (encode bytes) := by
  rw [encodeInto_of_le room, returned, List.take_left' (length_encode bytes)]

theorem returned_decodeInto (room : digits.length / 2 ≤ buffer.length) (h : decode? digits = some bytes) :
    returned (decodeInto buffer digits) = .ok bytes := by
  have length : bytes.length = digits.length / 2 := by
    have twice := length_of_decode? h
    omega
  rw [decodeInto_of_decode? room h, returned, List.take_left' length]

/-- Transfers succeed and fail just where they should, and touch no more of a buffer than they write. Bytes that are
written as digits are read as the same bytes again, and digits of either case that are read as bytes are written as the
same digits in lowercase. -/
theorem transfers_exact_and_inverse (buffer bytes digits : List UInt8) :
    EncodesExactly buffer bytes ∧ DecodesExactly buffer digits ∧
      (∀ out mem : List UInt8, 2 * bytes.length ≤ out.length → bytes.length ≤ mem.length →
        (returned (encodeInto out bytes) >>= fun written => returned (decodeInto mem written)) = .ok bytes) ∧
      ∀ out mem : List UInt8, digits.length % 2 = 0 → (∀ c ∈ digits, isDigit c = true) →
        digits.length / 2 ≤ mem.length → digits.length ≤ out.length →
        (returned (decodeInto mem digits) >>= fun read => returned (encodeInto out read)) = .ok (digits.map lower) := by
  refine ⟨encodesExactly buffer bytes, decodesExactly buffer digits, fun out mem room space => ?_,
    fun out mem even all space room => ?_⟩
  · have length := length_encode bytes
    rw [returned_encodeInto room]
    exact returned_decodeInto (by omega) (decode?_encode bytes)
  · have pairs : digits.length = 2 * (digits.length / 2) := by omega
    obtain ⟨read, hread⟩ := exists_decode? (List.all_eq_true.2 all) pairs
    have length := length_of_decode? hread
    rw [returned_decodeInto space hread]
    exact (returned_encodeInto (by omega)).trans (congrArg Except.ok (encode_of_decode? hread))

/-- Into three places: two bytes do not go as digits; digits go up to a bad pair; and each way and back again. -/
theorem transfers_through_three_places :
    encodeInto [7, 7, 7] [0xbe, 0xef] = (.error .smallBuffer, [7, 7, 7]) ∧
      decodeInto [7, 7, 7] (ascii "12xy") = (.error .invalidDigit, [0x12, 7, 7]) ∧
      (returned (encodeInto [7, 7, 7] [0xbe]) >>= fun written => returned (decodeInto [7] written)) = .ok [0xbe] ∧
      (returned (decodeInto [7] (ascii "BE")) >>= fun read => returned (encodeInto [7, 7, 7] read)) =
        .ok (ascii "be") := by
  obtain ⟨encodes, decodes, -⟩ := transfers_exact_and_inverse [7, 7, 7] [0xbe, 0xef] (ascii "12xy")
  obtain ⟨-, -, there, back⟩ := transfers_exact_and_inverse [] [0xbe] (ascii "BE")
  refine ⟨Prod.ext ((encodes.refused _).2 ⟨rfl, by decide⟩) (encodes.untouched (by decide)), ?_,
    there _ _ (by decide) (by decide), back _ _ (by decide) (by decide +kernel) (by decide) (by decide)⟩
  have bad : (decodeInto [7, 7, 7] (ascii "12xy")).1 = .error .invalidDigit :=
    decodes.bad.2 ⟨by decide, by decide, 'x'.toUInt8, by decide, by decide⟩
  have breaks : BreaksOff (ascii "12xy") [0x12] :=
    ⟨ascii "12", 'x'.toUInt8, 'y'.toUInt8, [], rfl, by decide, by decide⟩
  exact Prod.ext bad ((decodes.begun bad).2 [0x12] breaks)

end RemoteDebug.Hex
