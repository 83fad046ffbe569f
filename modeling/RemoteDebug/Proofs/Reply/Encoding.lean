import RemoteDebug.Reply.Buffer

/-!
# What a reply says

A reply is the written forms of its pieces one after the other, if that fits into the buffer, whatever the way in which
each piece goes in (`render_eq_some_iff`).
-/

namespace RemoteDebug.Reply

/-- The 64 bits of a number are its own. -/
theorem wordOf?_eq_some_iff {n : Int} {word : UInt64} : wordOf? n = some word ↔ n = word.toNat := by
  have bound := word.toNat_lt
  cases n with
  | ofNat n =>
    simp only [wordOf?, Int.ofNat_eq_natCast, Int.natCast_inj]
    split
    · rename_i fits
      have kept : (UInt64.ofNat n).toNat = n := UInt64.toNat_ofNat_of_lt' fits
      rw [Option.some.injEq, ← UInt64.toNat_inj, kept]
    · refine ⟨nofun, fun h => ?_⟩
      omega
  | negSucc n =>
    refine ⟨nofun, fun h => ?_⟩
    omega

theorem wordOf?_eq_none_iff {n : Int} : wordOf? n = none ↔ n < 0 ∨ 2 ^ 64 ≤ n := by
  cases n with
  | ofNat n =>
    simp only [wordOf?, Int.ofNat_eq_natCast]
    split
    · refine ⟨nofun, fun h => ?_⟩
      omega
    · refine ⟨fun _ => ?_, fun _ => rfl⟩
      omega
  | negSucc n => exact ⟨fun _ => .inl (Int.negSucc_lt_zero n), fun _ => rfl⟩

/-- The written form of a piece. A number that is negative or of 2 ^ 64 or more has none. -/
def Piece.bytes? : Piece → Option (List UInt8)
  | .byte b => some [b]
  | .text bytes => some bytes
  | .hexByte b => some (Hex.ofByte b)
  | .hexBytes bytes => some (Hex.encode bytes)
  | .number n => if 0 ≤ n ∧ n.toNat < 2 ^ 64 then some (Hex.compact n.toNat) else none
  | .ptid t => some t.render

/-- A number with a written form is one of 64 bits. -/
theorem Piece.exists_word {n : Int} {bytes : List UInt8} (h : (number n).bytes? = some bytes) :
    ∃ word : UInt64, n = word.toNat ∧ bytes = Hex.compact word.toNat := by
  rw [bytes?] at h
  split at h
  · rename_i held
    have kept : (UInt64.ofNat n.toNat).toNat = n.toNat := UInt64.toNat_ofNat_of_lt' (by rw [UInt64.size]; omega)
    refine ⟨UInt64.ofNat n.toNat, ?_, ?_⟩
    · rw [kept]
      omega
    · rw [kept]
      exact (Option.some.inj h).symm
  · cases h

@[simp] theorem Piece.bytes?_text (bytes : List UInt8) : (text bytes).bytes? = some bytes := rfl

@[simp] theorem Piece.bytes?_word (word : UInt64) : (number word.toNat).bytes? = some (Hex.compact word.toNat) := by
  have bound := word.toNat_lt
  have held : (0 : Int) ≤ word.toNat ∧ (word.toNat : Int).toNat < 2 ^ 64 := by omega
  rw [bytes?, if_pos held, Int.toNat_natCast]

/-- Whether a piece goes in whole or not at all. -/
def Piece.isWhole : Piece → Bool
  | .text _ | .hexBytes _ => true
  | .byte _ | .hexByte _ | .number _ | .ptid _ => false

/-- The written forms of pieces one after the other. -/
def encoding? : List Piece → Option (List UInt8)
  | [] => some []
  | p :: rest =>
    match p.bytes?, encoding? rest with
    | some first, some others => some (first ++ others)
    | _, _ => none

theorem encoding?_cons {p : Piece} {bytes : List UInt8} (h : p.bytes? = some bytes) (rest : List Piece) :
    encoding? (p :: rest) = (encoding? rest).map (bytes ++ ·) := by
  cases hr : encoding? rest <;> simp [encoding?, h, hr]

namespace Buffer

variable {buf : Buffer}

/-- The buffer with bytes added. -/
def append (buf : Buffer) (bytes : List UInt8) : Buffer := { buf with bytes := buf.bytes ++ bytes }

@[simp] theorem length_append (bytes : List UInt8) :
    (buf.append bytes).bytes.length = buf.bytes.length + bytes.length := List.length_append

@[simp] theorem capacity_append (bytes : List UInt8) : (buf.append bytes).capacity = buf.capacity := rfl

theorem append_append (first second : List UInt8) :
    (buf.append first).append second = buf.append (first ++ second) := by
  simp only [append, List.append_assoc]

/-- More bytes go in behind bytes that have all gone in. -/
theorem pushEach_append (buf : Buffer) (first second : List UInt8) :
    buf.pushEach (first ++ second) =
      match buf.pushEach first with
      | (.ok (), next) => next.pushEach second
      | (.error e, next) => (.error e, next) := by
  induction first generalizing buf with
  | nil => rfl
  | cons b first ih =>
    rw [List.cons_append, pushEach, pushEach]
    split
    · rfl
    · exact ih _

theorem pushEach_of_le {bytes : List UInt8} (h : buf.bytes.length + bytes.length ≤ buf.capacity) :
    buf.pushEach bytes = (.ok (), buf.append bytes) := by
  induction bytes generalizing buf with
  | nil => simp [pushEach, append]
  | cons b bytes ih =>
    simp only [List.length_cons] at h
    have notFull : buf.bytes.length ≠ buf.capacity := by omega
    have next := @ih (buf.append [b]) (by simp; omega)
    simp only [append] at next
    simp [pushEach, notFull, next, append]

/-- Bytes that do not fit go in up to the first that finds the buffer full. -/
theorem pushEach_of_lt {bytes : List UInt8} (hf : buf.bytes.length ≤ buf.capacity)
    (h : buf.capacity < buf.bytes.length + bytes.length) :
    buf.pushEach bytes = (.error .full, buf.append (bytes.take buf.room)) := by
  induction bytes generalizing buf with
  | nil =>
    simp only [List.length_nil] at h
    omega
  | cons b bytes ih =>
    simp only [List.length_cons] at h
    unfold pushEach
    split
    · rename_i full
      simp [room, full, append]
    · have room : buf.room = (buf.append [b]).room + 1 := by
        simp only [Buffer.room, length_append, capacity_append, List.length_singleton]
        omega
      have later := @ih (buf.append [b]) (by simp; omega) (by simp; omega)
      rw [append_append] at later
      rwa [room, List.take_succ_cons]

theorem pushWhole_of_le {bytes : List UInt8} (h : buf.bytes.length + bytes.length ≤ buf.capacity) :
    buf.pushWhole bytes = (.ok (), buf.append bytes) := by
  have room : ¬ buf.room < bytes.length := by
    unfold Buffer.room
    omega
  simp [pushWhole, room, append]

theorem pushWhole_of_lt {bytes : List UInt8} (hf : buf.bytes.length ≤ buf.capacity)
    (h : buf.capacity < buf.bytes.length + bytes.length) : buf.pushWhole bytes = (.error .full, buf) := by
  have room : buf.room < bytes.length := by
    unfold Buffer.room
    omega
  simp [pushWhole, room]

/-- Adding a piece is adding its written form, whole or byte by byte. -/
theorem write_eq (buf : Buffer) (p : Piece) :
    buf.write p =
      match p.bytes? with
      | none => (.error .full, buf)
      | some bytes => if p.isWhole then buf.pushWhole bytes else buf.pushEach bytes := by
  cases p with
  | byte | text | hexByte | hexBytes | ptid => rfl
  | number n =>
    rw [write]
    cases hn : wordOf? n with
    | none =>
      have unheld : ¬ (0 ≤ n ∧ n.toNat < 2 ^ 64) := by
        rw [wordOf?_eq_none_iff] at hn
        omega
      rw [Piece.bytes?, if_neg unheld]
    | some word =>
      obtain rfl := wordOf?_eq_some_iff.1 hn
      rw [Piece.bytes?_word]
      rfl

/-- A piece that fits adds its written form. -/
theorem write_of_le {p : Piece} {bytes : List UInt8} (hp : p.bytes? = some bytes)
    (h : buf.bytes.length + bytes.length ≤ buf.capacity) : buf.write p = (.ok (), buf.append bytes) := by
  rw [write_eq, hp]
  dsimp only
  rw [pushWhole_of_le h, pushEach_of_le h, ite_self]

/-- A piece that goes in byte by byte and does not fit fills the buffer. -/
theorem write_of_lt {p : Piece} {bytes : List UInt8} (hw : p.isWhole = false) (hp : p.bytes? = some bytes)
    (hf : buf.bytes.length ≤ buf.capacity) (h : buf.capacity < buf.bytes.length + bytes.length) :
    buf.write p = (.error .full, buf.append (bytes.take buf.room)) := by
  rw [write_eq, hp, hw]
  exact pushEach_of_lt hf h

/-- A piece that goes in whole or not at all and does not fit changes nothing. -/
theorem write_of_lt_of_isWhole {p : Piece} {bytes : List UInt8} (hw : p.isWhole = true) (hp : p.bytes? = some bytes)
    (hf : buf.bytes.length ≤ buf.capacity) (h : buf.capacity < buf.bytes.length + bytes.length) :
    buf.write p = (.error .full, buf) := by
  rw [write_eq, hp, hw]
  exact pushWhole_of_lt hf h

theorem write_of_none {p : Piece} (hp : p.bytes? = none) : buf.write p = (.error .full, buf) := by
  rw [write_eq, hp]

/-- A piece that does not fit is refused. -/
theorem write_refused {p : Piece} {bytes : List UInt8} (hp : p.bytes? = some bytes)
    (hf : buf.bytes.length ≤ buf.capacity) (h : buf.capacity < buf.bytes.length + bytes.length) :
    (buf.write p).1 = .error .full := by
  cases hw : p.isWhole with
  | true => rw [write_of_lt_of_isWhole hw hp hf h]
  | false => rw [write_of_lt hw hp hf h]

/-- Pieces go in exactly if all have a written form and these fit. -/
theorem writeAll_eq_ok_iff {pieces : List Piece} {after : Buffer} (hf : buf.bytes.length ≤ buf.capacity) :
    buf.writeAll pieces = (.ok (), after) ↔
      ∃ bytes, encoding? pieces = some bytes ∧ buf.bytes.length + bytes.length ≤ buf.capacity ∧
        after = buf.append bytes := by
  induction pieces generalizing buf with
  | nil =>
    simp only [writeAll, encoding?, Prod.mk.injEq, true_and, Option.some.injEq]
    constructor
    · rintro rfl
      exact ⟨[], rfl, by simpa using hf, by simp [append]⟩
    · rintro ⟨bytes, rfl, -, rfl⟩
      simp [append]
  | cons p pieces ih =>
    cases hp : p.bytes? with
    | none =>
      have refused : (buf.write p).1 = .error .full := by rw [write_of_none hp]
      have stuck : buf.writeAll (p :: pieces) = (.error .full, (buf.write p).2) := by
        unfold writeAll
        split <;> simp_all
      simp [stuck, encoding?, hp]
    | some first =>
      rw [encoding?_cons hp]
      by_cases hle : buf.bytes.length + first.length ≤ buf.capacity
      · have goes : buf.writeAll (p :: pieces) = (buf.append first).writeAll pieces := by
          rw [writeAll, write_of_le hp hle]
        rw [goes, ih (by simpa using hle)]
        constructor
        · rintro ⟨bytes, hb, hlen, rfl⟩
          refine ⟨first ++ bytes, by simp [hb], ?_, by simp [append]⟩
          simp only [length_append, capacity_append] at hlen
          simp only [List.length_append]
          omega
        · rintro ⟨bytes, hb, hlen, rfl⟩
          obtain ⟨others, ho, rfl⟩ := Option.map_eq_some_iff.1 hb
          simp only [List.length_append] at hlen
          refine ⟨others, ho, ?_, by simp [append]⟩
          simp only [length_append, capacity_append]
          omega
      · have refused := write_refused hp hf (Nat.lt_of_not_le hle)
        have stuck : buf.writeAll (p :: pieces) = (.error .full, (buf.write p).2) := by
          unfold writeAll
          split <;> simp_all
        rw [stuck]
        constructor
        · rintro ⟨⟩
        · rintro ⟨bytes, hb, hlen, -⟩
          obtain ⟨others, -, rfl⟩ := Option.map_eq_some_iff.1 hb
          simp only [List.length_append] at hlen
          omega

end Buffer

/-- The reply that pieces make is their written forms, if these fit into the buffer. -/
theorem render_eq_some_iff {capacity : Nat} {pieces : List Piece} {payload : List UInt8} :
    render capacity pieces = some payload ↔ encoding? pieces = some payload ∧ payload.length ≤ capacity := by
  have hw := fun after =>
    @Buffer.writeAll_eq_ok_iff (Buffer.empty capacity) pieces after (by simp [Buffer.empty])
  unfold render
  constructor
  · intro h
    split at h
    · rename_i after heq
      obtain ⟨bytes, hb, hlen, rfl⟩ := (hw after).1 heq
      cases h
      simp only [Buffer.empty, Buffer.append, List.nil_append, List.length_nil, Nat.zero_add] at hlen ⊢
      exact ⟨hb, hlen⟩
    · cases h
  · rintro ⟨hb, hlen⟩
    have heq := (hw _).2 ⟨payload, hb, by simpa [Buffer.empty] using hlen, rfl⟩
    rw [heq]
    simp [Buffer.append, Buffer.empty]

theorem render_text {capacity : Nat} {text : List UInt8} (fits : text.length ≤ capacity) :
    render capacity [.text text] = some text :=
  render_eq_some_iff.2 ⟨by simp [encoding?, Piece.bytes?], fits⟩

theorem render_hexBytes {capacity : Nat} {bytes : List UInt8} (fits : 2 * bytes.length ≤ capacity) :
    render capacity [.hexBytes bytes] = some (Hex.encode bytes) :=
  render_eq_some_iff.2 ⟨by simp [encoding?, Piece.bytes?], by rwa [Hex.length_encode]⟩

end RemoteDebug.Reply
