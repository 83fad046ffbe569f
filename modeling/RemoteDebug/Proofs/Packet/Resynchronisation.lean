import RemoteDebug.Proofs.Packet.Reading
import RemoteDebug.Proofs.Reply.Sendable

/-!
# Finding the way back into a stream

Whatever a receiver has taken before, the second of two copies of a frame comes through at the latest: the first closes
any checksum that the receiver still reads, and nothing behind its opening mark opens a packet (`run_frame_outside`).
The first copy comes through unless the stream ends in such a checksum (`endsInChecksum_iff`). A byte of a body that is
exchanged for another changes the checksum (`checksum_set_ne`), so the receiver reports a mismatch, and the next frame
comes through again. Main statement: `receiver_resynchronises`.
-/

namespace RemoteDebug.Packet

/-! ## One byte of a body -/

/-- The frame of a body with one byte of the body exchanged for another, which is no mark of a packet. -/
def IsGarbled (body bytes : List UInt8) : Prop :=
  ∃ i b, ∃ h : i < body.length, b ≠ body[i] ∧ b ≠ opening ∧ b ≠ closing ∧
    bytes = (frame body).set (i + 1) b

theorem byteSum_append_cons (front back : List UInt8) (b : UInt8) :
    byteSum (front ++ b :: back) = (byteSum front + byteSum back + b.toNat) % 256 := by
  have sum (l : List Nat) (n : Nat) : l.foldr (· + ·) n = l.foldr (· + ·) 0 + n := by
    induction l with
    | nil => simp
    | cons m l ih => simp only [List.foldr_cons, ih]; omega
  simp only [byteSum, List.map_append, List.map_cons, List.foldr_append, List.foldr_cons]
  rw [sum]
  omega

/-- The checksum tells a body from one that differs from it in a single byte. -/
theorem checksum_set_ne {body : List UInt8} {i : Nat} {b : UInt8} (h : i < body.length) (other : b ≠ body[i]) :
    checksum (body.set i b) ≠ checksum body := by
  intro same
  have original : body = body.take i ++ body[i] :: body.drop (i + 1) := by simp
  have sums : byteSum (body.set i b) = byteSum body := by rw [← toNat_checksum, same, toNat_checksum]
  rw [List.set_eq_take_append_cons_drop, if_pos h, byteSum_append_cons] at sums
  nth_rewrite 3 [original] at sums
  rw [byteSum_append_cons] at sums
  have hb := b.toNat_lt
  have hi := (body[i]).toNat_lt
  exact other (UInt8.toNat_inj.1 (by omega))

/-- The frame around a garbled body still has the checksum of the body it is made from. -/
theorem frame_set {body : List UInt8} {i : Nat} (b : UInt8) (h : i < body.length) :
    ∃ high low, (frame body).set (i + 1) b = opening :: body.set i b ++ [closing, high, low] ∧
      Hex.toByte? high low = some (checksum body) := by
  obtain ⟨high, low, framed, sum⟩ := isFrame_frame body
  refine ⟨high, low, ?_, sum⟩
  rw [framed, List.cons_append, List.set_cons_succ, List.set_append_left _ _ h, List.cons_append]

theorem Sendable.set {size i : Nat} {body : List UInt8} {b : UInt8} (sendable : Sendable size body) (ho : b ≠ opening)
    (hc : b ≠ closing) : Sendable size (body.set i b) := by
  refine ⟨by simpa using sendable.fits, fun c hc' => ?_⟩
  rcases List.mem_or_eq_of_mem_set hc' with hmem | rfl
  · exact sendable.unmarked c hmem
  · exact ⟨ho, hc⟩

namespace Receiver

variable {size : Nat} {stream body : List UInt8}

/-! ## The state a stream leaves -/

/-- The events of a stream that a new receiver takes. -/
def events (size : Nat) (stream : List UInt8) : List (Nat × Event) := (run size .outside 0 stream).2

/-- A new receiver when it has taken a stream. -/
def after (size : Nat) (stream : List UInt8) : Receiver := (run size .outside 0 stream).1

theorem after_append (a b : List UInt8) : after size (a ++ b) = (run size (after size a) a.length b).1 := by
  simp [after, run_append]

theorem events_append (a b : List UInt8) :
    events size (a ++ b) = events size a ++ (run size (after size a) a.length b).2 := by
  simp [events, after, run_append]

theorem open_of_outside (h : after size stream = .outside) : (after size stream).Open := by
  rw [h]
  trivial

theorem after_concat (a : List UInt8) (b : UInt8) : after size (a ++ [b]) = ((after size a).step size b).1 := by
  simp [after_append, run]

/-- The stream ends in a closing mark, with at most one byte behind it, that ended a body: the receiver takes the bytes
that follow for the rest of a checksum. -/
def EndsInChecksum (size : Nat) (stream : List UInt8) : Prop :=
  ∃ front tail received, stream = front ++ closing :: tail ∧ tail.length ≤ 1 ∧
    after size front = .inside received

theorem step_closing (received : Array UInt8) :
    (inside received).step size closing = (.checksumHigh received.toList, none) := by
  have ne : closing ≠ opening := by decide
  simp [step, ne]

/-- Only the closing mark of a body leads to a checksum. -/
theorem closing_of_step {receiver : Receiver} {b : UInt8} {kept : List UInt8}
    (h : (receiver.step size b).1 = .checksumHigh kept) :
    b = closing ∧ ∃ received, receiver = .inside received := by
  cases receiver with
  | outside =>
    simp only [step] at h
    repeat' split at h
    all_goals cases h
  | inside received =>
    simp only [step] at h
    split at h
    · cases h
    · split at h
      · exact ⟨‹_›, received, rfl⟩
      · split at h <;> cases h
  | checksumHigh | checksumLow => cases h

/-- Only one byte leads from the closing mark to the second digit. -/
theorem checksumHigh_of_step {receiver : Receiver} {b high : UInt8} {kept : List UInt8}
    (h : (receiver.step size b).1 = .checksumLow kept high) : receiver = .checksumHigh kept := by
  cases receiver with
  | outside | inside =>
    simp only [step] at h
    repeat' split at h
    all_goals cases h
  | checksumHigh => cases h; rfl
  | checksumLow => cases h

theorem eq_concat_of_checksumHigh {kept : List UInt8} (h : after size stream = .checksumHigh kept) :
    ∃ front received, stream = front ++ [closing] ∧ after size front = .inside received := by
  rcases List.eq_nil_or_concat stream with rfl | ⟨front, b, rfl⟩
  · cases h
  · rw [List.concat_eq_append, after_concat] at h
    obtain ⟨rfl, received, before⟩ := closing_of_step h
    exact ⟨front, received, List.concat_eq_append, before⟩

/-- A receiver is in a checksum when the stream says so, and in no other case. -/
theorem endsInChecksum_iff : EndsInChecksum size stream ↔ ¬ (after size stream).Open := by
  constructor
  · rintro ⟨front, tail, received, rfl, short, before⟩
    have split : front ++ closing :: tail = front ++ [closing] ++ tail := by simp
    have closed : after size (front ++ [closing]) = .checksumHigh received.toList := by
      rw [after_concat, before, step_closing]
    rw [split, after_append, closed]
    match tail, short with
    | [], _ => exact id
    | [_], _ => exact id
  · intro shut
    match h : after size stream with
    | .outside | .inside _ =>
      rw [h] at shut
      exact absurd trivial shut
    | .checksumHigh kept =>
      obtain ⟨front, received, rfl, before⟩ := eq_concat_of_checksumHigh h
      exact ⟨front, [], received, rfl, Nat.zero_le 1, before⟩
    | .checksumLow kept high =>
      rcases List.eq_nil_or_concat stream with rfl | ⟨front, b, rfl⟩
      · cases h
      · rw [List.concat_eq_append, after_concat] at h
        obtain ⟨front, received, rfl, before⟩ := eq_concat_of_checksumHigh (checksumHigh_of_step h)
        exact ⟨front, [b], received, by simp, Nat.le_refl 1, before⟩

/-! ## Behind a frame -/

/-- Outside a packet nothing but an opening mark counts. -/
theorem run_outside_of_not_mem {bytes : List UInt8} (h : opening ∉ bytes) (start : Nat) :
    (run size .outside start bytes).1 = .outside := by
  induction bytes generalizing start with
  | nil => rfl
  | cons b bytes ih =>
    have hb : b ≠ opening := fun heq => h (heq ▸ List.mem_cons_self)
    have rest : opening ∉ bytes := fun hmem => h (List.mem_cons_of_mem _ hmem)
    have stays : (outside.step size b).1 = .outside := by
      simp only [step, if_neg hb]
      split <;> rfl
    simp only [run, stays]
    exact ih rest (start + 1)

theorem opening_not_mem_tail (unmarked : Unmarked body) :
    opening ∉ body ++ closing :: Hex.ofByte (checksum body) := by
  have ne : opening ≠ closing := by decide
  have digits := (unmarked_iff.1 (Hex.unmarked_ofByte (checksum body))).1
  simp [(unmarked_iff.1 unmarked).1, ne, digits]

/-- A frame that begins in the middle of a checksum is lost, but it leads out of the checksum. -/
theorem run_frame_of_not_open {receiver : Receiver} (h : ¬ receiver.Open) (unmarked : Unmarked body) (start : Nat) :
    (run size receiver start (frame body)).1 = .outside := by
  have plain := opening_not_mem_tail unmarked
  cases receiver with
  | outside | inside => exact absurd trivial h
  | checksumLow kept high => exact run_outside_of_not_mem plain (start + 1)
  | checksumHigh kept =>
    -- the checksum takes the opening mark and one byte more, whichever that is
    obtain ⟨b, rest, split⟩ : ∃ b rest, body ++ closing :: Hex.ofByte (checksum body) = b :: rest :=
      List.exists_cons_of_ne_nil (by simp)
    rw [split] at plain
    simp only [frame, List.cons_append, split, run, step]
    exact run_outside_of_not_mem (fun hmem => plain (List.mem_cons_of_mem _ hmem)) (start + 1 + 1)

/-- Behind a frame a receiver is outside any packet, in whichever state the frame found it. -/
theorem run_frame_outside (receiver : Receiver) (sendable : Sendable size body) (start : Nat) :
    (run size receiver start (frame body)).1 = .outside := by
  by_cases h : receiver.Open
  · rw [run_frame h sendable (isFrame_frame body)]
  · exact run_frame_of_not_open h sendable.unmarked start

theorem length_frame (body : List UInt8) : (frame body).length = body.length + 4 := by simp [frame]

/-- A frame behind a stream that does not end in a checksum adds its packet, at its last byte, and no other event. -/
theorem events_append_frame (h : (after size stream).Open) (sendable : Sendable size body) :
    events size (stream ++ frame body) =
      events size stream ++ [((stream ++ frame body).length - 1, .packet body)] := by
  have position : (stream ++ frame body).length - 1 = stream.length + body.length + 3 := by
    rw [List.length_append, length_frame]
    omega
  rw [events_append, run_frame h sendable (isFrame_frame body), position]

/-- A garbled frame adds the mismatch, at its last byte, and no other event. -/
theorem events_append_garbled {bytes : List UInt8} (h : (after size stream).Open) (sendable : Sendable size body)
    (garbled : IsGarbled body bytes) : after size (stream ++ bytes) = .outside ∧
      ∃ computed, computed ≠ checksum body ∧ events size (stream ++ bytes) =
        events size stream ++ [((stream ++ bytes).length - 1, .mismatch (some (checksum body)) computed)] := by
  obtain ⟨i, b, hi, other, ho, hc, rfl⟩ := garbled
  obtain ⟨high, low, split, sum⟩ := frame_set b hi
  have differs := checksum_set_ne hi other
  have position : (stream ++ (frame body).set (i + 1) b).length - 1 = stream.length + (body.set i b).length + 3 := by
    rw [List.length_append, List.length_set, List.length_set, length_frame]
    omega
  have wrong : verdict (body.set i b) (some (checksum body)) =
      .mismatch (some (checksum body)) (checksum (body.set i b)) := by
    unfold verdict
    rw [if_neg (fun same => differs (Option.some.inj same).symm)]
  have closed := run_closing h (sendable.set (i := i) ho hc) high low stream.length
  rw [sum, wrong] at closed
  rw [position, after_append, events_append, split, closed]
  exact ⟨rfl, _, differs, rfl⟩

/-! ## Main result -/

/-- What the frame of a body comes to behind a stream. -/
structure Resynchronises (size : Nat) (stream body : List UInt8) : Prop where
  /-- The packet is the last event of two copies, and the last byte of the second completes it. -/
  twice : (events size (stream ++ frame body ++ frame body)).getLast? =
    some ((stream ++ frame body ++ frame body).length - 1, .packet body)
  /-- One copy will do, and says nothing else, behind a stream that does not end in a checksum. -/
  once : ¬ EndsInChecksum size stream →
    events size (stream ++ frame body) = events size stream ++ [((stream ++ frame body).length - 1, .packet body)]
  /-- Outside a packet a garbled copy is a mismatch and nothing else, and the intact copy behind it is the packet. -/
  garbled : after size stream = .outside → ∀ bytes, IsGarbled body bytes →
    (∃ computed, computed ≠ checksum body ∧ events size (stream ++ bytes) =
      events size stream ++ [((stream ++ bytes).length - 1, .mismatch (some (checksum body)) computed)]) ∧
    events size (stream ++ bytes ++ frame body) =
      events size (stream ++ bytes) ++ [((stream ++ bytes ++ frame body).length - 1, .packet body)]

/-- A receiver finds its way back into any stream: at the second frame at the latest, and at the first unless the stream
ends in a checksum. A single byte of a body that goes wrong is noticed, and costs no packet but its own. -/
theorem receiver_resynchronises (stream : List UInt8) (sendable : Sendable size body) :
    Resynchronises size stream body where
  twice := by
    have outside : after size (stream ++ frame body) = .outside := by
      rw [after_append]
      exact run_frame_outside _ sendable _
    have last := events_append_frame (open_of_outside outside) sendable
    rw [last, List.getLast?_concat]
  once := by
    intro plain
    apply events_append_frame _ sendable
    by_contra shut
    exact plain (endsInChecksum_iff.2 shut)
  garbled := by
    intro outside bytes garbled
    obtain ⟨back, mismatch⟩ := events_append_garbled (open_of_outside outside) sendable garbled
    exact ⟨mismatch, events_append_frame (open_of_outside back) sendable⟩

/-- With room for two bytes. Behind a body that was closed but for the last digit of its checksum the first copy of a
frame is lost, and the second comes through; a copy with one letter wrong is a mismatch, and the intact one behind it
comes through. -/
theorem resynchronises_in_checksum :
    Sendable 2 (ascii "qC") ∧ EndsInChecksum 2 (ascii "$g#6") ∧ IsGarbled (ascii "qC") (ascii "$qD#b4") ∧
      (events 2 (ascii "$g#6" ++ frame (ascii "qC") ++ frame (ascii "qC"))).getLast? =
        some (15, .packet (ascii "qC")) ∧
      events 2 (ascii "$qD#b4") = [(5, .mismatch (some 0xb4) 0xb5)] ∧
      events 2 (ascii "$qD#b4" ++ frame (ascii "qC")) =
        [(5, .mismatch (some 0xb4) 0xb5), (11, .packet (ascii "qC"))] := by
  have sendable : Sendable 2 (ascii "qC") := by decide
  have shut : EndsInChecksum 2 (ascii "$g#6") := ⟨ascii "$g", ascii "6", #[103], rfl, Nat.le_refl 1, rfl⟩
  have garbled : IsGarbled (ascii "qC") (ascii "$qD#b4") := ⟨1, 68, by decide, by decide, by decide, by decide, rfl⟩
  have mismatch : events 2 (ascii "$qD#b4") = [(5, .mismatch (some 0xb4) 0xb5)] := by decide
  have intact := ((receiver_resynchronises [] sendable).garbled rfl _ garbled).2
  rw [List.nil_append, mismatch] at intact
  exact ⟨sendable, shut, garbled, (receiver_resynchronises (ascii "$g#6") sendable).twice, mismatch, intact⟩

end Receiver
end RemoteDebug.Packet
