import RemoteDebug.Proofs.Session.Liveness
import RemoteDebug.Proofs.Session.Sending

/-!
# One packet size

A configuration comes to one packet size, or to none for one reason (`Config.packetSize_cases`). In all that a session
does it means the same (`Session.packet_size_agreed`): it is the size that the client is told, the length of the longest
body that is heard, and that of the longest reply that is sent.
-/

namespace RemoteDebug

/-! ## Configurations -/

namespace Config

/-- Nothing could ever be registered or recorded. -/
def NoRoom (c : Config) : Prop := c.maxInferiors = 0 ∨ c.maxThreads = 0 ∨ c.maxPatches = 0

/-- The buffer is shorter than the packet size asked for. -/
def Oversized (c : Config) : Prop :=
  ∃ size length, c.requestedSize = some size ∧ c.bufferLength = some length ∧ length < size

/-- The packet size asked for, or else that of the buffer, or else the default. -/
def chosenSize (c : Config) : Nat :=
  match c.requestedSize, c.bufferLength with
  | some size, _ => size
  | none, some length => length
  | none, none => defaultSize

theorem oversized_iff (c : Config) :
    (c.requestedSize.any fun size => c.bufferLength.any (· < size)) = true ↔ c.Oversized := by
  cases hr : c.requestedSize <;> cases hb : c.bufferLength <;> simp [Oversized, hr, hb]

theorem getD_eq_chosenSize (c : Config) : (c.requestedSize <|> c.bufferLength).getD defaultSize = c.chosenSize := by
  unfold chosenSize
  cases c.requestedSize <;> cases c.bufferLength <;> rfl

/-- A configuration comes to its packet size, or fails for the first of three reasons. -/
theorem packetSize_cases (c : Config) :
    c.NoRoom ∧ c.packetSize = .error .zeroCapacity ∨
      ¬ c.NoRoom ∧ c.Oversized ∧ c.packetSize = .error .sizeMismatch ∨
      ¬ c.NoRoom ∧ ¬ c.Oversized ∧ c.chosenSize = 0 ∧ c.packetSize = .error .missingBuffer ∨
      ¬ c.NoRoom ∧ ¬ c.Oversized ∧ c.chosenSize ≠ 0 ∧ c.packetSize = .ok c.chosenSize := by
  unfold packetSize
  dsimp only
  rw [getD_eq_chosenSize]
  split
  · rename_i none_left
    exact .inl ⟨none_left, rfl⟩
  · rename_i room
    split
    · rename_i large
      exact .inr (.inl ⟨room, c.oversized_iff.1 large, rfl⟩)
    · rename_i fits
      have fits' : ¬ c.Oversized := fun large => fits (c.oversized_iff.2 large)
      split
      · exact .inr (.inr (.inl ⟨room, fits', ‹_›, rfl⟩))
      · exact .inr (.inr (.inr ⟨room, fits', ‹_›, rfl⟩))

/-- What each outcome says of the configuration. -/
theorem packetSize_iff (c : Config) :
    (c.packetSize = .error .zeroCapacity ↔ c.NoRoom) ∧
      (c.packetSize = .error .sizeMismatch ↔ ¬ c.NoRoom ∧ c.Oversized) ∧
      (c.packetSize = .error .missingBuffer ↔ ¬ c.NoRoom ∧ ¬ c.Oversized ∧ c.chosenSize = 0) ∧
      ∀ n, c.packetSize = .ok n → n = c.chosenSize := by
  rcases c.packetSize_cases with ⟨_, h⟩ | ⟨_, _, h⟩ | ⟨_, _, _, h⟩ | ⟨_, _, _, h⟩ <;> simp [*]

end Config

namespace Session

open Packet (Sendable IsFrame Unmarked frame)

variable {s s₀ : Session} {b : UInt8} {body bytes : List UInt8} {c : Config} {wire : Wire} {kernel : Kernel}

theorem start?_eq_error_iff {e : ConfigError} : start? c wire kernel = .error e ↔ c.packetSize = .error e := by
  unfold start?
  cases c.packetSize with
  | error e' => simp
  | ok size => simp

theorem packetSize_of_start? (h : start? c wire kernel = .ok s₀) : c.packetSize = .ok s₀.packetSize := by
  unfold start? at h
  split at h
  · cases h
  · rename_i size hsize
    cases h
    exact hsize

/-! ## What the client is told -/

/-- The client is told the packet size whenever it asks what is supported. -/
theorem sends_supported {features : List (Option Feature)} (order : s.wire.InOrder) (clean : s.receiver.Clean)
    (room : 90 ≤ s.packetSize) (word : s.packetSize < 2 ^ 64) (asks : s.command? b = some (.supported features)) :
    ∃ acknowledgement, Packet.opening ∉ acknowledgement ∧
      s.sends (.byte b) = acknowledgement ++ frame (supportedReply (Hex.compact s.packetSize)) := by
  obtain ⟨body, heard, plain, parsed, -⟩ := receive_of_command order clean asks
  have told : (UInt64.ofNat s.packetSize).toNat = s.packetSize := UInt64.toNat_ofNat_of_lt' word
  have written : (s.hear b body).render [.text (ascii "PacketSize="), .number (UInt64.ofNat s.packetSize).toNat,
      .text (ascii ";QThreadEvents+;swbreak+;hwbreak+;vContSupported+;multiprocess+")] =
      some (supportedReply (Hex.compact (UInt64.ofNat s.packetSize).toNat)) :=
    Reply.render_eq_some_iff.2 ⟨encoding?_supported _, Nat.le_trans (length_supportedReply_le _) room⟩
  have answer : (s.hear b body).execute (.supported features) =
      (.reply (some (supportedReply (Hex.compact s.packetSize))), s.hear b body) := by
    conv_rhs => rw [← told, ← written]
    rfl
  exact ⟨acknowledgement body, plain, sends_of_reply order (outstanding_of_command asks) heard parsed answer rfl⟩

/-! ## Bodies that are too long -/

/-- A session that hears nothing until a packet is opened. A reply may be outstanding, to a wish to stop. -/
structure Shut (s : Session) : Prop where
  outside : s.receiver = .outside
  halted : ∀ o, s.outstanding = some o → o.frame = frame (ascii "S02") ∧ s.running = false

/-- Nothing is sent but parts of replies to a wish to stop. -/
def OnlyHalts (s s' : Session) : Prop :=
  ∃ sent, s'.wire.sent.toList = s.wire.sent.toList ++ sent ∧ ∀ x ∈ sent, x ∈ frame (ascii "S02")

theorem OnlyHalts.refl (s : Session) : s.OnlyHalts s := ⟨[], by simp, nofun⟩

theorem OnlyHalts.trans {s' s'' : Session} (h : s.OnlyHalts s') (h' : s'.OnlyHalts s'') : s.OnlyHalts s'' := by
  obtain ⟨sent, heq, first⟩ := h
  obtain ⟨sent', heq', second⟩ := h'
  refine ⟨sent ++ sent', by rw [heq', heq, List.append_assoc], fun x hx => ?_⟩
  exact (List.mem_append.1 hx).elim (first x) (second x)

/-- A reply to a wish to stop, or its beginning. -/
theorem onlyHalts_of_wire_eq {s' : Session} (h : s'.wire = (s.wire.transmit (frame (ascii "S02"))).2) :
    s.OnlyHalts s' := by
  obtain ⟨taken, front, sent, -⟩ := s.wire.transmit_taken (frame (ascii "S02"))
  exact ⟨taken, by rw [h, sent], fun x hx => front.subset hx⟩

theorem shut_interrupt (h : s.Shut) (room : 86 ≤ s.packetSize) :
    s.interrupt.2.Shut ∧ s.OnlyHalts s.interrupt.2 := by
  have told : s.interrupt = s.haltAll.sendReply? (some (ascii "S02")) := by
    rw [← interruptReply_eq room]
    rfl
  rw [told]
  simp only [sendReply?, sendReply, transmit]
  rcases sent : s.haltAll.wire.transmit (frame (ascii "S02")) with ⟨e | u, w⟩
  · exact ⟨⟨h.outside, fun o ho => ⟨(h.halted o ho).1, rfl⟩⟩,
      onlyHalts_of_wire_eq (congrArg Prod.snd sent.symm)⟩
  · refine ⟨⟨h.outside, fun o ho => ⟨?_, rfl⟩⟩, onlyHalts_of_wire_eq (congrArg Prod.snd sent.symm)⟩
    rw [← Option.some.inj ho]

theorem shut_receiveAck {o : Outstanding} (h : s.Shut) (room : 86 ≤ s.packetSize) (waits : s.outstanding = some o)
    (b : UInt8) : (s.receiveAck o b).2.Shut ∧ s.OnlyHalts (s.receiveAck o b).2 := by
  obtain ⟨frame_eq, halted⟩ := h.halted o waits
  have freed : ({ s with outstanding := none } : Session).Shut := ⟨h.outside, nofun⟩
  unfold receiveAck
  split
  · rw [transmit_snd]
    refine ⟨⟨h.outside, fun o' ho' => ⟨?_, halted⟩⟩, onlyHalts_of_wire_eq (by rw [frame_eq])⟩
    rw [← Option.some.inj ho']
    exact frame_eq
  · dsimp only
    split
    · exact shut_interrupt freed room
    · rw [if_neg (by simp [halted])]
      exact ⟨freed, .refl s⟩

/-- A byte that opens no packet leaves the session shut. -/
theorem shut_byte (h : s.Shut) (room : 86 ≤ s.packetSize) (closed : b ≠ Packet.opening) :
    (s.step (.byte b)).Shut ∧ s.OnlyHalts (s.step (.byte b)) ∧ s.packet? (.byte b) = none := by
  cases waits : s.outstanding with
  | some o =>
    have acknowledges : s.step (.byte b) = (s.receiveAck o b).2 := by simp only [step, receive, waits, andThen_eq]
    obtain ⟨shut, only⟩ := shut_receiveAck h room waits b
    exact ⟨acknowledges ▸ shut, acknowledges ▸ only, by simp [packet?, waits]⟩
  | none =>
    have shut : ({ s with receiver := .outside } : Session).Shut := ⟨rfl, h.halted⟩
    by_cases asks : b = Packet.interruption
    · have heard : s.receiver.step s.packetSize b = (.outside, some .interrupt) := by
        simp [h.outside, Packet.Receiver.step, asks ▸ closed, asks]
      have stops : s.step (.byte b) = ({ s with receiver := .outside } : Session).interrupt.2 := by
        simp only [step, receive, waits, heard, handleEvent, andThen_eq]
      obtain ⟨shut', only⟩ := shut_interrupt shut room
      exact ⟨stops ▸ shut', stops ▸ only, by simp [packet?, waits, heard]⟩
    · have heard : s.receiver.step s.packetSize b = (.outside, none) := by
        simp [h.outside, Packet.Receiver.step, closed, asks]
      have silent : s.step (.byte b) = { s with receiver := .outside } := by
        simp only [step, receive_incomplete waits (congrArg Prod.snd heard), heard]
      exact ⟨silent ▸ shut, silent ▸ .refl s, by simp [packet?, waits, heard]⟩

theorem shut_bytes (h : s.Shut) (room : 86 ≤ s.packetSize) (closed : Packet.opening ∉ bytes) :
    s.OnlyHalts (s.run (bytes.map .byte)) ∧ s.heard (bytes.map .byte) = [] := by
  induction bytes generalizing s with
  | nil => exact ⟨.refl s, rfl⟩
  | cons b bytes ih =>
    obtain ⟨first, rest⟩ := not_or.1 (List.mem_cons.not.1 closed)
    obtain ⟨shut, only, nothing⟩ := shut_byte h room (Ne.symm first)
    obtain ⟨later, none_heard⟩ := ih shut (s.packetSize_step _ ▸ room) rest
    refine ⟨only.trans later, ?_⟩
    rw [List.map_cons, heard, nothing, none_heard]
    rfl

/-- The digits of a checksum are no marks. -/
theorem opening_not_mem_digits {high low sum : UInt8} (h : Hex.toByte? high low = some sum) :
    Packet.opening ∉ [high, low] := by
  have none_of_mark : Hex.digit? Packet.opening = none := by decide
  unfold Hex.toByte? at h
  split at h
  · rename_i hh hl
    simp only [List.mem_cons, List.not_mem_nil, or_false, not_or]
    refine ⟨?_, ?_⟩
    · rintro rfl
      rw [none_of_mark] at hh
      cases hh
    · rintro rfl
      rw [none_of_mark] at hl
      cases hl
  · cases h

/-- A frame whose body is too long is dropped, up to the first byte that has no room; the rest finds the session shut.
-/
theorem heard_overlong (outside : s.receiver = .outside) (free : s.outstanding = none) (room : 86 ≤ s.packetSize)
    (unmarked : Unmarked body) (framed : IsFrame body bytes) (long : s.packetSize < body.length) :
    s.heard (bytes.map .byte) = [] ∧ s.OnlyHalts (s.run (bytes.map .byte)) := by
  obtain ⟨high, low, rfl, sum⟩ := framed
  obtain ⟨front, b, back, rfl, fits⟩ : ∃ front b back, body = front ++ b :: back ∧
      front.length = s.packetSize :=
    ⟨body.take s.packetSize, body[s.packetSize], body.drop (s.packetSize + 1), by simp, by
      rw [List.length_take]
      omega⟩
  obtain ⟨kept, ⟨hopen, hclose⟩, rest⟩ : Unmarked front ∧ (b ≠ Packet.opening ∧ b ≠ Packet.closing) ∧
      Unmarked back := by
    simpa only [Packet.unmarked_append, Packet.unmarked_cons] using unmarked
  have dropped : s.receiver.run s.packetSize 0 (Packet.opening :: front ++ [b]) = (.outside, []) := by
    have body_kept : Packet.Receiver.run s.packetSize (.inside #[]) 1 front = (.inside (#[] ++ front.toArray), []) :=
      Packet.Receiver.run_body #[] 1 kept (by simp [fits])
    simp [outside, Packet.Receiver.run, Packet.Receiver.run_append, Packet.Receiver.step, body_kept, hopen, hclose,
      fits]
  obtain ⟨run, nothing⟩ := run_of_silent free (congrArg Prod.snd dropped)
  rw [dropped] at run
  have shut : (s.withReceiver .outside).Shut := ⟨rfl, fun o ho => by cases free.symm.trans ho⟩
  have unopened : Packet.opening ∉ back ++ [Packet.closing, high, low] := by
    have mark : Packet.opening ≠ Packet.closing := by decide
    have digits := opening_not_mem_digits sum
    rw [List.mem_append, List.mem_cons]
    exact not_or.2 ⟨(Packet.unmarked_iff.1 rest).1, not_or.2 ⟨mark, digits⟩⟩
  obtain ⟨only, none_heard⟩ := shut_bytes shut room unopened
  have split : Packet.opening :: (front ++ b :: back) ++ [Packet.closing, high, low] =
      (Packet.opening :: front ++ [b]) ++ (back ++ [Packet.closing, high, low]) := by simp
  rw [split, List.map_append, heard_append, run_append, run, nothing, none_heard]
  exact ⟨rfl, only⟩

/-! ## Agreement -/

/-- A number of bytes means the same to all that a session does: it is the packet size that the client is told, a body
is heard if it has no more bytes, and dropped without a word if it has more, and no reply that is sent, or begun to be
sent on a wire that fails, has more. -/
structure Agrees (s : Session) (n : Nat) : Prop where
  told : ∀ b features, s.wire.InOrder → s.command? b = some (.supported features) →
    ∃ acknowledgement digits, Packet.opening ∉ acknowledgement ∧
      s.sends (.byte b) = acknowledgement ++ frame (supportedReply digits) ∧ Hex.number? digits = some n
  heard : s.receiver = .outside → s.outstanding = none → ∀ body bytes, Unmarked body → IsFrame body bytes →
    body.length ≤ n → s.heard (bytes.map .byte) = [body]
  dropped : s.receiver = .outside → s.outstanding = none → ∀ body bytes, Unmarked body → IsFrame body bytes →
    n < body.length → s.heard (bytes.map .byte) = [] ∧
      ∃ sent, (s.run (bytes.map .byte)).wire.sent.toList = s.wire.sent.toList ++ sent ∧
        Packet.acceptance ∉ sent ∧ Packet.refusal ∉ sent
  sent : ∀ i, ∃ lead payload sent, Packet.opening ∉ lead ∧ (∀ p, payload = some p → p.length ≤ n) ∧
    sent <+: lead ++ frames payload ∧ (s.step i).wire.sent.toList = s.wire.sent.toList ++ sent

theorem agrees_packetSize (room : 90 ≤ s.packetSize) (word : s.packetSize < 2 ^ 64) (framed : s.Framed)
    (clean : s.receiver.Clean) : s.Agrees s.packetSize := by
  have room' : 86 ≤ s.packetSize := Nat.le_trans (by decide) room
  constructor
  case told =>
    intro b features order asks
    obtain ⟨acknowledgement, plain, sent⟩ := sends_supported order clean room word asks
    exact ⟨acknowledgement, Hex.compact s.packetSize, plain, sent, Hex.number?_compact word⟩
  case heard =>
    intro outside free body bytes unmarked framed fits
    have hopen : s.receiver.Open := outside ▸ trivial
    exact (heard_frame free hopen ⟨fits, unmarked⟩ framed).1
  case dropped =>
    intro outside free body bytes unmarked framed long
    obtain ⟨nothing, sent, heq, parts⟩ := heard_overlong outside free room' unmarked framed long
    have no_signs : Packet.acceptance ∉ frame (ascii "S02") ∧ Packet.refusal ∉ frame (ascii "S02") := by decide
    exact ⟨nothing, sent, heq, fun h => no_signs.1 (parts _ h), fun h => no_signs.2 (parts _ h)⟩
  case sent =>
    intro i
    obtain ⟨lead, plain, payload, sent, sendable, front, heq, -⟩ := utters_step framed clean i
    exact ⟨lead, payload, sent, plain, fun p hp => (sendable p hp).fits, front, heq⟩

/-- A session begins unless a configuration leaves no room, asks for more than its buffer has, or comes to no packet
size; the first of these is what is wrong. If the packet size is a machine word and has room for the answer that tells
of it, then all that the session does agrees with it, on any wire. -/
theorem packet_size_agreed (c : Config) (wire : Wire) :
    (start? c wire Kernel.empty = .error .zeroCapacity ↔ c.NoRoom) ∧
      (start? c wire Kernel.empty = .error .sizeMismatch ↔ ¬ c.NoRoom ∧ c.Oversized) ∧
      (start? c wire Kernel.empty = .error .missingBuffer ↔ ¬ c.NoRoom ∧ ¬ c.Oversized ∧ c.chosenSize = 0) ∧
      ∀ s₀, start? c wire Kernel.empty = .ok s₀ → s₀.packetSize = c.chosenSize ∧
        (90 ≤ c.chosenSize → c.chosenSize < 2 ^ 64 → ∀ inputs, (s₀.run inputs).Agrees c.chosenSize) := by
  obtain ⟨no_room, oversized, missing, chosen⟩ := c.packetSize_iff
  refine ⟨start?_eq_error_iff.trans no_room, start?_eq_error_iff.trans oversized, start?_eq_error_iff.trans missing,
    fun s₀ hstart => ?_⟩
  have size : s₀.packetSize = c.chosenSize := chosen _ (packetSize_of_start? hstart)
  refine ⟨size, fun room word inputs => ?_⟩
  have start : s₀.Framed ∧ s₀.receiver.Clean := by
    obtain ⟨_, rfl⟩ := eq_of_start? hstart
    exact ⟨nofun, trivial⟩
  obtain ⟨framed, clean⟩ := utterable_run start inputs
  have same : (s₀.run inputs).packetSize = c.chosenSize := (s₀.packetSize_run inputs).trans size
  exact same ▸ agrees_packetSize (same ▸ room) (same ▸ word) framed clean

/-- Of a buffer of 128 bytes 90 are used: the client is told so, and a body of 90 bytes is heard but one of 91 is not.
-/
theorem ninety_bytes_agreed :
    ∃ s, start? { bufferLength := some 128, requestedSize := some 90 } Wire.fresh Kernel.empty = .ok s ∧
      s.packetSize = 90 ∧
      (∃ acknowledgement digits, (s.run ((ascii "$qSupported#3").map .byte)).sends (.byte '7'.toUInt8) =
        acknowledgement ++ frame (supportedReply digits) ∧ Hex.number? digits = some 90) ∧
      s.heard ((frame (List.replicate 90 'x'.toUInt8)).map .byte) = [List.replicate 90 'x'.toUInt8] ∧
      s.heard ((frame (List.replicate 91 'x'.toUInt8)).map .byte) = [] ∧
      start? { bufferLength := some 64, requestedSize := some 90 } Wire.fresh Kernel.empty = .error .sizeMismatch := by
  let s : Session := ⟨Debuggee.empty 64 256 32, Wire.fresh, 90, .outside, true, none, [], []⟩
  have start : start? { bufferLength := some 128, requestedSize := some 90 } Wire.fresh Kernel.empty = .ok s := rfl
  obtain ⟨size, agree⟩ :=
    (packet_size_agreed { bufferLength := some 128, requestedSize := some 90 } Wire.fresh).2.2.2 s
    start
  have agrees := agree (by decide) (by decide)
  have asks : (s.run ((ascii "$qSupported#3").map .byte)).command? '7'.toUInt8 = some (.supported []) := by
    decide +kernel
  have unmarked (n : Nat) : Unmarked (List.replicate n 'x'.toUInt8) := by
    intro b hb
    rw [List.eq_of_mem_replicate hb]
    decide
  obtain ⟨acknowledgement, digits, -, told, value⟩ :=
    (agrees ((ascii "$qSupported#3").map .byte)).told '7'.toUInt8 []
    ⟨by decide +kernel, by decide +kernel⟩ asks
  have heard := (agrees []).heard rfl rfl _ _ (unmarked 90) (Packet.isFrame_frame _) (by simp [Config.chosenSize])
  have dropped := ((agrees []).dropped rfl rfl _ _ (unmarked 91) (Packet.isFrame_frame _)
    (by simp [Config.chosenSize])).1
  have mismatch := (packet_size_agreed { bufferLength := some 64, requestedSize := some 90 } Wire.fresh).2.1.2
    ⟨by simp [Config.NoRoom], 90, 64, rfl, rfl, by decide⟩
  exact ⟨s, start, size, ⟨acknowledgement, digits, told, value⟩, heard, dropped, mismatch⟩

end Session
end RemoteDebug
