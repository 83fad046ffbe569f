import RemoteDebug.Proofs.Session.Acknowledgement
import RemoteDebug.Proofs.Session.Selection

/-!
# Answers are frames

A byte of the client that comes while no reply is outstanding completes a packet, asks for a stop, or is taken in
silence (`Session.receive_packet`, `Session.receive_mismatch`, `Session.receive_interrupt`,
`Session.receive_incomplete`). A packet is answered by one frame behind its acknowledgement, unless it lets threads run.
That an answer is never too long, a session owes to two things that every run keeps: there is room for the registers of
a thread, and every name that can be asked for has a written form (`Session.speaks_run`). Whatever frame is on the wire
can be received again (`Session.frame_of_sends`).
-/

namespace RemoteDebug.Session

open Packet (Sendable frame)

variable {s s' : Session} {b : UInt8}

/-! ## What can be said stays so -/

theorem Replied.listing_eq {payload : Option (List UInt8)} {r : Except SessionError Unit} (h : Replied s payload r s') :
    s'.listing = s.listing := by
  cases h <;> rfl

theorem listing_noted {i : Input} {accepted : Option StopReason} (h : Noted s i accepted s') :
    s'.listing = s.listing := by
  cases h with
  | ignored => rfl
  | reported _ _ _ _ _ report =>
    cases report with
    | told _ _ reply => exact reply.listing_eq
    | queued => rfl

theorem mem_listing_took {r : Except SessionError (Option SessionEvent)} {t : Ptid} (h : Took s b r s')
    (ht : t ∈ s'.listing) : t ∈ s.listing ∨ t ∈ s.debuggee.registry.threads := by
  cases h with
  | again | acknowledged | incomplete | refused | unheard | resumed => exact .inl ht
  | nextStop _ _ _ _ _ reply | lateInterrupt _ _ _ reply | interrupt _ _ reply | stopInstead _ _ _ _ _ _ reply
  | stuck _ _ _ _ reply | left _ _ _ _ reply =>
    have same := reply.listing_eq
    exact .inl (same ▸ ht)
  | answered _ _ _ _ _ _ reply _ _ listed =>
    rw [reply.listing_eq] at ht
    exact listed t ht

/-- Only threads that are registered come into the listing. -/
theorem mem_listing_step {i : Input} {t : Ptid} (ht : t ∈ (s.step i).listing) :
    t ∈ s.listing ∨ t ∈ s.debuggee.registry.threads := by
  have report (h : i.Reports) : t ∈ s.listing := listing_noted (noted_of_reports h) ▸ ht
  cases i with
  | byte b => exact mem_listing_took (took_receive s b) ht
  | fault | spawn | exit => exact .inl (report trivial)
  | addInferior | addThread | disable | wire => exact .inl ht

theorem speaks_step (hs : s.Ready) (speaks : s.Speaks) {i : Input} (hi : i.KeepsOrder) : (s.step i).Speaks := by
  have named := (ready_step hs i hi).named
  refine ⟨s.packetSize_step i ▸ speaks.room, named, fun t ht => ?_, fun t ht => ?_⟩
  · cases s.reselects_step i with
    | @taken stop u takes names selected =>
      have queued : stop ∈ s.queue := by
        unfold taken? at takes
        split at takes
        · cases takes
        · exact List.mem_of_head? takes
      obtain rfl : u = t := Option.some.inj (selected.symm.trans ht)
      exact hs.valid stop queued u (StopReason.mem_threads_of_thread? names)
    | steady _ steady => exact (steady t ht).elim named.valid fun before => speaks.selected t before.1
  · exact (mem_listing_step ht).elim (speaks.listed t) hs.named.valid

theorem speaks_run {inputs : List Input} (hs : s.Ready) (speaks : s.Speaks) (hi : ∀ i ∈ inputs, i.KeepsOrder) :
    (s.run inputs).Speaks := by
  have both := run_induction (P := fun s => s.Ready ∧ s.Speaks)
    (fun _ i hmem h => ⟨ready_step h.1 i (hi i hmem), speaks_step h.1 h.2 (hi i hmem)⟩) ⟨hs, speaks⟩
  exact both.2

theorem speaks_start {c : Config} {wire : Wire} (h : start? c wire Kernel.empty = .ok s) (room : 536 ≤ s.packetSize) :
    s.Speaks := by
  obtain ⟨size, rfl⟩ := eq_of_start? h
  exact ⟨room, Registry.named_empty _ _ _, nofun, nofun⟩

/-! ## Bytes that complete nothing -/

theorem receive_incomplete (free : s.outstanding = none) (heard : (s.receiver.step s.packetSize b).2 = none) :
    s.receive b = (.ok none, { s with receiver := (s.receiver.step s.packetSize b).1 }) := by
  simp only [receive, free, heard]

theorem receive_mismatch {claimed : Option UInt8} {computed : UInt8} (order : s.wire.InOrder)
    (free : s.outstanding = none) (heard : (s.receiver.step s.packetSize b).2 = some (.mismatch claimed computed)) :
    s.receive b = (.ok none,
      { s with
        receiver := (s.receiver.step s.packetSize b).1
        wire := s.wire.append [Packet.refusal] }) := by
  simp [receive, free, heard, handleEvent, transmit, Wire.transmit_of_inOrder order, Outcome.andThen]

theorem receive_interrupt (order : s.wire.InOrder) (room : 86 ≤ s.packetSize) (free : s.outstanding = none)
    (heard : (s.receiver.step s.packetSize b).2 = some .interrupt) :
    s.receive b = (.ok none,
      { s.haltAll with
        receiver := (s.receiver.step s.packetSize b).1
        wire := s.wire.append (frame (ascii "S02"))
        outstanding := some ⟨frame (ascii "S02"), false⟩ }) := by
  have asks : s.receive b = ({ s with receiver := (s.receiver.step s.packetSize b).1 } : Session).interrupt.andThen
      fun _ s => (.ok none, s) := by
    simp only [receive, free, heard, handleEvent]
  have sent : ({ s with receiver := (s.receiver.step s.packetSize b).1 } : Session).interrupt =
      sendReply? { s.haltAll with receiver := (s.receiver.step s.packetSize b).1 } (some (ascii "S02")) := by
    rw [← interruptReply_eq room]
    rfl
  rw [asks, sent, sendReply?_of_order (s := { s.haltAll with receiver := (s.receiver.step s.packetSize b).1 }) order]
  rfl

/-- A wish to stop is heard outside packets alone. -/
theorem step_eq_interrupt_iff {size : Nat} {receiver : Packet.Receiver} :
    (receiver.step size b).2 = some .interrupt ↔ receiver = .outside ∧ b = Packet.interruption := by
  have ne : Packet.interruption ≠ Packet.opening := by decide
  cases receiver with
  | outside =>
    simp only [Packet.Receiver.step, true_and]
    split
    · rename_i hb
      simp [hb, ne.symm]
    · split <;> simp_all
  | inside received =>
    simp only [Packet.Receiver.step, reduceCtorEq, false_and, iff_false]
    split
    · simp
    · split
      · simp
      · split <;> simp
  | checksumHigh body => simp [Packet.Receiver.step]
  | checksumLow body high =>
    simp only [Packet.Receiver.step, Packet.Receiver.verdict, reduceCtorEq, false_and, iff_false]
    split <;> simp

/-- A byte that completes nothing is taken in silence, unless it is a wish to stop. -/
theorem sends_of_neither (hs : s.Ready) (free : s.outstanding = none)
    (noPacket : ∀ body, (s.receiver.step s.packetSize b).2 ≠ some (.packet body))
    (noMismatch : ∀ claimed computed, (s.receiver.step s.packetSize b).2 ≠ some (.mismatch claimed computed)) :
    s.sends (.byte b) = if s.receiver = .outside ∧ b = Packet.interruption then frame (ascii "S02") else [] := by
  split
  · rename_i asks
    have sent := receive_interrupt hs.order hs.room free (step_eq_interrupt_iff.2 asks)
    exact sends_eq (congrArg (·.2.wire) sent)
  · rename_i silent
    have heard : (s.receiver.step s.packetSize b).2 = none := by
      cases event : (s.receiver.step s.packetSize b).2 with
      | none => rfl
      | some event' =>
        cases event' with
        | interrupt => exact absurd (step_eq_interrupt_iff.1 event) silent
        | packet body => exact absurd event (noPacket body)
        | mismatch claimed computed => exact absurd event (noMismatch claimed computed)
    have wire : (s.step (.byte b)).wire = s.wire := congrArg (·.2.wire) (receive_incomplete free heard)
    exact sends_eq (by rw [wire]; simp [Wire.append])

/-! ## Packets -/

/-- An acknowledgement repeats the sequence id of the packet, if it has one. -/
theorem acknowledgement_eq (body : List UInt8) :
    ∃ echo, ((∃ x y rest, body = x :: y :: ':'.toUInt8 :: rest ∧ echo = [x, y]) ∨
        (∀ x y rest, body ≠ x :: y :: ':'.toUInt8 :: rest) ∧ echo = []) ∧
      acknowledgement body = Packet.acceptance :: echo := by
  match body with
  | [] | [_] | [_, _] => exact ⟨[], .inr ⟨by simp, rfl⟩, rfl⟩
  | x :: y :: c :: rest =>
    by_cases hc : c = ':'.toUInt8
    · exact ⟨[x, y], .inl ⟨x, y, rest, by rw [hc], rfl⟩, by simp [acknowledgement, Packet.splitSequenceId, hc]⟩
    · exact ⟨[], .inr ⟨by simp [hc], rfl⟩, by simp [acknowledgement, Packet.splitSequenceId, hc]⟩

/-- A reply that can be sent is sent. -/
theorem Replied.sends {s₁ : Session} {payload : Option (List UInt8)} {r : Except SessionError Unit}
    {lead : List UInt8} (reply : Replied s₁ payload r s') (order : s.wire.InOrder)
    (hw : s₁.wire = s.wire.append lead) {p : List UInt8} (hp : payload = some p) :
    r = .ok () ∧ s'.wire = s.wire.append (lead ++ frame p) := by
  subst hp
  have order₁ : s₁.wire.InOrder := hw ▸ order.append lead
  refine ⟨(reply.of_some order₁).1, ?_⟩
  rw [reply.wire_eq order₁, hw, Wire.append_append]
  rfl

/-- A packet is acknowledged, and answered by one frame unless it lets threads run. -/
theorem receive_packet {body : List UInt8} (hs : s.Ready) (speaks : s.Speaks) (free : s.outstanding = none)
    (heard : (s.receiver.step s.packetSize b).2 = some (.packet body)) :
    (s.receive b).1 = .ok (some .resumed) ∧ s.sends (.byte b) = acknowledgement body ∨
      ((s.receive b).1 = .ok none ∨ (s.receive b).1 = .ok (some .detached)) ∧
        ∃ p, Sendable s.packetSize p ∧ s.sends (.byte b) = acknowledgement body ++ frame p := by
  have h : Took s b (s.receive b).1 (s.step (.byte b)) := took_receive s b
  generalize hr : (s.receive b).1 = r at h
  generalize hs' : s.step (.byte b) = s' at h
  have same {body' : List UInt8} {receiver : Packet.Receiver}
      (heard' : s.receiver.step s.packetSize b = (receiver, some (.packet body'))) : body' = body := by
    rw [heard'] at heard
    exact Packet.Receiver.Event.packet.inj (Option.some.inj heard)
  -- one frame behind the acknowledgement
  have answers {s₁ s₂ : Session} {payload : Option (List UInt8)} {p : List UInt8} {r : Except SessionError Unit}
      (reply : Replied s₁ payload r s₂) (hw : s₁.wire = s.wire.append (acknowledgement body))
        (hp : payload = some p)
      (sendable : Sendable s.packetSize p) (same : s₂.wire = s'.wire) :
      r = .ok () ∧ ∃ p, Sendable s.packetSize p ∧ s.sends (.byte b) = acknowledgement body ++ frame p := by
    obtain ⟨done, wire⟩ := reply.sends hs.order hw hp
    exact ⟨done, p, sendable, sends_eq (by rw [hs', ← same, wire])⟩
  have stops {stop : StopReason} {queue : List StopReason} (queued : s.queue = stop :: queue) :
      s.render stop.pieces = some stop.written ∧ Sendable s.packetSize stop.written := by
    have valid : stop.Valid := hs.valid stop (by rw [queued]; exact List.mem_cons_self)
    exact ⟨StopReason.render_pieces hs.room valid, StopReason.sendable_written valid hs.room⟩
  have leaves : s.render [.text (ascii "OK")] = some (ascii "OK") ∧ Sendable s.packetSize (ascii "OK") := by
    have short : Sendable 86 (ascii "OK") := by decide
    have sendable := short.mono hs.room
    exact ⟨Reply.render_eq_some_iff.2 ⟨rfl, sendable.fits⟩, sendable⟩
  cases h with
  | again waits | acknowledged waits | nextStop waits | lateInterrupt waits => cases free.symm.trans waits
  | incomplete _ heard' | interrupt _ heard' | refused _ heard' =>
    rw [heard'] at heard
    cases heard
  | unheard _ _ broken => exact absurd hs.order broken
  | @answered _ _ _ _ _ payload _ _ _ heard' sends _ _ _ reply sound =>
    obtain ⟨p, hp⟩ := Option.isSome_iff_exists.1 (sound.speaks speaks)
    obtain ⟨rfl, sent⟩ := answers reply (same heard' ▸ sends hs.order) hp (sound.sendable p hp) rfl
    exact .inr ⟨.inl rfl, sent⟩
  | resumed _ heard' sends =>
    exact .inl ⟨rfl, sends_eq (by rw [hs', ← same heard']; exact sends hs.order)⟩
  | stopInstead _ heard' sends _ _ queued reply =>
    obtain ⟨fits, sendable⟩ := stops queued
    obtain ⟨rfl, sent⟩ := answers reply (same heard' ▸ sends hs.order) fits sendable rfl
    exact .inr ⟨.inl rfl, sent⟩
  | left _ heard' sends _ reply =>
    obtain ⟨-, sent⟩ := answers reply (same heard' ▸ sends hs.order) leaves.1 leaves.2 rfl
    exact .inr ⟨.inr rfl, sent⟩
  | stuck _ heard' sends _ reply =>
    obtain ⟨done, -⟩ := answers reply (same heard' ▸ sends hs.order) leaves.1 leaves.2 rfl
    cases done

/-! ## Every frame -/

/-- The outstanding reply is a frame that can be received. -/
def Framed (s : Session) : Prop :=
  ∀ o, s.outstanding = some o → ∃ p, Sendable s.packetSize p ∧ o.frame = frame p

/-- What an input puts on the wire: no frame, or one that can be received, and no mark that opens one before it. -/
theorem frame_of_sends (hs : s.Ready) (framed : s.Framed) {i : Input} (hi : i.KeepsOrder) :
    ∃ lead payload, Packet.opening ∉ lead ∧ s.sends i = lead ++ frames payload ∧
      ∀ p, payload = some p → Sendable s.packetSize p := by
  cases once : s.repeats i with
  | true =>
    cases i with
    | byte b =>
      simp only [repeats, Bool.and_eq_true, bne_iff_ne, ne_eq, Option.isSome_iff_exists] at once
      obtain ⟨⟨o, waits⟩, refuses⟩ := once
      obtain ⟨p, sendable, hp⟩ := framed o waits
      obtain ⟨-, wire, -, -⟩ := step_of_waits hs.order waits hi fun heq => refuses (Input.byte.inj heq)
      refine ⟨[], some p, List.not_mem_nil, ?_, fun _ h => Option.some.inj h ▸ sendable⟩
      rw [sends_eq wire, Input.copies, hp]
      rfl
    | _ => cases once
  | false =>
    obtain ⟨lead, payload, hlead, wire, sent, -⟩ := sends_step hs hi once
    exact ⟨lead, payload, hlead, sends_eq wire, fun p hp => (sent p hp).1⟩

theorem framed_step (hs : s.Ready) (framed : s.Framed) {i : Input} (hi : i.KeepsOrder) : (s.step i).Framed := by
  intro o' ho'
  rw [s.packetSize_step i]
  cases once : s.repeats i with
  | true =>
    cases i with
    | byte b =>
      simp only [repeats, Bool.and_eq_true, bne_iff_ne, ne_eq, Option.isSome_iff_exists] at once
      obtain ⟨⟨o, waits⟩, refuses⟩ := once
      obtain ⟨waits', -, -, -⟩ := step_of_waits hs.order waits hi fun heq => refuses (Input.byte.inj heq)
      rw [waits', Option.some.injEq] at ho'
      exact ho' ▸ framed o waits
    | _ => cases once
  | false =>
    obtain ⟨lead, payload, -, -, sent, kept⟩ := sends_step hs hi once
    cases payload with
    | none => exact framed o' (kept rfl o' ho')
    | some p =>
      obtain ⟨sendable, waits⟩ := sent p rfl
      rw [waits, Option.some.injEq] at ho'
      exact ⟨p, sendable, by rw [← ho']⟩

theorem framed_run {inputs : List Input} (hs : s.Ready) (framed : s.Framed) (hi : ∀ i ∈ inputs, i.KeepsOrder) :
    (s.run inputs).Framed := by
  have both := run_induction (P := fun s => s.Ready ∧ s.Framed)
    (fun _ i hmem h => ⟨ready_step h.1 i (hi i hmem), framed_step h.1 h.2 (hi i hmem)⟩) ⟨hs, framed⟩
  exact both.2

/-! ## Runs -/

/-- Wherever a run has led on a wire in order, with room for the registers of a thread, a byte that comes while no reply
is outstanding does one of four things. If it completes a packet, the packet is acknowledged with its sequence id, if it
has one, and answered by one frame, unless threads run again. If the checksum is wrong, that is said and nothing else
happens. Outside packets a wish to stop is answered by one frame. Any other byte is taken in silence. And whatever is
ever sent, on any occasion, holds one frame at most, whose body fits into a packet and is free of marks, and a new
receiver takes the frame for this packet. -/
theorem answers_are_frames {c : Config} {wire : Wire} {inputs : List Input}
    (hstart : start? c wire Kernel.empty = .ok s) (order : wire.InOrder) (room : 536 ≤ s.packetSize)
    (hi : ∀ i ∈ inputs, i.KeepsOrder) :
    let t := s.run inputs
    (∀ b body, t.outstanding = none → (t.receiver.step t.packetSize b).2 = some (.packet body) →
      ∃ echo, ((∃ x y rest, body = x :: y :: ':'.toUInt8 :: rest ∧ echo = [x, y]) ∨
          (∀ x y rest, body ≠ x :: y :: ':'.toUInt8 :: rest) ∧ echo = []) ∧
        ((t.receive b).1 = .ok (some .resumed) ∧ t.sends (.byte b) = Packet.acceptance :: echo ∨
          ((t.receive b).1 = .ok none ∨ (t.receive b).1 = .ok (some .detached)) ∧
            ∃ p, t.sends (.byte b) = Packet.acceptance :: echo ++ frame p)) ∧
    (∀ b claimed computed, t.outstanding = none →
      (t.receiver.step t.packetSize b).2 = some (.mismatch claimed computed) →
        t.sends (.byte b) = [Packet.refusal] ∧
          t.step (.byte b) = { t with receiver := .outside, wire := t.wire.append [Packet.refusal] }) ∧
    (∀ b, t.outstanding = none → (∀ body, (t.receiver.step t.packetSize b).2 ≠ some (.packet body)) →
      (∀ claimed computed, (t.receiver.step t.packetSize b).2 ≠ some (.mismatch claimed computed)) →
        t.sends (.byte b) =
          if t.receiver = .outside ∧ b = Packet.interruption then frame (ascii "S02") else []) ∧
    ∀ i : Input, i.KeepsOrder → ∃ lead payload, Packet.opening ∉ lead ∧ t.sends i = lead ++ frames payload ∧
      ∀ p, payload = some p → p.length ≤ t.packetSize ∧ Packet.opening ∉ p ∧ Packet.closing ∉ p ∧
        Packet.Receiver.run t.packetSize .outside 0 (frame p) = (.outside, [(p.length + 3, .packet p)]) := by
  intro t
  have start := ready_start hstart order (Nat.le_trans (by decide) room)
  have ready : t.Ready := ready_run start hi
  have speaks : t.Speaks := speaks_run start (speaks_start hstart room) hi
  have framed : t.Framed := by
    refine framed_run start ?_ hi
    obtain ⟨size, rfl⟩ := eq_of_start? hstart
    exact nofun
  refine ⟨fun b body free heard => ?_, fun b claimed computed free heard => ?_, fun b free noPacket noMismatch => ?_,
    fun i keeps => ?_⟩
  · have answered := receive_packet ready speaks free heard
    obtain ⟨echo, id, acknowledged⟩ := acknowledgement_eq body
    rw [acknowledged] at answered
    exact ⟨echo, id, answered.imp_right fun sent => ⟨sent.1, sent.2.imp fun _ h => h.2⟩⟩
  · have after : t.step (.byte b) = { t with receiver := .outside, wire := t.wire.append [Packet.refusal] } := by
      rw [← Packet.Receiver.step_fst_of_event heard]
      exact congrArg Prod.snd (receive_mismatch ready.order free heard)
    exact ⟨sends_eq (by rw [after]), after⟩
  · exact sends_of_neither ready free noPacket noMismatch
  · obtain ⟨lead, payload, hlead, sent, sendable⟩ := frame_of_sends ready framed keeps
    refine ⟨lead, payload, hlead, sent, fun p hp => ?_⟩
    obtain ⟨opening, closing⟩ := Packet.unmarked_iff.1 (sendable p hp).unmarked
    have outside : Packet.Receiver.Open .outside := trivial
    have received := Packet.Receiver.run_frame outside (sendable p hp) (Packet.isFrame_frame p) 0
    rw [Nat.zero_add] at received
    exact ⟨(sendable p hp).fits, opening, closing, received⟩

/-- A question with a sequence id, one with a wrong checksum, and a wish to stop. -/
theorem answers_to_question_with_id :
    ∃ s, start? {} Wire.fresh Kernel.empty = .ok s ∧ 536 ≤ s.packetSize ∧
      let asked := s.run ((ascii "$7a:qC#8").map .byte)
      let mistaken := s.run ((ascii "$qC#0").map .byte)
      (∃ p, asked.sends (.byte '6'.toUInt8) = ascii "+7a" ++ frame p) ∧
        mistaken.sends (.byte '0'.toUInt8) = ascii "-" ∧ s.sends (.byte Packet.interruption) = ascii "$S02#b5" := by
  let s : Session := ⟨Debuggee.empty 64 256 32, Wire.fresh, 2048, .outside, true, none, [], []⟩
  have start : start? {} Wire.fresh Kernel.empty = .ok s := rfl
  have keeps (text : String) : ∀ i ∈ (ascii text).map Input.byte, i.KeepsOrder := by
    intro i hi
    obtain ⟨b, -, rfl⟩ := List.mem_map.1 hi
    trivial
  refine ⟨s, start, by decide, ?_, ?_, ?_⟩
  · obtain ⟨echo, id, sent⟩ :=
      (answers_are_frames start ⟨rfl, rfl⟩ (by decide) (keeps "$7a:qC#8")).1 '6'.toUInt8
      (ascii "7a:qC") (by decide +kernel) (by decide +kernel)
    obtain rfl : echo = ascii "7a" := by
      rcases id with ⟨x, y, rest, body, rfl⟩ | ⟨none, -⟩
      · cases body
        rfl
      · exact absurd rfl (none _ _ (ascii "qC"))
    rcases sent with ⟨-, silent⟩ | ⟨-, p, sent⟩
    · exact absurd silent (by decide +kernel)
    · exact ⟨p, sent⟩
  · exact ((answers_are_frames start ⟨rfl, rfl⟩ (by decide) (keeps "$qC#0")).2.1 '0'.toUInt8 (some 0) 0xb4
      (by decide +kernel) (by decide +kernel)).1
  · exact (answers_are_frames start ⟨rfl, rfl⟩ (by decide) (keeps "")).2.2.1 Packet.interruption rfl nofun nofun

end RemoteDebug.Session
