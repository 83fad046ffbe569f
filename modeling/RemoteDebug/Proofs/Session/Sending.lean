import RemoteDebug.Proofs.Session.Framing
import RemoteDebug.Proofs.Session.Hearing

/-!
# What goes on a wire

A wire that fails takes the beginning of what it is given. So whatever wire a session is on, an input puts the beginning
of an acknowledgement and of one frame on it, at most, and that frame can be received (`Session.utters_step`). All that
this needs, every run keeps (`Session.utterable_run`).
-/

namespace RemoteDebug

/-! ## Wires of any kind -/

namespace Wire

variable {w : Wire}

theorem put_taken (w : Wire) (bytes : List UInt8) :
    ∃ taken, taken <+: bytes ∧ (w.put bytes).2.sent.toList = w.sent.toList ++ taken ∧
      ((w.put bytes).1 = .ok () → taken = bytes) := by
  induction bytes generalizing w with
  | nil => exact ⟨[], List.prefix_rfl, by simp [put], fun _ => rfl⟩
  | cons b rest ih =>
    have more (w' : Wire) (hw : w'.sent = w.sent.push b) :
        ∃ taken, taken <+: b :: rest ∧ (w'.put rest).2.sent.toList = w.sent.toList ++ taken ∧
          ((w'.put rest).1 = .ok () → taken = b :: rest) := by
      obtain ⟨taken, front, sent, all⟩ := ih w'
      refine ⟨b :: taken, List.cons_prefix_cons.2 ⟨rfl, front⟩, ?_, fun ok => by rw [all ok]⟩
      rw [sent, hw, Array.toList_push, List.append_assoc, List.singleton_append]
    unfold put
    split
    · exact more _ rfl
    · exact ⟨[], List.nil_prefix, by simp, fun ok => by cases ok⟩
    · exact more _ rfl

/-- A wire takes the beginning of what is sent, and all of it unless it fails. -/
theorem transmit_taken (w : Wire) (bytes : List UInt8) :
    ∃ taken, taken <+: bytes ∧ (w.transmit bytes).2.sent.toList = w.sent.toList ++ taken ∧
      ((w.transmit bytes).1 = .ok () → taken = bytes) := by
  obtain ⟨taken, front, sent, all⟩ := w.put_taken bytes
  unfold transmit
  revert sent all
  rcases w.put bytes with ⟨- | -, w'⟩
  · exact fun sent _ => ⟨taken, front, sent, nofun⟩
  · intro sent all
    dsimp only
    split
    · exact ⟨taken, front, sent, nofun⟩
    · exact ⟨taken, front, sent, fun _ => all rfl⟩

end Wire

namespace Session

open Packet (Sendable frame)

/-- One session comes from another by sending the beginning of a lead and of a frame that can be received, or of no
frame. What is outstanding then is that frame, or was outstanding before. -/
def Utters (s : Session) (lead : List UInt8) (s' : Session) : Prop :=
  ∃ payload taken, (∀ p, payload = some p → Sendable s.packetSize p) ∧ taken <+: lead ++ frames payload ∧
    s'.wire.sent.toList = s.wire.sent.toList ++ taken ∧
    ∀ o, s'.outstanding = some o →
      (∃ o', s.outstanding = some o' ∧ o'.frame = o.frame) ∨ ∃ p, payload = some p ∧ o.frame = frame p

variable {s s' : Session} {i : Input} {inputs : List Input} {b : UInt8} {lead : List UInt8}

/-! ## Replies -/

theorem Utters.of_sent_eq (sent : s'.wire.sent = s.wire.sent)
    (kept : ∀ o, s'.outstanding = some o → s.outstanding = some o) : s.Utters lead s' :=
  ⟨none, [], nofun, List.nil_prefix, by simp [sent], fun o ho => .inl ⟨o, kept o ho, rfl⟩⟩

/-- Only the wire changes. -/
theorem transmit_snd (s : Session) (bytes : List UInt8) :
    (s.transmit bytes).2 = { s with wire := (s.wire.transmit bytes).2 } := by
  unfold transmit
  split <;> simp [*]

theorem utters_transmit (s : Session) (bytes : List UInt8) : s.Utters bytes (s.transmit bytes).2 := by
  obtain ⟨taken, front, sent, -⟩ := s.wire.transmit_taken bytes
  rw [transmit_snd]
  exact ⟨none, taken, nofun, by simpa [frames] using front, sent, fun o ho => .inl ⟨o, ho, rfl⟩⟩

theorem utters_sendReply? {payload : Option (List UInt8)}
    (sendable : ∀ p, payload = some p → Sendable s.packetSize p) :
    s.Utters [] (s.sendReply? payload).2 := by
  cases payload with
  | none => exact .of_sent_eq rfl fun _ => id
  | some p =>
    obtain ⟨taken, front, sent, -⟩ := s.wire.transmit_taken (frame p)
    refine ⟨some p, taken, sendable, front, ?_⟩
    simp only [sendReply?, sendReply, transmit]
    revert sent
    rcases s.wire.transmit (frame p) with ⟨- | -, w⟩
    · exact fun sent => ⟨sent, fun o ho => .inl ⟨o, ho, rfl⟩⟩
    · exact fun sent => ⟨sent, fun o ho => .inr ⟨p, rfl, by rw [← Option.some.inj ho]⟩⟩

theorem utters_sendStop (s : Session) (stop : StopReason) : s.Utters [] (s.sendStop stop).2 :=
  utters_sendReply? (s := s.halt stop) fun _ hp => Reply.sendable_render stop.unmarked_pieces hp

theorem utters_interrupt (s : Session) : s.Utters [] s.interrupt.2 :=
  utters_sendReply? (s := s.haltAll) fun _ => sendable_interruptReply (s := s)

theorem utters_reportStop (s : Session) (stop : StopReason) : s.Utters [] (s.reportStop stop).2 := by
  unfold reportStop
  split
  · exact s.utters_sendStop stop
  · exact .of_sent_eq rfl fun _ => id

/-! ## Bytes of the client -/

/-- What is said once a lead is sent, is said behind it. -/
theorem utters_behind {α : Type} {next : Session → Outcome α} (h : ∀ s' : Session, s'.Utters [] (next s').2) :
    s.Utters lead ((s.transmit lead).andThen fun _ s' => next s').2 := by
  obtain ⟨taken, front, sent, all⟩ := s.wire.transmit_taken lead
  unfold transmit
  revert sent all
  rcases s.wire.transmit lead with ⟨- | -, w⟩
  · exact fun sent _ => ⟨none, taken, nofun, by simpa [frames] using front, sent,
      fun o ho => .inl ⟨o, ho, rfl⟩⟩
  · intro sent all
    obtain rfl := all rfl
    obtain ⟨payload, said, sendable, rest, sent', kept⟩ := h { s with wire := w }
    refine ⟨payload, taken ++ said, sendable, (List.prefix_append_right_inj taken).2 rest, ?_, kept⟩
    show (next { s with wire := w }).2.wire.sent.toList = _
    rw [sent', sent, List.append_assoc]

theorem utters_handleBody (s : Session) (body : List UInt8) : s.Utters [] (s.handleBody body).2 := by
  have answer := answered_respond s body
  revert answer
  unfold handleBody
  generalize s.respond body = answer, Command.parse body = command
  intro answer
  cases answer with
  | reply ops listing _ after _ sound =>
    subst after
    simp only [andThen_eq]
    exact utters_sendReply? (s := { s with debuggee := s.debuggee.performAll ops, listing }) sound.sendable
  | @resume actions =>
    simp only [resume]
    split
    · rename_i stop queue _
      rw [andThen_eq]
      exact utters_sendStop { s with debuggee := s.debuggee.perform (.act (actions.filterMap id)), queue } stop
    · exact .of_sent_eq rfl fun _ => id
  | detach =>
    have sendable : ∀ p, s.render [.text (ascii "OK")] = some p → Sendable s.packetSize p :=
      (sound_text (by decide)).sendable
    have said := utters_sendReply? (s := { s with debuggee := s.debuggee.release, queue := [] }) sendable
    revert said
    dsimp only
    generalize sendReply? _ _ = out
    obtain ⟨r, s'⟩ := out
    intro said
    cases r <;> exact said

theorem utters_receiveAck {o : Outstanding} (framed : s.Framed) (waits : s.outstanding = some o) (b : UInt8) :
    s.Utters [] (s.receiveAck o b).2 := by
  have freed {s' : Session} (h : ({ s with outstanding := none } : Session).Utters [] s') : s.Utters [] s' := by
    obtain ⟨payload, taken, sendable, front, sent, kept⟩ := h
    refine ⟨payload, taken, sendable, front, sent, fun o' ho' => .inr ?_⟩
    exact (kept o' ho').resolve_left fun ⟨_, h, _⟩ => by cases h
  unfold receiveAck
  split
  · -- the frame is sent again
    obtain ⟨p, sendable, hp⟩ := framed o waits
    obtain ⟨taken, front, sent, -⟩ := s.wire.transmit_taken o.frame
    rw [transmit_snd]
    refine ⟨some p, taken, fun _ h => Option.some.inj h ▸ sendable, by simpa [frames, hp] using front, sent, ?_⟩
    exact fun o' ho' => .inl ⟨o, waits, by rw [← Option.some.inj ho']⟩
  · dsimp only
    split
    · exact freed (utters_interrupt _)
    · split
      · split
        · exact freed (.of_sent_eq rfl fun _ => id)
        · rename_i stop queue _
          have said := utters_sendStop { s with outstanding := none, queue } stop
          exact freed said
      · exact freed (.of_sent_eq rfl fun _ => id)

theorem utters_receive (framed : s.Framed) (clean : s.receiver.Clean) (b : UInt8) :
    ∃ lead, Packet.opening ∉ lead ∧ s.Utters lead (s.receive b).2 := by
  cases waits : s.outstanding with
  | some o =>
    have acknowledges : (s.receive b).2 = (s.receiveAck o b).2 := by simp only [receive, waits, andThen_eq]
    exact ⟨[], List.not_mem_nil, acknowledges ▸ utters_receiveAck framed waits b⟩
  | none =>
    rcases heard : s.receiver.step s.packetSize b with ⟨receiver, event⟩
    cases event with
    | none =>
      have silent : s.receive b = (.ok none, { s with receiver }) := by simp only [receive, waits, heard]
      exact ⟨[], List.not_mem_nil, silent ▸ .of_sent_eq rfl fun _ => id⟩
    | some event =>
      have acts : s.receive b = ({ s with receiver } : Session).handleEvent event := by
        simp only [receive, waits, heard]
      rw [acts]
      cases event with
      | interrupt =>
        simp only [handleEvent, andThen_eq]
        exact ⟨[], List.not_mem_nil, utters_interrupt { s with receiver }⟩
      | mismatch =>
        simp only [handleEvent, andThen_eq]
        exact ⟨[Packet.refusal], by decide, utters_transmit { s with receiver } _⟩
      | packet body =>
        refine ⟨acknowledgement body, opening_not_mem_acknowledgement clean heard, ?_⟩
        have said : ({ s with receiver } : Session).Utters (acknowledgement body)
            (({ s with receiver } : Session).handleEvent (.packet body)).2 :=
          utters_behind fun s' => s'.utters_handleBody (Packet.splitSequenceId body).2
        exact said

/-! ## Runs -/

theorem utters_step (framed : s.Framed) (clean : s.receiver.Clean) (i : Input) :
    ∃ lead, Packet.opening ∉ lead ∧ s.Utters lead (s.step i) := by
  cases i with
  | byte b => exact utters_receive framed clean b
  | fault inferior thread fault =>
    refine ⟨[], List.not_mem_nil, ?_⟩
    show s.Utters [] (s.fault inferior thread fault).2
    unfold Session.fault
    split
    · exact .of_sent_eq rfl fun _ => id
    · exact utters_reportStop s.suspendAll _
  | spawn inferior parent child tcb =>
    refine ⟨[], List.not_mem_nil, ?_⟩
    show s.Utters [] (s.spawnNew inferior parent child tcb).2
    unfold spawnNew Session.spawn
    dsimp only
    split
    · exact .of_sent_eq rfl fun _ => id
    · split
      · exact .of_sent_eq rfl fun _ => id
      · split
        · exact .of_sent_eq rfl fun _ => id
        · rename_i name d _
          rw [andThen_eq]
          exact utters_reportStop ({ s with debuggee := d } : Session).suspendAll _
  | exit inferior thread =>
    refine ⟨[], List.not_mem_nil, ?_⟩
    show s.Utters [] (s.exit inferior thread).2
    unfold Session.exit
    split
    · exact .of_sent_eq rfl fun _ => id
    · dsimp only
      split
      · exact .of_sent_eq rfl fun _ => id
      · rename_i d _
        exact utters_reportStop { s.suspendAll with debuggee := d } _
  | addInferior | addThread | disable | wire => exact ⟨[], List.not_mem_nil, .of_sent_eq rfl fun _ => id⟩

theorem Utters.framed (h : s.Utters lead s') (framed : s.Framed) (size : s'.packetSize = s.packetSize) : s'.Framed := by
  obtain ⟨payload, -, sendable, -, -, kept⟩ := h
  intro o ho
  rw [size]
  rcases kept o ho with ⟨o', ho', same⟩ | ⟨p, hp, frame⟩
  · exact same ▸ framed o' ho'
  · exact ⟨p, sendable p hp, frame⟩

theorem clean_step (h : s.receiver.Clean) (i : Input) : (s.step i).receiver.Clean := by
  cases feeds : s.feeds i with
  | false => exact receiver_of_not_feeds feeds ▸ h
  | true =>
    obtain ⟨b, rfl, free⟩ := of_feeds feeds
    rw [receiver_step_of_free free]
    rcases heard : s.receiver.step s.packetSize b with ⟨next, event⟩
    exact (Packet.Receiver.clean_step h heard).1

/-- What a run keeps on any wire: the outstanding reply is a frame that can be received, and no mark stands in a body
that is being received. -/
theorem utterable_run (h : s.Framed ∧ s.receiver.Clean) (inputs : List Input) :
    (s.run inputs).Framed ∧ (s.run inputs).receiver.Clean := by
  refine run_induction (P := fun s => s.Framed ∧ s.receiver.Clean) (fun s i _ h => ⟨?_, clean_step h.2 i⟩) h
  obtain ⟨lead, -, said⟩ := utters_step h.1 h.2 i
  exact said.framed h.1 (s.packetSize_step i)

end Session
end RemoteDebug
