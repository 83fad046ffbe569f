import RemoteDebug.Proofs.Session.Liveness

/-!
# What can go wrong

An operation of a session can fail because the wire does, because a reply does not fit into a packet, or because the
kernel reports about a thread that is not registered. On a wire in order, and with room for the registers of a thread,
only the last is left (`Session.failure?_report`), and a byte of the client never fails (`Session.failure?_byte`): what
is wrong with a packet is said in the answer to it (`Session.AnswersProblems`).
-/

namespace RemoteDebug.Session

open Packet (frame)

variable {s : Session} {i : Input} {b : UInt8} {body : List UInt8} {inferior thread parent child : UInt64}

/-- The error that an operation has ended with. -/
def Outcome.error? {α : Type} (r : Outcome α) : Option SessionError :=
  match r.1 with
  | .ok _ => none
  | .error e => some e

/-- The error that an input ends with. What is only done to the debuggee has no such errors. -/
def failure? (s : Session) : Input → Option SessionError
  | .byte b => (s.receive b).error?
  | .fault inferior thread fault => (s.fault inferior thread fault).error?
  | .spawn inferior parent child tcb => (s.spawnNew inferior parent child tcb).error?
  | .exit inferior thread => (s.exit inferior thread).error?
  | .addInferior _ _ | .addThread _ _ _ | .disable _ | .wire _ _ => none

theorem error?_of_ok {α : Type} {r : Outcome α} {a : α} (h : r.1 = .ok a) : r.error? = none := by
  simp only [Outcome.error?, h]

theorem error?_of_error {α : Type} {r : Outcome α} {e : SessionError} (h : r.1 = .error e) : r.error? = some e := by
  simp only [Outcome.error?, h]

/-! ## Reports of the kernel -/

theorem reportStop_of_valid {stop : StopReason} (order : s.wire.InOrder) (room : 86 ≤ s.packetSize)
    (valid : stop.Valid) : (s.reportStop stop).1 = .ok () := by
  unfold reportStop
  split
  · rw [sendStop_of_order order room valid]
  · rfl

theorem failure?_fault (hs : s.Ready) (fault : Fault) :
    s.failure? (.fault inferior thread fault) =
      if (s.debuggee.registry.findThread? inferior thread).isSome then none
      else some (.unknownFaultingThread inferior thread) := by
  simp only [failure?]
  cases ht : s.debuggee.registry.findThread? inferior thread with
  | none => exact error?_of_error (by simp only [Session.fault, ht])
  | some t =>
    have registered : t ∈ s.debuggee.registry.threads := Registry.mem_threads.2 (Registry.findThread?_eq_some ht).2
    have valid : (StopReason.ofFault s.debuggee.registry t fault).Valid := by
      intro u hu
      rw [threads_ofFault, List.mem_singleton] at hu
      exact hu ▸ hs.named.valid registered
    have reported : (s.fault inferior thread fault).1 = .ok () := by
      simp only [Session.fault, ht]
      exact reportStop_of_valid (s := s.suspendAll) hs.order hs.room valid
    exact error?_of_ok reported

/-- A report of a new thread fails for the registry's reasons alone. -/
theorem failure?_spawn (hs : s.Ready) (tcb : Kernel.Tcb) {e : SessionError}
    (h : s.failure? (.spawn inferior parent child tcb) = some e) : ∃ reason, e = .registry reason := by
  simp only [failure?] at h
  cases ht : s.debuggee.registry.findThread? inferior parent with
  | none =>
    have refused : ∃ reason, (s.spawnNew inferior parent child tcb).1 = .error (.registry reason) := by
      simp only [spawnNew, spawn, Debuggee.makeThread, ht]
      split <;> exact ⟨_, rfl⟩
    obtain ⟨reason, heq⟩ := refused
    rw [error?_of_error heq, Option.some.injEq] at h
    exact ⟨reason, h.symm⟩
  | some t =>
    rcases hd : (s.debuggee.makeThread tcb).2.addThread t.pid child (s.debuggee.makeThread tcb).1 with
      ⟨reason | name, d⟩
    · rw [error?_of_error (congrArg Prod.fst (spawnNew_of_error ht hd)), Option.some.injEq] at h
      exact ⟨reason, h.symm⟩
    · have added : d = s.debuggee.performAll [.addThread t.pid child tcb] := congrArg Prod.snd hd.symm
      have registered : ∀ u ∈ (StopReason.cloned t name).threads,
          u ∈ (s.debuggee.performAll [.addThread t.pid child tcb]).registry.threads :=
            added ▸ cloned_registered ht hd
      have valid : (StopReason.cloned t name).Valid := registered_valid hs.toLegible registered
      have reported : (s.spawnNew inferior parent child tcb).1 = .ok name := by
        rw [spawnNew_of_ok ht hd, reportStop_of_valid (s := ({ s with debuggee := d } : Session).suspendAll) hs.order
          hs.room valid]
        rfl
      rw [error?_of_ok reported] at h
      cases h

theorem failure?_exit (hs : s.Ready) :
    s.failure? (.exit inferior thread) =
      if (s.debuggee.registry.findThread? inferior thread).isSome then none else some (.registry .unknownThread) := by
  simp only [failure?]
  cases ht : s.debuggee.registry.findThread? inferior thread with
  | none => exact error?_of_error (by simp only [Session.exit, ht])
  | some t =>
    obtain ⟨-, known, hknown⟩ := Registry.findThread?_eq_some ht
    obtain ⟨inf, hinf, hget⟩ := Option.bind_eq_some_iff.1 (show (s.debuggee.registry.inferior? t.pid).bind
      (·.threads.get? t.tid) = some known from hknown)
    have leaves : ∃ d, s.suspendAll.debuggee.exit t = (.ok (), d) := by
      simp only [Debuggee.exit, Registry.exit, suspendAll, Debuggee.suspendAll, hinf, hget]
      exact ⟨_, rfl⟩
    obtain ⟨d, hd⟩ := leaves
    have valid : (StopReason.exited t).Valid := by
      intro u hu
      rw [List.mem_singleton.1 hu]
      exact hs.named.valid (Registry.mem_threads.2 ⟨known, hknown⟩)
    have reported : (s.exit inferior thread).1 = .ok () := by
      simp only [Session.exit, ht, hd]
      exact reportStop_of_valid (s := { s.suspendAll with debuggee := d }) hs.order hs.room valid
    exact error?_of_ok reported

/-! ## Bytes of the client -/

/-- An acknowledgement is followed by a stop that waits, by the answer to a wish to stop, or by nothing. -/
theorem receive_of_outstanding {o : Outstanding} (hs : s.Ready) (waits : s.outstanding = some o) (b : UInt8) :
    (s.receive b).1 = .ok none := by
  by_cases accepts : b = Packet.acceptance
  · subst accepts
    cases asked : o.interrupted with
    | true => rw [receive_acceptance_asked hs.order hs.room waits asked]
    | false =>
      by_cases nothing : s.running = true → s.queue = []
      · rw [receive_acceptance_quiet waits asked nothing]
      · obtain ⟨runs, filled⟩ := Classical.not_imp.1 nothing
        obtain ⟨stop, queue, queued⟩ := List.exists_cons_of_ne_nil filled
        have valid : stop.Valid := hs.valid stop (by rw [queued]; exact List.mem_cons_self)
        rw [receive_acceptance_stop hs.order hs.room waits asked runs queued valid]
  · rw [receive_of_waits hs.order waits accepts]

/-- Whatever byte comes, it is dealt with. -/
theorem failure?_byte (hs : s.Ready) (speaks : s.Speaks) (b : UInt8) : s.failure? (.byte b) = none := by
  have dealt : ∃ event, (s.receive b).1 = .ok event := by
    cases waits : s.outstanding with
    | some o => exact ⟨none, receive_of_outstanding hs waits b⟩
    | none =>
      cases heard : (s.receiver.step s.packetSize b).2 with
      | none => exact ⟨none, by rw [receive_incomplete waits heard]⟩
      | some event =>
        cases event with
        | interrupt => exact ⟨none, by rw [receive_interrupt hs.order hs.room waits heard]⟩
        | mismatch claimed computed => exact ⟨none, by rw [receive_mismatch hs.order waits heard]⟩
        | packet body =>
          rcases receive_packet hs speaks waits heard with ⟨ok, -⟩ | ⟨ok | ok, -⟩
          · exact ⟨_, ok⟩
          · exact ⟨_, ok⟩
          · exact ⟨_, ok⟩
  obtain ⟨event, ok⟩ := dealt
  exact error?_of_ok ok

/-- What fails is a report about a thread that is not registered, or one of a thread that cannot be registered. -/
theorem failure?_report (hs : s.Ready) (speaks : s.Speaks) {e : SessionError} (h : s.failure? i = some e) :
    (∃ inferior thread, e = .unknownFaultingThread inferior thread) ∨ ∃ reason, e = .registry reason := by
  cases i with
  | byte b =>
    rw [failure?_byte hs speaks] at h
    cases h
  | fault inferior thread fault =>
    rw [failure?_fault hs, Option.ite_none_left_eq_some, Option.some.injEq] at h
    exact .inl ⟨inferior, thread, h.2.symm⟩
  | spawn inferior parent child tcb => exact .inr (failure?_spawn hs tcb h)
  | exit inferior thread =>
    rw [failure?_exit hs, Option.ite_none_left_eq_some, Option.some.injEq] at h
    exact .inr ⟨.unknownThread, h.2.symm⟩
  | addInferior | addThread | disable | wire => cases h

/-! ## Problems are answered -/

/-- What is wrong with what the client sends is said to it: a packet with a wrong checksum is refused, a body that is no
command is answered by its complaint, and no packet is left without an answer, unless it lets threads run. -/
structure AnswersProblems (s : Session) (b : UInt8) : Prop where
  mismatch : ∀ claimed computed, (s.receiver.step s.packetSize b).2 = some (.mismatch claimed computed) →
    s.sends (.byte b) = [Packet.refusal]
  malformed : ∀ body e, (s.receiver.step s.packetSize b).2 = some (.packet body) →
    Command.parse (Packet.splitSequenceId body).2 = .error e →
      s.sends (.byte b) = acknowledgement body ++ frame (ascii (complaint e))
  packet : ∀ body, (s.receiver.step s.packetSize b).2 = some (.packet body) →
    ((s.receive b).1 = .ok (some .resumed) ∧ ∃ actions, actions.all Option.isSome = true ∧
        Command.parse (Packet.splitSequenceId body).2 = .ok (.resume actions)) ∨
      ∃ p, s.sends (.byte b) = acknowledgement body ++ frame p

/-- A complaint fits wherever a stop reply does. -/
theorem render_complaint (room : 86 ≤ s.packetSize) (e : CommandError) :
    s.render [.text (ascii (complaint e))] = some (ascii (complaint e)) := by
  have letters : ∀ text ∈ ["", "E01", "E02", "E04"], (ascii text).length ≤ 86 := by decide
  have fits : (ascii (complaint e)).length ≤ 86 := by
    apply letters
    cases e with
    | empty => simp [complaint]
    | malformed name => cases name <;> simp [complaint]
  exact Reply.render_text (Nat.le_trans fits room)

/-- Threads run again only because the client asks for it, in a command all of which can be read. -/
theorem asks_of_resumed (h : (s.receive b).1 = .ok (some .resumed)) :
    ∃ actions, actions.all Option.isSome = true ∧ s.command? b = some (.resume actions) := by
  have took := took_receive s b
  rw [h] at took
  generalize hr : (Except.ok (some SessionEvent.resumed) : Except SessionError (Option SessionEvent)) = r at took
  generalize (s.receive b).2 = s' at took
  have silent (r' : Except SessionError Unit) : (.ok (some .resumed) : Except SessionError (Option SessionEvent)) ≠
      r'.map fun _ => none := by
    cases r' <;> simp [Except.map]
  cases took with
  | again | nextStop | lateInterrupt | interrupt | refused | answered | stopInstead => exact absurd hr (silent _)
  | acknowledged | incomplete | unheard | left | stuck => cases hr
  | resumed _ _ _ asks parsed => exact ⟨_, parsed, asks⟩

theorem answersProblems (hs : s.Ready) (speaks : s.Speaks) (free : s.outstanding = none) (b : UInt8) :
    s.AnswersProblems b := by
  constructor
  case mismatch =>
    intro claimed computed heard
    exact sends_eq (congrArg (·.2.wire) (receive_mismatch hs.order free heard))
  case malformed =>
    intro body e heard unread
    have answer : (s.hear b body).respond (Packet.splitSequenceId body).2 =
        (.reply (some (ascii (complaint e))), s.hear b body) := by
      simp only [respond, unread, say, Session.answer, render_complaint (s := s.hear b body) hs.room e]
    exact sends_of_respond hs.order free heard answer rfl
  case packet =>
    intro body heard
    rcases receive_packet hs speaks free heard with ⟨resumed, -⟩ | ⟨-, p, -, sent⟩
    · obtain ⟨actions, parsed, asks⟩ := asks_of_resumed resumed
      obtain ⟨-, body', heard', read⟩ := heard_of_command? asks
      cases heard.symm.trans heard'
      exact .inl ⟨resumed, actions, parsed, read⟩
    · exact .inr ⟨p, sent⟩

/-! ## Runs -/

/-- On a wire in order, with room for the registers of a thread, no reply ever turns out too big, wherever a run has led
and whatever comes next. Bytes of the client never fail at all, and what is wrong with them is said to the client. -/
theorem replies_never_too_big {c : Config} {wire : Wire} {s₀ : Session} {inputs : List Input}
    (hstart : start? c wire Kernel.empty = .ok s₀) (order : wire.InOrder) (room : 536 ≤ s₀.packetSize)
    (hi : ∀ i ∈ inputs, i.KeepsOrder) :
    (∀ i, (s₀.run inputs).failure? i ≠ some .replyTooBig) ∧
      (∀ b, (s₀.run inputs).failure? (.byte b) = none) ∧
      ((s₀.run inputs).outstanding = none → ∀ b, (s₀.run inputs).AnswersProblems b) := by
  have start := ready_start hstart order (Nat.le_trans (by decide) room)
  have ready : (s₀.run inputs).Ready := ready_run start hi
  have speaks : (s₀.run inputs).Speaks := speaks_run start (speaks_start hstart room) hi
  refine ⟨fun i tooBig => ?_, failure?_byte ready speaks, answersProblems ready speaks⟩
  rcases failure?_report ready speaks tooBig with ⟨inferior, thread, heq⟩ | ⟨reason, heq⟩
  · cases heq
  · cases heq

/-- A packet of 536 bytes is just enough: the registers of a thread fill it. In the same session a packet that cannot be
read is answered by its complaint, and one with a wrong checksum is refused. -/
theorem registers_fill_packet :
    ∃ s, start? { requestedSize := some 536 } Wire.fresh Kernel.empty = .ok s ∧
      let before : List Input := [.addInferior 7 .fresh, .addThread 1 8 .fresh, .fault 7 8 .softwareBreak,
        .byte Packet.acceptance]
      let asked := s.run (before ++ (ascii "$g#6").map .byte)
      let garbled := s.run (before ++ (ascii "$Mx#c").map .byte)
      (∀ i, asked.failure? i ≠ some .replyTooBig) ∧ asked.failure? (.byte '7'.toUInt8) = none ∧
        (∃ p, asked.sends (.byte '7'.toUInt8) = ascii "+" ++ frame p ∧ p.length = 536) ∧
        garbled.sends (.byte '5'.toUInt8) = ascii "+" ++ frame (ascii "E02") ∧
        garbled.sends (.byte '6'.toUInt8) = [Packet.refusal] := by
  let s : Session := ⟨Debuggee.empty 64 256 32, Wire.fresh, 536, .outside, true, none, [], []⟩
  have start : start? { requestedSize := some 536 } Wire.fresh Kernel.empty = .ok s := rfl
  refine ⟨s, start, ?_⟩
  intro before asked garbled
  have keeps (text : String) : ∀ i ∈ before ++ (ascii text).map .byte, i.KeepsOrder := by
    intro i hi
    rcases List.mem_append.1 hi with hi | hi
    · exact (by decide : ∀ i ∈ before, i.KeepsOrder) i hi
    · obtain ⟨b, -, rfl⟩ := List.mem_map.1 hi
      trivial
  obtain ⟨fits, dealt, answers⟩ := replies_never_too_big start ⟨rfl, rfl⟩ (Nat.le_refl 536) (keeps "$g#6")
  have problems :=
    (replies_never_too_big start ⟨rfl, rfl⟩ (Nat.le_refl 536) (keeps "$Mx#c")).2.2 (by decide +kernel)
  refine ⟨fits, dealt '7'.toUInt8, ?_, problems '5'.toUInt8 |>.malformed (ascii "Mx") (.malformed .writeMemory)
    (by decide +kernel) (by decide +kernel), problems '6'.toUInt8 |>.mismatch (some 0xc6) 0xc5 (by decide +kernel)⟩
  rcases (answers (by decide +kernel) '7'.toUInt8).packet (ascii "g") (by decide +kernel) with
    ⟨-, _, -, parsed⟩ | sent
  · cases parsed
  · obtain ⟨p, sent⟩ := sent
    have acknowledged : acknowledgement (ascii "g") = [Packet.acceptance] := by decide
    have long : (asked.sends (.byte '7'.toUInt8)).length = 541 := by decide +kernel
    refine ⟨p, sent, ?_⟩
    rw [sent, acknowledged] at long
    simpa [frame] using long

end RemoteDebug.Session
