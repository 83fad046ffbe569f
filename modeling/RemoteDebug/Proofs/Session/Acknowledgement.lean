import RemoteDebug.Proofs.Session.Discipline
import RemoteDebug.Proofs.Session.Telling

/-!
# Replies until they are acknowledged

A reply that was sent is outstanding until the client acknowledges it. What comes in meanwhile never touches it: a byte
of the client has it sent again, a report of the kernel at most joins the queue (`Session.step_of_waits`). So a run of
such inputs is known by its bytes alone (`Session.run_of_waits`), and the acknowledgement that ends it does one of three
things (`Session.receive_acceptance_asked`, `Session.receive_acceptance_stop`, `Session.receive_acceptance_quiet`).

That a reply was sent is read off the wire (`Session.SendsNew`), and it is the outstanding one then
(`Session.outstanding_of_sendsNew`).
-/

namespace RemoteDebug

/-- The calls that making one call on each of some threads adds. -/
theorem Kernel.map_call_callEach (k : Kernel) (call : Kernel.ThreadCall) (caps : List Kernel.ThreadCap) :
    (k.callEach call caps).history.toList.map (·.call) =
      k.history.toList.map (·.call) ++ caps.map (.thread · call) := by
  induction caps generalizing k with
  | nil => simp [callEach]
  | cons cap caps ih => simp [callEach, ih, history_callThread]

namespace Packet

/-- What stands in front of a frame and what is in it are known from the bytes. -/
theorem frame_eq_of_append_eq {a b body body' : List UInt8} (ha : opening ∉ a) (hb : opening ∉ b)
    (h : a ++ frame body = b ++ frame body') : frame body = frame body' := by
  rw [← dropWhile_append_frame ha, h, dropWhile_append_frame hb]

end Packet

namespace Session

/-! ## New replies -/

/-- An input sends a frame for the first time: behind an acknowledgement at most, and not because the client has not
acknowledged it. -/
def SendsNew (s : Session) (i : Input) (frame : List UInt8) : Prop :=
  s.repeats i = false ∧ ∃ before body, Packet.opening ∉ before ∧ frame = Packet.frame body ∧
    s.sends i = before ++ frame

/-- What an input that does not have a reply sent again puts on the wire, and what is outstanding then. -/
def Sends (s s' : Session) : Prop :=
  ∃ before payload, Packet.opening ∉ before ∧ s'.wire = s.wire.append (before ++ frames payload) ∧
    (∀ body, payload = some body →
      Packet.Sendable s.packetSize body ∧ s'.outstanding = some ⟨Packet.frame body, false⟩) ∧
    (payload = none → ∀ o, s'.outstanding = some o → s.outstanding = some o)

theorem sendable_interruptReply {s : Session} {body : List UInt8} (h : s.interruptReply = some body) :
    Packet.Sendable s.packetSize body := by
  have letters : Packet.Unmarked (ascii "S") := by decide
  exact Reply.sendable_render (by simp [Reply.Piece.Unmarked, letters]) h

section Sends

variable {s s' : Session} {b : UInt8}

theorem Sends.of_append {before : List UInt8} (hb : Packet.opening ∉ before) (hw : s'.wire = s.wire.append before)
    (kept : ∀ o, s'.outstanding = some o → s.outstanding = some o) : Sends s s' :=
  ⟨before, none, hb, by simpa [frames] using hw, nofun, fun _ => kept⟩

theorem Sends.of_replied {s₁ : Session} {before : List UInt8} {payload : Option (List UInt8)}
    {r : Except SessionError Unit} (reply : Replied s₁ payload r s') (order : s.wire.InOrder)
    (hb : Packet.opening ∉ before) (hw : s₁.wire = s.wire.append before)
    (sendable : ∀ body, payload = some body → Packet.Sendable s.packetSize body)
    (kept : ∀ o, s₁.outstanding = some o → s.outstanding = some o) : Sends s s' := by
  have order₁ : s₁.wire.InOrder := hw ▸ order.append before
  refine ⟨before, payload, hb, ?_, ?_, ?_⟩
  · rw [reply.wire_eq order₁, hw, Wire.append_append]
  · rintro body rfl
    exact ⟨sendable body rfl, (reply.of_some order₁).2.2⟩
  · rintro rfl
    cases reply with
    | sent fits => cases fits
    | failed => exact kept

theorem sends_took {r : Except SessionError (Option SessionEvent)} (h : Took s b r s') (hs : s.Ready)
    (once : s.repeats (.byte b) = false) : Sends s s' := by
  have nothing : Packet.opening ∉ ([] : List UInt8) := List.not_mem_nil
  have noBytes (w : Wire) : w = w.append [] := by simp [Wire.append]
  have stops (stop : StopReason) (body : List UInt8) (hb : s.render stop.pieces = some body) :
      Packet.Sendable s.packetSize body := Reply.sendable_render stop.unmarked_pieces hb
  have leaves (body : List UInt8) (hb : s.render [.text (ascii "OK")] = some body) :
      Packet.Sendable s.packetSize body := (sound_text (by decide)).sendable body hb
  have freed (o : Outstanding) (h : none = some o) : s.outstanding = some o := by cases h
  have unmarked {next : Packet.Receiver} {body : List UInt8}
      (heard : s.receiver.step s.packetSize b = (next, some (.packet body))) :
      Packet.opening ∉ acknowledgement body :=
    opening_not_mem_acknowledgement hs.clean heard
  cases h with
  | again waits refuses => simp [repeats, waits, refuses] at once
  | acknowledged => exact .of_append nothing (noBytes _) freed
  | incomplete => exact .of_append nothing (noBytes _) fun _ => id
  | @nextStop _ stop _ _ _ _ _ _ _ _ reply =>
    exact .of_replied reply hs.order nothing (noBytes _) (stops stop) freed
  | lateInterrupt _ _ _ reply =>
    exact .of_replied reply hs.order nothing (noBytes _) (fun _ => sendable_interruptReply) freed
  | interrupt _ _ reply =>
    exact .of_replied reply hs.order nothing (noBytes _) (fun _ => sendable_interruptReply) fun _ => id
  | refused _ _ sends => exact .of_append (by decide) (sends hs.order) fun _ => id
  | unheard _ _ broken => exact absurd hs.order broken
  | answered _ heard sends _ _ _ reply sound =>
    exact .of_replied reply hs.order (unmarked heard) (sends hs.order) sound.sendable fun _ => id
  | @stopInstead _ _ _ _ stop _ _ _ _ heard sends _ _ _ reply =>
    exact .of_replied reply hs.order (unmarked heard) (sends hs.order) (stops stop) fun _ => id
  | stuck _ heard sends _ reply =>
    exact .of_replied reply hs.order (unmarked heard) (sends hs.order) leaves fun _ => id
  | resumed _ heard sends =>
    exact .of_append (unmarked heard) (sends hs.order) fun _ => id
  | @left _ _ _ _ s₂ _ heard sends _ reply =>
    have sent : Sends s s₂ :=
      .of_replied reply hs.order (unmarked heard) (sends hs.order) leaves fun _ => id
    exact sent

theorem sends_noted {i : Input} {accepted : Option StopReason} (h : Noted s i accepted s') (order : s.wire.InOrder) :
    Sends s s' := by
  have nothing : Packet.opening ∉ ([] : List UInt8) := List.not_mem_nil
  have noBytes (w : Wire) : w = w.append [] := by simp [Wire.append]
  cases h with
  | ignored => exact .of_append nothing (noBytes _) fun _ => id
  | @reported _ _ stop _ _ _ _ _ report =>
    cases report with
    | told _ _ reply =>
      exact .of_replied reply order nothing (noBytes _) (fun _ => Reply.sendable_render stop.unmarked_pieces)
        fun _ => id
    | queued => exact .of_append nothing (noBytes _) fun _ => id

theorem sends_step (hs : s.Ready) {i : Input} (hi : i.KeepsOrder) (once : s.repeats i = false) :
    Sends s (s.step i) := by
  have noBytes (w : Wire) : w = w.append [] := by simp [Wire.append]
  cases i with
  | byte b => exact sends_took (took_receive s b) hs once
  | fault | spawn | exit => exact sends_noted (noted_of_reports trivial) hs.order
  | addInferior | addThread | disable => exact .of_append List.not_mem_nil (noBytes _) fun _ => id
  | wire budget flushFails =>
    obtain ⟨hb, hf⟩ := hs.order
    obtain ⟨hb', hf'⟩ := hi
    have same : (s.step (.wire budget flushFails)).wire = s.wire := by simp only [step, hb', hf', ← hb, ← hf]
    exact .of_append List.not_mem_nil (same.trans (noBytes _)) fun _ => id

/-- A frame that was just sent for the first time is outstanding, and the client has not asked for a stop since. -/
theorem outstanding_of_sendsNew {i : Input} {frame : List UInt8} (hs : s.Ready) (hi : i.KeepsOrder)
    (h : s.SendsNew i frame) : (s.step i).outstanding = some ⟨frame, false⟩ := by
  obtain ⟨once, before, body, hbefore, rfl, hsends⟩ := h
  obtain ⟨acknowledgement, payload, hack, hwire, houtstanding, -⟩ := sends_step hs hi once
  rw [sends_eq hwire] at hsends
  cases payload with
  | none =>
    have here : Packet.opening ∈ before ++ Packet.frame body := by simp [Packet.frame]
    rw [← hsends] at here
    simp [frames, hack] at here
  | some payload =>
    rw [(houtstanding payload rfl).2, Packet.frame_eq_of_append_eq hack hbefore hsends]

end Sends

/-! ## While a reply is outstanding -/

/-- Whether an input asks for a stop. -/
def Input.asksToStop : Input → Bool
  | .byte b => b = Packet.interruption
  | _ => false

/-- What an input puts on the wire while a frame is outstanding. -/
def Input.copies (frame : List UInt8) : Input → List UInt8
  | .byte _ => frame
  | _ => []

section Waits

variable {s : Session} {o : Outstanding}

/-- A byte that is no acknowledgement has the reply sent again, and does nothing else. -/
theorem receive_of_waits {b : UInt8} (order : s.wire.InOrder) (waits : s.outstanding = some o)
    (hb : b ≠ Packet.acceptance) :
    s.receive b = (.ok none,
      { s with
        wire := s.wire.append o.frame
        outstanding := some ⟨o.frame, o.interrupted || b = Packet.interruption⟩ }) := by
  simp [receive, waits, receiveAck, hb, transmit, Wire.transmit_of_inOrder order, Outcome.andThen]

/-- What an input does that does not acknowledge the outstanding reply. -/
theorem step_of_waits {i : Input} (order : s.wire.InOrder) (waits : s.outstanding = some o) (hi : i.KeepsOrder)
    (refuses : i ≠ .byte Packet.acceptance) :
    (s.step i).outstanding = some ⟨o.frame, o.interrupted || i.asksToStop⟩ ∧
      (s.step i).wire = s.wire.append (i.copies o.frame) ∧ (s.step i).receiver = s.receiver ∧
      (s.step i).running = s.running := by
  have noBytes (w : Wire) : w = w.append [] := by simp [Wire.append]
  have report {accepted : Option StopReason} {s' : Session} (h : Noted s i accepted s') :
      s'.outstanding = some ⟨o.frame, o.interrupted || false⟩ ∧ s'.wire = s.wire.append [] ∧
        s'.receiver = s.receiver ∧ s'.running = s.running := by
    rw [Bool.or_false]
    cases h with
    | ignored => exact ⟨waits, noBytes _, rfl, rfl⟩
    | reported _ _ _ _ _ report =>
      cases report with
      | told _ free _ => cases waits.symm.trans free
      | queued => exact ⟨waits, noBytes _, rfl, rfl⟩
  cases i with
  | byte b =>
    have hb : b ≠ Packet.acceptance := fun h => refuses (by rw [h])
    rw [step, receive_of_waits order waits hb]
    exact ⟨rfl, rfl, rfl, rfl⟩
  | fault | spawn | exit => exact report (noted_of_reports trivial)
  | addInferior | addThread | disable =>
    exact ⟨by simp [step, perform, waits, Input.asksToStop], noBytes _, rfl, rfl⟩
  | wire budget flushFails =>
    obtain ⟨hb, hf⟩ := order
    obtain ⟨hb', hf'⟩ := hi
    refine ⟨by simp [step, waits, Input.asksToStop], ?_, rfl, rfl⟩
    simp only [step, hb', hf', ← hb, ← hf]
    exact noBytes _

/-- What a run of such inputs comes to. -/
theorem run_of_waits {inputs : List Input} (order : s.wire.InOrder) (waits : s.outstanding = some o)
    (hi : ∀ i ∈ inputs, i.KeepsOrder) (refuses : .byte Packet.acceptance ∉ inputs) :
    (s.run inputs).outstanding = some ⟨o.frame, o.interrupted || inputs.any Input.asksToStop⟩ ∧
      (s.run inputs).wire = s.wire.append (inputs.flatMap (Input.copies o.frame)) ∧
      (s.run inputs).receiver = s.receiver ∧ (s.run inputs).running = s.running := by
  induction inputs generalizing s o with
  | nil => exact ⟨by simp [waits], by simp [Wire.append], rfl, rfl⟩
  | cons i inputs ih =>
    rw [List.mem_cons, not_or] at refuses
    obtain ⟨refused, refuses'⟩ := refuses
    obtain ⟨waits₁, wire₁, receiver₁, running₁⟩ :=
      step_of_waits order waits (hi i List.mem_cons_self) (Ne.symm refused)
    have order₁ : (s.step i).wire.InOrder := wire₁ ▸ order.append _
    obtain ⟨waits₂, wire₂, receiver₂, running₂⟩ :=
      ih order₁ waits₁ (fun j hj => hi j (List.mem_cons_of_mem _ hj)) refuses'
    refine ⟨?_, ?_, receiver₂.trans receiver₁, running₂.trans running₁⟩
    · rw [run_cons, waits₂, List.any_cons, Bool.or_assoc]
    · rw [run_cons, wire₂, wire₁, Wire.append_append, List.flatMap_cons]

end Waits

/-! ## The acknowledgement -/

section Accepts

variable {s : Session} {o : Outstanding}

theorem sendReply?_of_order (order : s.wire.InOrder) (body : List UInt8) :
    s.sendReply? (some body) = (.ok (),
      { s with
        wire := s.wire.append (Packet.frame body)
        outstanding := some ⟨Packet.frame body, false⟩ }) := by
  simp [sendReply?, sendReply, transmit, Wire.transmit_of_inOrder order, Outcome.andThen]

/-- A stop is told of in a packet with room for every stop reply. -/
theorem sendStop_of_order {stop : StopReason} (order : s.wire.InOrder) (room : 86 ≤ s.packetSize)
    (valid : stop.Valid) :
    s.sendStop stop = (.ok (),
      { s.halt stop with
        wire := s.wire.append (Packet.frame stop.written)
        outstanding := some ⟨Packet.frame stop.written, false⟩ }) := by
  have sent : s.sendStop stop = (s.halt stop).sendReply? (some stop.written) := by
    rw [← StopReason.render_pieces room valid]
    rfl
  rw [sent, sendReply?_of_order (s := s.halt stop) order]
  rfl

/-- A reply to the client's wish to stop fits wherever a stop reply does. -/
theorem interruptReply_eq (room : 86 ≤ s.packetSize) : s.interruptReply = some (ascii "S02") := by
  have written : Reply.encoding? [.text (ascii "S"), .hexByte Signal.interrupt.number] = some (ascii "S02") := by decide
  exact Reply.render_eq_some_iff.2 ⟨written, Nat.le_trans (by decide) room⟩

theorem receive_acceptance_asked (order : s.wire.InOrder) (room : 86 ≤ s.packetSize) (waits : s.outstanding = some o)
    (asked : o.interrupted = true) :
    s.receive Packet.acceptance = (.ok none,
      { s.haltAll with
        wire := s.wire.append (Packet.frame (ascii "S02"))
        outstanding := some ⟨Packet.frame (ascii "S02"), false⟩ }) := by
  have asks : s.receive Packet.acceptance =
      ({ s with outstanding := none } : Session).interrupt.andThen fun _ s => (.ok none, s) := by
    simp [receive, waits, receiveAck, asked]
  have sent : ({ s with outstanding := none } : Session).interrupt =
      sendReply? { s.haltAll with outstanding := none } (some (ascii "S02")) := by
    rw [← interruptReply_eq room]
    rfl
  rw [asks, sent, sendReply?_of_order (s := { s.haltAll with outstanding := none }) order]
  rfl

/-- The acknowledgement if the client has asked for a stop meanwhile: every thread is asked to stop. -/
theorem acknowledged_asked (hs : s.Ready) (waits : s.outstanding = some o) (asked : o.interrupted = true) :
    (s.calls (.byte Packet.acceptance)).map (·.call) = s.debuggee.registry.caps.map (.thread · .suspend) ∧
      s.sends (.byte Packet.acceptance) = Packet.frame (ascii "S02") ∧
      (s.step (.byte Packet.acceptance)).outstanding = some ⟨Packet.frame (ascii "S02"), false⟩ ∧
      (s.step (.byte Packet.acceptance)).running = false ∧ (s.step (.byte Packet.acceptance)).queue = s.queue := by
  have after : s.step (.byte Packet.acceptance) = { s.haltAll with
      wire := s.wire.append (Packet.frame (ascii "S02"))
      outstanding := some ⟨Packet.frame (ascii "S02"), false⟩ } :=
    congrArg Prod.snd (receive_acceptance_asked hs.order hs.room waits asked)
  refine ⟨?_, sends_eq (congrArg Session.wire after), congrArg Session.outstanding after,
    congrArg Session.running after, (congrArg Session.queue after).trans rfl⟩
  have kernel : (s.step (.byte Packet.acceptance)).debuggee.kernel =
      s.debuggee.kernel.callEach .suspend s.debuggee.registry.caps := congrArg (·.debuggee.kernel) after
  rw [calls, kernel, List.map_drop, Kernel.map_call_callEach]
  simp

theorem receive_acceptance_stop {stop : StopReason} {queue : List StopReason} (order : s.wire.InOrder)
    (room : 86 ≤ s.packetSize) (waits : s.outstanding = some o) (calm : o.interrupted = false)
    (runs : s.running = true) (queued : s.queue = stop :: queue) (valid : stop.Valid) :
    s.receive Packet.acceptance = (.ok none,
      { s.halt stop with
        wire := s.wire.append (Packet.frame stop.written)
        outstanding := some ⟨Packet.frame stop.written, false⟩
        queue }) := by
  have asks : s.receive Packet.acceptance =
      (({ s with outstanding := none, queue } : Session).sendStop stop).andThen fun _ s => (.ok none, s) := by
    simp [receive, waits, receiveAck, calm, runs, queued]
  rw [asks, sendStop_of_order (s := { s with outstanding := none, queue }) order room valid]
  rfl

/-- The acknowledgement if a stop waits and threads run: the client is told of the oldest. -/
theorem acknowledged_stop {stop : StopReason} {queue : List StopReason} (hs : s.Ready)
    (waits : s.outstanding = some o) (calm : o.interrupted = false) (runs : s.running = true)
    (queued : s.queue = stop :: queue) :
    s.calls (.byte Packet.acceptance) = [] ∧ s.sends (.byte Packet.acceptance) = Packet.frame stop.written ∧
      (s.step (.byte Packet.acceptance)).outstanding = some ⟨Packet.frame stop.written, false⟩ ∧
      (s.step (.byte Packet.acceptance)).running = false ∧ (s.step (.byte Packet.acceptance)).queue = queue := by
  have valid : stop.Valid := hs.valid stop (by rw [queued]; exact List.mem_cons_self)
  have after : s.step (.byte Packet.acceptance) = { s.halt stop with
      wire := s.wire.append (Packet.frame stop.written)
      outstanding := some ⟨Packet.frame stop.written, false⟩
      queue } :=
    congrArg Prod.snd (receive_acceptance_stop hs.order hs.room waits calm runs queued valid)
  refine ⟨?_, sends_eq (congrArg Session.wire after), congrArg Session.outstanding after,
    congrArg Session.running after, congrArg Session.queue after⟩
  have kernel : (s.step (.byte Packet.acceptance)).debuggee.kernel = s.debuggee.kernel :=
    (congrArg (·.debuggee.kernel) after).trans (kernel_halt s stop)
  rw [calls, kernel]
  simp

/-- The acknowledgement if there is nothing to tell. -/
theorem receive_acceptance_quiet (waits : s.outstanding = some o) (calm : o.interrupted = false)
    (nothing : s.running = true → s.queue = []) :
    s.receive Packet.acceptance = (.ok none, { s with outstanding := none }) := by
  cases runs : s.running with
  | false => simp [receive, waits, receiveAck, calm, runs, Outcome.andThen]
  | true => simp [receive, waits, receiveAck, calm, runs, nothing runs, Outcome.andThen]

/-- A byte that comes when no reply is outstanding goes to the receiver. -/
theorem receiver_step_of_free {b : UInt8} (free : s.outstanding = none) :
    (s.step (.byte b)).receiver = (s.receiver.step s.packetSize b).1 := by
  have h : Took s b (s.receive b).1 (s.step (.byte b)) := took_receive s b
  generalize (s.receive b).1 = r at h
  generalize s.step (.byte b) = s' at h ⊢
  have kept {s₁ : Session} {payload : Option (List UInt8)} {r : Except SessionError Unit} {s' : Session}
      (reply : Replied s₁ payload r s') : s'.receiver = s₁.receiver := by
    cases reply <;> rfl
  cases h with
  | again waits | acknowledged waits | nextStop waits | lateInterrupt waits => cases free.symm.trans waits
  | incomplete _ heard | refused _ heard | unheard _ heard | resumed _ heard => rw [heard]
  | interrupt _ heard reply | answered _ heard _ _ _ _ reply | stopInstead _ heard _ _ _ _ reply
  | left _ heard _ _ reply | stuck _ heard _ _ reply =>
    rw [heard]
    exact kept reply

end Accepts

/-! ## From a new reply to its acknowledgement -/

/-- From the input that sends a reply for the first time up to the acknowledgement, every byte has exactly this reply
sent again and does nothing else but note a wish to stop, nothing else sends anything, and neither the receiver nor
whether threads run changes. The acknowledgement then stops every thread and says so, if the client asked for a stop
meanwhile; otherwise it tells of the oldest stop in the queue, if threads run; otherwise it sends nothing, and the next
byte goes on where the receiver was left. -/
theorem outstanding_until_acknowledged {c : Config} {wire : Wire} {s : Session} {before between : List Input}
    {i : Input} {frame : List UInt8} (hstart : start? c wire Kernel.empty = .ok s) (order : wire.InOrder)
    (room : 86 ≤ s.packetSize) (hi : ∀ j ∈ before ++ i :: between, j.KeepsOrder)
    (new : (s.run before).SendsNew i frame) (refuses : .byte Packet.acceptance ∉ between) :
    let sent := s.run (before ++ [i])
    let last := sent.run between
    let accept : Input := .byte Packet.acceptance
    let next := last.step accept
    (∀ a j rest, between = a ++ j :: rest → (sent.run a).sends j = j.copies frame ∧
      ∀ b, j = .byte b → (sent.run a).receive b = (.ok none,
        { sent.run a with
          wire := (sent.run a).wire.append frame
          outstanding := some ⟨frame, a.any Input.asksToStop || b = Packet.interruption⟩ })) ∧
    (last.receiver = sent.receiver ∧ last.running = sent.running) ∧
    (between.any Input.asksToStop = true →
      (last.calls accept).map (·.call) = last.debuggee.registry.caps.map (.thread · .suspend) ∧
        last.sends accept = Packet.frame (ascii "S02") ∧
        next.outstanding = some ⟨Packet.frame (ascii "S02"), false⟩ ∧ next.running = false ∧
        next.queue = last.queue) ∧
    (between.any Input.asksToStop = false → last.running = true → ∀ stop queue, last.queue = stop :: queue →
      last.calls accept = [] ∧ last.sends accept = Packet.frame stop.written ∧
        next.outstanding = some ⟨Packet.frame stop.written, false⟩ ∧ next.running = false ∧
        next.queue = queue) ∧
    (between.any Input.asksToStop = false → (last.running = true → last.queue = []) →
      last.sends accept = [] ∧ next = { last with outstanding := none } ∧
        ∀ b, (next.step (.byte b)).receiver = (last.receiver.step last.packetSize b).1) := by
  intro sent last accept next
  have ready : (s.run before).Ready :=
    ready_run (ready_start hstart order room) fun j hj => hi j (List.mem_append_left _ hj)
  have keeps : i.KeepsOrder := hi i (by simp)
  have keeps' : ∀ j ∈ between, j.KeepsOrder := fun j hj => hi j (by simp [hj])
  have here : sent = (s.run before).step i := by simp only [sent, run_append, run_cons, run_nil]
  have readySent : sent.Ready := here ▸ ready_step ready i keeps
  have waits : sent.outstanding = some ⟨frame, false⟩ := here ▸ outstanding_of_sendsNew ready keeps new
  have readyLast : last.Ready := ready_run readySent keeps'
  obtain ⟨waitsLast, -, receiver, running⟩ := run_of_waits readySent.order waits keeps' refuses
  rw [Bool.false_or] at waitsLast
  refine ⟨fun a j rest heq => ?_, ⟨receiver, running⟩, fun asked => acknowledged_asked readyLast waitsLast asked,
    fun calm runs stop queue queued => acknowledged_stop readyLast waitsLast calm runs queued, fun calm nothing => ?_⟩
  · have keepsA : ∀ j ∈ a, j.KeepsOrder := fun j hj => keeps' j (by simp [heq, hj])
    have refusesA : .byte Packet.acceptance ∉ a := fun h => refuses (by simp [heq, h])
    have refusesJ : j ≠ .byte Packet.acceptance := fun h => refuses (by simp [heq, h])
    obtain ⟨waitsA, -, -, -⟩ := run_of_waits readySent.order waits keepsA refusesA
    rw [Bool.false_or] at waitsA
    have orderA : (sent.run a).wire.InOrder := (ready_run readySent keepsA).order
    obtain ⟨-, wireJ, -, -⟩ := step_of_waits orderA waitsA (keeps' j (by simp [heq])) refusesJ
    refine ⟨sends_eq wireJ, ?_⟩
    rintro b rfl
    exact receive_of_waits orderA waitsA fun h => refusesJ (by rw [h])
  · have after : next = { last with outstanding := none } :=
      congrArg Prod.snd (receive_acceptance_quiet waitsLast calm nothing)
    refine ⟨sends_eq ((congrArg Session.wire after).trans ?_), after, fun b => ?_⟩
    · simp [Wire.append]
    · rw [after]
      exact receiver_step_of_free rfl

/-- While the answer to a question is outstanding, a stray byte has it sent again, and a fault joins the queue. The
acknowledgement tells of the fault, unless the client has asked for a stop, which is what it is told of then. -/
theorem acknowledged_with_and_without_wish :
    ∃ s, start? {} Wire.fresh Kernel.empty = .ok s ∧
      let before : List Input := [.addInferior 7 .fresh, .addThread 1 8 .fresh] ++ (ascii "$?#3").map .byte
      let sent := s.run (before ++ [.byte 'f'.toUInt8])
      let stray : Input := .byte 'x'.toUInt8
      let fault : Input := .fault 7 8 .softwareBreak
      let accept : Input := .byte Packet.acceptance
      (s.run before).SendsNew (.byte 'f'.toUInt8) (Packet.frame (ascii "T05swbreak:;")) ∧
        sent.sends stray = Packet.frame (ascii "T05swbreak:;") ∧ (sent.step stray).sends fault = [] ∧
        (sent.run [stray, fault]).sends accept = Packet.frame (StopReason.softwareBreak ⟨1, 1⟩).written ∧
        (sent.run [stray, fault, .byte Packet.interruption]).sends accept = Packet.frame (ascii "S02") := by
  let s : Session := ⟨Debuggee.empty 64 256 32, Wire.fresh, 2048, .outside, true, none, [], []⟩
  have start : start? {} Wire.fresh Kernel.empty = .ok s := rfl
  refine ⟨s, start, ?_⟩
  intro before sent stray fault accept
  have new : (s.run before).SendsNew (.byte 'f'.toUInt8) (Packet.frame (ascii "T05swbreak:;")) :=
    ⟨by decide +kernel, [Packet.acceptance], ascii "T05swbreak:;", by decide, rfl, by decide +kernel⟩
  have keeps : ∀ i ∈ before ++ .byte 'f'.toUInt8 :: [stray, fault], i.KeepsOrder := by decide +kernel
  have keeps' : ∀ i ∈ before ++ .byte 'f'.toUInt8 :: [stray, fault, .byte Packet.interruption], i.KeepsOrder := by
    decide +kernel
  have told :=
    outstanding_until_acknowledged start ⟨rfl, rfl⟩ (by decide) keeps new (by simp [stray, fault]; decide)
  have stopped :=
    outstanding_until_acknowledged start ⟨rfl, rfl⟩ (by decide) keeps' new (by simp [stray, fault]; decide)
  refine ⟨new, ?_, ?_, ?_, ?_⟩
  · have copy := (told.1 [] stray [fault] rfl).1
    simpa only [stray, Input.copies, run_nil] using copy
  · have silent := (told.1 [stray] fault [] rfl).1
    simpa only [fault, Input.copies, run_cons, run_nil] using silent
  · exact (told.2.2.2.1 (by decide) (by decide +kernel) _ [] (by decide +kernel)).2.1
  · exact (stopped.2.2.1 (by decide)).2.1

end Session
end RemoteDebug
