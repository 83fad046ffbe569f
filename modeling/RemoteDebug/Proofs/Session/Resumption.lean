import RemoteDebug.Proofs.Debuggee.Resumption
import RemoteDebug.Proofs.Session.Acknowledgement

/-!
# Resumptions

A resumption has its threads set up action by action, and then lets them run, unless a stop is waiting: the client is
told of that instead, and the threads stay as they were set up (`Session.receive_resumption_running`,
`Session.receive_resumption_stopped`). What this comes to for each thread is said by the first action that covers it,
and by the last one if none does (`Session.FollowsActions`).
-/

namespace RemoteDebug.Session

open Kernel

/-! ## Carrying a command out -/

section Command

variable {s : Session} {b : UInt8} {command : Command} {actions : List (Option Action)}

theorem outstanding_of_command (asks : s.command? b = some command) : s.outstanding = none := by
  cases free : s.outstanding with
  | none => rfl
  | some o => simp [command?, free] at asks

/-- The session that has heard a packet and acknowledged it. -/
def hear (s : Session) (b : UInt8) (body : List UInt8) : Session :=
  { s with
    receiver := (s.receiver.step s.packetSize b).1
    wire := s.wire.append (acknowledgement body) }

/-- The body of a packet is answered once the packet is acknowledged. -/
theorem receive_of_packet {body : List UInt8} (order : s.wire.InOrder) (free : s.outstanding = none)
    (heard : (s.receiver.step s.packetSize b).2 = some (.packet body)) :
    s.receive b = (s.hear b body).handleBody (Packet.splitSequenceId body).2 := by
  have told : ({ s with receiver := (s.receiver.step s.packetSize b).1 } : Session).transmit (acknowledgement body) =
      (.ok (), s.hear b body) := by
    simp [transmit, Wire.transmit_of_inOrder order, hear]
  have carriedOut : s.receive b =
      (({ s with receiver := (s.receiver.step s.packetSize b).1 } : Session).transmit (acknowledgement body)).andThen
        fun _ s' => s'.handleBody (Packet.splitSequenceId body).2 := by
    simp only [receive, free, heard]
    rfl
  rw [carriedOut, told]
  rfl

/-- A command is carried out once its packet is acknowledged. -/
theorem receive_of_command (order : s.wire.InOrder) (clean : s.receiver.Clean) (asks : s.command? b = some command) :
    ∃ body, (s.receiver.step s.packetSize b).2 = some (.packet body) ∧ Packet.opening ∉ acknowledgement body ∧
      Command.parse (Packet.splitSequenceId body).2 = .ok command ∧
      s.receive b = (s.hear b body).handleBody (Packet.splitSequenceId body).2 := by
  obtain ⟨free, body, heard, parsed⟩ := heard_of_command? asks
  exact ⟨body, heard, opening_not_mem_acknowledgement clean (Prod.ext rfl heard), parsed,
    receive_of_packet order free heard⟩

theorem handleBody_of_read {body : List UInt8} (asks : Command.parse body = .ok (.resume actions))
    (read : actions.all Option.isSome = true) :
    s.handleBody body =
      ({ s with debuggee := Debuggee.applyActions (actions.filterMap id) [] s.debuggee } : Session).resume := by
  simp only [handleBody, respond, asks, execute, resumeActions, if_pos read]

theorem handleBody_of_unread {body : List UInt8} (asks : Command.parse body = .ok (.resume actions))
    (unread : actions.all Option.isSome = false) :
    s.handleBody body = (s.sendReply? (s.render [.text (ascii "E04")])).andThen fun _ s => (.ok none, s) := by
  simp only [handleBody, respond, asks, execute, resumeActions, unread, Bool.false_eq_true, if_false, say, answer]

/-- Threads run if no stop is waiting. -/
theorem receive_resumption_running (hs : s.Ready) (asks : s.command? b = some (.resume actions))
    (read : actions.all Option.isSome = true) (empty : s.queue = []) :
    ∃ body, Packet.opening ∉ acknowledgement body ∧ s.receive b = (.ok (some .resumed),
      { s.hear b body with
        debuggee := (Debuggee.applyActions (actions.filterMap id) [] s.debuggee).resumeWoken
        running := true }) := by
  obtain ⟨body, -, plain, parsed, carriedOut⟩ := receive_of_command hs.order hs.clean asks
  refine ⟨body, plain, ?_⟩
  rw [carriedOut, handleBody_of_read parsed read]
  simp [resume, hear, empty]

/-- The client is told of the oldest stop instead if there is one. -/
theorem receive_resumption_stopped {stop : StopReason} {queue : List StopReason} (hs : s.Ready)
    (asks : s.command? b = some (.resume actions)) (read : actions.all Option.isSome = true)
    (queued : s.queue = stop :: queue) :
    ∃ body, Packet.opening ∉ acknowledgement body ∧ s.receive b = (.ok none,
      { ({ s.hear b body with
          debuggee := Debuggee.applyActions (actions.filterMap id) [] s.debuggee } : Session).halt stop with
        wire := s.wire.append (acknowledgement body ++ Packet.frame stop.written)
        outstanding := some ⟨Packet.frame stop.written, false⟩
        queue }) := by
  obtain ⟨body, -, plain, parsed, carriedOut⟩ := receive_of_command hs.order hs.clean asks
  refine ⟨body, plain, ?_⟩
  have valid : stop.Valid := hs.valid stop (by rw [queued]; exact List.mem_cons_self)
  let s₁ : Session := { s.hear b body with
    debuggee := Debuggee.applyActions (actions.filterMap id) [] s.debuggee
    queue }
  have instead : (s.hear b body).handleBody (Packet.splitSequenceId body).2 =
      (s₁.sendStop stop).andThen fun _ s => (.ok none, s) := by
    rw [handleBody_of_read parsed read]
    simp [resume, hear, queued, s₁]
  rw [carriedOut, instead, sendStop_of_order (s := s₁) (hs.order.append _) hs.room valid]
  simp only [Outcome.andThen, ← Wire.append_append]
  rfl

/-- Nothing is done if an action cannot be read. -/
theorem receive_resumption_unread (hs : s.Ready) (asks : s.command? b = some (.resume actions))
    (unread : actions.all Option.isSome = false) :
    ∃ body, Packet.opening ∉ acknowledgement body ∧ s.receive b = (.ok none,
      { s.hear b body with
        wire := s.wire.append (acknowledgement body ++ Packet.frame (ascii "E04"))
        outstanding := some ⟨Packet.frame (ascii "E04"), false⟩ }) := by
  obtain ⟨body, -, plain, parsed, carriedOut⟩ := receive_of_command hs.order hs.clean asks
  refine ⟨body, plain, ?_⟩
  have fits : (s.hear b body).render [.text (ascii "E04")] = some (ascii "E04") :=
    Reply.render_text (Nat.le_trans (by decide) hs.room)
  rw [carriedOut, handleBody_of_unread parsed unread, fits,
    sendReply?_of_order (s := s.hear b body) (hs.order.append _)]
  simp only [Outcome.andThen, ← Wire.append_append]
  rfl

end Command

/-! ## What threads get out of it -/

/-- A packet with actions comes to what the first action that covers a thread says about it, and to what the last one
says if none does, whatever threads were to wake up before. -/
structure FollowsActions (s : Session) (b : UInt8) (actions : List Action) : Prop where
  thread : ∀ t thread, s.debuggee.registry.thread? t = some thread → ∃ stepped setting waking,
    thread.Stepped (s.debuggee.registry.steps actions t thread) stepped setting ∧
      waking.map (·.call) =
        (if s.debuggee.registry.wakes actions t = true ∧ s.queue = [] then [.thread thread.cap .resume] else []) ∧
      (s.calls (.byte b)).filter (·.isOn thread.cap) = setting ++ waking ∧
      (s.step (.byte b)).debuggee.registry.thread? t =
        some { stepped with wakeup := s.debuggee.registry.wakes actions t && !s.queue.isEmpty }
  nobodyElse : (s.step (.byte b)).debuggee.registry.roster = s.debuggee.registry.roster ∧
    ∀ r ∈ s.calls (.byte b), ∃ t thread, s.debuggee.registry.thread? t = some thread ∧ r.isOn thread.cap = true
  running : s.queue = [] → (s.receive b).1 = .ok (some .resumed) ∧ (s.step (.byte b)).running = true ∧
    (s.step (.byte b)).debuggee.Asleep
  stopped : ∀ stop queue, s.queue = stop :: queue → (s.receive b).1 = .ok none ∧ s.told? (.byte b) = some stop ∧
    (s.step (.byte b)).queue = queue ∧ (s.step (.byte b)).running = false ∧
    ∀ r ∈ s.calls (.byte b), ¬ r.call.IsResume
  forgets : ∀ marks, ({ s with debuggee := s.debuggee.remark marks } : Session).receive b = s.receive b

section FollowsActions

variable {s : Session} {b : UInt8} {i : Input} {actions : List (Option Action)}

theorem filter_calls {cap : ThreadCap} {records : List Record}
    (h : s.debuggee.kernel.Adds (s.step i).debuggee.kernel cap records) :
    (s.calls i).filter (·.isOn cap) = records := by
  obtain ⟨new, heq, hnew⟩ := h
  rw [calls, heq, ← Array.length_toList, List.drop_left]
  exact hnew

theorem of_mem_calls {p : Call → Prop} (h : Calls p s.debuggee.kernel (s.step i).debuggee.kernel) {r : Record}
    (hr : r ∈ s.calls i) : p r.call := by
  obtain ⟨new, heq, hnew⟩ := h.history
  rw [calls, heq, ← Array.length_toList, List.drop_left] at hr
  exact hnew r hr

/-- Calls on registered threads are calls on threads that have names. -/
theorem exists_isOn {d : Debuggee} {r : Record} (h : ∃ cap ∈ d.registry.caps, ∃ call, r.call = .thread cap call) :
    ∃ t thread, d.registry.thread? t = some thread ∧ r.isOn thread.cap = true := by
  obtain ⟨cap, hcap, call, heq⟩ := h
  obtain ⟨t, thread, ht, rfl⟩ := Registry.exists_of_mem_caps hcap
  exact ⟨t, thread, ht, by simp [Record.isOn, heq]⟩

/-- Which threads were to wake up before makes no difference. -/
theorem receive_remark (hs : s.Ready) (asks : s.command? b = some (.resume actions))
    (read : actions.all Option.isSome = true) (given : actions.filterMap id ≠ []) (marks : Ptid → Bool) :
    ({ s with debuggee := s.debuggee.remark marks } : Session).receive b = s.receive b := by
  obtain ⟨body, heard, -, parsed, carriedOut⟩ := receive_of_command hs.order hs.clean asks
  obtain ⟨body', heard', -, -, carriedOut'⟩ := receive_of_command
    (s := { s with debuggee := s.debuggee.remark marks }) hs.order hs.clean asks
  have same : body' = body := by
    have event := heard'.symm.trans heard
    simpa using event
  rw [carriedOut, carriedOut', same, handleBody_of_read parsed read, handleBody_of_read parsed read]
  simp only [hear, Debuggee.applyActions_remark _ _ given]

theorem followsActions_running (hs : s.Ready) (distinct : s.debuggee.registry.Distinct)
    (asks : s.command? b = some (.resume actions)) (read : actions.all Option.isSome = true)
    (given : actions.filterMap id ≠ []) (empty : s.queue = []) : s.FollowsActions b (actions.filterMap id) := by
  obtain ⟨body, -, received⟩ := receive_resumption_running hs asks read empty
  have after : (s.step (.byte b)).debuggee =
      (Debuggee.applyActions (actions.filterMap id) [] s.debuggee).resumeWoken :=
    congrArg (fun outcome => outcome.2.debuggee) received
  constructor
  case thread =>
    intro t thread ht
    obtain ⟨stepped, setting, moved, becomes⟩ := Debuggee.becomes_applyActions distinct ht given
    obtain ⟨waking, woken, resumed⟩ := Debuggee.becomes_resumeWoken
      (distinct.of_outline_eq (Debuggee.outline_applyActions _ _)) becomes.thread
    have both := becomes.trans woken rfl
    rw [← after] at both
    refine ⟨stepped, setting, waking, moved, ?_, ?_, ?_⟩
    · rw [resumed, ← moved.cap_eq]
      simp [empty]
    · rw [← moved.cap_eq]
      exact filter_calls both.calls
    · rw [both.thread]
      simp [empty]
  case nobodyElse =>
    have registered := s.debuggee.calls_resumption (actions.filterMap id)
    rw [← after] at registered
    constructor
    · rw [after]
      exact Registry.roster_of_outline_eq (Debuggee.outline_resumeWoken.trans (Debuggee.outline_applyActions _ _))
    · intro r hr
      exact exists_isOn (of_mem_calls registered hr)
  case running =>
    intro _
    refine ⟨by rw [received], congrArg (fun outcome => outcome.2.running) received, ?_⟩
    rw [after]
    exact Debuggee.asleep_resumeWoken _
  case stopped =>
    intro stop queue queued
    cases empty.symm.trans queued
  case forgets => exact receive_remark hs asks read given

/-- Telling of a stop changes the selection only. -/
theorem inferiors_halt (s : Session) (stop : StopReason) :
    (s.halt stop).debuggee.registry.inferiors = s.debuggee.registry.inferiors := by
  simp only [halt]
  split <;> rfl

theorem followsActions_stopped {stop : StopReason} {queue : List StopReason} (hs : s.Ready)
    (distinct : s.debuggee.registry.Distinct) (asks : s.command? b = some (.resume actions))
    (read : actions.all Option.isSome = true) (given : actions.filterMap id ≠ []) (queued : s.queue = stop :: queue) :
    s.FollowsActions b (actions.filterMap id) := by
  obtain ⟨body, plain, received⟩ := receive_resumption_stopped hs asks read queued
  let setUp := Debuggee.applyActions (actions.filterMap id) [] s.debuggee
  let halted := ({ s.hear b body with debuggee := setUp } : Session).halt stop
  have after : (s.step (.byte b)).debuggee = halted.debuggee := congrArg (fun outcome => outcome.2.debuggee) received
  have kernel : (s.step (.byte b)).debuggee.kernel = setUp.kernel := by rw [after, kernel_halt]
  have inferiors : (s.step (.byte b)).debuggee.registry.inferiors = setUp.registry.inferiors := by
    rw [after, inferiors_halt]
  have stepping :
      Calls (fun c => (∃ cap ∈ s.debuggee.registry.caps, ∃ call, c = .thread cap call) ∧ ¬ c.IsResume)
      s.debuggee.kernel (s.step (.byte b)).debuggee.kernel := by
    rw [kernel]
    exact Debuggee.calls_applyActions fun cap hcap on => ⟨⟨cap, hcap, _, rfl⟩, id⟩
  constructor
  case thread =>
    intro t thread ht
    obtain ⟨stepped, setting, moved, becomes⟩ := Debuggee.becomes_applyActions distinct ht given
    refine ⟨stepped, setting, [], moved, by simp [queued], ?_, ?_⟩
    · rw [List.append_nil, ← moved.cap_eq]
      refine filter_calls ?_
      rw [kernel]
      exact becomes.calls
    · rw [Registry.thread?, Registry.inferior?, inferiors, ← Registry.inferior?, ← Registry.thread?,
        becomes.thread]
      simp [queued]
  case nobodyElse =>
    constructor
    · rw [Registry.roster, inferiors, ← Registry.roster]
      exact Registry.roster_of_outline_eq (Debuggee.outline_applyActions _ _)
    · intro r hr
      exact exists_isOn (of_mem_calls stepping hr).1
  case running =>
    intro empty
    cases empty.symm.trans queued
  case stopped =>
    intro stop' queue' queued'
    obtain ⟨rfl, rfl⟩ := List.cons.inj (queued.symm.trans queued')
    have once : s.repeats (.byte b) = false := repeats_of_free (outstanding_of_command asks)
    have told : s.told? (.byte b) = some stop := by
      rw [told?_eq _ once (congrArg (fun outcome => outcome.2.wire) received)]
      exact read_stop plain (hs.valid stop (by rw [queued]; exact List.mem_cons_self))
    exact ⟨by rw [received], told, congrArg (fun outcome => outcome.2.queue) received,
      congrArg (fun outcome => outcome.2.running) received, fun r hr => (of_mem_calls stepping hr).2⟩
  case forgets => exact receive_remark hs asks read given

end FollowsActions

/-! ## Runs -/

/-- No two threads of a session share a kernel object. -/
theorem apart_run {c : Config} {wire : Wire} {s : Session} (hstart : start? c wire Kernel.empty = .ok s)
    (inputs : List Input) : (s.run inputs).debuggee.Apart := by
  have start : s.debuggee.Apart := by
    obtain ⟨size, rfl⟩ := eq_of_start? hstart
    exact Debuggee.apart_empty _ _ _
  refine run_induction (P := fun s => s.debuggee.Apart) (fun s i _ hs => ?_) start
  obtain ⟨ops, performed, -⟩ := s.performs_step i
  rw [performed]
  exact Debuggee.apart_performAll hs ops

/-- Of the actions of a resumption the first that covers a thread decides about it. It is set to step or not, by a call
only if it did otherwise, and wakes up. A thread that none covers steps if it did, and wakes up if the last action
continues. Threads that wake up are resumed, each by one call, and no others, whatever was to wake up before; if a stop
is waiting none is resumed, and the client is told of the stop. If an action cannot be read nothing is done. -/
theorem resumption_follows_actions {c : Config} {wire : Wire} {s : Session} {inputs : List Input} {b : UInt8}
    {actions : List (Option Action)} (hstart : start? c wire Kernel.empty = .ok s) (order : wire.InOrder)
    (room : 86 ≤ s.packetSize) (hi : ∀ i ∈ inputs, i.KeepsOrder)
    (asks : (s.run inputs).command? b = some (.resume actions)) (given : actions ≠ []) :
    let now := s.run inputs
    (actions.all Option.isSome = true → now.FollowsActions b (actions.filterMap id)) ∧
    (actions.all Option.isSome = false →
      (now.receive b).1 = .ok none ∧ (now.step (.byte b)).debuggee = now.debuggee ∧
        ∃ acknowledgement, Packet.opening ∉ acknowledgement ∧
          now.sends (.byte b) = acknowledgement ++ Packet.frame (ascii "E04")) := by
  intro now
  have ready : now.Ready := ready_run (ready_start hstart order room) hi
  have distinct : now.debuggee.registry.Distinct := (apart_run hstart inputs).distinct
  constructor
  · intro read
    have some : actions.filterMap id ≠ [] := by
      obtain ⟨first, rest, rfl⟩ := List.exists_cons_of_ne_nil given
      cases first with
      | none => simp at read
      | some action => simp
    cases queue : now.queue with
    | nil => exact followsActions_running ready distinct asks read some queue
    | cons stop rest => exact followsActions_stopped ready distinct asks read some queue
  · intro unread
    obtain ⟨body, plain, received⟩ := receive_resumption_unread ready asks unread
    refine ⟨by rw [received], congrArg (fun outcome => outcome.2.debuggee) received, acknowledgement body, plain,
      ?_⟩
    exact sends_eq (congrArg (fun outcome => outcome.2.wire) received)

/-- An action that makes a thread step is not undone by a later one that continues it, which lets the other thread run.
-/
theorem step_then_continue_follows_actions :
    ∃ s, start? { maxInferiors := 1, maxThreads := 2 } Wire.fresh Kernel.empty = .ok s ∧
      let inputs : List Input := [.addInferior 7 .fresh, .addThread 1 8 .fresh, .addThread 1 9 .fresh] ++
        (ascii "$vCont;s:p1.1;c:p1.1#c").map .byte
      let now := s.run inputs
      let first : ThreadId := ⟨some (.only 1), .only 1⟩
      let actions : List Action := [⟨.step, some first⟩, ⟨.continue, some first⟩]
      now.command? 'a'.toUInt8 = some (.resume (actions.map some)) ∧ now.FollowsActions 'a'.toUInt8 actions ∧
        (now.calls (.byte 'a'.toUInt8)).map (·.call) =
          [.thread 0 (.singleStep true), .thread 0 .resume, .thread 1 .resume] := by
  let s : Session := ⟨Debuggee.empty 1 2 32, Wire.fresh, 2048, .outside, true, none, [], []⟩
  have start : start? { maxInferiors := 1, maxThreads := 2 } Wire.fresh Kernel.empty = .ok s := rfl
  refine ⟨s, start, ?_⟩
  intro inputs now first actions
  have asks : now.command? 'a'.toUInt8 = some (.resume (actions.map some)) := by decide +kernel
  have keeps : ∀ i ∈ inputs, i.KeepsOrder := by decide +kernel
  have follows := (resumption_follows_actions start ⟨rfl, rfl⟩ (by decide) keeps asks (by decide)).1 (by decide)
  exact ⟨asks, follows, by decide +kernel⟩

end RemoteDebug.Session
