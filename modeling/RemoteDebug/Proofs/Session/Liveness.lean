import RemoteDebug.Proofs.Session.Balance
import RemoteDebug.Proofs.Session.Hearing
import RemoteDebug.Proofs.Session.Resumption

/-!
# Stops name registered threads

A stop that the client is told of selects its thread, and questions that follow are answered about that thread
(`Session.ServedFor`). A stop that is told at once names a registered thread. One that has waited in the queue may name
a thread that was let go of meanwhile, and is told all the same (`Session.TellsOf.mem_threads_iff`). That is the only
way in which a thread that is not registered comes to be selected (`Session.staysLive_iff`).
-/

namespace RemoteDebug.Session

variable {s s' : Session} {i : Input} {inputs : List Input} {stop : StopReason}

/-- Every stop that is taken out of the queue in order to be reported names a thread that is registered then. -/
def TakesRegistered (s : Session) (inputs : List Input) : Prop :=
  ∀ before i after stop t, inputs = before ++ i :: after → (s.run before).taken? i = some stop →
    stop.thread? = some t → t ∈ (s.run before).debuggee.registry.threads

/-- Whatever thread is selected is registered, all along a run. -/
def StaysLive (s : Session) (inputs : List Input) : Prop :=
  ∀ before after, inputs = before ++ after → (s.run before).debuggee.registry.Live

/-! ## The selection along a run -/

theorem live_step (h : s.debuggee.registry.Live)
    (registered : ∀ stop t, s.taken? i = some stop → stop.thread? = some t → t ∈ s.debuggee.registry.threads) :
    (s.step i).debuggee.registry.Live := by
  cases s.reselects_step i with
  | @taken stop t takes names selected same =>
    intro u hu
    rw [selected, Option.some.injEq] at hu
    rw [same, ← hu]
    exact registered stop t takes names
  | steady _ steady => exact steady.live h

/-- The selection stays on registered threads exactly if no stop about another thread is taken out of the queue. -/
theorem staysLive_iff (h : s.debuggee.registry.Live) : s.StaysLive inputs ↔ s.TakesRegistered inputs := by
  constructor
  · rintro live before i after stop t rfl takes names
    have next : ((s.run before).step i).debuggee.registry.Live := by
      have here := live (before ++ [i]) after (by simp)
      rwa [run_append] at here
    cases (s.run before).reselects_step i with
    | @taken stop' t' takes' names' selected same =>
      rw [takes', Option.some.injEq] at takes
      rw [takes, names, Option.some.injEq] at names'
      rw [← same, names']
      exact next t' selected
    | steady none => cases (none stop takes).symm.trans names
  · intro registered before
    induction before using List.reverseRecOn with
    | nil => exact fun _ _ => h
    | append_singleton before i ih =>
      intro after heq
      rw [run_append]
      have split : inputs = before ++ i :: after := by simpa using heq
      exact live_step (ih _ split) fun stop t => registered before i after stop t split

/-! ## What the client is told -/

/-- What it comes to that the client is told of a stop for the first time. -/
structure TellsOf (s : Session) (i : Input) (stop : StopReason) : Prop where
  halted : (s.step i).running = false
  waits : (s.step i).outstanding = some ⟨Packet.frame stop.written, false⟩
  selected : ∀ t, stop.thread? = some t → (s.step i).debuggee.registry.current = some t
  source : s.taken? i = some stop ∧ (∀ t, stop.thread? = some t →
      (s.step i).debuggee.registry.threads = s.debuggee.registry.threads) ∨
    s.accepted? i = some stop ∧ s.taken? i = none ∧ ∀ t, stop.thread? = some t →
      t ∈ (s.step i).debuggee.registry.threads

theorem tellsOf_byte {b : UInt8} (hs : s.Legible) (h : s.told? (.byte b) = some stop) : s.TellsOf (.byte b) stop := by
  have tells := tells_took (took_receive s b) hs rfl rfl
  generalize hs' : (s.receive b).2 = s' at tells
  change s.step (.byte b) = s' at hs'
  cases tells with
  | nothing quiet => cases quiet.symm.trans h
  | @first s₁ before stop' queue r stays once queued reply rest mark sends =>
    have valid : stop'.Valid := hs.valid stop' (by rw [queued]; exact List.mem_cons_self)
    have order : (s₁.halt stop').wire.InOrder := by
      show s₁.wire.InOrder
      rw [sends]
      exact hs.order.append before
    have sent : (s.step (.byte b)).wire = s.wire.append (before ++ frames (s.render stop'.pieces)) := by
      rw [hs', reply.wire_eq order, ← Wire.append_append, ← sends]
      rfl
    rw [told?_eq _ once sent] at h
    obtain ⟨rfl, fits⟩ := read_stop? mark valid h
    have takes : s.taken? (.byte b) = some stop := by
      refine taken?_of_cons stays queued ?_
      rw [hs', reply.queue_eq, ← rest]
      rfl
    obtain ⟨-, halted, waits⟩ := reply.of_eq_some fits order
    have debuggee := reply.debuggee_eq
    refine ⟨by rw [hs', halted]; rfl, by rw [hs', waits], fun t names => ?_, .inl ⟨takes, fun t names => ?_⟩⟩
    · rw [hs', debuggee, debuggee_halt_of_some names]
      rfl
    · cases s.reselects_step (.byte b) with
      | taken _ _ _ same => exact same
      | steady none => cases (none stop takes).symm.trans names

theorem tellsOf_noted (noted : Noted s i (s.accepted? i) s') (hs : s.Legible) (hs' : s.step i = s')
    (once : s.repeats i = false) (h : s.told? i = some stop) : s.TellsOf i stop := by
  have noBytes (w : Wire) : w = w.append [] := by simp [Wire.append]
  have silent (hw : s'.wire = s.wire) : s.told? i = none := by
    rw [told?_eq [] once (by rw [hs', hw]; exact noBytes _)]
    rfl
  generalize ha : s.accepted? i = accepted at noted
  cases noted with
  | ignored => cases (silent rfl).symm.trans h
  | @reported _ _ stop' r _ _ _ registered report lives =>
    cases report with
    | queued => cases (silent rfl).symm.trans h
    | told _ _ reply =>
      have valid : stop'.Valid := registered_valid hs registered
      have sent : (s.step i).wire = s.wire.append ([] ++ frames (s.render stop'.pieces)) := by
        rw [hs', reply.wire_eq hs.order]
        rfl
      rw [told?_eq _ once sent] at h
      obtain ⟨rfl, fits⟩ := read_stop? List.not_mem_nil valid h
      have untaken : s.taken? i = none := by
        refine taken?_of_le (Nat.le_of_eq ?_)
        rw [hs', reply.queue_eq]
        rfl
      have debuggee := reply.debuggee_eq
      obtain ⟨rfl, halted, waits⟩ := reply.of_eq_some fits hs.order
      refine ⟨by rw [hs', halted]; rfl, by rw [hs', waits],
        fun t names => ?_, .inr ⟨ha, untaken, fun t names => ?_⟩⟩
      · rw [hs', debuggee, debuggee_halt_of_some names]
        rfl
      · rw [hs', debuggee, debuggee_halt_of_some names]
        exact lives t names

theorem tellsOf_of_told? (hs : s.Legible) (h : s.told? i = some stop) : s.TellsOf i stop := by
  have silent (once : s.repeats i = false) (hw : (s.step i).wire.sent = s.wire.sent) : s.told? i = none := by
    have nothing : s.sends i = [] := by simp [sends, hw]
    simp only [told?, once, nothing]
    rfl
  cases i with
  | byte b => exact tellsOf_byte hs h
  | fault | spawn | exit => exact tellsOf_noted (noted_of_reports trivial) hs rfl rfl h
  | addInferior | addThread | disable | wire => cases (silent rfl rfl).symm.trans h

/-- The thread of a stop that the client is told of is registered, unless the stop has waited in the queue and the
thread was let go of meanwhile. -/
theorem TellsOf.mem_threads_iff (h : s.TellsOf i stop) {t : Ptid} (names : stop.thread? = some t) :
    t ∈ (s.step i).debuggee.registry.threads ↔ (s.taken? i = some stop → t ∈ s.debuggee.registry.threads) := by
  rcases h.source with ⟨takes, same⟩ | ⟨-, untaken, lives⟩
  · rw [same t names]
    exact ⟨fun ht _ => ht, fun ht => ht takes⟩
  · exact ⟨fun _ takes => (nomatch untaken.symm.trans takes), fun _ => lives t names⟩

/-! ## Questions about the thread -/

/-- What is said about the registers of a thread. -/
def registersOf (s : Session) (thread : Thread) : Option (List UInt8) :=
  match (s.debuggee.kernel.readRegisters thread.cap).1 with
  | some registers => s.render [.hexBytes registers.serialize]
  | none => s.render [.text (ascii "E04")]

/-- What is said about memory of an inferior. -/
def memoryOf (s : Session) (inf : Inferior) (addr : UInt64) (length : Nat) : Option (List UInt8) :=
  match (s.debuggee.kernel.readBytes inf.space addr.toNat length).1 with
  | some bytes => s.render [.hexBytes bytes]
  | none => s.render [.text (ascii "E04")]

/-- How a byte is answered that completes a question while thread `t` is selected. -/
structure ServedFor (s : Session) (t : Ptid) (b : UInt8) (body : List UInt8) : Prop where
  registers : ∀ thread, s.debuggee.registry.thread? t = some thread →
    Command.parse (Packet.splitSequenceId body).2 = .ok .readRegisters →
      s.sends (.byte b) = acknowledgement body ++ frames (s.registersOf thread)
  memory : ∀ inf addr length, s.debuggee.registry.inferior? t.pid = some inf →
    Command.parse (Packet.splitSequenceId body).2 = .ok (.readMemory addr length) → 2 * length ≤ s.packetSize →
      addr.toNat + length < 2 ^ 64 → s.sends (.byte b) = acknowledgement body ++ frames (s.memoryOf inf addr length)
  gone : s.debuggee.registry.thread? t = none → Command.parse (Packet.splitSequenceId body).2 = .ok .readRegisters →
    s.sends (.byte b) = acknowledgement body ++ frames (s.render [.text (ascii "E01")])

section Questions

variable {t : Ptid} {b : UInt8} {body : List UInt8}

theorem readRegisters_of_some {thread : Thread} (h : s.debuggee.registry.currentThread? = some thread) :
    ∃ kernel, s.readRegisters = (.reply (s.registersOf thread), s.withKernel kernel) := by
  simp only [readRegisters, registersOf, h]
  rcases s.debuggee.kernel.readRegisters thread.cap with ⟨- | registers, kernel⟩ <;> exact ⟨kernel, rfl⟩

theorem readMemory_of_some {pid : Nat} {inf : Inferior} {addr : UInt64} {length : Nat}
    (h : s.debuggee.registry.currentInferior? = some (pid, inf)) (fits : 2 * length ≤ s.packetSize)
    (bounded : addr.toNat + length < 2 ^ 64) :
    ∃ kernel, s.readMemory addr length = (.reply (s.memoryOf inf addr length), s.withKernel kernel) := by
  have inside : ¬ (s.packetSize < 2 * length ∨ 2 ^ 64 ≤ addr.toNat + length) := by omega
  simp only [readMemory, memoryOf, h, if_neg inside]
  rcases s.debuggee.kernel.readBytes inf.space addr.toNat length with ⟨- | bytes, kernel⟩ <;>
    exact ⟨kernel, rfl⟩

/-- What answers a packet that sends nothing itself is all that is left to do once the packet is acknowledged. -/
theorem step_of_respond {s₁ : Session} {payload : Option (List UInt8)} (order : s.wire.InOrder)
    (free : s.outstanding = none) (heard : (s.receiver.step s.packetSize b).2 = some (.packet body))
    (answer : (s.hear b body).respond (Packet.splitSequenceId body).2 = (.reply payload, s₁)) :
    s.receive b = ((s₁.sendReply? payload).1.map fun _ => none, (s₁.sendReply? payload).2) := by
  simp only [receive_of_packet order free heard, handleBody, answer, andThen_eq]

/-- The answer goes out behind the acknowledgement. -/
theorem sends_of_respond {s₁ : Session} {payload : Option (List UInt8)} (order : s.wire.InOrder)
    (free : s.outstanding = none) (heard : (s.receiver.step s.packetSize b).2 = some (.packet body))
    (answer : (s.hear b body).respond (Packet.splitSequenceId body).2 = (.reply payload, s₁))
    (silent : s₁.wire = (s.hear b body).wire) : s.sends (.byte b) = acknowledgement body ++ frames payload := by
  have carriedOut : s.step (.byte b) = (s₁.sendReply? payload).2 :=
    congrArg Prod.snd (step_of_respond order free heard answer)
  have heardOrder : (s.hear b body).wire.InOrder := order.append _
  refine sends_eq ?_
  rw [carriedOut, (replied_sendReply? s₁ payload).wire_eq (silent ▸ heardOrder), silent, ← Wire.append_append]
  rfl

/-- A command that sends nothing itself is answered behind its acknowledgement. -/
theorem sends_of_reply {command : Command} {s₁ : Session} {payload : Option (List UInt8)} (order : s.wire.InOrder)
    (free : s.outstanding = none) (heard : (s.receiver.step s.packetSize b).2 = some (.packet body))
    (asks : Command.parse (Packet.splitSequenceId body).2 = .ok command)
    (answer : (s.hear b body).execute command = (.reply payload, s₁)) (silent : s₁.wire = (s.hear b body).wire) :
    s.sends (.byte b) = acknowledgement body ++ frames payload :=
  sends_of_respond order free heard (by simp only [respond, asks, answer]) silent

/-- Questions are about the selected thread and its inferior. -/
theorem servedFor_of_selected (order : s.wire.InOrder) (free : s.outstanding = none)
    (heard : (s.receiver.step s.packetSize b).2 = some (.packet body))
    (selected : s.debuggee.registry.current = some t) : s.ServedFor t b body := by
  refine ⟨fun thread known asks => ?_, fun inf addr length known asks fits bounded => ?_, fun unknown asks => ?_⟩
  · have current : (s.hear b body).debuggee.registry.currentThread? = some thread := by
      simp [hear, Registry.currentThread?, selected, known]
    obtain ⟨kernel, answer⟩ := readRegisters_of_some current
    exact sends_of_reply order free heard asks answer rfl
  · have current : (s.hear b body).debuggee.registry.currentInferior? = some (t.pid, inf) := by
      simp [hear, Registry.currentInferior?, selected, known]
    obtain ⟨kernel, answer⟩ := readMemory_of_some current fits bounded
    exact sends_of_reply order free heard asks answer rfl
  · have current : (s.hear b body).debuggee.registry.currentThread? = none := by
      simp [hear, Registry.currentThread?, selected, unknown]
    have answer : (s.hear b body).readRegisters = (s.hear b body).say "E01" := by simp only [readRegisters, current]
    exact sends_of_reply order free heard asks answer rfl

/-- Once a stop is acknowledged, and bytes have been taken that complete nothing, the debuggee is as it was. -/
theorem run_acknowledged {frame bytes : List UInt8} (halted : s.running = false)
    (waits : s.outstanding = some ⟨frame, false⟩) (silent : (s.receiver.run s.packetSize 0 bytes).2 = []) :
    s.run (.byte Packet.acceptance :: bytes.map .byte) =
      { s with outstanding := none, receiver := (s.receiver.run s.packetSize 0 bytes).1 } := by
  have accepted : s.step (.byte Packet.acceptance) = { s with outstanding := none } :=
    congrArg Prod.snd
      (receive_acceptance_quiet waits rfl fun runs => (Bool.false_ne_true (halted.symm.trans runs)).elim)
  rw [run_cons, accepted]
  exact (run_of_silent (s := { s with outstanding := none }) rfl silent).1

end Questions

/-! ## Runs -/

/-- All along a run the selected thread is registered exactly if every stop that is taken out of the queue in order to
be reported names a registered thread. On a wire in order, a stop about a thread that the client is told of selects the
thread. The thread is registered, unless the stop comes out of the queue and the thread is not registered any more. Once
the client has acknowledged the stop, questions for registers and memory are answered from this thread and its inferior;
if the thread is gone, with an error. -/
theorem stops_select_registered_threads {c : Config} {wire : Wire} (hstart : start? c wire Kernel.empty = .ok s) :
    (s.StaysLive inputs ↔ s.TakesRegistered inputs) ∧
      (wire.InOrder → (∀ i ∈ inputs, i.KeepsOrder) →
        ∀ before i after stop t, inputs = before ++ i :: after →
        (s.run before).told? i = some stop → stop.thread? = some t →
        let told := (s.run before).step i
        told.debuggee.registry.current = some t ∧
          (t ∈ told.debuggee.registry.threads ↔
            ((s.run before).taken? i = some stop → t ∈ (s.run before).debuggee.registry.threads)) ∧
          ∀ bytes b body, (told.receiver.run told.packetSize 0 bytes).2 = [] →
            ((told.receiver.run told.packetSize 0 bytes).1.step told.packetSize b).2 = some (.packet body) →
            let asked := told.run (.byte Packet.acceptance :: bytes.map .byte)
            asked.debuggee = told.debuggee ∧ asked.packetSize = told.packetSize ∧ asked.ServedFor t b body) := by
  have live : s.debuggee.registry.Live := by
    obtain ⟨size, rfl⟩ := eq_of_start? hstart
    exact Registry.live_empty _ _ _
  refine ⟨staysLive_iff live, ?_⟩
  rintro order keeps before i after stop t rfl h names
  have keepsBefore : ∀ j ∈ before, j.KeepsOrder := fun j hj => keeps j (List.mem_append_left _ hj)
  have legible : (s.run before).Legible := legible_run (legible_start hstart order) keepsBefore
  have next := legible_step legible i (keeps i (by simp))
  have tells := tellsOf_of_told? legible h
  refine ⟨tells.selected t names, tells.mem_threads_iff names, fun bytes b body silent heard => ?_⟩
  rw [run_acknowledged tells.halted tells.waits silent]
  exact ⟨rfl, rfl, servedFor_of_selected next.order rfl heard (tells.selected t names)⟩

/-- A question for registers after a fault is answered from the thread that met it, which is not the one selected
before. -/
theorem registers_after_fault :
    ∃ s, start? {} Wire.fresh Kernel.empty = .ok s ∧
      let before : List Input := [.addInferior 7 .fresh, .addThread 1 8 .fresh, .addThread 1 9 .fresh]
      let told := (s.run before).step (.fault 7 9 .softwareBreak)
      let asked := told.run (.byte Packet.acceptance :: (ascii "$g#6").map .byte)
      (s.run before).debuggee.registry.current = some ⟨1, 1⟩ ∧
        told.debuggee.registry.current = some ⟨1, 2⟩ ∧
        ⟨1, 2⟩ ∈ told.debuggee.registry.threads ∧
        ∃ thread, asked.debuggee.registry.thread? ⟨1, 2⟩ = some thread ∧ thread.native = 9 ∧
          asked.sends (.byte '7'.toUInt8) = ascii "+" ++ frames (asked.registersOf thread) := by
  let s : Session := ⟨Debuggee.empty 64 256 32, Wire.fresh, 2048, .outside, true, none, [], []⟩
  have start : start? {} Wire.fresh Kernel.empty = .ok s := rfl
  refine ⟨s, start, ?_⟩
  intro before
  dsimp only
  have keeps : ∀ i ∈ before ++ [.fault 7 9 .softwareBreak], i.KeepsOrder := by decide +kernel
  obtain ⟨selected, registered, serves⟩ :=
    (@stops_select_registered_threads s _ {} Wire.fresh start).2 ⟨rfl, rfl⟩ keeps
    before (.fault 7 9 .softwareBreak) [] (.softwareBreak ⟨1, 2⟩) ⟨1, 2⟩ rfl (by decide +kernel) rfl
  have served := (serves (ascii "$g#6") '7'.toUInt8 (ascii "g") (by decide +kernel) (by decide +kernel)).2.2
  have fresh : (s.run before).taken? (.fault 7 9 .softwareBreak) = none := by decide +kernel
  have lives := registered.2 fun takes => (Option.some_ne_none _ (takes.symm.trans fresh)).elim
  exact ⟨by decide +kernel, selected, lives, ⟨9, 1, false, false⟩, by decide +kernel, rfl,
    served.registers _ (by decide +kernel) (by decide +kernel)⟩

/-- The client is told of a fault of a thread that is gone: the fault has waited in the queue, and the thread has exited
meanwhile. The thread is selected all the same, and a question for registers has no answer, although there is another
thread. -/
theorem fault_of_exited_thread_told :
    ∃ s, start? {} Wire.fresh Kernel.empty = .ok s ∧
      let before : List Input := [.addInferior 7 .fresh, .addThread 1 8 .fresh, .addThread 1 9 .fresh,
        .fault 7 8 .softwareBreak, .byte Packet.acceptance, .fault 7 9 .softwareBreak, .exit 7 9] ++
          (ascii "$vCont;c#a").map .byte
      let told := (s.run before).step (.byte '8'.toUInt8)
      let asked := told.run (.byte Packet.acceptance :: (ascii "$g#6").map .byte)
      (∀ i ∈ before, i.KeepsOrder) ∧ (s.run before).told? (.byte '8'.toUInt8) =
        some (.softwareBreak ⟨1, 2⟩) ∧
        told.debuggee.registry.threads = [⟨1, 1⟩] ∧ told.debuggee.registry.current = some ⟨1, 2⟩ ∧
        asked.sends (.byte '7'.toUInt8) = ascii "+" ++ Packet.frame (ascii "E01") := by
  let s : Session := ⟨Debuggee.empty 64 256 32, Wire.fresh, 2048, .outside, true, none, [], []⟩
  refine ⟨s, rfl, ?_⟩
  intro before told asked
  exact ⟨by decide +kernel, by decide +kernel, by decide +kernel, by decide +kernel, by decide +kernel⟩

end RemoteDebug.Session
