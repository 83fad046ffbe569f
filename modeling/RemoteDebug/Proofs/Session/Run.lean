import RemoteDebug.Proofs.Registry.Registration
import RemoteDebug.Proofs.Session.Answer
import RemoteDebug.Session.Event

/-!
# Runs of a session

A session is driven by inputs (`Session.Input`): bytes of the client, reports of the kernel, registrations, and a wire
that fails or recovers. `Session.step` takes one and `Session.run` takes them in turn.

What an input can do is said by relations, one for each function of the session. Here are the two that bytes and reports
share: what sending a reply comes to (`Session.Replied`), and what reporting a stop comes to (`Session.Reported`).
-/

namespace RemoteDebug

/-! ## Wires in order -/

namespace Wire

/-- The wire takes every byte and is flushed without fail. -/
def InOrder (w : Wire) : Prop := w.budget = none ∧ w.flushFails = false

/-- The wire after bytes have been sent on it. -/
def append (w : Wire) (bytes : List UInt8) : Wire := { w with sent := w.sent ++ bytes.toArray }

theorem InOrder.append {w : Wire} (h : w.InOrder) (bytes : List UInt8) : (w.append bytes).InOrder := h

theorem transmit_of_inOrder {w : Wire} (h : w.InOrder) (bytes : List UInt8) :
    w.transmit bytes = (.ok (), w.append bytes) := by
  obtain ⟨hb, hf⟩ := h
  simp [transmit, put_of_unlimited hb, hf, append]

theorem append_append (w : Wire) (a b : List UInt8) : (w.append a).append b = w.append (a ++ b) := by
  simp [append]

end Wire

namespace Session

/-! ## Inputs -/

/-- What can happen to a session. A thread or an address space comes with the input that hands it over. -/
inductive Input
  | byte (b : UInt8)
  | fault (inferior thread : UInt64) (fault : Fault)
  | spawn (inferior parent child : UInt64) (tcb : Kernel.Tcb)
  | exit (inferior thread : UInt64)
  | addInferior (native : UInt64) (space : Kernel.Space)
  | addThread (pid : Nat) (native : UInt64) (tcb : Kernel.Tcb)
  | disable (pid : Nat)
  | wire (budget : Option Nat) (flushFails : Bool)

/-- A new thread with its kernel object. -/
def spawnNew (s : Session) (inferior parent child : UInt64) (tcb : Kernel.Tcb) : Outcome Ptid :=
  let (cap, debuggee) := s.debuggee.makeThread tcb
  { s with debuggee }.spawn inferior parent child cap

/-- Does an operation on the debuggee, of which the client is not told. -/
def perform (s : Session) (op : Operation) : Session := { s with debuggee := s.debuggee.perform op }

/-- Takes an input. -/
def step (s : Session) : Input → Session
  | .byte b => (s.receive b).2
  | .fault inferior thread fault => (s.fault inferior thread fault).2
  | .spawn inferior parent child tcb => (s.spawnNew inferior parent child tcb).2
  | .exit inferior thread => (s.exit inferior thread).2
  | .addInferior native space => s.perform (.addInferior native space)
  | .addThread pid native tcb => s.perform (.addThread pid native tcb)
  | .disable pid => s.perform (.disable pid)
  | .wire budget flushFails => { s with wire := { s.wire with budget, flushFails } }

/-- Takes inputs in turn. -/
def run (s : Session) (inputs : List Input) : Session := inputs.foldl step s

@[simp] theorem run_nil (s : Session) : s.run [] = s := rfl

@[simp] theorem run_cons (s : Session) (i : Input) (inputs : List Input) :
    s.run (i :: inputs) = (s.step i).run inputs := rfl

theorem run_append (s : Session) (a b : List Input) : s.run (a ++ b) = (s.run a).run b := List.foldl_append

/-- A session starts with nothing under debug and nothing to tell. -/
theorem eq_of_start? {c : Config} {wire : Wire} {kernel : Kernel} {s : Session} (h : start? c wire kernel = .ok s) :
    ∃ size, s = ⟨⟨Registry.empty c.maxInferiors c.maxThreads c.maxPatches, kernel⟩, wire, size, .outside, true,
      none, [], []⟩ := by
  unfold start? at h
  split at h
  · cases h
  · cases h
    exact ⟨_, rfl⟩

/-- What every input of a run preserves holds after the run. -/
theorem run_induction {P : Session → Prop} {inputs : List Input}
    (hstep : ∀ s, ∀ i ∈ inputs, P s → P (s.step i)) {s : Session} (h : P s) : P (s.run inputs) := by
  induction inputs generalizing s with
  | nil => exact h
  | cons i inputs ih =>
    exact ih (fun s j hj => hstep s j (List.mem_cons_of_mem _ hj)) (hstep s i List.mem_cons_self h)

/-! ## Sending -/

theorem andThen_eq {α β : Type} (r : Outcome α) (b : β) :
    (r.andThen fun _ s => (.ok b, s)) = (r.1.map fun _ => b, r.2) := by
  obtain ⟨result, s⟩ := r
  cases result <;> rfl

/-- What sending bytes can come to. -/
inductive Sent (s : Session) (bytes : List UInt8) : Except SessionError Unit → Session → Prop
  | done {wire : Wire} (sends : s.wire.InOrder → wire = s.wire.append bytes) : Sent s bytes (.ok ()) { s with wire }
  | failed {e : SessionError} {wire : Wire} (broken : ¬ s.wire.InOrder) : Sent s bytes (.error e) { s with wire }

theorem sent_transmit (s : Session) (bytes : List UInt8) : Sent s bytes (s.transmit bytes).1 (s.transmit bytes).2 := by
  by_cases h : s.wire.InOrder
  · have hw := Wire.transmit_of_inOrder h bytes
    simp only [transmit, hw]
    exact .done fun _ => rfl
  · unfold transmit
    split
    · exact .done fun hw => absurd hw h
    · exact .failed h

/-- What sending a reply can come to. -/
inductive Replied (s : Session) (payload : Option (List UInt8)) : Except SessionError Unit → Session → Prop
  | sent {body : List UInt8} {wire : Wire} (fits : payload = some body)
      (sends : s.wire.InOrder → wire = s.wire.append (Packet.frame body)) :
      Replied s payload (.ok ()) { s with wire, outstanding := some ⟨Packet.frame body, false⟩ }
  | failed {e : SessionError} {wire : Wire} (sends : s.wire.InOrder → payload = none ∧ wire = s.wire) :
      Replied s payload (.error e) { s with wire }

theorem replied_sendReply? (s : Session) (payload : Option (List UInt8)) :
    Replied s payload (s.sendReply? payload).1 (s.sendReply? payload).2 := by
  cases payload with
  | none => exact .failed fun _ => ⟨rfl, rfl⟩
  | some body =>
    have hsent := sent_transmit s (Packet.frame body)
    revert hsent
    simp only [sendReply?, sendReply]
    rcases s.transmit (Packet.frame body) with ⟨result, s'⟩
    intro hsent
    cases hsent with
    | done sends => exact .sent rfl sends
    | failed broken => exact .failed fun hw => absurd hw broken

/-- What a reply puts on the wire. -/
def frames : Option (List UInt8) → List UInt8
  | some body => Packet.frame body
  | none => []

namespace Replied

variable {s s' : Session} {payload : Option (List UInt8)} {r : Except SessionError Unit}

theorem debuggee_eq (h : Replied s payload r s') : s'.debuggee = s.debuggee := by
  cases h <;> rfl

theorem running_eq (h : Replied s payload r s') : s'.running = s.running := by
  cases h <;> rfl

theorem queue_eq (h : Replied s payload r s') : s'.queue = s.queue := by
  cases h <;> rfl

theorem packetSize_eq (h : Replied s payload r s') : s'.packetSize = s.packetSize := by
  cases h <;> rfl

theorem wire_eq (h : Replied s payload r s') (order : s.wire.InOrder) : s'.wire = s.wire.append (frames payload) := by
  cases h with
  | sent fits sends =>
    rw [fits]
    exact sends order
  | failed sends =>
    obtain ⟨rfl, hwire⟩ := sends order
    simp [hwire, frames, Wire.append]

/-- A reply that fits is sent, and is outstanding then. -/
theorem of_some {body : List UInt8} (h : Replied s (some body) r s') (order : s.wire.InOrder) :
    r = .ok () ∧ s'.running = s.running ∧ s'.outstanding = some ⟨Packet.frame body, false⟩ := by
  cases h with
  | sent fits _ =>
    cases fits
    exact ⟨rfl, rfl, rfl⟩
  | failed sends => cases (sends order).1

theorem of_eq_some {body : List UInt8} (h : Replied s payload r s') (fits : payload = some body)
    (order : s.wire.InOrder) :
    r = .ok () ∧ s'.running = s.running ∧ s'.outstanding = some ⟨Packet.frame body, false⟩ := by
  subst fits
  exact h.of_some order

end Replied

/-! ## Stopping -/

/-- The session once a stop is about to be reported. -/
def halt (s : Session) (stop : StopReason) : Session :=
  { s with
    debuggee := match stop.thread? with
      | some t => s.debuggee.select t
      | none => s.debuggee
    running := false }

theorem debuggee_halt_of_some {stop : StopReason} {t : Ptid} (h : stop.thread? = some t) (s : Session) :
    (s.halt stop).debuggee = s.debuggee.select t := by simp only [halt, h]

theorem debuggee_halt_of_none {stop : StopReason} (h : stop.thread? = none) (s : Session) :
    (s.halt stop).debuggee = s.debuggee := by simp only [halt, h]

/-- The session once the client's wish to stop is about to be reported. -/
def haltAll (s : Session) : Session := { s.suspendAll with running := false }

/-- The reply to the client's wish to stop. -/
def interruptReply (s : Session) : Option (List UInt8) :=
  s.render [.text (ascii "S"), .hexByte Signal.interrupt.number]

theorem replied_sendStop (s : Session) (stop : StopReason) :
    Replied (s.halt stop) (s.render stop.pieces) (s.sendStop stop).1 (s.sendStop stop).2 :=
  replied_sendReply? (s.halt stop) _

theorem replied_interrupt (s : Session) : Replied s.haltAll s.interruptReply s.interrupt.1 s.interrupt.2 :=
  replied_sendReply? s.haltAll _

/-- What reporting a stop can come to. -/
inductive Reported (s : Session) (stop : StopReason) : Except SessionError Unit → Session → Prop
  | told {r : Except SessionError Unit} {s' : Session} (runs : s.running = true) (free : s.outstanding = none)
      (reply : Replied (s.halt stop) (s.render stop.pieces) r s') : Reported s stop r s'
  | queued (waits : s.running = true → s.outstanding ≠ none) :
      Reported s stop (.ok ()) { s with queue := s.queue ++ [stop] }

theorem reported_reportStop (s : Session) (stop : StopReason) :
    Reported s stop (s.reportStop stop).1 (s.reportStop stop).2 := by
  unfold reportStop
  split
  · rename_i h
    exact .told h.1 h.2 (replied_sendStop s stop)
  · rename_i h
    exact .queued fun hr ho => h ⟨hr, ho⟩

end Session
end RemoteDebug
