import RemoteDebug.Session.Command

/-!
# What happens to a session

A session is driven from outside: by the bytes of the client (`receive`), one at a time, and by what the kernel reports
about threads (`fault`, `spawn`, `exit`), in any order, also in the middle of a packet.
-/

namespace RemoteDebug.Session

/-! ## The client -/

/-- Lets threads run, unless a stop is waiting, which is then reported instead. -/
def resume (s : Session) : Outcome (Option SessionEvent) :=
  match s.queue with
  | stop :: queue => ({ s with queue }.sendStop stop).andThen fun _ s => (.ok none, s)
  | [] => (.ok (some .resumed), { s with debuggee := s.debuggee.resumeWoken, running := true })

/-- Answers the body of a packet. -/
def handleBody (s : Session) (body : List UInt8) : Outcome (Option SessionEvent) :=
  match s.respond body with
  | (.reply payload, s) => (s.sendReply? payload).andThen fun _ s => (.ok none, s)
  | (.resume, s) => s.resume
  | (.detach payload, s) =>
    (s.sendReply? payload).andThen fun _ s => (.ok (some .detached), { s with running := true })

/-- Acts on what the receiver reports. A packet is acknowledged, with its sequence id, before it is carried out. -/
def handleEvent (s : Session) : Packet.Receiver.Event → Outcome (Option SessionEvent)
  | .interrupt => s.interrupt.andThen fun _ s => (.ok none, s)
  | .mismatch _ _ => (s.transmit [Packet.refusal]).andThen fun _ s => (.ok none, s)
  | .packet body =>
    let (id, body) := Packet.splitSequenceId body
    let echo := match id with
      | some (a, b) => [a, b]
      | none => []
    (s.transmit (Packet.acceptance :: echo)).andThen fun _ s => s.handleBody body

/-- Takes a byte from the client. -/
def receive (s : Session) (b : UInt8) : Outcome (Option SessionEvent) :=
  match s.outstanding with
  | some o => (s.receiveAck o b).andThen fun _ s => (.ok none, s)
  | none =>
    let (receiver, event) := s.receiver.step s.packetSize b
    let s := { s with receiver }
    match event with
    | some event => s.handleEvent event
    | none => (.ok none, s)

/-- Takes bytes from the client until it leaves or something fails; the result comes with the bytes left over. -/
def receiveAll (s : Session) : List UInt8 → Except SessionError Unit × List UInt8 × Session
  | [] => (.error (.connectionRead .closed), [], s)
  | b :: rest =>
    match s.receive b with
    | (.error e, s) => (.error e, rest, s)
    | (.ok (some .detached), s) => (.ok (), rest, s)
    | (.ok _, s) => s.receiveAll rest

/-- Starts a session on the wire and takes bytes until the client leaves or something fails. -/
def serve (s : Session) (input : List UInt8) : Except SessionError Unit × List UInt8 × Session :=
  match s.wire.start with
  | (.error e, wire) => (.error (.connectionWrite e), input, { s with wire })
  | (.ok (), wire) => { s with wire }.receiveAll input

/-! ## The kernel -/

/-- A thread, named by native ids, has met a fault. -/
def fault (s : Session) (inferior thread : UInt64) (fault : Fault) : Outcome Unit :=
  match s.debuggee.registry.findThread? inferior thread with
  | none => (.error (.unknownFaultingThread inferior thread), s)
  | some t =>
    let s := s.suspendAll
    s.reportStop (.ofFault s.debuggee.registry t fault)

/-- A thread has made another one, which becomes registered. -/
def spawn (s : Session) (inferior parent child : UInt64) (cap : Kernel.ThreadCap) : Outcome Ptid :=
  match s.debuggee.registry.findInferior? inferior with
  | none => (.error (.registry .unknownInferior), s)
  | some pid =>
    match s.debuggee.registry.findThread? inferior parent with
    | none => (.error (.registry .unknownThread), s)
    | some parent =>
      match s.debuggee.addThread pid child cap with
      | (.error e, debuggee) => (.error (.registry e), { s with debuggee })
      | (.ok child, debuggee) =>
        let s := { s with debuggee }.suspendAll
        (s.reportStop (.cloned parent child)).andThen fun _ s => (.ok child, s)

/-- A thread is gone. -/
def exit (s : Session) (inferior thread : UInt64) : Outcome Unit :=
  match s.debuggee.registry.findThread? inferior thread with
  | none => (.error (.registry .unknownThread), s)
  | some t =>
    let s := s.suspendAll
    match s.debuggee.exit t with
    | (.error e, debuggee) => (.error (.registry e), { s with debuggee })
    | (.ok (), debuggee) => { s with debuggee }.reportStop (.exited t)

end RemoteDebug.Session
