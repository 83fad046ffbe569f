import RemoteDebug.Packet.Receiver
import RemoteDebug.Registry.Debuggee
import RemoteDebug.Session.Config
import RemoteDebug.Session.Stop
import RemoteDebug.Session.Wire

/-!
# Sessions

A session joins a client on a wire to a debuggee. Threads either run or are stopped under the client's control. A reply
stays outstanding until the client acknowledges it, and a stop that cannot be reported at once waits in a queue: it is
reported when the client acknowledges a reply while threads run, or next lets threads run.
-/

namespace RemoteDebug

/-- What goes wrong in a session other than by the client's doing. -/
inductive SessionError
  | connectionWrite (error : WireError)
  | connectionRead (error : WireError)
  | replyTooBig
  | registry (error : RegistryError)
  | unknownFaultingThread (inferior thread : UInt64)
  deriving DecidableEq, Repr

/-- A number as people read it, in hexadecimal with a mark. -/
def markedHex (n : UInt64) : String := "0x" ++ String.ofList ((Hex.compact n.toNat).map fun b => Char.ofNat b.toNat)

/-- The wording of the failure. -/
def SessionError.message : SessionError → String
  | .connectionWrite e => "Connection Error while writing response: \"" ++ e.message ++ "\""
  | .connectionRead e => "Connection Error while reading request: \"" ++ e.message ++ "\""
  | .replyTooBig => "Reply too big for the packet buffer!"
  | .registry e => "Registry error: " ++ e.message
  | .unknownFaultingThread inferior thread =>
    "Fault from unregistered thread " ++ markedHex thread ++ " of inferior " ++ markedHex inferior

/-- What a byte from the client can bring about. -/
inductive SessionEvent
  | resumed
  | detached
  deriving DecidableEq, Repr

/-- A reply that the client has not acknowledged, and whether it asked for a stop meanwhile. -/
structure Outstanding where
  frame : List UInt8
  interrupted : Bool
  deriving DecidableEq, Repr

/-- The state of a session. `listing` holds the threads that the client has asked for and not been told of. -/
structure Session where
  debuggee : Debuggee
  wire : Wire
  packetSize : Nat
  receiver : Packet.Receiver
  running : Bool
  outstanding : Option Outstanding
  queue : List StopReason
  listing : List Ptid

namespace Session

/-- The outcome of an operation; it may have changed the session even if it failed. -/
abbrev Outcome (α : Type) := Except SessionError α × Session

/-- Goes on with a second operation if the first did not fail. -/
def Outcome.andThen {α β : Type} (first : Outcome α) (second : α → Session → Outcome β) : Outcome β :=
  match first with
  | (.ok a, s) => second a s
  | (.error e, s) => (.error e, s)

/-- A session with an empty registry. Threads run before the client comes. -/
def start? (c : Config) (wire : Wire) (kernel : Kernel) : Except ConfigError Session :=
  match c.packetSize with
  | .error e => .error e
  | .ok packetSize =>
    .ok
      { debuggee := ⟨Registry.empty c.maxInferiors c.maxThreads c.maxPatches, kernel⟩
        wire
        packetSize
        receiver := .outside
        running := true
        outstanding := none
        queue := []
        listing := [] }

/-! ## Sending -/

/-- Sends bytes to the client. -/
def transmit (s : Session) (bytes : List UInt8) : Outcome Unit :=
  match s.wire.transmit bytes with
  | (.ok (), wire) => (.ok (), { s with wire })
  | (.error e, wire) => (.error (.connectionWrite e), { s with wire })

/-- The reply that the pieces make, if it fits into a packet. -/
def render (s : Session) (pieces : List Reply.Piece) : Option (List UInt8) := Reply.render s.packetSize pieces

/-- Sends a reply, which is outstanding from then on. -/
def sendReply (s : Session) (payload : List UInt8) : Outcome Unit :=
  let frame := Packet.frame payload
  (s.transmit frame).andThen fun _ s => (.ok (), { s with outstanding := some ⟨frame, false⟩ })

/-- Sends a reply if there is one. -/
def sendReply? (s : Session) : Option (List UInt8) → Outcome Unit
  | none => (.error .replyTooBig, s)
  | some payload => s.sendReply payload

/-! ## Stopping -/

/-- Reports a stop: its thread is selected, and threads are stopped from then on. -/
def sendStop (s : Session) (stop : StopReason) : Outcome Unit :=
  let debuggee := match stop.thread? with
    | some t => s.debuggee.select t
    | none => s.debuggee
  { s with debuggee, running := false }.sendReply? (s.render stop.pieces)

/-- Reports a stop if the client waits for one, and queues it otherwise. -/
def reportStop (s : Session) (stop : StopReason) : Outcome Unit :=
  if s.running ∧ s.outstanding = none then s.sendStop stop else (.ok (), { s with queue := s.queue ++ [stop] })

/-- Asks every thread to stop. -/
def suspendAll (s : Session) : Session := { s with debuggee := s.debuggee.suspendAll }

/-- Stops every thread because the client asks for it. -/
def interrupt (s : Session) : Outcome Unit :=
  { s.suspendAll with running := false }.sendReply?
    (s.render [.text (ascii "S"), .hexByte Signal.interrupt.number])

/-! ## Acknowledgements -/

/-- Takes a byte while a reply is outstanding. Whatever is no acknowledgement has the reply sent again. -/
def receiveAck (s : Session) (o : Outstanding) (b : UInt8) : Outcome Unit :=
  if b ≠ Packet.acceptance then
    let interrupted := o.interrupted || b = Packet.interruption
    { s with outstanding := some { o with interrupted } }.transmit o.frame
  else
    let s := { s with outstanding := none }
    if o.interrupted then s.interrupt
    else if s.running then
      match s.queue with
      | [] => (.ok (), s)
      | stop :: queue => { s with queue }.sendStop stop
    else (.ok (), s)

end Session
end RemoteDebug
