import RemoteDebug.Command.Parser
import RemoteDebug.Kernel.Transfer
import RemoteDebug.Registry.Actions
import RemoteDebug.Reply.Listing
import RemoteDebug.Session.Basic

/-!
# Carrying out commands

Each command is carried out on the session and answered (`Session.execute`). What a capability refuses is answered with
an error number, and so is what names no thread or inferior; a command that is not known has an empty answer. A command
has its effects even if its answer turns out not to fit.
-/

namespace RemoteDebug

/-- How a command is answered: by a reply, none if it does not fit; by letting threads run; or by a reply with which the
client leaves. -/
inductive Response
  | reply (payload : Option (List UInt8))
  | resume
  | detach (payload : Option (List UInt8))
  deriving DecidableEq, Repr

/-- The access that a kind of watchpoint watches for. -/
def BreakpointKind.access? : BreakpointKind → Option Cpu.Access
  | .write => some .write
  | .read => some .read
  | .access => some .readWrite
  | .software | .hardware => none

namespace Session

/-- An answer made of pieces. -/
def answer (s : Session) (pieces : List Reply.Piece) : Response × Session := (.reply (s.render pieces), s)

/-- An answer in letters. -/
def say (s : Session) (text : String) : Response × Session := s.answer [.text (ascii text)]

/-- The session with its kernel changed. -/
def withKernel (s : Session) (kernel : Kernel) : Session := { s with debuggee := { s.debuggee with kernel } }

/-! ## Registers and memory -/

/-- The registers of the selected thread. -/
def readRegisters (s : Session) : Response × Session :=
  match s.debuggee.registry.currentThread? with
  | none => s.say "E01"
  | some t =>
    match s.debuggee.kernel.readRegisters t.cap with
    | (none, k) => (s.withKernel k).say "E04"
    | (some r, k) => (s.withKernel k).answer [.hexBytes r.serialize]

/-- Sets the registers of the selected thread. -/
def writeRegisters (s : Session) (digits : List UInt8) : Response × Session :=
  match s.debuggee.registry.currentThread? with
  | none => s.say "E01"
  | some t =>
    match (Hex.decode? digits).bind Cpu.Registers.deserialize? with
    | none => s.say "E01"
    | some r =>
      match s.debuggee.kernel.callThread t.cap (.writeRegisters r) with
      | (true, k) => (s.withKernel k).say "OK"
      | (false, k) => (s.withKernel k).say "E03"

/-- Memory of the selected inferior, if it fits into a reply and lies below `2 ^ 64`. -/
def readMemory (s : Session) (addr : UInt64) (length : Nat) : Response × Session :=
  if s.packetSize < 2 * length ∨ 2 ^ 64 ≤ addr.toNat + length then s.say "E01"
  else
    match s.debuggee.registry.currentInferior? with
    | none => s.say "E01"
    | some (_, inf) =>
      match s.debuggee.kernel.readBytes inf.space addr.toNat length with
      | (none, k) => (s.withKernel k).say "E04"
      | (some bytes, k) => (s.withKernel k).answer [.hexBytes bytes]

/-- Sets memory of the selected inferior. -/
def writeMemory (s : Session) (addr : UInt64) (length : Nat) (digits : List UInt8) : Response × Session :=
  match Hex.decode? digits with
  | none => s.say "E02"
  | some data =>
    if 2 ^ 64 ≤ addr.toNat + length then s.say "E02"
    else
      match s.debuggee.registry.currentInferior? with
      | none => s.say "E02"
      | some (_, inf) =>
        match s.debuggee.kernel.writeBytes inf.space addr.toNat data with
        | (true, k) => (s.withKernel k).say "OK"
        | (false, k) => (s.withKernel k).say "E03"

/-! ## Breakpoints -/

/-- Sets or removes a breakpoint of an inferior. Breakpoints on instructions must have the size of one. -/
def changeBreakpoint (insert : Bool) (spec : BreakpointSpec) (inf : Inferior) (k : Kernel) :
    Except BreakpointError Unit × Inferior × Kernel :=
  match spec.kind.access? with
  | some access =>
    let trigger := ⟨spec.addr, .data access spec.size⟩
    if insert then inf.insertTrigger trigger k else inf.removeTrigger trigger k
  | none =>
    if spec.size ≠ Cpu.instructionSize then (.error .invalidSize, inf, k)
    else if spec.kind = .software then
      if insert then inf.insertPatch spec.addr k else inf.removePatch spec.addr k
    else
      let trigger := ⟨spec.addr, .fetch⟩
      if insert then inf.insertTrigger trigger k else inf.removeTrigger trigger k

/-- Sets or removes a breakpoint of the selected inferior. -/
def breakpoint (s : Session) (insert : Bool) (spec : BreakpointSpec) : Response × Session :=
  match s.debuggee.registry.current with
  | none => s.say "E01"
  | some t =>
    let (result, debuggee) := s.debuggee.onInferior t.pid (changeBreakpoint insert spec)
    let s := { s with debuggee }
    match result with
    | some (.ok ()) => s.say "OK"
    | some (.error _) | none => s.say "E01"

/-! ## Threads -/

/-- The next page of the listing. -/
def listThreads (s : Session) : Response × Session :=
  let (payload, listing) := Reply.page s.packetSize s.listing
  (.reply payload, { s with listing })

/-- Selects the thread that a thread id names; an id with wildcards only keeps the selection. -/
def selectThread (s : Session) : Option ThreadId → Response × Session
  | none => s.say "E02"
  | some id =>
    match id.process, id.thread with
    | some (.only _), _ | _, .only _ =>
      match s.debuggee.registry.resolve? id with
      | some t => { s with debuggee := s.debuggee.select t }.say "OK"
      | none => s.say "E02"
    | _, _ => s.say "OK"

/-- Whether a thread id names a thread. -/
def threadAlive (s : Session) (id : ThreadId) : Response × Session :=
  if (s.debuggee.registry.resolve? id).isSome then s.say "OK" else s.say ""

/-- Applies the actions of a resumption, unless one of them could not be read. -/
def resumeActions (s : Session) (actions : List (Option Action)) : Response × Session :=
  if actions.all Option.isSome then
    (.resume, { s with debuggee := Debuggee.applyActions (actions.filterMap id) [] s.debuggee })
  else s.say "E04"

/-- Lets go of the debuggee. -/
def release (s : Session) : Response × Session :=
  let s := { s with debuggee := s.debuggee.release, queue := [] }
  (.detach (s.render [.text (ascii "OK")]), s)

/-! ## All commands -/

/-- Carries out a command. -/
def execute (s : Session) : Command → Response × Session
  | .haltReason => s.say "T05swbreak:;"
  | .detach _ => s.release
  | .readRegisters => s.readRegisters
  | .writeRegisters digits => s.writeRegisters digits
  | .selectThread _ id => s.selectThread id
  | .readMemory addr length => s.readMemory addr length
  | .writeMemory addr length digits => s.writeMemory addr length digits
  | .attached => s.say "1"
  | .currentThread =>
    match s.debuggee.registry.current with
    | some t => s.answer [.text (ascii "QC"), .ptid t]
    | none => s.say ""
  | .firstThreads => { s with listing := s.debuggee.registry.threads }.listThreads
  | .nextThreads => s.listThreads
  | .supported _ =>
    -- the size of a packet buffer is a word of the machine
    s.answer
      [.text (ascii "PacketSize="), .number (UInt64.ofNat s.packetSize).toNat,
        .text (ascii ";QThreadEvents+;swbreak+;hwbreak+;vContSupported+;multiprocess+")]
  | .symbols => s.say "OK"
  | .traceStatus => s.say "T0"
  | .threadAlive id => s.threadAlive id
  | .removeBreakpoint spec => s.breakpoint false spec
  | .insertBreakpoint spec => s.breakpoint true spec
  | .resumptions => s.say "vCont;c;C;s;S"
  | .resume actions => s.resumeActions actions
  | .unknown _ => s.say ""

/-- The answer to a body that is no command. -/
def complaint : CommandError → String
  | .empty => ""
  | .malformed name =>
    match name with
    | .readMemory | .writeRegisters | .selectThread | .removeBreakpoint | .insertBreakpoint => "E01"
    | .writeMemory => "E02"
    | .resume => "E04"
    | _ => ""

/-- Carries out the body of a packet. -/
def respond (s : Session) (body : List UInt8) : Response × Session :=
  match Command.parse body with
  | .ok command => s.execute command
  | .error e => s.say (complaint e)

end Session
end RemoteDebug
