import RemoteDebug.Command.Basic

/-!
# Reading commands

`Command.parse` finds the name that begins a body and reads the rest by the grammar of that name's argument; a body that
no name begins is a command of its own, which a session does not know. The features of a client and the actions of a
resumption are read one by one, and one that cannot be read does not spoil the others.
-/

namespace RemoteDebug

/-- Whether a byte is this character. -/
def isChar (c : Char) (b : UInt8) : Bool := b == c.toUInt8

/-- Reads the kind of a breakpoint. -/
def BreakpointKind.parse? (field : List UInt8) : Option BreakpointKind :=
  if field = ascii "0" then some .software
  else if field = ascii "1" then some .hardware
  else if field = ascii "2" then some .write
  else if field = ascii "3" then some .read
  else if field = ascii "4" then some .access
  else none

/-- Reads `<kind>,<addr>,<size>`. -/
def BreakpointSpec.parse? (argument : List UInt8) : Option BreakpointSpec :=
  match cut (isChar ',') argument with
  | (_, none) => none
  | (kind, some rest) =>
    match cut (isChar ',') rest with
    | (_, none) => none
    | (addr, some size) =>
      match BreakpointKind.parse? kind, Hex.word? addr, Hex.word? size with
      | some kind, some addr, some size => some ⟨kind, addr, size⟩
      | _, _, _ => none

/-- Reads a feature: a name marked as present, absent or unclear, or a name with a value. -/
def Feature.parse? (field : List UInt8) : Option Feature :=
  match field.getLast? with
  | none => none
  | some mark =>
    if isChar '+' mark then some ⟨field.dropLast, none, .yes⟩
    else if isChar '-' mark then some ⟨field.dropLast, none, .no⟩
    else if isChar '?' mark then some ⟨field.dropLast, none, .maybe⟩
    else
      match cut (isChar '=') field with
      | (_, none) => none
      | (name, some value) => some ⟨name, some value, .yes⟩

/-- Reads a motion, with the two digits of a signal where the letter asks for one. -/
def Motion.parse? : List UInt8 → Option Motion
  | [] => none
  | letter :: signal =>
    if isChar 'c' letter then if signal.isEmpty then some .continue else none
    else if isChar 's' letter then if signal.isEmpty then some .step else none
    else if isChar 'C' letter then
      match Hex.number 8 signal with
      | .ok n => some (.continueWith (UInt8.ofNat n))
      | .error _ => none
    else if isChar 'S' letter then
      match Hex.number 8 signal with
      | .ok n => some (.stepWith (UInt8.ofNat n))
      | .error _ => none
    else none

/-- Reads an action: a motion and, behind a colon, the threads it is for. -/
def Action.parse? (field : List UInt8) : Option Action :=
  match cut (isChar ':') field with
  | (motion, none) => (Motion.parse? motion).map fun m => ⟨m, none⟩
  | (motion, some threads) =>
    match Motion.parse? motion, ThreadId.parse? threads with
    | some m, some id => some ⟨m, some id⟩
    | _, _ => none

namespace Command

/-- Reads `<addr>,<length>`. -/
def parseReadMemory? (argument : List UInt8) : Option Command :=
  match cut (isChar ',') argument with
  | (_, none) => none
  | (addr, some length) =>
    match Hex.word? addr, Hex.number? length with
    | some addr, some length => some (.readMemory addr length)
    | _, _ => none

/-- Reads `<addr>,<length>:<digits>`; both separators may be either character. -/
def parseWriteMemory? (argument : List UInt8) : Option Command :=
  let separator := fun b => isChar ',' b || isChar ':' b
  match cut separator argument with
  | (_, none) => none
  | (addr, some rest) =>
    match cut separator rest with
    | (_, none) => none
    | (length, some digits) =>
      match Hex.word? addr, Hex.number? length with
      | some addr, some length =>
        if digits.length = 2 * length ∧ digits.all Hex.isDigit then some (.writeMemory addr length digits) else none
      | _, _ => none

/-- Reads nothing at all, or a process id behind a semicolon. -/
def parseDetach? : List UInt8 → Option Command
  | [] => some (.detach none)
  | b :: pid =>
    if isChar ';' b then
      match Hex.number? pid with
      | some (n + 1) => some (.detach (some (n + 1)))
      | _ => none
    else none

/-- Reads a letter for the purpose, and a thread id, which may turn out to be none. -/
def parseSelectThread? : List UInt8 → Option Command
  | [] => none
  | letter :: id =>
    if isChar 'g' letter then some (.selectThread .inspect (ThreadId.parse? id))
    else if isChar 'c' letter then some (.selectThread .resume (ThreadId.parse? id))
    else none

/-- Reads the features behind a colon; nothing between two semicolons is no feature. -/
def parseSupported? : List UInt8 → Option Command
  | [] => some (.supported [])
  | b :: features =>
    if isChar ':' b then
      some (.supported (((features.splitOn ';'.toUInt8).filter (!·.isEmpty)).map Feature.parse?))
    else none

/-- Reads actions behind semicolons. -/
def parseResume? : List UInt8 → Option Command
  | [] => none
  | b :: actions =>
    if isChar ';' b && !actions.isEmpty then some (.resume ((actions.splitOn ';'.toUInt8).map Action.parse?)) else none

/-- Reads digits in pairs. -/
def parseWriteRegisters? (argument : List UInt8) : Option Command :=
  if argument.length % 2 = 0 ∧ argument.all Hex.isDigit then some (.writeRegisters argument) else none

/-- A command whose name takes no argument. -/
def bare (command : Command) (argument : List UInt8) : Option Command :=
  if argument.isEmpty then some command else none

/-- Reads the argument of a name. -/
def parseArgument? (name : CommandName) (argument : List UInt8) : Option Command :=
  match name with
  | .haltReason => some .haltReason
  | .detach => parseDetach? argument
  | .readRegisters => bare .readRegisters argument
  | .writeRegisters => parseWriteRegisters? argument
  | .selectThread => parseSelectThread? argument
  | .readMemory => parseReadMemory? argument
  | .writeMemory => parseWriteMemory? argument
  | .attached => some .attached
  | .currentThread => bare .currentThread argument
  | .firstThreads => bare .firstThreads argument
  | .nextThreads => bare .nextThreads argument
  | .supported => parseSupported? argument
  | .symbols => some .symbols
  | .traceStatus => bare .traceStatus argument
  | .threadAlive => (ThreadId.parse? argument).map .threadAlive
  | .removeBreakpoint => (BreakpointSpec.parse? argument).map .removeBreakpoint
  | .insertBreakpoint => (BreakpointSpec.parse? argument).map .insertBreakpoint
  | .resumptions => bare .resumptions argument
  | .resume => parseResume? argument

/-- The first name that begins a body, and what follows it. -/
def split? (body : List UInt8) : Option (CommandName × List UInt8) :=
  CommandName.all.findSome? fun name => (name.bytes.isPrefixOf? body).map (name, ·)

/-- Reads the body of a packet. -/
def parse (body : List UInt8) : Except CommandError Command :=
  if body.isEmpty then .error .empty
  else
    match split? body with
    | none => .ok (.unknown body)
    | some (name, argument) =>
      match parseArgument? name argument with
      | none => .error (.malformed name)
      | some command => .ok command

end Command
end RemoteDebug
