import RemoteDebug.Proofs.Cpu.Registers
import RemoteDebug.Proofs.Debuggee.Replay
import RemoteDebug.Proofs.Hex.Digits
import RemoteDebug.Proofs.Session.Memory

/-!
# Registers written and read by the client

A register file in digits is written into the selected thread by one call, which touches no other thread; until other
registers are written the client reads the same digits back, in lowercase (`Session.RoundTrips`). Anything else behind
the letter is refused, and no call is made (`Session.repliesTo_misread`). What a thread holds later on is worked out
from the calls on it, which are in the history (`Session.replays_run`).
-/

namespace RemoteDebug

open Kernel

/-! ## Requests -/

namespace Command

variable {argument : List UInt8}

theorem split?_writeRegisters (argument : List UInt8) :
    split? ('G'.toUInt8 :: argument) = some (.writeRegisters, argument) := rfl

/-- Digits in pairs ask for registers to be written. -/
theorem parse_writeRegisters (even : argument.length % 2 = 0) (digits : argument.all Hex.isDigit = true) :
    parse ('G'.toUInt8 :: argument) = .ok (.writeRegisters argument) := by
  have read : parseArgument? .writeRegisters argument = some (.writeRegisters argument) := if_pos ⟨even, digits⟩
  simp only [parse, List.isEmpty_cons, Bool.false_eq_true, if_false, split?_writeRegisters, read]

theorem parse_writeRegisters_malformed (h : ¬ (argument.length % 2 = 0 ∧ argument.all Hex.isDigit = true)) :
    parse ('G'.toUInt8 :: argument) = .error (.malformed .writeRegisters) := by
  have read : parseArgument? .writeRegisters argument = none := if_neg h
  simp only [parse, List.isEmpty_cons, Bool.false_eq_true, if_false, split?_writeRegisters, read]

theorem parse_readRegisters : parse (ascii "g") = .ok .readRegisters := by decide

end Command

namespace Session

open Packet (frame IsFrame Sendable)

variable {s : Session} {t : Ptid} {thread : Thread} {tcb : Tcb} {digits argument payload request : List UInt8}
  {registers : Cpu.Registers} {k : Kernel}

/-- Thread `t` is selected, and its kernel object does all transfers of registers. -/
structure Transfers (s : Session) (t : Ptid) (thread : Thread) (tcb : Tcb) : Prop where
  selected : s.debuggee.registry.current = some t
  registered : s.debuggee.registry.thread? t = some thread
  object : s.debuggee.kernel.threads[thread.cap]? = some tcb
  reads : ∀ n, tcb.refuses n .readRegisters = false
  writes : ∀ n registers, tcb.refuses n (.writeRegisters registers) = false

/-! ## Reading -/

/-- Registers are answered in digits. -/
theorem repliesTo_readRegisters {cap : ThreadCap} (room : 536 ≤ s.packetSize)
    (current : s.debuggee.registry.currentThread?.map (·.cap) = some cap)
    (object : s.debuggee.kernel.threads[cap]? = some tcb) (reads : ∀ n, tcb.refuses n .readRegisters = false) :
    s.RepliesTo (ascii "g") (Hex.encode tcb.registers.serialize)
      (s.debuggee.kernel.callThread cap .readRegisters).2 := by
  obtain ⟨thread, known, rfl⟩ := Option.map_eq_some_iff.1 current
  have given := readRegisters_of_accepts object (accepts_of_not_refuses object (reads _))
  refine repliesTo fun s' same size => ?_
  have fits : 2 * tcb.registers.serialize.length ≤ s'.packetSize := by
    rw [Cpu.Registers.length_serialize, size]
    exact room
  have written : Reply.render (s'.withKernel (s.debuggee.kernel.callThread thread.cap .readRegisters).2).packetSize
      [.hexBytes tcb.registers.serialize] = some (Hex.encode tcb.registers.serialize) := Reply.render_hexBytes fits
  simp only [respond, Command.parse_readRegisters, execute, Session.readRegisters, same, known, given, answer, render,
    written]

/-- What a thread holds is what a question is answered by, until other registers are written. -/
theorem repliesTo_later {cap : ThreadCap} {inputs : List Input} {new : List Record} (room : 536 ≤ s.packetSize)
    (held : s.debuggee.kernel.threads[cap]? = some tcb) (reads : ∀ n, tcb.refuses n .readRegisters = false)
    (current : (s.run inputs).debuggee.registry.currentThread?.map (·.cap) = some cap)
    (grown : (s.run inputs).debuggee.kernel.history.toList = s.debuggee.kernel.history.toList ++ new)
    (unwritten : ∀ others, ⟨.thread cap (.writeRegisters others), true⟩ ∉ new) :
    ∃ k, (s.run inputs).RepliesTo (ascii "g") (Hex.encode tcb.registers.serialize) k ∧
      k.threads = (s.run inputs).debuggee.kernel.threads := by
  obtain ⟨new', grown', made⟩ := s.replays_run inputs
  obtain rfl : new = new' := List.append_cancel_left (grown.symm.trans grown')
  have kept : (tcb.replay cap new).registers = tcb.registers := Tcb.registers_replay unwritten
  have reads (n : Nat) : (tcb.replay cap new).refuses n .readRegisters = false := by
    rw [Tcb.refuses_replay]
    exact reads n
  have size : (s.run inputs).packetSize = s.packetSize := packetSize_run _ _
  have told := repliesTo_readRegisters (size ▸ room) current (made cap tcb held) reads
  rw [kept] at told
  exact ⟨_, told, threads_callThread_readRegisters _ _⟩

/-! ## Writing -/

/-- As many digits as a register file has are one. -/
theorem exists_registers (count : digits.length = 536) (all : digits.all Hex.isDigit = true) :
    ∃ registers : Cpu.Registers, (Hex.decode? digits).bind Cpu.Registers.deserialize? = some registers ∧
      Hex.encode registers.serialize = digits.map Hex.lower := by
  have pairs : digits.length = 2 * 268 := count
  obtain ⟨bytes, read⟩ := Hex.exists_decode? all pairs
  have sized : bytes.length = Cpu.Registers.size := by
    have halves := Hex.length_of_decode? read
    have size : Cpu.Registers.size = 268 := rfl
    omega
  obtain ⟨registers, given⟩ := Option.isSome_iff_exists.1 ((Cpu.Registers.deserialize?_isSome bytes).2 sized)
  refine ⟨registers, by rw [read, Option.bind_some, given], ?_⟩
  rw [Cpu.Registers.serialize_of_deserialize? given, Hex.encode_of_decode? read]

theorem bind_deserialize?_eq_none (other : digits.length ≠ 536) :
    (Hex.decode? digits).bind Cpu.Registers.deserialize? = none := by
  cases read : Hex.decode? digits with
  | none => rfl
  | some bytes =>
    have pairs := Hex.length_of_decode? read
    refine Cpu.Registers.deserialize?_eq_none_iff.2 fun sized => other ?_
    rw [pairs, sized]
    rfl

/-- Digits that are a register file are written. -/
theorem repliesTo_writeRegisters {cap : ThreadCap} (room : 2 ≤ s.packetSize)
    (current : s.debuggee.registry.currentThread?.map (·.cap) = some cap)
    (even : digits.length % 2 = 0) (all : digits.all Hex.isDigit = true)
    (read : (Hex.decode? digits).bind Cpu.Registers.deserialize? = some registers)
    (accepted : s.debuggee.kernel.accepts cap (.writeRegisters registers) = true) :
    s.RepliesTo ('G'.toUInt8 :: digits) (ascii "OK")
      (s.debuggee.kernel.callThread cap (.writeRegisters registers)).2 := by
  obtain ⟨thread, known, rfl⟩ := Option.map_eq_some_iff.1 current
  have letters : (ascii "OK").length = 2 := by decide
  have done : s.debuggee.kernel.callThread thread.cap (.writeRegisters registers) =
      (true, (s.debuggee.kernel.callThread thread.cap (.writeRegisters registers)).2) := by
    rw [← accepted, ← callThread_fst]
  refine repliesTo fun s' same size => ?_
  simp only [respond, Command.parse_writeRegisters even all, execute, writeRegisters, same, known, read]
  rw [done]
  exact say_eq (by rw [letters]; exact size ▸ room)

/-- Anything else behind the letter is refused, and no call is made. -/
theorem repliesTo_misread (room : 3 ≤ s.packetSize)
    (other : ¬ (argument.length = 536 ∧ argument.all Hex.isDigit = true)) :
    s.RepliesTo ('G'.toUInt8 :: argument) (ascii "E01") s.debuggee.kernel := by
  have letters : (ascii "E01").length = 3 := by decide
  refine repliesTo fun s' same size => ?_
  have told : s'.say "E01" = (.reply (some (ascii "E01")), s'.withKernel s.debuggee.kernel) := by
    rw [say_eq (by rw [letters, size]; exact room), withKernel, ← same]
  by_cases paired : argument.length % 2 = 0 ∧ argument.all Hex.isDigit = true
  · have unread := bind_deserialize?_eq_none fun count => other ⟨count, paired.2⟩
    simp only [respond, Command.parse_writeRegisters paired.1 paired.2, execute, writeRegisters, unread]
    split <;> exact told
  · simp only [respond, Command.parse_writeRegisters_malformed paired, complaint]
    exact told

/-! ## Requests on the wire -/

theorem splitSequenceId_of_plain {argument : List UInt8} (h : argument[1]? ≠ some ':'.toUInt8) (b : UInt8) :
    Packet.splitSequenceId (b :: argument) = (none, b :: argument) := by
  match argument, h with
  | [], _ | [_], _ => rfl
  | x :: c :: rest, h =>
    have other : c ≠ ':'.toUInt8 := fun heq => h (congrArg some heq)
    exact if_neg other

theorem splitSequenceId_of_digits (all : digits.all Hex.isDigit = true) (b : UInt8) :
    Packet.splitSequenceId (b :: digits) = (none, b :: digits) := by
  refine splitSequenceId_of_plain (fun heq => ?_) b
  have colon := List.all_eq_true.1 all _ (List.mem_of_getElem? heq)
  exact absurd colon (by decide)

theorem sendable_writeRegisters (room : 537 ≤ s.packetSize) (count : digits.length = 536)
    (all : digits.all Hex.isDigit = true) : Sendable s.packetSize ('G'.toUInt8 :: digits) := by
  have letter : 'G'.toUInt8 ≠ Packet.opening ∧ 'G'.toUInt8 ≠ Packet.closing := by decide
  refine ⟨?_, Packet.unmarked_cons.2 ⟨letter, Packet.unmarked_of_isDigit (List.all_eq_true.1 all)⟩⟩
  rw [List.length_cons, count]
  exact room

section Wire

variable {bytes : List UInt8}

/-- A request in a frame of its own is answered. -/
theorem RepliesTo.run_frame (h : s.RepliesTo request payload k) (order : s.wire.InOrder) (free : s.outstanding = none)
    (hopen : s.receiver.Open) (sendable : Sendable s.packetSize request)
    (plain : Packet.splitSequenceId request = (none, request)) (framed : IsFrame request bytes) :
    s.run (bytes.map .byte) = s.afterReply k request payload := by
  obtain ⟨high, low, rfl, sum⟩ := framed
  have asks : (Packet.splitSequenceId request).2 = request := by rw [plain]
  rw [(run_closing free hopen sendable high low).1]
  exact congrArg Prod.snd (h.delivered _ low request order free (step_checksumLow sum) asks)

/-- The session once a packet with a body was answered and the client has acknowledged the answer. -/
def afterExchange (s : Session) (k : Kernel) (body payload : List UInt8) : Session :=
  { s.afterReply k body payload with outstanding := none }

theorem RepliesTo.run_exchange (h : s.RepliesTo request payload k) (order : s.wire.InOrder)
    (free : s.outstanding = none) (drained : s.Drained) (hopen : s.receiver.Open)
    (sendable : Sendable s.packetSize request) (plain : Packet.splitSequenceId request = (none, request))
    (framed : IsFrame request bytes) :
    s.run ((bytes ++ [Packet.acceptance]).map .byte) = s.afterExchange k request payload := by
  have nothing : (s.afterReply k request payload).running = true → (s.afterReply k request payload).queue = [] :=
    fun runs => drained runs free
  rw [List.map_append, run_append, h.run_frame order free hopen sendable plain framed]
  exact congrArg Prod.snd (receive_acceptance_quiet rfl rfl nothing)

/-- Registers are written, the client acknowledges the answer and asks for them. -/
theorem run_written_and_read {cap : ThreadCap} {writes reads : List UInt8}
    (written : s.RepliesTo ('G'.toUInt8 :: digits) (ascii "OK") k) (room : 537 ≤ s.packetSize)
    (count : digits.length = 536) (all : digits.all Hex.isDigit = true)
    (current : s.debuggee.registry.currentThread?.map (·.cap) = some cap) (stored : k.threads[cap]? = some tcb)
    (granted : ∀ n, tcb.refuses n .readRegisters = false) (order : s.wire.InOrder) (free : s.outstanding = none)
    (drained : s.Drained) (hopen : s.receiver.Open) (framed : IsFrame ('G'.toUInt8 :: digits) writes)
    (framed' : IsFrame (ascii "g") reads) :
    let asked := s.run ((writes ++ Packet.acceptance :: reads).map .byte)
    asked.wire = s.wire.append (ascii "+" ++ frame (ascii "OK") ++
        (ascii "+" ++ frame (Hex.encode tcb.registers.serialize))) ∧
      asked.debuggee.registry = s.debuggee.registry ∧ asked.debuggee.kernel.threads = k.threads := by
  let next := s.afterExchange k ('G'.toUInt8 :: digits) (ascii "OK")
  have plain := splitSequenceId_of_digits all 'G'.toUInt8
  have split : writes ++ Packet.acceptance :: reads = (writes ++ [Packet.acceptance]) ++ reads := by simp
  have first : s.run ((writes ++ [Packet.acceptance]).map .byte) = next :=
    written.run_exchange order free drained hopen (sendable_writeRegisters room count all) plain framed
  have told := repliesTo_readRegisters (s := next) (Nat.le_of_succ_le room) current stored granted
  have short : Sendable next.packetSize (ascii "g") := ⟨Nat.le_trans (by decide) room, by decide⟩
  have second := told.run_frame (order.append _) rfl trivial short rfl framed'
  rw [split, List.map_append, run_append, first, second]
  refine ⟨?_, rfl, threads_callThread_readRegisters _ _⟩
  simp only [afterReply, next, afterExchange, withKernel, Wire.append_append, acknowledgement, plain]
  rfl

end Wire

/-! ## Round trips -/

/-- Digits go into the registers of the selected thread `t`, and come out again in lowercase. -/
structure RoundTrips (s : Session) (t : Ptid) (thread : Thread) (tcb : Tcb) (digits : List UInt8)
    (registers : Cpu.Registers) (k : Kernel) : Prop where
  answered : s.RepliesTo ('G'.toUInt8 :: digits) (ascii "OK") k
  /-- There is one call, and it is done. -/
  called : k.history = s.debuggee.kernel.history.push ⟨.thread thread.cap (.writeRegisters registers), true⟩
  stored : k.threads[thread.cap]? = some { tcb with registers }
  others : ∀ cap, cap ≠ thread.cap → k.threads[cap]? = s.debuggee.kernel.threads[cap]?
  own : ∀ u other, s.debuggee.registry.thread? u = some other → other.cap = thread.cap → u = t
  spaces : k.spaces = s.debuggee.kernel.spaces
  /-- Until other registers are written, a question for the registers of the thread is answered by these. -/
  readBack : ∀ body inputs new, let later := (s.afterReply k body (ascii "OK")).run inputs
    later.debuggee.registry.currentThread?.map (·.cap) = some thread.cap →
    later.debuggee.kernel.history.toList = k.history.toList ++ new →
    (∀ others, ⟨.thread thread.cap (.writeRegisters others), true⟩ ∉ new) →
      ∃ k', later.RepliesTo (ascii "g") (digits.map Hex.lower) k' ∧ k'.threads = later.debuggee.kernel.threads
  /-- So it is on the wire, if the question follows at once. -/
  exchange : s.wire.InOrder → s.outstanding = none → s.receiver.Open → ∀ writes reads,
    IsFrame ('G'.toUInt8 :: digits) writes → IsFrame (ascii "g") reads →
      let asked := s.run ((writes ++ Packet.acceptance :: reads).map .byte)
      asked.wire = s.wire.append
          (ascii "+" ++ frame (ascii "OK") ++ (ascii "+" ++ frame (digits.map Hex.lower))) ∧
        asked.debuggee.registry = s.debuggee.registry ∧ asked.debuggee.kernel.threads = k.threads

theorem roundTrips (transfers : s.Transfers t thread tcb) (apart : s.debuggee.Apart) (drained : s.Drained)
    (room : 537 ≤ s.packetSize) (count : digits.length = 536) (all : digits.all Hex.isDigit = true) :
    ∃ registers k, s.RoundTrips t thread tcb digits registers k := by
  obtain ⟨registers, read, written⟩ := exists_registers count all
  have current : s.debuggee.registry.currentThread?.map (·.cap) = some thread.cap := by
    simp [Registry.currentThread?, transfers.selected, transfers.registered]
  have accepted := accepts_of_not_refuses transfers.object (transfers.writes s.debuggee.kernel.history.size registers)
  have answered := repliesTo_writeRegisters (by omega) current (by omega) all read accepted
  generalize hk : (s.debuggee.kernel.callThread thread.cap (.writeRegisters registers)).2 = k at answered
  have stored : k.threads[thread.cap]? = some { tcb with registers } := by
    rw [← hk, thread_callThread, accepted, if_pos rfl, transfers.object]
    rfl
  refine ⟨registers, k, answered, ?_, stored, ?_, ?_, ?_, ?_, ?_⟩
  · rw [← hk, history_callThread, accepted]
  · intro cap other
    rw [← hk, thread_callThread_of_ne _ _ _ other]
  · intro u other known same
    exact apart.distinct u t other thread known transfers.registered same
  · rw [← hk, spaces_callThread]
  · intro body inputs new later selected grown unwritten
    have told := repliesTo_later (s := s.afterReply k body (ascii "OK")) (Nat.le_of_succ_le room) stored transfers.reads
      selected grown unwritten
    rw [← written]
    exact told
  · intro order free hopen writes reads framed framed'
    have told := run_written_and_read answered room count all current stored transfers.reads order free drained hopen
      framed framed'
    rw [← written]
    exact told

/-- In a session with room for a register file in digits, whose selected thread does all transfers of registers: a
register file in digits of either case is taken, by one call that changes no other thread, and read again in lowercase;
anything else is refused without a call. For a register file and its bytes are in one-to-one correspondence, and bytes
of a wrong number overwrite no register. -/
theorem registers_round_trip {c : Config} {wire : Wire} {inputs : List Input}
    (hstart : start? c wire Kernel.empty = .ok s) (room : 537 ≤ s.packetSize)
    (transfers : (s.run inputs).Transfers t thread tcb) :
    (∀ digits, digits.length = 536 → digits.all Hex.isDigit = true →
        ∃ registers k, (s.run inputs).RoundTrips t thread tcb digits registers k) ∧
      (∀ argument, ¬ (argument.length = 536 ∧ argument.all Hex.isDigit = true) →
        (s.run inputs).RepliesTo ('G'.toUInt8 :: argument) (ascii "E01") (s.run inputs).debuggee.kernel) ∧
      (∀ argument, argument[1]? ≠ some ':'.toUInt8 →
        Packet.splitSequenceId ('G'.toUInt8 :: argument) = (none, 'G'.toUInt8 :: argument)) ∧
      (∀ r : Cpu.Registers, Cpu.Registers.deserialize? r.serialize = some r) ∧
      (∀ bytes r, Cpu.Registers.deserialize? bytes = some r → r.serialize = bytes) ∧
      (∀ bytes, Cpu.Registers.deserialize? bytes = none ↔ bytes.length ≠ 268) ∧
      ∀ (r : Cpu.Registers) bytes,
        r.load bytes = ((Cpu.Registers.deserialize? bytes).isSome, (Cpu.Registers.deserialize? bytes).getD r) := by
  have size : (s.run inputs).packetSize = s.packetSize := s.packetSize_run inputs
  refine ⟨fun digits count all => ?_, fun argument other => ?_, fun argument h => splitSequenceId_of_plain h _,
    Cpu.Registers.deserialize?_serialize, fun _ _ => Cpu.Registers.serialize_of_deserialize?,
    fun _ => Cpu.Registers.deserialize?_eq_none_iff, Cpu.Registers.load_eq⟩
  · exact roundTrips transfers (apart_run hstart inputs) (drained_run hstart inputs) (size ▸ room) count all
  · exact repliesTo_misread (by omega) other

/-- Registers are written in capitals and read in lowercase. Another thread keeps its own, and two digits alone are
refused. -/
theorem registers_written_in_capitals :
    ∃ s now asked, start? {} Wire.fresh Kernel.empty = .ok s ∧
      now = s.run ([.addInferior 7 .fresh, .addThread 1 8 .fresh] ++ [.addThread 1 9 .fresh,
        .fault 7 8 .softwareBreak, .byte Packet.acceptance]) ∧
      asked = now.run ((frame ('G'.toUInt8 :: List.replicate 536 'A'.toUInt8) ++ Packet.acceptance ::
        frame (ascii "g")).map .byte) ∧
      asked.wire = now.wire.append
        (ascii "+" ++ frame (ascii "OK") ++ (ascii "+" ++ frame (List.replicate 536 'a'.toUInt8))) ∧
      asked.debuggee.kernel.threads[1]? = now.debuggee.kernel.threads[1]? ∧
      now.RepliesTo (ascii "G00") (ascii "E01") now.debuggee.kernel := by
  let s : Session := ⟨Debuggee.empty 64 256 32, Wire.fresh, 2048, .outside, true, none, [], []⟩
  have started : start? {} Wire.fresh Kernel.empty = .ok s := rfl
  refine ⟨s, _, _, started, rfl, rfl, ?_⟩
  -- nothing has been written over the thread since it was handed over, so that it still refuses nothing
  let d := (s.step (.addInferior 7 .fresh)).debuggee
  let hand : Operation := .addThread 1 8 .fresh
  have nobody : d.kernel.threads = [] := List.eq_nil_of_length_eq_zero (by decide +kernel)
  have handed : (hand.allocate d.kernel).threads[0]? = some Tcb.fresh := by
    rw [hand.threads_allocate, nobody]
    rfl
  have later := replays_run (s.run [.addInferior 7 .fresh, .addThread 1 8 .fresh])
    [.addThread 1 9 .fresh, .fault 7 8 .softwareBreak, .byte Packet.acceptance]
  rw [← run_append] at later
  obtain ⟨new, -, since⟩ := (d.calls_perform_any hand).replays.trans later
  have transfers : (s.run _).Transfers ⟨1, 1⟩ ⟨8, 0, false, false⟩ (Tcb.fresh.replay 0 new) := {
    selected := by decide +kernel
    registered := by decide +kernel
    object := since 0 Tcb.fresh handed
    reads := fun _ => by rw [Tcb.refuses_replay]; rfl
    writes := fun _ _ => by rw [Tcb.refuses_replay]; rfl }
  obtain ⟨taken, refused, -⟩ := registers_round_trip started (by decide : 537 ≤ 2048) transfers
  obtain ⟨registers, k, trips⟩ :=
    taken (List.replicate 536 'A'.toUInt8) (List.length_replicate ..) (by decide +kernel)
  obtain ⟨wire, -, threads⟩ := trips.exchange ⟨by decide +kernel, by decide +kernel⟩ (by decide +kernel)
    (by decide +kernel) _ _ (Packet.isFrame_frame _) (Packet.isFrame_frame _)
  rw [List.map_replicate] at wire
  refine ⟨wire, ?_, refused (ascii "00") (by decide)⟩
  rw [threads]
  exact trips.others 1 (by decide)

end Session
end RemoteDebug
