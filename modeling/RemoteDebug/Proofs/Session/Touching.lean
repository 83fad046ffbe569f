import RemoteDebug.Proofs.Command.Grammar
import RemoteDebug.Proofs.Debuggee.Traps
import RemoteDebug.Proofs.Hex.Digits
import RemoteDebug.Proofs.Session.Operations

/-!
# What a session does to traps and memory

What the client asks to be written is read off the command that an input completes (`Session.write?`). An input leaves
the traps and memories of all inferiors alone, or is one operation on the debuggee that writes just what the client asks
for (`Session.touched_step`).
-/

namespace RemoteDebug

open Kernel

/-! ## What the client asks to be written -/

namespace Session

/-- What a command writes to memory: of which inferior, in which address space, where, and what. -/
def commandWrite? (s : Session) : Command → Option (Nat × SpaceCap × Nat × List UInt8)
  | .writeMemory addr length digits =>
    match Hex.decode? digits, s.debuggee.registry.currentInferior? with
    | some data, some (pid, inf) =>
      if 2 ^ 64 ≤ addr.toNat + length then none else some (pid, inf.space, addr.toNat, data)
    | _, _ => none
  | _ => none

/-- What an input asks to be written to memory. -/
def write? (s : Session) : Input → Option (Nat × SpaceCap × Nat × List UInt8)
  | .byte b => (s.command? b).bind s.commandWrite?
  | _ => none

/-- What an input asks to be written to the memory of an inferior. -/
def written? (s : Session) (pid : Nat) (i : Input) : Option (Nat × List UInt8) :=
  (s.write? i).bind fun w => if w.1 = pid then some w.2.2 else none

/-- The breakpoints that are recorded of an inferior, and its memory. -/
def image? (s : Session) (pid : Nat) : Option (BreakpointTable × Memory) :=
  (s.debuggee.registry.inferior? pid).bind fun inf =>
    (s.debuggee.kernel.memory? inf.space).map fun m => (inf.breakpoints, m)

variable {s s' : Session} {i : Input} {b : UInt8} {pid : Nat}

theorem commandWrite?_eq_some {command : Command} {space : SpaceCap} {addr : Nat} {data : List UInt8}
    (h : s.commandWrite? command = some (pid, space, addr, data)) :
    (∃ inf, s.debuggee.registry.inferior? pid = some inf ∧ inf.space = space) ∧
      ∃ word length digits, command = .writeMemory word length digits ∧ Hex.decode? digits = some data ∧
        addr + length < 2 ^ 64 := by
  cases command with
  | writeMemory word length digits =>
    unfold commandWrite? at h
    dsimp only at h
    split at h
    · rename_i bytes pid' inf hdata hinf
      split at h
      · cases h
      · rename_i room
        cases h
        obtain ⟨t, -, ht⟩ := Option.bind_eq_some_iff.1 hinf
        obtain ⟨inf, hinf, heq⟩ := Option.map_eq_some_iff.1 ht
        cases heq
        exact ⟨⟨inf, hinf, rfl⟩, word, length, digits, rfl, hdata, by omega⟩
    · cases h
  | _ => cases h

theorem write?_eq_some {space : SpaceCap} {addr : Nat} {data : List UInt8}
    (h : s.write? i = some (pid, space, addr, data)) :
    (∃ inf, s.debuggee.registry.inferior? pid = some inf ∧ inf.space = space) ∧
      addr + data.length ≤ 2 ^ 64 := by
  cases i with
  | byte b =>
    obtain ⟨command, asks, writes⟩ := Option.bind_eq_some_iff.1 h
    obtain ⟨here, word, length, digits, rfl, hdata, room⟩ := commandWrite?_eq_some writes
    refine ⟨here, ?_⟩
    -- the digits are as many as the length says
    obtain ⟨-, body, -, parsed⟩ := heard_of_command? asks
    have digits_length := (Command.digits_of_parse parsed).1
    have data_length := Hex.length_of_decode? hdata
    omega
  | _ => cases h

/-! ## What a command does -/

/-- What becomes of a debuggee: traps and memories are left alone, but for what one operation does to them. -/
inductive Touched (s : Session) (wrote : Option (Nat × SpaceCap × Nat × List UInt8)) : Debuggee → Prop
  | aside {d : Debuggee} (same : s.debuggee.Aside d) (lost : s.wire.InOrder → wrote = none) : Touched s wrote d
  | performed (op : Operation) {d : Debuggee} (writes : op.write? = wrote.map Prod.snd)
      (keeps : op.KeepsPlaces) (rest : (s.debuggee.perform op).Aside d) : Touched s wrote d

/-- An operation that touches nothing. -/
theorem Touched.idle (op : Operation) (h : ¬ op.Touches) : Touched s none (s.debuggee.perform op) :=
  .aside (s.debuggee.aside_perform h) fun _ => rfl

theorem Touched.of_perform (op : Operation) {wrote : Option (Nat × SpaceCap × Nat × List UInt8)}
    (writes : op.write? = wrote.map Prod.snd) (keeps : op.KeepsPlaces) : Touched s wrote (s.debuggee.perform op) :=
  .performed op writes keeps (.refl _)

theorem Touched.then {wrote : Option (Nat × SpaceCap × Nat × List UInt8)} {d d' : Debuggee} (h : Touched s wrote d)
    (rest : d.Aside d') : Touched s wrote d' := by
  cases h with
  | aside same lost => exact .aside (same.trans rest) lost
  | performed op writes keeps before => exact .performed op writes keeps (before.trans rest)

theorem Touched.refl : Touched s none s.debuggee := .aside (.refl _) fun _ => rfl

theorem touched_breakpoint (insert : Bool) (spec : BreakpointSpec) :
    Touched s none (s.breakpoint insert spec).2.debuggee := by
  unfold breakpoint
  split
  · exact .refl
  · rename_i t _
    have after := onInferior_changeBreakpoint s.debuggee t.pid insert spec
    have touched : Touched s none (s.debuggee.onInferior t.pid (changeBreakpoint insert spec)).2 := by
      rw [after]
      cases hop : changeOperation? t.pid insert spec with
      | none => exact .refl
      | some op =>
        have quiet := (quiet_of_changeOperation? hop).1
        refine .of_perform op ?_ ?_
        · unfold changeOperation? at hop
          cases insert <;> grind [Operation.write?]
        · cases op <;> trivial
    dsimp only
    split <;> exact touched

theorem touched_writeMemory (addr : UInt64) (length : Nat) (digits : List UInt8) :
    Touched s (s.commandWrite? (.writeMemory addr length digits)) (s.writeMemory addr length digits).2.debuggee := by
  unfold writeMemory commandWrite?
  dsimp only
  cases hdata : Hex.decode? digits with
  | none => exact .refl
  | some data =>
    cases hinf : s.debuggee.registry.currentInferior? with
    | none =>
      dsimp only
      split <;> exact .refl
    | some here =>
      obtain ⟨pid, inf⟩ := here
      dsimp only
      split
      · exact .refl
      · have written : Touched s (some (pid, inf.space, addr.toNat, data))
            (s.debuggee.perform (.writeMemory inf.space addr.toNat data)) := .of_perform _ rfl trivial
        have after (done : Bool) (k : Kernel)
            (h : s.debuggee.kernel.writeBytes inf.space addr.toNat data = (done, k)) :
            (s.withKernel k).debuggee = s.debuggee.perform (.writeMemory inf.space addr.toNat data) := by
          simp [withKernel, Debuggee.perform, h]
        split
        · exact after _ _ ‹_› ▸ written
        · exact after _ _ ‹_› ▸ written

theorem touched_execute (s : Session) (c : Command) : Touched s (s.commandWrite? c) (s.execute c).2.debuggee := by
  have kernel {k : Kernel} (op : Operation) (after : (s.debuggee.perform op) = { s.debuggee with kernel := k })
      (idle : ¬ op.Touches) : Touched s none (s.withKernel k).debuggee := by
    show Touched s none { s.debuggee with kernel := k }
    rw [← after]
    exact .idle op idle
  cases c with
  | haltReason | attached | symbols | traceStatus | resumptions | unknown | firstThreads | nextThreads | supported =>
    exact .refl
  | detach => exact .of_perform .release rfl trivial
  | readRegisters =>
    show Touched s none s.readRegisters.2.debuggee
    unfold readRegisters
    split
    · exact .refl
    · rename_i t _
      split
      · exact kernel (.readRegisters t.cap) (by simp [Debuggee.perform, *]) id
      · exact kernel (.readRegisters t.cap) (by simp [Debuggee.perform, *]) id
  | writeRegisters digits =>
    show Touched s none (s.writeRegisters digits).2.debuggee
    unfold writeRegisters
    split
    · exact .refl
    · rename_i t _
      split
      · exact .refl
      · rename_i r _
        split
        · exact kernel (.writeRegisters t.cap r) (by simp [Debuggee.perform, *]) id
        · exact kernel (.writeRegisters t.cap r) (by simp [Debuggee.perform, *]) id
  | selectThread purpose id' =>
    show Touched s none (s.selectThread id').2.debuggee
    unfold selectThread
    split
    · exact .refl
    · split
      all_goals first
        | exact .refl
        | split
          · rename_i t _
            exact .idle (.select t) id
          · exact .refl
  | readMemory addr length =>
    show Touched s none (s.readMemory addr length).2.debuggee
    unfold readMemory
    split
    · exact .refl
    · split
      · exact .refl
      · rename_i pid inf _
        split
        · exact kernel (.readMemory inf.space addr.toNat length) (by simp [Debuggee.perform, *]) id
        · exact kernel (.readMemory inf.space addr.toNat length) (by simp [Debuggee.perform, *]) id
  | writeMemory addr length digits => exact touched_writeMemory addr length digits
  | currentThread =>
    simp only [execute]
    split <;> exact .refl
  | threadAlive id' =>
    simp only [execute, threadAlive]
    split <;> exact .refl
  | removeBreakpoint spec => exact touched_breakpoint false spec
  | insertBreakpoint spec => exact touched_breakpoint true spec
  | resume actions =>
    simp only [execute, resumeActions]
    split
    · exact .idle (.act (actions.filterMap id)) id
    · exact .refl

/-! ## What an input does -/

theorem aside_halt (s : Session) (stop : StopReason) : s.debuggee.Aside (s.halt stop).debuggee := by
  cases hstop : stop.thread? with
  | none =>
    rw [debuggee_halt_of_none hstop]
    exact .refl _
  | some t =>
    rw [debuggee_halt_of_some hstop]
    exact s.debuggee.aside_perform (show ¬ (Operation.select t).Touches from id)

theorem aside_performAll {ops : List Operation} {d : Debuggee} (idle : ∀ op ∈ ops, ¬ op.Touches) :
    d.Aside (d.performAll ops) := by
  induction ops generalizing d with
  | nil => exact .refl d
  | cons op ops ih =>
    exact (d.aside_perform (idle op List.mem_cons_self)).trans
      (ih fun op' hop => idle op' (List.mem_cons_of_mem _ hop))

/-- Once a packet has been carried out, its answer leaves all alone. -/
theorem aside_handleBody (s : Session) (body : List UInt8) :
    (s.respond body).2.debuggee.Aside (s.handleBody body).2.debuggee := by
  unfold handleBody
  generalize s.respond body = answer
  obtain ⟨response, s'⟩ := answer
  cases response with
  | reply payload =>
    simp only [andThen_eq]
    rw [(replied_sendReply? s' payload).debuggee_eq]
    exact .refl _
  | resume =>
    simp only [resume]
    split
    · rename_i stop queue _
      rw [andThen_eq, (replied_sendStop { s' with queue } stop).debuggee_eq]
      exact aside_halt { s' with queue } stop
    · exact s'.debuggee.aside_perform (show ¬ Operation.resumeWoken.Touches from id)
  | detach payload =>
    have reply := replied_sendReply? s' payload
    simp only
    revert reply
    generalize s'.sendReply? payload = out
    obtain ⟨r, s''⟩ := out
    intro reply
    have same := reply.debuggee_eq
    cases r <;> exact same ▸ .refl _

theorem touched_packet {receiver : Packet.Receiver} {body : List UInt8} (free : s.outstanding = none)
    (heard : s.receiver.step s.packetSize b = (receiver, some (.packet body))) :
    Touched s (s.write? (.byte b)) (s.receive b).2.debuggee := by
  have asks : s.write? (.byte b) = (Command.parse (Packet.splitSequenceId body).2).toOption.bind s.commandWrite? := by
    rw [write?, command?_eq free heard]
  have hevent : s.receive b = ({ s with receiver }.transmit (acknowledgement body)).andThen fun _ s' =>
      s'.handleBody (Packet.splitSequenceId body).2 := by
    simp only [receive, free, heard]
    rfl
  have hsent := sent_transmit { s with receiver } (acknowledgement body)
  rw [hevent]
  revert hsent
  generalize transmit _ (acknowledgement body) = out
  obtain ⟨r, s'⟩ := out
  intro hsent
  cases hsent with
  | failed broken => exact .aside (.refl _) fun order => absurd order broken
  | @done wire sends =>
    let next : Session := { s with receiver, wire }
    refine Touched.then ?_ (next.aside_handleBody (Packet.splitSequenceId body).2)
    -- what the packet does, it does to the same debuggee on a wire that is still in order
    have moved {wrote : Option (Nat × SpaceCap × Nat × List UInt8)} {d : Debuggee} (h : Touched next wrote d) :
        Touched s wrote d := by
      cases h with
      | aside same lost =>
        refine .aside same fun order => lost ?_
        rw [show next.wire = wire from rfl, sends order]
        exact order
      | performed op writes keeps rest => exact .performed op writes keeps rest
    rw [asks]
    unfold respond
    cases hparse : Command.parse (Packet.splitSequenceId body).2 with
    | error e => exact .refl
    | ok c => exact moved (next.touched_execute c)

/-- A byte that completes no packet leaves all alone. -/
theorem aside_receive (h : s.outstanding = none → ∀ receiver body, s.receiver.step s.packetSize b ≠
    (receiver, some (.packet body))) : s.debuggee.Aside (s.receive b).2.debuggee := by
  have took := took_receive s b
  have stopped (s₁ : Session) : s₁.debuggee.Aside s₁.haltAll.debuggee :=
    s₁.debuggee.aside_perform (show ¬ Operation.suspendAll.Touches from id)
  generalize (s.receive b).1 = r, (s.receive b).2 = s' at took ⊢
  cases took with
  | again | acknowledged | incomplete | refused => exact .refl _
  | @nextStop _ stop queue _ _ _ _ _ _ _ reply =>
    rw [reply.debuggee_eq]
    exact aside_halt { s with outstanding := none, queue } stop
  | lateInterrupt _ _ _ reply =>
    rw [reply.debuggee_eq]
    exact stopped { s with outstanding := none }
  | @interrupt receiver _ _ _ _ reply =>
    rw [reply.debuggee_eq]
    exact stopped { s with receiver }
  | unheard free heard | answered free heard | resumed free heard | stopInstead free heard | left free heard
  | stuck free heard => exact absurd heard (h free _ _)

theorem touched_receive (s : Session) (b : UInt8) : Touched s (s.write? (.byte b)) (s.receive b).2.debuggee := by
  by_cases packet : s.outstanding = none ∧
      ∃ receiver body, s.receiver.step s.packetSize b = (receiver, some (.packet body))
  · obtain ⟨free, receiver, body, heard⟩ := packet
    exact touched_packet free heard
  · have other (free : s.outstanding = none) (receiver : Packet.Receiver) (body : List UInt8) :
        s.receiver.step s.packetSize b ≠ (receiver, some (.packet body)) :=
      fun heard => packet ⟨free, receiver, body, heard⟩
    refine .aside (aside_receive other) fun _ => ?_
    have none_asked : s.command? b = none := by
      unfold command?
      split
      · rename_i body free heard
        have packet : s.receiver.step s.packetSize b =
            ((s.receiver.step s.packetSize b).1, some (.packet body)) := Prod.ext_iff.2 ⟨rfl, heard⟩
        exact absurd packet (other free _ body)
      · rfl
    rw [write?, none_asked]
    rfl

theorem aside_noted {accepted : Option StopReason} (h : Noted s i accepted s') : s.debuggee.Aside s'.debuggee := by
  have entering {ops : List Operation} (enters : ∀ op ∈ ops, i.Enters op) : ∀ op ∈ ops, ¬ op.Touches := by
    intro op hop
    obtain ⟨tcb, -, rfl | ⟨pid, native, rfl⟩⟩ := enters op hop <;> exact id
  cases h with
  | ignored ops enters => exact aside_performAll (entering enters)
  | @reported before after stop r s' enters leaves _ report =>
    have leaving : ∀ op ∈ after, ¬ op.Touches := by
      intro op hop
      obtain ⟨t, rfl⟩ := leaves op hop
      exact id
    have entered := aside_performAll (d := s.debuggee) (entering enters)
    have suspended := entered.trans (Debuggee.aside_perform _ (show ¬ Operation.suspendAll.Touches from id))
    have quiet := suspended.trans (aside_performAll leaving)
    cases report with
    | told _ _ reply =>
      rw [reply.debuggee_eq]
      exact quiet.trans (aside_halt { s with debuggee := _ } stop)
    | queued => exact quiet

/-- The inputs that leave registered which inferiors there are. -/
def Input.KeepsPlaces : Input → Prop
  | .addInferior _ _ | .disable _ => False
  | _ => True

theorem touched_step (s : Session) {i : Input} (keeps : i.KeepsPlaces) :
    Touched s (s.write? i) (s.step i).debuggee := by
  cases i with
  | byte b => exact touched_receive s b
  | fault | spawn | exit => exact .aside (aside_noted (noted_of_reports trivial)) fun _ => rfl
  | addThread pid native tcb => exact .of_perform (.addThread pid native tcb) rfl trivial
  | addInferior | disable => exact keeps.elim
  | wire => exact .refl

end Session
end RemoteDebug
