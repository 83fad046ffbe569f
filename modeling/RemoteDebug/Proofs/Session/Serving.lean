import RemoteDebug.Proofs.Session.Liveness
import RemoteDebug.Proofs.Session.Sending

/-!
# Packets that are answered by a reply

Many commands change nothing but the debuggee and are answered by a reply (`Session.Yields`). A packet with such a
command leaves everything else about the session alone, and unless the wire fails it is carried out and answered behind
its acknowledgement (`Session.Concludes`). A packet that is heard fits into the packet buffer
(`Session.length_le_of_command`).
-/

namespace RemoteDebug

/-! ## Bodies fit into the buffer -/

namespace Packet

/-- What the receiver holds of a body is no longer than `size`. -/
def Receiver.Fits (size : Nat) : Receiver → Prop
  | .outside => True
  | .inside received => received.size ≤ size
  | .checksumHigh body | .checksumLow body _ => body.length ≤ size

theorem Receiver.fits_step {receiver : Receiver} {size : Nat} (h : receiver.Fits size) (b : UInt8) :
    (receiver.step size b).1.Fits size ∧
      ∀ body, (receiver.step size b).2 = some (.packet body) → body.length ≤ size := by
  cases receiver with
  | outside =>
    simp only [step]
    split
    · exact ⟨Nat.zero_le size, by simp⟩
    · split <;> exact ⟨trivial, by simp⟩
  | inside received =>
    simp only [step]
    split
    · exact ⟨Nat.zero_le size, by simp⟩
    · split
      · exact ⟨by simpa [Fits] using h, by simp⟩
      · split
        · exact ⟨trivial, by simp⟩
        · rename_i room
          refine ⟨?_, by simp⟩
          simp only [Fits, Array.size_push] at h ⊢
          omega
  | checksumHigh body => exact ⟨h, by simp [step]⟩
  | checksumLow body high =>
    refine ⟨trivial, fun body' heard => ?_⟩
    simp only [step, verdict, Option.some.injEq] at heard
    split at heard
    · cases heard
      exact h
    · cases heard

theorem length_splitSequenceId_le (body : List UInt8) : (splitSequenceId body).2.length ≤ body.length := by
  unfold splitSequenceId
  split
  · split
    · simp only [List.length_cons]
      omega
    · exact Nat.le_refl _
  · exact Nat.le_refl _

end Packet

namespace Session

variable {s s₀ : Session} {b : UInt8} {command : Command} {payload : Option (List UInt8)} {d : Debuggee}

theorem fits_step (h : s.receiver.Fits s.packetSize) (i : Input) :
    (s.step i).receiver.Fits (s.step i).packetSize := by
  rw [packetSize_step]
  cases feeds : s.feeds i with
  | false => exact receiver_of_not_feeds feeds ▸ h
  | true =>
    obtain ⟨b, rfl, free⟩ := of_feeds feeds
    rw [receiver_step_of_free free]
    exact (Packet.Receiver.fits_step h b).1

theorem fits_run {c : Config} {wire : Wire} {kernel : Kernel} (hstart : start? c wire kernel = .ok s₀)
    (inputs : List Input) : (s₀.run inputs).receiver.Fits (s₀.run inputs).packetSize := by
  have start : s₀.receiver.Fits s₀.packetSize := by
    obtain ⟨size, rfl⟩ := eq_of_start? hstart
    exact trivial
  exact run_induction (P := fun s => s.receiver.Fits s.packetSize) (fun s i _ h => fits_step h i) start

/-- What a command is read from fits into the buffer. -/
theorem length_le_of_command (fits : s.receiver.Fits s.packetSize) (asks : s.command? b = some command) :
    ∃ body, Command.parse body = .ok command ∧ body.length ≤ s.packetSize := by
  obtain ⟨-, body, heard, parsed⟩ := heard_of_command? asks
  refine ⟨_, parsed, Nat.le_trans (Packet.length_splitSequenceId_le body) ?_⟩
  exact (Packet.Receiver.fits_step fits b).2 body heard

/-! ## Answers -/

/-- A command is answered by a payload, if it fits, and all that it changes is the debuggee, whatever was received and
sent before. -/
def Yields (s : Session) (command : Command) (payload : Option (List UInt8)) (d : Debuggee) : Prop :=
  ∀ s' : Session, s'.debuggee = s.debuggee → s'.packetSize = s.packetSize →
    s'.execute command = (.reply payload, { s' with debuggee := d })

/-- What a byte comes to that completes a packet with a command: the command is carried out, or on a wire that fails
perhaps not, and answered behind the acknowledgement of the packet. -/
structure Concludes (s : Session) (b : UInt8) (payload : Option (List UInt8)) (d : Debuggee) : Prop where
  debuggee : (s.step (.byte b)).debuggee = d ∨ ¬ s.wire.InOrder ∧ (s.step (.byte b)).debuggee = s.debuggee
  running : (s.step (.byte b)).running = s.running
  queue : (s.step (.byte b)).queue = s.queue
  reply : s.wire.InOrder → ∃ body, (s.receiver.step s.packetSize b).2 = some (.packet body) ∧
    s.sends (.byte b) = acknowledgement body ++ frames payload

theorem Yields.concludes (h : s.Yields command payload d) (asks : s.command? b = some command) :
    s.Concludes b payload d := by
  obtain ⟨free, body, heard, parsed⟩ := heard_of_command? asks
  let listening : Session := { s with receiver := (s.receiver.step s.packetSize b).1 }
  have received : s.receive b = (listening.transmit (acknowledgement body)).andThen fun _ s' =>
      s'.handleBody (Packet.splitSequenceId body).2 := by
    simp only [receive, free, heard, listening]
    rfl
  have reply (order : s.wire.InOrder) : ∃ body, (s.receiver.step s.packetSize b).2 = some (.packet body) ∧
      s.sends (.byte b) = acknowledgement body ++ frames payload :=
    ⟨body, heard, sends_of_reply order free heard parsed (h (s.hear b body) rfl rfl) rfl⟩
  have after : s.step (.byte b) = ((listening.transmit (acknowledgement body)).andThen fun _ s' =>
      s'.handleBody (Packet.splitSequenceId body).2).2 := congrArg Prod.snd received
  have sent := sent_transmit listening (acknowledgement body)
  generalize (listening.transmit (acknowledgement body)) = out at sent after
  obtain ⟨r, heardBy⟩ := out
  cases sent with
  | failed broken =>
    exact ⟨.inr ⟨broken, by rw [after]; rfl⟩, by rw [after]; rfl, by rw [after]; rfl, reply⟩
  | @done wire sends =>
    let next : Session := { listening with wire }
    let served : Session := { next with debuggee := d }
    have answered : next.handleBody (Packet.splitSequenceId body).2 =
        ((served.sendReply? payload).1.map fun _ => none, (served.sendReply? payload).2) := by
      simp only [handleBody, respond, parsed, h next rfl rfl, andThen_eq, served]
    have replied := replied_sendReply? served payload
    replace after : s.step (.byte b) = (served.sendReply? payload).2 := after.trans (congrArg Prod.snd answered)
    rw [← after] at replied
    exact ⟨.inl replied.debuggee_eq, replied.running_eq, replied.queue_eq, reply⟩

/-- A byte completes a packet, which is answered by a payload behind its acknowledgement. -/
def RepliesWith (s : Session) (b : UInt8) (payload : List UInt8) : Prop :=
  ∃ body, (s.receiver.step s.packetSize b).2 = some (.packet body) ∧
    s.sends (.byte b) = acknowledgement body ++ Packet.frame payload

theorem Concludes.repliesWith {sent : List UInt8} (h : s.Concludes b payload d) (fits : payload = some sent)
    (order : s.wire.InOrder) : s.RepliesWith b sent := by
  subst fits
  exact h.reply order

theorem Concludes.debuggee_eq (h : s.Concludes b payload d) (order : s.wire.InOrder) :
    (s.step (.byte b)).debuggee = d := h.debuggee.resolve_right fun broken => broken.1 order

/-- The calls of a command that is carried out are all that there are. -/
theorem Concludes.of_mem_calls {p : Kernel.Call → Prop} {r : Kernel.Record} (h : s.Concludes b payload d)
    (footprint : Kernel.Calls p s.debuggee.kernel d.kernel) (hr : r ∈ s.calls (.byte b)) : p r.call := by
  refine Session.of_mem_calls ?_ hr
  rcases h.debuggee with done | ⟨-, same⟩
  · rw [done]
    exact footprint
  · rw [same]
    exact .refl

/-- A command that is refused changes nothing. -/
theorem Concludes.debuggee_eq_self (h : s.Concludes b payload s.debuggee) :
    (s.step (.byte b)).debuggee = s.debuggee := by
  rcases h.debuggee with done | ⟨-, same⟩
  · exact done
  · exact same

theorem Concludes.calls_eq_nil (h : s.Concludes b payload s.debuggee) : s.calls (.byte b) = [] := by
  rw [calls, h.debuggee_eq_self, ← Array.length_toList, List.drop_length]

/-! ## Commands about the selected inferior -/

theorem Yields.of_answer {pieces : List Reply.Piece}
    (h : ∀ s' : Session, s'.debuggee = s.debuggee → s'.packetSize = s.packetSize →
      s'.execute command = { s' with debuggee := d }.answer pieces) : s.Yields command (s.render pieces) d := by
  intro s' same size
  rw [h s' same size, answer, render, render, size]

/-- An answer that changes nothing. -/
theorem Yields.of_say {text : String}
    (h : ∀ s' : Session, s'.debuggee = s.debuggee → s'.packetSize = s.packetSize →
    s'.execute command = s'.say text) : s.Yields command (s.render [.text (ascii text)]) s.debuggee :=
  .of_answer fun s' same size => by rw [h s' same size, ← same, say]

/-- What is read is shown, or an error. -/
def shown : Option (List UInt8) → Reply.Piece
  | none => .text (ascii "E04")
  | some bytes => .hexBytes bytes

/-- What is written is confirmed, or an error. -/
def confirmed (done : Bool) : Reply.Piece := .text (ascii (if done then "OK" else "E03"))

section Memory

variable {addr : UInt64} {length pid : Nat} {inf : Inferior} {digits data : List UInt8}

theorem yields_readMemory_refused (refused : s.packetSize < 2 * length ∨ 2 ^ 64 ≤ addr.toNat + length ∨
    s.debuggee.registry.currentInferior? = none) :
    s.Yields (.readMemory addr length) (s.render [.text (ascii "E01")]) s.debuggee := by
  refine .of_say fun s' same size => ?_
  rw [execute, readMemory, same, size]
  rcases refused with long | far | nowhere
  · rw [if_pos (.inl long)]
  · rw [if_pos (.inr far)]
  · rw [nowhere, ite_self]

theorem yields_readMemory (room : 2 * length ≤ s.packetSize) (bounded : addr.toNat + length < 2 ^ 64)
    (current : s.debuggee.registry.currentInferior? = some (pid, inf)) :
    s.Yields (.readMemory addr length) (s.render [shown (s.debuggee.kernel.readBytes inf.space addr.toNat length).1])
      (s.withKernel (s.debuggee.kernel.readBytes inf.space addr.toNat length).2).debuggee := by
  refine .of_answer fun s' same size => ?_
  have inside : ¬ (s'.packetSize < 2 * length ∨ 2 ^ 64 ≤ addr.toNat + length) := by omega
  rw [execute, readMemory, if_neg inside, same, current]
  rcases answer : s.debuggee.kernel.readBytes inf.space addr.toNat length with ⟨_ | bytes, k⟩
  all_goals simp only [answer, say, shown, withKernel, same]

theorem yields_writeMemory_refused (refused : Hex.decode? digits = none ∨ 2 ^ 64 ≤ addr.toNat + length ∨
    s.debuggee.registry.currentInferior? = none) :
    s.Yields (.writeMemory addr length digits) (s.render [.text (ascii "E02")]) s.debuggee := by
  refine .of_say fun s' same _ => ?_
  rw [execute, writeMemory, same]
  rcases refused with unread | far | nowhere
  · simp only [unread]
  · simp only [if_pos far]
    split <;> rfl
  · simp only [nowhere, ite_self]
    split <;> rfl

theorem yields_writeMemory (decoded : Hex.decode? digits = some data) (bounded : addr.toNat + length < 2 ^ 64)
    (current : s.debuggee.registry.currentInferior? = some (pid, inf)) :
    s.Yields (.writeMemory addr length digits)
      (s.render [confirmed (s.debuggee.kernel.writeBytes inf.space addr.toNat data).1])
      (s.withKernel (s.debuggee.kernel.writeBytes inf.space addr.toNat data).2).debuggee := by
  have inside : ¬ 2 ^ 64 ≤ addr.toNat + length := by omega
  refine .of_answer fun s' same size => ?_
  rw [execute, writeMemory, same, decoded]
  simp only [if_neg inside, current]
  rcases s.debuggee.kernel.writeBytes inf.space addr.toNat data with ⟨_ | _, k⟩
  all_goals simp only [say, confirmed, withKernel, same]
  all_goals rfl

end Memory

section Breakpoints

variable {insert : Bool} {spec : BreakpointSpec} {pid : Nat} {inf : Inferior}

theorem yields_breakpoint_refused (changes : ∀ s : Session, s.execute command = s.breakpoint insert spec)
    (nowhere : s.debuggee.registry.currentInferior? = none) :
    s.Yields command (s.render [.text (ascii "E01")]) s.debuggee := by
  refine .of_say fun s' same _ => ?_
  rw [changes, breakpoint, same]
  rcases current : s.debuggee.registry.current with _ | t
  · rfl
  · have unknown : s.debuggee.registry.inferior? t.pid = none := by
      simpa [Registry.currentInferior?, current] using nowhere
    simp only [Debuggee.onInferior, unknown]
    rw [← same]

theorem yields_breakpoint (changes : ∀ s : Session, s.execute command = s.breakpoint insert spec)
    (current : s.debuggee.registry.currentInferior? = some (pid, inf)) :
    ∃ text, s.Yields command (s.render [.text (ascii text)])
      (s.debuggee.onInferior pid (changeBreakpoint insert spec)).2 := by
  obtain ⟨t, selected, rfl, -⟩ := Registry.currentInferior?_eq_some_iff.1 current
  rcases result : (s.debuggee.onInferior t.pid (changeBreakpoint insert spec)) with ⟨_ | _ | _, d⟩
  · refine ⟨"E01", .of_answer fun s' same _ => ?_⟩
    rw [changes, breakpoint, same, selected]
    simp only [result, say]
  · refine ⟨"E01", .of_answer fun s' same _ => ?_⟩
    rw [changes, breakpoint, same, selected]
    simp only [result, say]
  · refine ⟨"OK", .of_answer fun s' same _ => ?_⟩
    rw [changes, breakpoint, same, selected]
    simp only [result, say]

end Breakpoints

section Registers

variable {t : Thread} {digits : List UInt8}

theorem yields_readRegisters_refused (nowhere : s.debuggee.registry.currentThread? = none) :
    s.Yields .readRegisters (s.render [.text (ascii "E01")]) s.debuggee :=
  .of_say fun s' same _ => by rw [execute, readRegisters, same, nowhere]

theorem yields_readRegisters (selected : s.debuggee.registry.currentThread? = some t) :
    s.Yields .readRegisters
      (s.render [shown ((s.debuggee.kernel.readRegisters t.cap).1.map Cpu.Registers.serialize)])
      (s.withKernel (s.debuggee.kernel.readRegisters t.cap).2).debuggee := by
  refine .of_answer fun s' same _ => ?_
  rw [execute, readRegisters, same, selected]
  rcases result : s.debuggee.kernel.readRegisters t.cap with ⟨_ | r, k⟩
  all_goals simp only [result, say, shown, withKernel, same, Option.map]

theorem yields_writeRegisters_refused (refused : s.debuggee.registry.currentThread? = none ∨
    (Hex.decode? digits).bind Cpu.Registers.deserialize? = none) :
    s.Yields (.writeRegisters digits) (s.render [.text (ascii "E01")]) s.debuggee := by
  refine .of_say fun s' same _ => ?_
  rw [execute, writeRegisters, same]
  rcases refused with nowhere | unread
  · rw [nowhere]
  · rcases s.debuggee.registry.currentThread? with _ | t
    · rfl
    · simp only [unread]

theorem yields_writeRegisters {r : Cpu.Registers} (selected : s.debuggee.registry.currentThread? = some t)
    (read : (Hex.decode? digits).bind Cpu.Registers.deserialize? = some r) :
    s.Yields (.writeRegisters digits)
      (s.render [confirmed (s.debuggee.kernel.callThread t.cap (.writeRegisters r)).1])
      (s.withKernel (s.debuggee.kernel.callThread t.cap (.writeRegisters r)).2).debuggee := by
  refine .of_answer fun s' same _ => ?_
  rw [execute, writeRegisters, same, selected, read]
  rcases result : s.debuggee.kernel.callThread t.cap (.writeRegisters r) with ⟨_ | _, k⟩
  all_goals simp only [result, say, confirmed, withKernel, same]
  all_goals rfl

end Registers

end Session
end RemoteDebug
