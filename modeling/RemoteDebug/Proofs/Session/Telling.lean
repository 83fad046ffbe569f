import RemoteDebug.Proofs.Session.Ready

/-!
# What the client is told

What the client is told is read off the wire: the stop reply in what an input sends (`Session.told?`), unless the input
only has the outstanding reply sent again. A report of the kernel is kept if it was accepted, and not any more if it was
still queued when the client left (`Session.kept`).

A stop reply is read as the stop it is about (`Session.read_stop`), and any other reply as none (`Session.read_plain`).
-/

namespace RemoteDebug.Session

/-- The bytes that an input sends to the client. -/
def sends (s : Session) (i : Input) : List UInt8 := (s.step i).wire.sent.toList.drop s.wire.sent.size

/-- Whether an input only has the outstanding reply sent again. -/
def repeats (s : Session) : Input → Bool
  | .byte b => s.outstanding.isSome && b != Packet.acceptance
  | _ => false

/-- The stop that an input tells the client of for the first time. -/
def told? (s : Session) (i : Input) : Option StopReason :=
  if s.repeats i then none else (Packet.unframe? (s.sends i)).bind StopReason.parse?

/-- The stops that inputs tell the client of, in order. -/
def told (s : Session) : List Input → List StopReason
  | [] => []
  | i :: inputs => (s.told? i).toList ++ (s.step i).told inputs

/-- Whether an input completes a packet with which the client leaves. -/
def detaches (s : Session) : Input → Bool
  | .byte b =>
    match s.command? b with
    | some (.detach _) => true
    | _ => false
  | _ => false

/-- What is kept of the stops accepted so far and in further inputs. When the client leaves, those that are queued are
given up; they are the last that were accepted. -/
def keptFrom (s : Session) (accepted : List StopReason) : List Input → List StopReason
  | [] => accepted
  | i :: inputs =>
    let remaining := if s.detaches i then accepted.take (accepted.length - s.queue.length) else accepted
    (s.step i).keptFrom (remaining ++ (s.accepted? i).toList) inputs

/-- The stops that are accepted in a run and not given up when the client leaves, in order. -/
def kept (s : Session) (inputs : List Input) : List StopReason := s.keptFrom [] inputs

/-- When the client is told of a stop. -/
inductive Occasion (s : Session) (stop : StopReason) : Input → Prop
  | atOnce {i : Input} (runs : s.running = true) (free : s.outstanding = none) (new : s.accepted? i = some stop) :
      Occasion s stop i
  | onAcknowledgement (runs : s.running = true) (waits : s.outstanding.isSome = true)
      (first : s.queue.head? = some stop) : Occasion s stop (.byte Packet.acceptance)
  | insteadOfResuming {b : UInt8} {actions : List (Option Action)} (free : s.outstanding = none)
      (asks : s.command? b = some (.resume actions)) (parsed : actions.all Option.isSome = true)
      (stays : (s.receive b).1 = .ok none) (first : s.queue.head? = some stop) : Occasion s stop (.byte b)

/-- Whether an input completes a packet that lets threads run again: a resumption all of whose actions can be read, or
one with which the client leaves. -/
def LetsRun (s : Session) : Input → Prop
  | .byte b => (∃ actions, s.command? b = some (.resume actions) ∧ actions.all Option.isSome = true) ∨
      ∃ pid, s.command? b = some (.detach pid)
  | _ => False

/-! ## Replies as the client reads them -/

section Reading

variable {before : List UInt8}

/-- A plain reply is no stop reply to the client either. -/
theorem read_plain {payload : Option (List UInt8)} (hb : Packet.opening ∉ before) (h : Plain payload) :
    (Packet.unframe? (before ++ frames payload)).bind StopReason.parse? = none := by
  cases payload with
  | none =>
    rw [frames, List.append_nil, Packet.unframe?_of_not_mem hb]
    rfl
  | some body =>
    cases hu : Packet.unframe? (before ++ frames (some body)) with
    | none => rfl
    | some body' =>
      have same := Packet.eq_of_unframe? hb hu
      rw [same]
      exact h body rfl

/-- A stop reply is read as the stop it is about. -/
theorem read_stop {stop : StopReason} (hb : Packet.opening ∉ before) (h : stop.Valid) :
    (Packet.unframe? (before ++ frames (some stop.written))).bind StopReason.parse? = some stop := by
  rw [frames, Packet.unframe?_frame hb (Packet.unmarked_iff.1 stop.unmarked_written).2]
  exact StopReason.parse?_written h

/-- If a stop is read where a stop reply may be, the stop reply is there and the stop is the one it is about. -/
theorem read_stop? {size : Nat} {stop stop' : StopReason} (hb : Packet.opening ∉ before) (h : stop.Valid)
    (read : (Packet.unframe? (before ++ frames (Reply.render size stop.pieces))).bind StopReason.parse? = some stop') :
    stop' = stop ∧ Reply.render size stop.pieces = some stop.written := by
  cases fits : Reply.render size stop.pieces with
  | none =>
    rw [fits, frames, List.append_nil, Packet.unframe?_of_not_mem hb] at read
    cases read
  | some body =>
    have written := (Reply.render_eq_some_iff.1 fits).1
    rw [stop.encoding?_pieces, Option.some.injEq] at written
    rw [fits, ← written, read_stop hb h] at read
    exact ⟨(Option.some.inj read).symm, by rw [written]⟩

end Reading

theorem sends_eq {s : Session} {i : Input} {bytes : List UInt8} (h : (s.step i).wire = s.wire.append bytes) :
    s.sends i = bytes := by
  simp [sends, h, Wire.append]

theorem told?_eq {s : Session} {i : Input} (bytes : List UInt8) (hr : s.repeats i = false)
    (h : (s.step i).wire = s.wire.append bytes) :
    s.told? i = (Packet.unframe? bytes).bind StopReason.parse? := by
  simp [told?, hr, sends_eq h]

/-! ## What bytes do not tell -/

theorem plain_interruptReply (s : Session) : Plain s.interruptReply :=
  plain_cons_text rfl (by decide) (by decide)

section Byte

variable {s s' : Session} {b : UInt8}

theorem detaches_of_waits {o : Outstanding} (waits : s.outstanding = some o) : s.detaches (.byte b) = false := by
  simp [detaches, command?, waits]

theorem detaches_of_asks {command : Command} (asks : s.command? b = some command)
    (stays : ∀ pid, command ≠ .detach pid) : s.detaches (.byte b) = false := by
  simp only [detaches, asks]
  split
  · rename_i pid heq
    exact absurd (Option.some.inj heq) (stays pid)
  · rfl

theorem repeats_of_free (free : s.outstanding = none) : s.repeats (.byte b) = false := by
  simp [repeats, free]

theorem repeats_of_accepts (accepts : b = Packet.acceptance) : s.repeats (.byte b) = false := by
  simp [repeats, accepts]

/-- A byte that at most a plain reply answers tells of no stop. -/
theorem told?_of_plain {s₁ : Session} {before : List UInt8} {payload : Option (List UInt8)}
    {r : Except SessionError Unit} (once : s.repeats (.byte b) = false) (hs' : (s.step (.byte b)).wire = s'.wire)
    (reply : Replied s₁ payload r s') (order : s.wire.InOrder) (hw : s₁.wire = s.wire.append before)
    (hb : Packet.opening ∉ before) (plain : Plain payload) : s.told? (.byte b) = none := by
  have sent : (s.step (.byte b)).wire = s.wire.append (before ++ frames payload) := by
    rw [hs', reply.wire_eq (by rw [hw]; exact order.append _), hw, Wire.append_append]
  rw [told?_eq _ once sent]
  exact read_plain hb plain

end Byte

end RemoteDebug.Session
