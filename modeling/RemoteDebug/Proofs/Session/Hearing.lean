import RemoteDebug.Proofs.Session.Framing

/-!
# What a session hears

Only a byte that comes while no reply is outstanding goes to the receiver (`Session.feeds`); whatever else comes does
not depend on the receiver and leaves it as it is (`Session.step_withReceiver`). So a packet is heard only if every byte
that was missing has gone to the receiver (`Session.missing_le_fed`), and a frame that goes there in one piece is heard
as one packet (`Session.heard_frame`).
-/

namespace RemoteDebug.Session

open Packet (IsFrame Sendable)

/-- Whether an input is a byte for the receiver. -/
def feeds (s : Session) : Input → Bool
  | .byte _ => s.outstanding.isNone
  | _ => false

/-- How many bytes of a run go to the receiver. -/
def fed (s : Session) : List Input → Nat
  | [] => 0
  | i :: inputs => (s.feeds i).toNat + (s.step i).fed inputs

/-- The body of the packet that an input completes. -/
def packet? (s : Session) : Input → Option (List UInt8)
  | .byte b =>
    match s.outstanding, (s.receiver.step s.packetSize b).2 with
    | none, some (.packet body) => some body
    | _, _ => none
  | _ => none

/-- The bodies of the packets that are completed in a run, in order. -/
def heard (s : Session) : List Input → List (List UInt8)
  | [] => []
  | i :: inputs => (s.packet? i).toList ++ (s.step i).heard inputs

/-- The session with another receiver. -/
def withReceiver (s : Session) (receiver : Packet.Receiver) : Session := { s with receiver }

/-- The outcome with another receiver. -/
def Outcome.withReceiver {α : Type} (r : Outcome α) (receiver : Packet.Receiver) : Outcome α :=
  (r.1, r.2.withReceiver receiver)

variable {s s' : Session} {i : Input} {inputs : List Input} {body : List UInt8}

/-! ## Independence of the receiver -/

section WithReceiver

variable (receiver : Packet.Receiver)

theorem andThen_withReceiver {α β : Type} {r : Outcome α} {f : α → Session → Outcome β}
    (h : ∀ a s, f a (s.withReceiver receiver) = (f a s).withReceiver receiver) :
    (r.withReceiver receiver).andThen f = (r.andThen f).withReceiver receiver := by
  obtain ⟨result, s⟩ := r
  cases result with
  | ok a => exact h a s
  | error => rfl

theorem transmit_withReceiver (bytes : List UInt8) :
    (s.withReceiver receiver).transmit bytes = (s.transmit bytes).withReceiver receiver := by
  have wire : (s.withReceiver receiver).wire = s.wire := rfl
  unfold transmit
  rw [wire]
  split <;> rfl

theorem sendReply?_withReceiver (payload : Option (List UInt8)) :
    (s.withReceiver receiver).sendReply? payload = (s.sendReply? payload).withReceiver receiver := by
  cases payload with
  | none => rfl
  | some payload =>
    simp only [sendReply?, sendReply]
    rw [transmit_withReceiver]
    exact andThen_withReceiver receiver fun _ _ => rfl

theorem sendStop_withReceiver (stop : StopReason) :
    (s.withReceiver receiver).sendStop stop = (s.sendStop stop).withReceiver receiver :=
  sendReply?_withReceiver (s := s.halt stop) receiver _

theorem reportStop_withReceiver (stop : StopReason) :
    (s.withReceiver receiver).reportStop stop = (s.reportStop stop).withReceiver receiver := by
  unfold reportStop
  have running : (s.withReceiver receiver).running = s.running := rfl
  have outstanding : (s.withReceiver receiver).outstanding = s.outstanding := rfl
  rw [running, outstanding]
  split
  · exact sendStop_withReceiver receiver stop
  · rfl

theorem receiveAck_withReceiver (o : Outstanding) (b : UInt8) :
    (s.withReceiver receiver).receiveAck o b = (s.receiveAck o b).withReceiver receiver := by
  have running : (s.withReceiver receiver).running = s.running := rfl
  have queue : (s.withReceiver receiver).queue = s.queue := rfl
  unfold receiveAck
  split
  · exact transmit_withReceiver (s := { s with outstanding := some _ }) receiver o.frame
  · dsimp only
    rw [running, queue]
    split
    · exact sendReply?_withReceiver (s := { s with outstanding := none }.haltAll) receiver _
    · split
      · split
        · rfl
        · exact sendStop_withReceiver (s := { s with outstanding := none, queue := _ }) receiver _
      · rfl

theorem spawn_withReceiver (inferior parent child : UInt64) (cap : Kernel.ThreadCap) :
    (s.withReceiver receiver).spawn inferior parent child cap =
      (s.spawn inferior parent child cap).withReceiver receiver := by
  have debuggee : (s.withReceiver receiver).debuggee = s.debuggee := rfl
  unfold spawn
  rw [debuggee]
  split
  · rfl
  · split
    · rfl
    · split
      · rfl
      · rename_i d _
        show (reportStop (({ s with debuggee := d } : Session).suspendAll.withReceiver receiver) _).andThen _ = _
        rw [reportStop_withReceiver]
        exact andThen_withReceiver receiver fun _ _ => rfl

/-- Whatever is no byte for the receiver does not depend on it. -/
theorem step_withReceiver (h : s.feeds i = false) :
    (s.withReceiver receiver).step i = (s.step i).withReceiver receiver := by
  have debuggee : (s.withReceiver receiver).debuggee = s.debuggee := rfl
  cases i with
  | byte b =>
    cases waits : s.outstanding with
    | none => simp [feeds, waits] at h
    | some o =>
      have waits' : (s.withReceiver receiver).outstanding = some o := waits
      have heard : (s.withReceiver receiver).receive b = (s.receive b).withReceiver receiver := by
        simp only [receive, waits, waits', receiveAck_withReceiver]
        exact andThen_withReceiver receiver fun _ _ => rfl
      exact congrArg Prod.snd heard
  | fault inferior thread fault =>
    have noted : (s.withReceiver receiver).fault inferior thread fault =
        (s.fault inferior thread fault).withReceiver receiver := by
      unfold Session.fault
      rw [debuggee]
      split
      · rfl
      · exact reportStop_withReceiver (s := s.suspendAll) receiver _
    exact congrArg Prod.snd noted
  | spawn inferior parent child tcb =>
    exact congrArg Prod.snd
      (spawn_withReceiver (s := { s with debuggee := (s.debuggee.makeThread tcb).2 }) receiver inferior parent child _)
  | exit inferior thread =>
    have noted : (s.withReceiver receiver).exit inferior thread =
        (s.exit inferior thread).withReceiver receiver := by
      have suspended : (s.withReceiver receiver).suspendAll.debuggee = s.suspendAll.debuggee := rfl
      unfold Session.exit
      rw [debuggee]
      split
      · rfl
      · dsimp only
        rw [suspended]
        split
        · rfl
        · exact reportStop_withReceiver (s := { s.suspendAll with debuggee := _ }) receiver _
    exact congrArg Prod.snd noted
  | addInferior | addThread | disable | wire => rfl

end WithReceiver

/-! ## Bytes for the receiver -/

section Feeds

theorem of_feeds (h : s.feeds i = true) : ∃ b, i = .byte b ∧ s.outstanding = none := by
  cases i with
  | byte b => exact ⟨b, rfl, Option.isNone_iff_eq_none.1 h⟩
  | _ => cases h

theorem receiver_of_not_feeds (h : s.feeds i = false) : (s.step i).receiver = s.receiver := by
  have same := congrArg receiver (step_withReceiver s.receiver h)
  exact same

theorem receiver_of_unfed (h : s.fed inputs = 0) : (s.run inputs).receiver = s.receiver := by
  induction inputs generalizing s with
  | nil => rfl
  | cons i inputs ih =>
    simp only [fed, Nat.add_eq_zero_iff, Bool.toNat_eq_zero] at h
    exact (ih h.2).trans (receiver_of_not_feeds h.1)

theorem run_withReceiver (receiver : Packet.Receiver) (h : s.fed inputs = 0) :
    (s.withReceiver receiver).run inputs = (s.run inputs).withReceiver receiver := by
  induction inputs generalizing s with
  | nil => rfl
  | cons i inputs ih =>
    simp only [fed, Nat.add_eq_zero_iff, Bool.toNat_eq_zero] at h
    rw [run_cons, step_withReceiver receiver h.1, ih h.2, run_cons]

theorem unfed_withReceiver (receiver : Packet.Receiver) (h : s.fed inputs = 0) :
    (s.withReceiver receiver).fed inputs = 0 := by
  induction inputs generalizing s with
  | nil => rfl
  | cons i inputs ih =>
    have feeds : (s.withReceiver receiver).feeds i = s.feeds i := by cases i <;> rfl
    simp only [fed, Nat.add_eq_zero_iff, Bool.toNat_eq_zero] at h ⊢
    rw [feeds, step_withReceiver receiver h.1]
    exact ⟨h.1, ih h.2⟩

theorem fed_append (s : Session) (a b : List Input) : s.fed (a ++ b) = s.fed a + (s.run a).fed b := by
  induction a generalizing s with
  | nil => simp [fed]
  | cons i a ih => simp only [List.cons_append, fed, ih, run_cons, Nat.add_assoc]

theorem fed_le_length (s : Session) (inputs : List Input) : s.fed inputs ≤ inputs.length := by
  induction inputs generalizing s with
  | nil => exact Nat.le_refl 0
  | cons i inputs ih =>
    have one := Bool.toNat_le (s.feeds i)
    have rest := ih (s.step i)
    simp only [fed, List.length_cons]
    omega

/-- While a reply is outstanding the next byte is none for the receiver. -/
theorem fed_lt_length {bytes : List UInt8} (waits : s.outstanding ≠ none) (h : bytes ≠ []) :
    s.fed (bytes.map .byte) < bytes.length := by
  obtain ⟨b, rest, rfl⟩ := List.exists_cons_of_ne_nil h
  have rest := (s.step (.byte b)).fed_le_length (rest.map .byte)
  have first : s.feeds (.byte b) = false := by
    simp only [feeds, Option.isNone_eq_false_iff, Option.isSome_iff_ne_none]
    exact waits
  rw [List.length_map] at rest
  simp only [List.map_cons, fed, first, Bool.toNat_false, List.length_cons]
  omega

end Feeds

/-! ## Packets -/

section Heard

theorem packet?_eq_some_iff {b : UInt8} :
    s.packet? (.byte b) = some body ↔
      s.outstanding = none ∧ (s.receiver.step s.packetSize b).2 = some (.packet body) := by
  simp only [packet?]
  split
  · rename_i free heard
    simp [free, heard]
  · rename_i other
    simp only [reduceCtorEq, false_iff, not_and]
    exact fun free heard => other body free heard

theorem packet?_of_not_feeds (h : s.feeds i = false) : s.packet? i = none := by
  cases i with
  | byte b =>
    refine Option.eq_none_iff_forall_ne_some.2 fun body found => ?_
    simp [feeds, (packet?_eq_some_iff.1 found).1] at h
  | _ => rfl

theorem heard_append (s : Session) (a b : List Input) : s.heard (a ++ b) = s.heard a ++ (s.run a).heard b := by
  induction a generalizing s with
  | nil => rfl
  | cons i a ih => simp only [List.cons_append, heard, ih, run_cons, List.append_assoc]

theorem heard_of_unfed (h : s.fed inputs = 0) : s.heard inputs = [] := by
  induction inputs generalizing s with
  | nil => rfl
  | cons i inputs ih =>
    simp only [fed, Nat.add_eq_zero_iff, Bool.toNat_eq_zero] at h
    simp [heard, packet?_of_not_feeds h.1, ih h.2]

/-- A packet is heard only if all the bytes that were missing have gone to the receiver. -/
theorem missing_le_fed (h : body ∈ s.heard inputs) : s.receiver.missing body ≤ s.fed inputs := by
  induction inputs generalizing s with
  | nil => cases h
  | cons i inputs ih =>
    simp only [heard, List.mem_append, Option.mem_toList] at h
    simp only [fed]
    cases feeds : s.feeds i with
    | false =>
      rw [packet?_of_not_feeds feeds] at h
      have rest := ih (h.resolve_left nofun)
      rw [receiver_of_not_feeds feeds] at rest
      simpa using rest
    | true =>
      obtain ⟨b, rfl, free⟩ := of_feeds feeds
      rw [Bool.toNat_true]
      rcases h with now | later
      · have last := Packet.Receiver.missing_of_packet (packet?_eq_some_iff.1 now).2
        omega
      · have rest := ih later
        have step := Packet.Receiver.missing_step s.packetSize body s.receiver b
        rw [receiver_step_of_free free] at rest
        omega

/-- Bytes that complete nothing are taken in silence. -/
theorem run_of_silent {bytes : List UInt8} {start : Nat} (free : s.outstanding = none)
    (silent : (s.receiver.run s.packetSize start bytes).2 = []) :
    s.run (bytes.map .byte) = s.withReceiver (s.receiver.run s.packetSize start bytes).1 ∧
      s.heard (bytes.map .byte) = [] := by
  induction bytes generalizing s start with
  | nil => exact ⟨rfl, rfl⟩
  | cons b bytes ih =>
    simp only [Packet.Receiver.run, List.append_eq_nil_iff, Option.toList_eq_nil_iff, Option.map_eq_none_iff] at silent
    have step : s.step (.byte b) = s.withReceiver (s.receiver.step s.packetSize b).1 :=
      congrArg Prod.snd (receive_incomplete free silent.1)
    have nothing : s.packet? (.byte b) = none := by
      refine Option.eq_none_iff_forall_ne_some.2 fun body found => ?_
      rw [(packet?_eq_some_iff.1 found).2] at silent
      cases silent.1
    obtain ⟨run, heard⟩ := ih (s := s.withReceiver (s.receiver.step s.packetSize b).1) free silent.2
    rw [List.map_cons, run_cons, Session.heard, step, nothing]
    exact ⟨run, heard⟩

/-- A body that is closed is taken in silence up to the last byte behind its closing mark. -/
theorem run_closing (free : s.outstanding = none) (hopen : s.receiver.Open) (sendable : Sendable s.packetSize body)
    (high low : UInt8) :
    s.run ((Packet.opening :: body ++ [Packet.closing, high, low]).map .byte) =
        (s.withReceiver (.checksumLow body high)).step (.byte low) ∧
      s.heard ((Packet.opening :: body ++ [Packet.closing, high, low]).map .byte) =
        ((s.withReceiver (.checksumLow body high)).packet? (.byte low)).toList := by
  have front := Packet.Receiver.run_front hopen sendable high 0
  obtain ⟨run, silent⟩ := run_of_silent free (congrArg Prod.snd front)
  have split : Packet.opening :: body ++ [Packet.closing, high, low] =
      (Packet.opening :: body ++ [Packet.closing, high]) ++ [low] := by simp
  rw [split, List.map_append, heard_append, run_append, run, silent, front]
  exact ⟨rfl, List.append_nil _⟩

/-- The last digit of a checksum that is right completes the packet. -/
theorem step_checksumLow {size : Nat} {high low : UInt8} (sum : Hex.toByte? high low = some (Packet.checksum body)) :
    ((Packet.Receiver.checksumLow body high).step size low).2 = some (.packet body) := by
  simp [Packet.Receiver.step, Packet.Receiver.verdict, sum]

/-- A packet is acknowledged, and answered by a frame at most. -/
theorem wire_of_packet {b : UInt8} (order : s.wire.InOrder) (free : s.outstanding = none)
    (heard : (s.receiver.step s.packetSize b).2 = some (.packet body)) :
    ∃ reply, (s.step (.byte b)).wire = s.wire.append (acknowledgement body ++ frames reply) := by
  have h : Took s b (s.receive b).1 (s.step (.byte b)) := took_receive s b
  generalize (s.receive b).1 = r at h
  generalize s.step (.byte b) = s' at h ⊢
  have same {body' : List UInt8} {receiver : Packet.Receiver}
      (heard' : s.receiver.step s.packetSize b = (receiver, some (.packet body'))) : body' = body := by
    rw [heard'] at heard
    exact Packet.Receiver.Event.packet.inj (Option.some.inj heard)
  have answered {s₁ s₂ : Session} {payload : Option (List UInt8)} {r : Except SessionError Unit}
      (reply : Replied s₁ payload r s₂) (hw : s₁.wire = s.wire.append (acknowledgement body)) :
      ∃ reply, s₂.wire = s.wire.append (acknowledgement body ++ frames reply) := by
    refine ⟨payload, ?_⟩
    rw [reply.wire_eq (hw ▸ order.append _), hw, Wire.append_append]
  cases h with
  | again waits | acknowledged waits | nextStop waits | lateInterrupt waits => cases free.symm.trans waits
  | incomplete _ heard' | interrupt _ heard' | refused _ heard' =>
    rw [heard'] at heard
    cases heard
  | unheard _ _ broken => exact absurd order broken
  | resumed _ heard' sends => exact ⟨none, by rw [← same heard']; simpa [frames] using sends order⟩
  | answered _ heard' sends _ _ _ reply | stopInstead _ heard' sends _ _ _ reply | left _ heard' sends _ reply
  | stuck _ heard' sends _ reply =>
    have sent := answered reply (by rw [← same heard']; exact sends order)
    exact sent

/-- A frame is heard as one packet. -/
theorem heard_frame {bytes : List UInt8} (free : s.outstanding = none) (hopen : s.receiver.Open)
    (sendable : Sendable s.packetSize body) (framed : IsFrame body bytes) :
    s.heard (bytes.map .byte) = [body] ∧
      (s.wire.InOrder → ∃ reply, (s.run (bytes.map .byte)).wire =
        s.wire.append (acknowledgement body ++ frames reply)) := by
  obtain ⟨high, low, rfl, sum⟩ := framed
  obtain ⟨run, heard⟩ := run_closing free hopen sendable high low
  have complete : (s.withReceiver (.checksumLow body high)).packet? (.byte low) = some body :=
    packet?_eq_some_iff.2 ⟨free, step_checksumLow sum⟩
  rw [run, heard, complete]
  exact ⟨rfl, fun order => wire_of_packet (s := s.withReceiver _) order free (step_checksumLow sum)⟩

end Heard

end RemoteDebug.Session
