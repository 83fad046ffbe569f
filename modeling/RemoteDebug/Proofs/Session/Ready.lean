import RemoteDebug.Proofs.Debuggee.Names
import RemoteDebug.Proofs.Session.Receiving
import RemoteDebug.Proofs.Session.Reporting

/-!
# What every run keeps

While threads run and no reply is outstanding the queue is empty (`Session.Drained`), whatever the wire does. On a wire
in order, whatever is told names threads and whatever is heard holds no opening mark (`Session.Legible`); and if besides
every stop reply has room in a packet, all of it makes a session that tells every stop in full (`Session.Ready`).
-/

namespace RemoteDebug

/-! ## What the receiver holds -/

namespace Packet.Receiver

/-- The mark that opens a packet stands nowhere inside one. -/
def Clean : Receiver → Prop
  | .outside => True
  | .inside received => opening ∉ received.toList
  | .checksumHigh body | .checksumLow body _ => opening ∉ body

theorem clean_step {receiver next : Receiver} {size : Nat} {b : UInt8} {event : Option Event} (h : receiver.Clean)
    (heard : receiver.step size b = (next, event)) :
    next.Clean ∧ ∀ body, event = some (.packet body) → opening ∉ body := by
  cases receiver with
  | outside =>
    simp only [step] at heard
    split at heard
    · cases heard
      exact ⟨by simp [Clean], by simp⟩
    · split at heard
      · cases heard
        exact ⟨trivial, by simp⟩
      · cases heard
        exact ⟨trivial, by simp⟩
  | inside received =>
    simp only [step] at heard
    split at heard
    · cases heard
      exact ⟨by simp [Clean], by simp⟩
    · rename_i hb
      split at heard
      · cases heard
        exact ⟨h, by simp⟩
      · split at heard
        · cases heard
          exact ⟨trivial, by simp⟩
        · cases heard
          refine ⟨?_, by simp⟩
          simp only [Clean, Array.toList_push, List.mem_append, List.mem_singleton, not_or]
          exact ⟨h, Ne.symm hb⟩
  | checksumHigh body =>
    cases heard
    exact ⟨h, by simp⟩
  | checksumLow body high =>
    cases heard
    refine ⟨trivial, fun body' hbody => ?_⟩
    simp only [verdict, Option.some.injEq] at hbody
    split at hbody
    · cases hbody
      exact h
    · cases hbody

end Packet.Receiver

namespace Session

/-- The acknowledgement of a packet opens none. -/
theorem opening_not_mem_acknowledgement {s : Session} {b : UInt8} {next : Packet.Receiver} {body : List UInt8}
    (clean : s.receiver.Clean) (heard : s.receiver.step s.packetSize b = (next, some (.packet body))) :
    Packet.opening ∉ acknowledgement body := by
  have h := (Packet.Receiver.clean_step clean heard).2 body rfl
  have ne : Packet.opening ≠ Packet.acceptance := by decide
  unfold acknowledgement
  simp only [List.mem_cons, not_or]
  refine ⟨ne, ?_⟩
  match body with
  | [] | [_] | [_, _] => simp [Packet.splitSequenceId]
  | a :: b :: c :: rest =>
    simp only [List.mem_cons, not_or] at h
    by_cases hc : c = ':'.toUInt8
    · simp [Packet.splitSequenceId, hc, h.1, h.2.1]
    · simp [Packet.splitSequenceId, hc]

/-! ## The queue while threads run -/

/-- Nothing waits in the queue that could be told at once. -/
def Drained (s : Session) : Prop := s.running = true → s.outstanding = none → s.queue = []

theorem drained_of_not_running {s : Session} (h : s.running = false) : s.Drained := by
  intro hr
  rw [h] at hr
  cases hr

theorem Replied.drained {s s' : Session} {payload : Option (List UInt8)} {r : Except SessionError Unit}
    (h : Replied s payload r s') (hd : s.Drained) : s'.Drained := by
  cases h with
  | sent _ _ =>
    intro _ ho
    cases ho
  | failed _ => exact hd

theorem Took.drained {s s' : Session} {b : UInt8} {r : Except SessionError (Option SessionEvent)}
    (h : Took s b r s') (hd : s.Drained) : s'.Drained := by
  cases h with
  | again =>
    intro _ ho
    cases ho
  | acknowledged waits accepts calm empty => exact fun hr _ => empty hr
  | nextStop _ _ _ _ _ reply => exact reply.drained (drained_of_not_running rfl)
  | lateInterrupt _ _ _ reply => exact reply.drained (drained_of_not_running rfl)
  | incomplete => exact hd
  | interrupt _ _ reply => exact reply.drained (drained_of_not_running rfl)
  | refused => exact hd
  | unheard => exact hd
  | answered _ _ _ _ _ _ reply => exact reply.drained hd
  | resumed _ _ _ _ _ empty => exact fun _ _ => empty
  | stopInstead _ _ _ _ _ _ reply => exact reply.drained (drained_of_not_running rfl)
  | left _ _ _ _ reply =>
    cases reply with
    | sent _ _ =>
      intro _ ho
      cases ho
  | stuck _ _ _ _ reply => exact reply.drained fun _ _ => rfl

theorem Noted.drained {s s' : Session} {i : Input} {accepted : Option StopReason} (h : Noted s i accepted s')
    (hd : s.Drained) : s'.Drained := by
  cases h with
  | ignored _ _ _ => exact hd
  | reported _ _ _ _ _ report =>
    cases report with
    | told _ _ reply => exact reply.drained (drained_of_not_running rfl)
    | queued waits => exact fun hr ho => absurd ho (waits hr)

theorem drained_step {s : Session} (i : Input) (hd : s.Drained) : (s.step i).Drained := by
  cases i with
  | byte b => exact (took_receive s b).drained hd
  | fault | spawn | exit => exact Noted.drained (noted_of_reports trivial) hd
  | addInferior | addThread | disable | wire => exact hd

theorem drained_start {c : Config} {wire : Wire} {s : Session} (h : start? c wire Kernel.empty = .ok s) :
    s.Drained := by
  obtain ⟨size, rfl⟩ := eq_of_start? h
  exact fun _ _ => rfl

theorem drained_run {c : Config} {wire : Wire} {s : Session} (hstart : start? c wire Kernel.empty = .ok s)
    (inputs : List Input) : (s.run inputs).Drained :=
  run_induction (P := Drained) (fun _ i _ h => drained_step i h) (drained_start hstart)

/-! ## The packet size -/

theorem Took.packetSize_eq {s s' : Session} {b : UInt8} {r : Except SessionError (Option SessionEvent)}
    (h : Took s b r s') : s'.packetSize = s.packetSize := by
  cases h with
  | again | acknowledged | incomplete | refused | unheard | resumed => rfl
  | nextStop _ _ _ _ _ reply | lateInterrupt _ _ _ reply | interrupt _ _ reply | answered _ _ _ _ _ _ reply
  | stopInstead _ _ _ _ _ _ reply | stuck _ _ _ _ reply => exact reply.packetSize_eq
  | left _ _ _ _ reply =>
    have same := reply.packetSize_eq
    exact same

theorem Noted.packetSize_eq {s s' : Session} {i : Input} {accepted : Option StopReason} (h : Noted s i accepted s') :
    s'.packetSize = s.packetSize := by
  cases h with
  | ignored => rfl
  | reported _ _ _ _ _ report =>
    cases report with
    | told _ _ reply => exact reply.packetSize_eq
    | queued => rfl

theorem packetSize_step (s : Session) (i : Input) : (s.step i).packetSize = s.packetSize := by
  cases i with
  | byte b => exact (took_receive s b).packetSize_eq
  | fault | spawn | exit => exact Noted.packetSize_eq (noted_of_reports trivial)
  | addInferior | addThread | disable | wire => rfl

theorem packetSize_run (s : Session) (inputs : List Input) : (s.run inputs).packetSize = s.packetSize :=
  run_induction (P := fun t => t.packetSize = s.packetSize) (fun t i _ h => (t.packetSize_step i).trans h) rfl

/-! ## What is told and heard on a wire in order -/

/-- An input that leaves a wire in order as it is. -/
def Input.KeepsOrder : Input → Prop
  | .wire budget flushFails => budget = none ∧ flushFails = false
  | _ => True

instance : DecidablePred Input.KeepsOrder
  | .wire budget flushFails => inferInstanceAs (Decidable (budget = none ∧ flushFails = false))
  | .byte _ | .fault _ _ _ | .spawn _ _ _ _ | .exit _ _ | .addInferior _ _ | .addThread _ _ _ | .disable _ =>
    isTrue trivial

/-- What every run keeps on a wire in order, whatever has room in a packet. -/
structure Legible (s : Session) : Prop where
  order : s.wire.InOrder
  named : s.debuggee.registry.Named
  valid : ∀ stop ∈ s.queue, stop.Valid
  clean : s.receiver.Clean

theorem legible_start {c : Config} {wire : Wire} {s : Session} (h : start? c wire Kernel.empty = .ok s)
    (order : wire.InOrder) : s.Legible := by
  obtain ⟨size, rfl⟩ := eq_of_start? h
  exact ⟨order, Registry.named_empty _ _ _, by simp, trivial⟩

theorem Replied.legible {s s' : Session} {payload : Option (List UInt8)} {r : Except SessionError Unit}
    (h : Replied s payload r s') (hs : s.Legible) : s'.Legible := by
  have order : s'.wire.InOrder := by
    rw [h.wire_eq hs.order]
    exact hs.order.append _
  cases h with
  | sent _ _ => exact ⟨order, hs.named, hs.valid, hs.clean⟩
  | failed _ => exact ⟨order, hs.named, hs.valid, hs.clean⟩

section Step

variable {s s' : Session} {i : Input} {accepted : Option StopReason}

theorem legible_took {r : Except SessionError (Option SessionEvent)} {b : UInt8} (h : Took s b r s') (hs : s.Legible) :
    s'.Legible := by
  -- a wire to which bytes are added is in order still
  have orderly {wire : Wire} {bytes : List UInt8} (sends : s.wire.InOrder → wire = s.wire.append bytes) :
      wire.InOrder := by
    rw [sends hs.order]
    exact hs.order.append bytes
  have rest {stop : StopReason} {queue : List StopReason} (queued : s.queue = stop :: queue) :
      ∀ stop ∈ queue, stop.Valid := fun stop' h => hs.valid stop' (by rw [queued]; exact List.mem_cons_of_mem _ h)
  have named (ops : List Operation) := Debuggee.named_performAll (d := s.debuggee) ops hs.named
  have selected (stop : StopReason) {s₁ : Session} (h : s₁.debuggee.registry.Named) :
      (s₁.halt stop).debuggee.registry.Named := by
    simp only [halt]
    split <;> exact h
  cases h with
  | again _ _ sends => exact ⟨orderly sends, hs.named, hs.valid, hs.clean⟩
  | acknowledged => exact ⟨hs.order, hs.named, hs.valid, hs.clean⟩
  | nextStop _ _ _ _ queued reply =>
    exact reply.legible ⟨hs.order, selected _ hs.named, rest queued, hs.clean⟩
  | lateInterrupt _ _ _ reply =>
    exact reply.legible ⟨hs.order, hs.named, hs.valid, hs.clean⟩
  | incomplete _ heard =>
    exact ⟨hs.order, hs.named, hs.valid, (Packet.Receiver.clean_step hs.clean heard).1⟩
  | interrupt _ heard reply =>
    exact reply.legible ⟨hs.order, hs.named, hs.valid,
      (Packet.Receiver.clean_step hs.clean heard).1⟩
  | refused _ heard sends =>
    exact ⟨orderly sends, hs.named, hs.valid, (Packet.Receiver.clean_step hs.clean heard).1⟩
  | unheard _ _ broken => exact absurd hs.order broken
  | answered _ heard sends _ _ _ reply =>
    exact reply.legible ⟨orderly sends, named _, hs.valid,
      (Packet.Receiver.clean_step hs.clean heard).1⟩
  | @resumed _ _ _ actions _ heard sends =>
    exact ⟨orderly sends, named [.act (actions.filterMap id), .resumeWoken], hs.valid,
      (Packet.Receiver.clean_step hs.clean heard).1⟩
  | @stopInstead _ _ _ actions _ _ _ _ _ heard sends _ _ queued reply =>
    exact reply.legible ⟨orderly sends,
      selected _ (named [.act (actions.filterMap id)]), rest queued, (Packet.Receiver.clean_step hs.clean heard).1⟩
  | left _ heard sends _ reply =>
    have after := reply.legible ⟨orderly sends, named [.release], by simp,
      (Packet.Receiver.clean_step hs.clean heard).1⟩
    exact ⟨after.order, after.named, after.valid, after.clean⟩
  | stuck _ heard sends _ reply =>
    exact reply.legible ⟨orderly sends, named [.release], by simp,
      (Packet.Receiver.clean_step hs.clean heard).1⟩

theorem registered_valid {s : Session} (hs : s.Legible) {before : List Operation} {stop : StopReason}
    (registered : ∀ t ∈ stop.threads, t ∈ (s.debuggee.performAll before).registry.threads) : stop.Valid := by
  intro t ht
  exact (Debuggee.named_performAll before hs.named).valid (registered t ht)

theorem legible_noted (h : Noted s i accepted s') (hs : s.Legible) : s'.Legible := by
  have named (ops : List Operation) := Debuggee.named_performAll (d := s.debuggee) ops hs.named
  cases h with
  | ignored ops _ _ => exact ⟨hs.order, named ops, hs.valid, hs.clean⟩
  | @reported before after stop r _ _ _ registered report =>
    have valid := registered_valid hs registered
    have hnamed : (((s.debuggee.performAll before).perform .suspendAll).performAll after).registry.Named :=
      Debuggee.named_performAll after (Debuggee.named_perform .suspendAll (named before))
    cases report with
    | told runs free reply =>
      refine reply.legible ⟨hs.order, ?_, hs.valid, hs.clean⟩
      simp only [halt]
      split <;> exact hnamed
    | queued waits =>
      refine ⟨hs.order, hnamed, fun stop' h => ?_, hs.clean⟩
      rcases List.mem_append.1 h with h | h
      · exact hs.valid stop' h
      · rw [List.mem_singleton.1 h]
        exact valid

theorem legible_step (hs : s.Legible) (i : Input) (hi : i.KeepsOrder) : (s.step i).Legible := by
  cases i with
  | byte b => exact legible_took (took_receive s b) hs
  | fault | spawn | exit => exact legible_noted (noted_of_reports trivial) hs
  | addInferior | addThread | disable => exact ⟨hs.order, Debuggee.named_perform _ hs.named, hs.valid, hs.clean⟩
  | wire budget flushFails => exact ⟨hi, hs.named, hs.valid, hs.clean⟩

end Step

/-! ## Room for every stop reply -/

/-- What every run keeps on a wire in order with room for every stop reply. -/
structure Ready (s : Session) : Prop extends Legible s where
  room : 86 ≤ s.packetSize
  drained : s.Drained

theorem ready_start {c : Config} {wire : Wire} {s : Session} (h : start? c wire Kernel.empty = .ok s)
    (order : wire.InOrder) (room : 86 ≤ s.packetSize) : s.Ready :=
  ⟨legible_start h order, room, drained_start h⟩

section Run

variable {s : Session} {inputs : List Input}

theorem ready_step (hs : s.Ready) (i : Input) (hi : i.KeepsOrder) : (s.step i).Ready :=
  ⟨legible_step hs.toLegible i hi, s.packetSize_step i ▸ hs.room, drained_step i hs.drained⟩

theorem legible_run (hs : s.Legible) (hi : ∀ i ∈ inputs, i.KeepsOrder) : (s.run inputs).Legible :=
  run_induction (P := Legible) (fun _ i hmem hs => legible_step hs i (hi i hmem)) hs

theorem ready_run (hs : s.Ready) (hi : ∀ i ∈ inputs, i.KeepsOrder) : (s.run inputs).Ready :=
  run_induction (P := Ready) (fun _ i hmem hs => ready_step hs i (hi i hmem)) hs

end Run

end Session
end RemoteDebug
