import RemoteDebug.Proofs.Session.Run

/-!
# Bytes of the client

What taking a byte can come to (`Session.Took`), case by case with the reply that answers it. What runs keep is proved
of bytes by cases over this relation.
-/

namespace RemoteDebug.Session

/-- The command that a byte completes, if no reply is outstanding. -/
def command? (s : Session) (b : UInt8) : Option Command :=
  match s.outstanding, (s.receiver.step s.packetSize b).2 with
  | none, some (.packet body) => (Command.parse (Packet.splitSequenceId body).2).toOption
  | _, _ => none

/-- What is sent at once when a packet has arrived: the acknowledgement, with the sequence id if the packet has one. -/
def acknowledgement (body : List UInt8) : List UInt8 :=
  Packet.acceptance :: match (Packet.splitSequenceId body).1 with
    | some (a, b) => [a, b]
    | none => []

/-- What taking a byte can come to: the first four while a reply is outstanding, the others while none is. -/
inductive Took (s : Session) (b : UInt8) : Except SessionError (Option SessionEvent) → Session → Prop
  | again {o : Outstanding} {r : Except SessionError Unit} {wire : Wire} (waits : s.outstanding = some o)
      (refuses : b ≠ Packet.acceptance) (sends : s.wire.InOrder → wire = s.wire.append o.frame) :
      Took s b (r.map fun _ => none)
        { s with outstanding := some { o with interrupted := o.interrupted || b = Packet.interruption }, wire }
  | acknowledged {o : Outstanding} (waits : s.outstanding = some o) (accepts : b = Packet.acceptance)
      (calm : o.interrupted = false) (empty : s.running = true → s.queue = []) :
      Took s b (.ok none) { s with outstanding := none }
  | nextStop {o : Outstanding} {stop : StopReason} {queue : List StopReason} {r : Except SessionError Unit}
      {s' : Session} (waits : s.outstanding = some o) (accepts : b = Packet.acceptance) (calm : o.interrupted = false)
      (runs : s.running = true) (queued : s.queue = stop :: queue)
      (reply : Replied ({ s with outstanding := none, queue }.halt stop) (s.render stop.pieces) r s') :
      Took s b (r.map fun _ => none) s'
  | lateInterrupt {o : Outstanding} {r : Except SessionError Unit} {s' : Session} (waits : s.outstanding = some o)
      (accepts : b = Packet.acceptance) (asked : o.interrupted = true)
      (reply : Replied { s with outstanding := none }.haltAll s.interruptReply r s') :
      Took s b (r.map fun _ => none) s'
  | incomplete {receiver : Packet.Receiver} (free : s.outstanding = none)
      (heard : s.receiver.step s.packetSize b = (receiver, none)) : Took s b (.ok none) { s with receiver }
  | interrupt {receiver : Packet.Receiver} {r : Except SessionError Unit} {s' : Session} (free : s.outstanding = none)
      (heard : s.receiver.step s.packetSize b = (receiver, some .interrupt))
      (reply : Replied { s with receiver }.haltAll s.interruptReply r s') : Took s b (r.map fun _ => none) s'
  | refused {receiver : Packet.Receiver} {claimed : Option UInt8} {computed : UInt8} {r : Except SessionError Unit}
      {wire : Wire} (free : s.outstanding = none)
      (heard : s.receiver.step s.packetSize b = (receiver, some (.mismatch claimed computed)))
      (sends : s.wire.InOrder → wire = s.wire.append [Packet.refusal]) :
      Took s b (r.map fun _ => none) { s with receiver, wire }
  | unheard {receiver : Packet.Receiver} {body : List UInt8} {e : SessionError} {wire : Wire}
      (free : s.outstanding = none) (heard : s.receiver.step s.packetSize b = (receiver, some (.packet body)))
      (broken : ¬ s.wire.InOrder) : Took s b (.error e) { s with receiver, wire }
  | answered {receiver : Packet.Receiver} {body : List UInt8} {wire : Wire} {ops : List Operation} {listing : List Ptid}
      {payload : Option (List UInt8)} {r : Except SessionError Unit} {s' : Session} (free : s.outstanding = none)
      (heard : s.receiver.step s.packetSize b = (receiver, some (.packet body)))
      (sends : s.wire.InOrder → wire = s.wire.append (acknowledgement body))
      (stays : ∀ pid, s.command? b ≠ some (.detach pid)) (quiet : ∀ op ∈ ops, op.Quiet) (plain : Plain payload)
      (reply : Replied { s with receiver, wire, debuggee := s.debuggee.performAll ops, listing } payload r s')
      (sound : Sound s payload) (selects : ∀ t, .select t ∈ ops → t ∈ s.debuggee.registry.threads)
      (listed : ∀ t ∈ listing, t ∈ s.listing ∨ t ∈ s.debuggee.registry.threads) :
      Took s b (r.map fun _ => none) s'
  | resumed {receiver : Packet.Receiver} {body : List UInt8} {wire : Wire} {actions : List (Option Action)}
      (free : s.outstanding = none) (heard : s.receiver.step s.packetSize b = (receiver, some (.packet body)))
      (sends : s.wire.InOrder → wire = s.wire.append (acknowledgement body))
      (asks : s.command? b = some (.resume actions)) (parsed : actions.all Option.isSome = true)
      (empty : s.queue = []) :
      Took s b (.ok (some .resumed))
        { s with
          receiver
          wire
          debuggee := (s.debuggee.perform (.act (actions.filterMap id))).resumeWoken
          running := true }
  | stopInstead {receiver : Packet.Receiver} {body : List UInt8} {wire : Wire} {actions : List (Option Action)}
      {stop : StopReason} {queue : List StopReason} {r : Except SessionError Unit} {s' : Session}
      (free : s.outstanding = none) (heard : s.receiver.step s.packetSize b = (receiver, some (.packet body)))
      (sends : s.wire.InOrder → wire = s.wire.append (acknowledgement body))
      (asks : s.command? b = some (.resume actions)) (parsed : actions.all Option.isSome = true)
      (queued : s.queue = stop :: queue)
      (reply : Replied
        ({ s with receiver, wire, debuggee := s.debuggee.perform (.act (actions.filterMap id)), queue }.halt stop)
        (s.render stop.pieces) r s') :
      Took s b (r.map fun _ => none) s'
  | left {receiver : Packet.Receiver} {body : List UInt8} {wire : Wire} {pid : Option Nat} {s' : Session}
      (free : s.outstanding = none) (heard : s.receiver.step s.packetSize b = (receiver, some (.packet body)))
      (sends : s.wire.InOrder → wire = s.wire.append (acknowledgement body))
      (asks : s.command? b = some (.detach pid))
      (reply : Replied { s with receiver, wire, debuggee := s.debuggee.release, queue := [] }
        (s.render [.text (ascii "OK")]) (.ok ()) s') :
      Took s b (.ok (some .detached)) { s' with running := true }
  | stuck {receiver : Packet.Receiver} {body : List UInt8} {wire : Wire} {pid : Option Nat} {e : SessionError}
      {s' : Session} (free : s.outstanding = none)
      (heard : s.receiver.step s.packetSize b = (receiver, some (.packet body)))
      (sends : s.wire.InOrder → wire = s.wire.append (acknowledgement body))
      (asks : s.command? b = some (.detach pid))
      (reply : Replied { s with receiver, wire, debuggee := s.debuggee.release, queue := [] }
        (s.render [.text (ascii "OK")]) (.error e) s') :
      Took s b (.error e) s'

section Took

variable {s : Session} {b : UInt8}

theorem took_receiveAck {o : Outstanding} (waits : s.outstanding = some o) :
    Took s b ((s.receiveAck o b).1.map fun _ => none) (s.receiveAck o b).2 := by
  unfold receiveAck
  by_cases hb : b = Packet.acceptance
  · rw [if_neg (not_not.2 hb)]
    cases hi : o.interrupted with
    | true => exact .lateInterrupt waits hb hi (replied_interrupt { s with outstanding := none })
    | false =>
      dsimp only
      rw [if_neg Bool.false_ne_true]
      by_cases hr : s.running = true
      · rw [if_pos hr]
        split
        · rename_i hq
          exact .acknowledged waits hb hi fun _ => hq
        · rename_i stop queue hq
          exact .nextStop waits hb hi hr hq (replied_sendStop { s with outstanding := none, queue } stop)
      · rw [if_neg hr]
        exact .acknowledged waits hb hi fun hr' => absurd hr' hr
  · rw [if_pos hb]
    have hsent := sent_transmit
      { s with outstanding := some { o with interrupted := o.interrupted || b = Packet.interruption } } o.frame
    revert hsent
    dsimp only
    generalize transmit _ o.frame = out
    intro hsent
    obtain ⟨r, s'⟩ := out
    cases hsent with
    | done sends => exact .again (r := .ok ()) waits hb sends
    | failed broken => exact .again (r := .error _) waits hb fun hw => absurd hw broken

theorem command?_eq (free : s.outstanding = none) {receiver : Packet.Receiver} {body : List UInt8}
    (heard : s.receiver.step s.packetSize b = (receiver, some (.packet body))) :
    s.command? b = (Command.parse (Packet.splitSequenceId body).2).toOption := by
  simp [command?, free, heard]

/-- The packet that a command comes in. -/
theorem heard_of_command? {command : Command} (asks : s.command? b = some command) :
    s.outstanding = none ∧ ∃ body, (s.receiver.step s.packetSize b).2 = some (.packet body) ∧
      Command.parse (Packet.splitSequenceId body).2 = .ok command := by
  unfold command? at asks
  split at asks
  · rename_i body free heard
    refine ⟨free, body, heard, ?_⟩
    cases parsed : Command.parse (Packet.splitSequenceId body).2 with
    | ok command' =>
      rw [parsed] at asks
      rw [Option.some.inj asks]
    | error e =>
      rw [parsed] at asks
      cases asks
  · cases asks

/-- A packet whose acknowledgement is out is carried out. -/
theorem took_handleBody {receiver : Packet.Receiver} {body : List UInt8} {wire : Wire} (free : s.outstanding = none)
    (heard : s.receiver.step s.packetSize b = (receiver, some (.packet body)))
    (sends : s.wire.InOrder → wire = s.wire.append (acknowledgement body)) :
    Took s b ({ s with receiver, wire }.handleBody (Packet.splitSequenceId body).2).1
      ({ s with receiver, wire }.handleBody (Packet.splitSequenceId body).2).2 := by
  have asks := command?_eq free heard
  have hanswer := answered_respond { s with receiver, wire } (Packet.splitSequenceId body).2
  -- a reply that is sent back answers no detaching
  have stays : ∀ payload, ({ s with receiver, wire }.respond (Packet.splitSequenceId body).2).1 = .reply payload →
      ∀ pid, Command.parse (Packet.splitSequenceId body).2 ≠ .ok (.detach pid) := by
    intro payload h pid hc
    simp only [respond, hc, execute, release, reduceCtorEq] at h
  revert asks hanswer stays
  unfold handleBody
  generalize { s with receiver, wire }.respond (Packet.splitSequenceId body).2 = answer
  generalize Command.parse (Packet.splitSequenceId body).2 = command
  intro asks hanswer stays
  cases hanswer with
  | @reply _ payload after ops listing quiet after_eq plain sound selects listed =>
    subst after_eq
    simp only [andThen_eq]
    have sound' : Sound s payload :=
      ⟨sound.sendable, fun speaks => sound.speaks ⟨speaks.room, speaks.named, speaks.selected, speaks.listed⟩⟩
    refine .answered free heard sends (fun pid h => ?_) quiet plain (replied_sendReply? _ payload) sound' selects listed
    cases command with
    | error e => cases asks.symm.trans h
    | ok c => exact stays payload rfl pid (by rw [Option.some.inj (asks.symm.trans h)])
  | @resume actions parsed =>
    simp only [resume]
    split
    · rename_i stop queue hq
      rw [andThen_eq]
      exact .stopInstead free heard sends asks parsed hq (replied_sendStop _ stop)
    · rename_i hq
      exact .resumed free heard sends asks parsed hq
  | @detach pid =>
    have hreply := replied_sendReply?
      { s with receiver, wire, debuggee := s.debuggee.release, queue := [] } (s.render [.text (ascii "OK")])
    revert hreply
    simp only [render]
    generalize sendReply? _ _ = out
    obtain ⟨r, s'⟩ := out
    intro hreply
    cases r with
    | ok => exact .left free heard sends asks hreply
    | error e => exact .stuck free heard sends asks hreply

theorem took_receive (s : Session) (b : UInt8) : Took s b (s.receive b).1 (s.receive b).2 := by
  cases ho : s.outstanding with
  | some o =>
    have hack : s.receive b = ((s.receiveAck o b).1.map fun _ => none, (s.receiveAck o b).2) := by
      simp only [receive, ho, andThen_eq]
    rw [hack]
    exact took_receiveAck ho
  | none =>
    rcases heard : s.receiver.step s.packetSize b with ⟨receiver, event⟩
    cases event with
    | none =>
      have hnone : s.receive b = (.ok none, { s with receiver }) := by simp only [receive, ho, heard]
      rw [hnone]
      exact .incomplete ho heard
    | some event =>
      have hsome : s.receive b = { s with receiver }.handleEvent event := by simp only [receive, ho, heard]
      rw [hsome]
      cases event with
      | interrupt =>
        simp only [handleEvent, andThen_eq]
        exact .interrupt ho heard (replied_interrupt { s with receiver })
      | mismatch claimed computed =>
        have hsent := sent_transmit { s with receiver } [Packet.refusal]
        revert hsent
        simp only [handleEvent, andThen_eq]
        generalize transmit _ [Packet.refusal] = out
        obtain ⟨r, s'⟩ := out
        intro hsent
        cases hsent with
        | done sends => exact .refused (r := .ok ()) ho heard sends
        | failed broken => exact .refused (r := .error _) ho heard fun hw => absurd hw broken
      | packet body =>
        have hsent := sent_transmit { s with receiver } (acknowledgement body)
        have hevent : { s with receiver }.handleEvent (.packet body) =
            ({ s with receiver }.transmit (acknowledgement body)).andThen fun _ s' =>
              s'.handleBody (Packet.splitSequenceId body).2 := rfl
        rw [hevent]
        revert hsent
        generalize transmit _ (acknowledgement body) = out
        obtain ⟨r, s'⟩ := out
        intro hsent
        cases hsent with
        | done sends => exact took_handleBody ho heard sends
        | failed broken => exact .unheard ho heard broken

end Took

end RemoteDebug.Session
