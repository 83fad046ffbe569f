import RemoteDebug.Proofs.Debuggee.Refusal
import RemoteDebug.Proofs.Session.Resumption
import RemoteDebug.Proofs.Session.Sited

/-!
# Refused reports

A report of the kernel about a thread that is not registered, or that cannot be registered, changes nothing about the
session: no thread is stopped, nothing is sent and nothing is queued (`RefusesReports`). The other errors of a report
come from telling the client of it, when its threads have been stopped (`not_isRefusal_of_reportStop`). Main statement:
`refusals_leave_no_trace`.
-/

namespace RemoteDebug

/-- The error says that a report was refused. -/
def SessionError.IsRefusal : SessionError → Prop
  | .unknownFaultingThread _ _ | .registry _ => True
  | .connectionWrite _ | .connectionRead _ | .replyTooBig => False

namespace Session

variable {s s' : Session} {e : SessionError} {inferior thread parent child : UInt64} {tcb : Kernel.Tcb}

/-! ## Telling of a stop -/

theorem not_isRefusal_of_sendReply? {payload : Option (List UInt8)} (h : (s.sendReply? payload).1 = .error e) :
    ¬ e.IsRefusal := by
  cases payload with
  | none =>
    cases h
    exact id
  | some payload =>
    simp only [sendReply?, sendReply, transmit] at h
    rcases sent : s.wire.transmit (Packet.frame payload) with ⟨_ | _, wire⟩
    · simp only [sent, Outcome.andThen] at h
      cases h
      exact id
    · simp only [sent, Outcome.andThen] at h
      cases h

/-- To tell of a stop, or to queue it, is never refused. -/
theorem not_isRefusal_of_reportStop {stop : StopReason} (h : (s.reportStop stop).1 = .error e) : ¬ e.IsRefusal := by
  unfold reportStop at h
  split at h
  · exact not_isRefusal_of_sendReply? h
  · cases h

/-! ## Reports -/

theorem fault_refused {fault : Fault} (h : s.fault inferior thread fault = (.error e, s')) (refusal : e.IsRefusal) :
    s' = s := by
  unfold Session.fault at h
  split at h
  · cases h
    rfl
  · exact absurd refusal (not_isRefusal_of_reportStop (congrArg Prod.fst h))

/-- A thread that is found can be let go of, so no thread is stopped in vain. -/
theorem exit_refused (h : s.exit inferior thread = (.error e, s')) (refusal : e.IsRefusal) : s' = s := by
  unfold Session.exit at h
  split at h
  · cases h
    rfl
  · rename_i t found
    obtain ⟨-, known, registered⟩ := Registry.findThread?_eq_some found
    obtain ⟨inf, hinf, held⟩ := Option.bind_eq_some_iff.1 (show (s.debuggee.registry.inferior? t.pid).bind
      (·.threads.get? t.tid) = some known from registered)
    obtain ⟨d, leaves⟩ : ∃ d, s.suspendAll.debuggee.exit t = (.ok (), d) := by
      simp only [Debuggee.exit, Registry.exit, suspendAll, Debuggee.suspendAll, hinf, held]
      exact ⟨_, rfl⟩
    simp only [leaves] at h
    exact absurd refusal (not_isRefusal_of_reportStop (congrArg Prod.fst h))

/-- The table of threads of an inferior is out of ids. -/
def OutOfIds (s : Session) (inferior : UInt64) : Prop :=
  ∃ pid inf, s.debuggee.registry.findInferior? inferior = some pid ∧
    s.debuggee.registry.inferior? pid = some inf ∧
    inf.threads.Exhausted

theorem spawn_refused (apart : s.debuggee.Apart) (housed : s.debuggee.Housed)
    (h : s.spawnNew inferior parent child tcb = (.error e, s')) (refusal : e.IsRefusal) :
    s' = { s with debuggee := s'.debuggee } ∧
      ∃ reason, e = .registry reason ∧ s.debuggee.Declined tcb reason (s.OutOfIds inferior) s'.debuggee := by
  unfold spawnNew Session.spawn at h
  simp only at h
  split at h
  · cases h
    have other : RegistryError.unknownInferior ≠ .debugSlots := nofun
    exact ⟨rfl, _, rfl, Debuggee.declined_uncalled apart housed tcb other _⟩
  · rename_i pid hpid
    split at h
    · cases h
      have other : RegistryError.unknownThread ≠ .debugSlots := nofun
      exact ⟨rfl, _, rfl, Debuggee.declined_uncalled apart housed tcb other _⟩
    · split at h
      · rename_i reason d added
        cases h
        have declined := Debuggee.declined_addThread apart housed added
        refine ⟨rfl, reason, rfl, ?_⟩
        exact { declined with
          silent := fun other ids =>
            declined.silent other fun ⟨inf, hinf, out⟩ => ids ⟨pid, inf, hpid, hinf, out⟩ }
      · rename_i name d added
        rw [andThen_eq] at h
        generalize told : Session.reportStop _ _ = outcome at h
        obtain ⟨_ | _, s''⟩ := outcome
        · cases h
          exact absurd refusal (not_isRefusal_of_reportStop (congrArg Prod.fst told))
        · cases h

/-- No report that is refused leaves a trace. -/
structure RefusesReports (s : Session) : Prop where
  fault : ∀ inferior thread fault e s', s.fault inferior thread fault = (.error e, s') → e.IsRefusal → s' = s
  exit : ∀ inferior thread e s', s.exit inferior thread = (.error e, s') → e.IsRefusal → s' = s
  /-- Nothing but the new thread was called. -/
  spawn : ∀ inferior parent child tcb e s', s.spawnNew inferior parent child tcb = (.error e, s') → e.IsRefusal →
    s' = { s with debuggee := s'.debuggee } ∧
      ∃ reason, e = .registry reason ∧ s.debuggee.Declined tcb reason (s.OutOfIds inferior) s'.debuggee

/-- Whatever a session has come to, and whatever is done to its debuggee besides: what the registry refuses leaves no
trace but the calls on a new thread, and no report of the kernel that is refused leaves one on the session. -/
theorem refusals_leave_no_trace {c : Config} {wire : Wire} (hstart : start? c wire Kernel.empty = .ok s)
    (inputs : List Input) (ops : List Operation) :
    ((s.run inputs).debuggee.performAll ops).RefusesCleanly ∧ (s.run inputs).RefusesReports := by
  have apart : (s.run inputs).debuggee.Apart := apart_run hstart inputs
  have housed : (s.run inputs).debuggee.Housed := (sited_run (sited_start hstart) inputs).housed
  refine ⟨Debuggee.refusesCleanly (Debuggee.apart_performAll apart ops) (Debuggee.housed_performAll housed ops), ?_⟩
  exact {
    fault := fun _ _ _ _ _ => fault_refused
    exit := fun _ _ _ _ => exit_refused
    spawn := fun _ _ _ _ _ _ => spawn_refused apart housed }

/-- An inferior stops at an instruction and at a data access. A new thread of it that takes the first of the two
triggers and refuses the second has neither in the end. -/
theorem refused_thread_gives_slot_back :
    ∃ (s : Session) (ops : List Operation) (tcb : Kernel.Tcb) (d d' : Debuggee),
      start? {} Wire.fresh Kernel.empty = .ok s ∧ ops = [.addInferior 1 Kernel.Space.fresh,
        .addThread 1 10 Kernel.Tcb.fresh, .insertTrigger 1 ⟨4096, .fetch⟩,
        .insertTrigger 1 ⟨8192, .data .write 8⟩] ∧
      d = (s.run []).debuggee.performAll ops ∧
      (d.makeThread tcb).2.addThread 1 20 (d.makeThread tcb).1 = (.error .debugSlots, d') ∧
      d'.kernel.history.toList = d.kernel.history.toList ++ [⟨.thread 1 (.setSlot 0 ⟨4096, .fetch⟩), true⟩,
        ⟨.thread 1 (.setSlot 6 ⟨8192, .data .write 8⟩), false⟩, ⟨.thread 1 (.clearSlot 0), true⟩] ∧
      ∃ tcb', d'.kernel.threads[1]? = some tcb' ∧ ∀ n, tcb'.slot? n = none := by
  let s : Session := ⟨Debuggee.empty 64 256 32, Wire.fresh, 2048, .outside, true, none, [], []⟩
  let ops : List Operation := [.addInferior 1 Kernel.Space.fresh, .addThread 1 10 Kernel.Tcb.fresh,
    .insertTrigger 1 ⟨4096, .fetch⟩, .insertTrigger 1 ⟨8192, .data .write 8⟩]
  let tcb : Kernel.Tcb := { Kernel.Tcb.fresh with
    refuses := fun _ call => decide (call = .setSlot 6 ⟨8192, .data .write 8⟩) }
  let d := (s.run []).debuggee.performAll ops
  let r := (d.makeThread tcb).2.addThread 1 20 (d.makeThread tcb).1
  have started : start? {} Wire.fresh Kernel.empty = .ok s := rfl
  have refused : r.1 = .error .debugSlots := by decide +kernel
  have outcome : r = (.error .debugSlots, r.2) := by rw [← refused]
  have grown : r.2.kernel.history.toList = d.kernel.history.toList ++
      [⟨.thread 1 (.setSlot 0 ⟨4096, .fetch⟩), true⟩,
        ⟨.thread 1 (.setSlot 6 ⟨8192, .data .write 8⟩), false⟩, ⟨.thread 1 (.clearSlot 0), true⟩] := by
    decide +kernel
  have made : d.kernel.threads.length = 1 := by decide +kernel
  have clean : d.RefusesCleanly := (refusals_leave_no_trace started [] ops).1
  have declined := clean.addThread 1 20 tcb _ _ outcome
  have obedient : ¬ Kernel.ClearRefused d.kernel r.2.kernel d.kernel.threads.length := by
    rintro ⟨new, slot, grown', hmem⟩
    rw [List.append_cancel_left (grown'.symm.trans grown)] at hmem
    simp at hmem
  have undone := declined.undone rfl (fun _ => rfl) obedient
  rw [made] at undone
  exact ⟨s, ops, tcb, d, r.2, started, rfl, rfl, outcome, grown, undone⟩

end Session
end RemoteDebug
