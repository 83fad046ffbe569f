import RemoteDebug.Proofs.Debuggee.Replay
import RemoteDebug.Proofs.Session.Receiving
import RemoteDebug.Proofs.Session.Reporting

/-!
# What a session does to its debuggee

Every input comes down to operations on the debuggee (`Session.performs_step`): they bring in no thread but the one that
the input hands over, and they resume threads only for a packet that may resume threads (`Session.MayResume`). What
operations keep, sessions keep. The history of calls only grows, and tells what became of every thread
(`Session.replays_run`).
-/

namespace RemoteDebug.Session

/-- The packets for which threads may be resumed. -/
def MayResume (s : Session) (b : UInt8) : Prop :=
  (∃ actions, s.command? b = some (.resume actions) ∧ (s.receive b).1 = .ok (some .resumed)) ∨
    ∃ pid, s.command? b = some (.detach pid)

/-- An input may bring about an operation. -/
structure Brings (s : Session) (i : Input) (op : Operation) : Prop where
  handed : ∀ tcb, op.tcb? = some tcb → i.tcb? = some tcb
  resumes : op.Resumes → ∃ b, i = .byte b ∧ s.MayResume b

/-- A debuggee comes from that of a session by operations that an input may bring about. -/
def Performs (s : Session) (i : Input) (d : Debuggee) : Prop :=
  ∃ ops : List Operation, d = s.debuggee.performAll ops ∧ ∀ op ∈ ops, s.Brings i op

section Performs

variable {s s' : Session} {i : Input} {b : UInt8} {d : Debuggee}

theorem Performs.refl : s.Performs i s.debuggee := ⟨[], rfl, by simp⟩

theorem Performs.performAll (h : s.Performs i d) {ops : List Operation} (hops : ∀ op ∈ ops, s.Brings i op) :
    s.Performs i (d.performAll ops) := by
  obtain ⟨before, rfl, hbefore⟩ := h
  refine ⟨before ++ ops, (s.debuggee.performAll_append before ops).symm, fun op hop => ?_⟩
  exact (List.mem_append.1 hop).elim (hbefore op) (hops op)

theorem Performs.perform (h : s.Performs i d) {op : Operation} (hop : s.Brings i op) : s.Performs i (d.perform op) := by
  have single : ∀ op' ∈ [op], s.Brings i op' := by simpa using hop
  exact h.performAll single

/-- Operations that bring in and resume no thread may always be brought about. -/
theorem brings_of_calm (op : Operation) (hand : op.tcb? = none) (rest : ¬ op.Resumes) : s.Brings i op :=
  ⟨fun _ h => absurd (hand.symm.trans h) nofun, fun h => absurd h rest⟩

theorem brings_of_quiet {op : Operation} (h : op.Quiet) : s.Brings i op := by
  refine brings_of_calm op ?_ h.not_resumes
  cases op <;> first | rfl | exact h.elim

theorem brings_of_enters {op : Operation} (h : i.Enters op) : s.Brings i op := by
  obtain ⟨tcb, hi, rfl | ⟨pid, native, rfl⟩⟩ := h
  · exact ⟨fun _ h => hi.trans h, False.elim⟩
  · exact ⟨fun _ h => hi.trans h, False.elim⟩

/-- Reporting a stop selects its thread. -/
theorem Performs.halt (t : Session) (h : s.Performs i t.debuggee) (stop : StopReason) :
    s.Performs i (t.halt stop).debuggee := by
  cases hstop : stop.thread? with
  | none =>
    rw [debuggee_halt_of_none hstop]
    exact h
  | some name =>
    rw [debuggee_halt_of_some hstop]
    exact h.perform (brings_of_calm (.select name) rfl id)

theorem performs_took {r : Except SessionError (Option SessionEvent)} (h : Took s b r s') (hr : (s.receive b).1 = r) :
    s.Performs (.byte b) s'.debuggee := by
  have suspending {s₁ : Session} (h : s₁.debuggee = s.debuggee) : s.Performs (.byte b) s₁.haltAll.debuggee := by
    show s.Performs (.byte b) (s₁.debuggee.perform .suspendAll)
    rw [h]
    exact Performs.refl.perform (brings_of_calm .suspendAll rfl id)
  cases h with
  | again | acknowledged | incomplete | refused | unheard => exact .refl
  | @nextStop _ stop queue _ _ _ _ _ _ _ reply =>
    rw [reply.debuggee_eq]
    exact Performs.halt (s := s) { s with outstanding := none, queue } .refl stop
  | lateInterrupt _ _ _ reply =>
    rw [reply.debuggee_eq]
    exact suspending rfl
  | interrupt _ _ reply =>
    rw [reply.debuggee_eq]
    exact suspending rfl
  | answered _ _ _ _ quiet _ reply =>
    rw [reply.debuggee_eq]
    exact Performs.refl.performAll fun op hop => brings_of_quiet (quiet op hop)
  | resumed _ _ _ asks =>
    have woken : s.Brings (.byte b) .resumeWoken :=
      ⟨nofun, fun _ => ⟨b, rfl, .inl ⟨_, asks, hr⟩⟩⟩
    exact (Performs.refl.perform (brings_of_calm (.act _) rfl id)).perform woken
  | @stopInstead receiver _ wire actions stop queue _ _ _ _ _ _ _ _ reply =>
    rw [reply.debuggee_eq]
    exact Performs.halt { s with receiver, wire, debuggee := s.debuggee.perform (.act (actions.filterMap id)), queue }
      (Performs.refl.perform (brings_of_calm (.act _) rfl id)) stop
  | left _ _ _ asks reply | stuck _ _ _ asks reply =>
    have released : s.Brings (.byte b) .release := ⟨nofun, fun _ => ⟨b, rfl, .inr ⟨_, asks⟩⟩⟩
    show s.Performs (.byte b) (Session.debuggee _)
    rw [reply.debuggee_eq]
    exact Performs.refl.perform released

theorem performs_noted {accepted : Option StopReason} (h : Noted s i accepted s') : s.Performs i s'.debuggee := by
  cases h with
  | ignored ops enters _ => exact Performs.refl.performAll fun op hop => brings_of_enters (enters op hop)
  | reported before after enters leaves _ report =>
    have asked : s.Performs i (((s.debuggee.performAll before).perform .suspendAll).performAll after) := by
      have entered := (Performs.refl (s := s) (i := i)).performAll fun op hop => brings_of_enters (enters op hop)
      refine (entered.perform (brings_of_calm .suspendAll rfl id)).performAll fun op hop => ?_
      obtain ⟨t, rfl⟩ := leaves op hop
      exact brings_of_calm (.exit t) rfl id
    cases report with
    | told _ _ reply =>
      rw [reply.debuggee_eq]
      exact asked.halt { s with debuggee := _ } _
    | queued _ => exact asked

/-- An input comes down to operations on the debuggee. -/
theorem performs_step (s : Session) (i : Input) : s.Performs i (s.step i).debuggee := by
  cases i with
  | byte b => exact performs_took (took_receive s b) rfl
  | fault | spawn | exit => exact performs_noted (noted_of_reports trivial)
  | addInferior native space => exact Performs.refl.perform (brings_of_calm (.addInferior native space) rfl id)
  | addThread pid native tcb =>
    have entered : s.Brings (.addThread pid native tcb) (.addThread pid native tcb) := ⟨fun _ h => h, False.elim⟩
    exact Performs.refl.perform entered
  | disable pid => exact Performs.refl.perform (brings_of_calm (.disable pid) rfl id)
  | wire => exact .refl

end Performs

/-! ## The history of calls -/

theorem replays_step (s : Session) (i : Input) : s.debuggee.kernel.Replays (s.step i).debuggee.kernel := by
  obtain ⟨ops, performed, -⟩ := s.performs_step i
  rw [performed]
  exact s.debuggee.replays_performAll ops

/-- Whatever happens to a session, its threads are what their calls have made of them. -/
theorem replays_run (s : Session) (inputs : List Input) :
    s.debuggee.kernel.Replays (s.run inputs).debuggee.kernel :=
  run_induction (P := fun s' => s.debuggee.kernel.Replays s'.debuggee.kernel)
    (fun s' i _ h => h.trans (s'.replays_step i)) (.refl _)

theorem history_step (s : Session) (i : Input) :
    s.debuggee.kernel.history.toList <+: (s.step i).debuggee.kernel.history.toList := (s.replays_step i).history

theorem history_run (s : Session) (inputs : List Input) :
    s.debuggee.kernel.history.toList <+: (s.run inputs).debuggee.kernel.history.toList := (s.replays_run inputs).history

end RemoteDebug.Session
