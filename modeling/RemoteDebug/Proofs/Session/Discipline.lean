import Mathlib.Data.List.Induction
import RemoteDebug.Proofs.Debuggee.Suspension
import RemoteDebug.Proofs.Session.Operations

/-!
# When threads run

While threads are stopped, or a stop waits to be told, every thread is suspended (`Session.AtRest`); threads are resumed
only for a resumption or when the client leaves; and while threads run none is set to wake up.

The first of these has a hole. A client that leaves lets threads run before the reply is sent, and if that reply
cannot be sent the session stays stopped (`Session.LosesDetach`). It is the only hole, and it opens exactly when a
registered thread is resumed that way (`Session.run_discipline`).
-/

namespace RemoteDebug.Session

/-- Threads are stopped, or a stop waits to be told. -/
def AtRest (s : Session) : Prop := s.running = false ∨ s.queue ≠ []

/-- The calls that an input makes on the kernel. -/
def calls (s : Session) (i : Input) : List Kernel.Record :=
  (s.step i).debuggee.kernel.history.toList.drop s.debuggee.kernel.history.size

/-- A byte completes a packet with which the client leaves while threads are stopped, and that fails. -/
def LosesDetach (s : Session) (b : UInt8) : Prop :=
  (∃ pid, s.command? b = some (.detach pid)) ∧ s.running = false ∧ ∃ e, (s.receive b).1 = .error e

/-- No registered thread is resumed when a byte is taken. -/
def ResumesNone (s : Session) (b : UInt8) : Prop :=
  ∀ cap ∈ s.debuggee.registry.caps, ⟨.thread cap .resume, true⟩ ∉ s.calls (.byte b)

section Step

variable {s s' : Session} {i : Input} {b : UInt8}

theorem Input.Enters.not_resumes {op : Operation} (h : i.Enters op) : ¬ op.Resumes := by
  obtain ⟨tcb, -, rfl | ⟨pid, native, rfl⟩⟩ := h <;> exact id

/-! ## Waking up -/

theorem asleep_quiet {ops : List Operation} {d : Debuggee} (quiet : ∀ op ∈ ops, op.Quiet) (h : d.Asleep) :
    (d.performAll ops).Asleep := by
  induction ops generalizing d with
  | nil => exact h
  | cons op ops ih =>
    exact ih (fun op' hop => quiet op' (List.mem_cons_of_mem _ hop))
      (Debuggee.asleep_of_quiet (quiet op List.mem_cons_self) h)

theorem asleep_took {r : Except SessionError (Option SessionEvent)} (h : Took s b r s')
    (hs : s.running = true → s.debuggee.Asleep) : s'.running = true → s'.debuggee.Asleep := by
  have stopped {s₁ : Session} {payload : Option (List UInt8)} {r : Except SessionError Unit}
      (reply : Replied s₁ payload r s') (hr : s₁.running = false) : s'.running = true → s'.debuggee.Asleep := by
    intro hrun
    rw [reply.running_eq, hr] at hrun
    cases hrun
  cases h with
  | again | acknowledged | incomplete | refused | unheard => exact hs
  | nextStop _ _ _ _ _ reply => exact stopped reply rfl
  | lateInterrupt _ _ _ reply => exact stopped reply rfl
  | interrupt _ _ reply => exact stopped reply rfl
  | answered _ _ _ _ quiet _ reply =>
    intro hrun
    rw [reply.running_eq] at hrun
    rw [reply.debuggee_eq]
    exact asleep_quiet quiet (hs hrun)
  | resumed => exact fun _ => Debuggee.asleep_resumeWoken _
  | stopInstead _ _ _ _ _ _ reply => exact stopped reply rfl
  | left _ _ _ _ reply =>
    intro _
    show Debuggee.Asleep (Session.debuggee _)
    rw [reply.debuggee_eq]
    exact Debuggee.asleep_release _
  | stuck _ _ _ _ reply =>
    intro _
    rw [reply.debuggee_eq]
    exact Debuggee.asleep_release _

theorem asleep_entered {ops : List Operation} {d : Debuggee} (enters : ∀ op ∈ ops, i.Enters op) (h : d.Asleep) :
    (d.performAll ops).Asleep := by
  induction ops generalizing d with
  | nil => exact h
  | cons op ops ih =>
    refine ih (fun op' hop => enters op' (List.mem_cons_of_mem _ hop)) ?_
    obtain ⟨tcb, -, rfl | ⟨pid, native, rfl⟩⟩ := enters op List.mem_cons_self
    · exact h
    · exact Debuggee.asleep_addThread h

/-- Letting threads go leaves a registry within the one before. -/
theorem within_left {ops : List Operation} {d : Debuggee} (leaves : ∀ op ∈ ops, ∃ t, op = .exit t) :
    (d.performAll ops).registry.Within d.registry ∧ (d.performAll ops).kernel = d.kernel := by
  induction ops generalizing d with
  | nil => exact ⟨.refl _, rfl⟩
  | cons op ops ih =>
    obtain ⟨t, rfl⟩ := leaves op List.mem_cons_self
    obtain ⟨hw, hk⟩ := @ih (d.perform (.exit t)) fun op' hop => leaves op' (List.mem_cons_of_mem _ hop)
    exact ⟨hw.trans (Debuggee.within_exit d t), hk.trans (Debuggee.kernel_exit d t)⟩

theorem asleep_noted {accepted : Option StopReason} (h : Noted s i accepted s')
    (hs : s.running = true → s.debuggee.Asleep) : s'.running = true → s'.debuggee.Asleep := by
  cases h with
  | ignored ops enters _ => exact fun hrun => asleep_entered enters (hs hrun)
  | reported before after enters leaves _ report =>
    intro hrun
    cases report with
    | told _ _ reply =>
      rw [reply.running_eq] at hrun
      cases hrun
    | queued _ =>
      have suspended : ((s.debuggee.performAll before).perform .suspendAll).Asleep :=
        asleep_entered (d := s.debuggee) enters (hs hrun)
      exact Debuggee.asleep_within suspended (within_left leaves).1

/-- While threads run none is set to wake up, whatever comes. -/
theorem asleep_step (i : Input) (hs : s.running = true → s.debuggee.Asleep) :
    (s.step i).running = true → (s.step i).debuggee.Asleep := by
  cases i with
  | byte b => exact asleep_took (took_receive s b) hs
  | fault | spawn | exit => exact asleep_noted (noted_of_reports trivial) hs
  | addInferior native space => exact fun hrun => Debuggee.asleep_addInferior (hs hrun)
  | addThread pid native tcb => exact fun hrun => Debuggee.asleep_addThread (hs hrun)
  | disable pid => exact fun hrun => Debuggee.asleep_within (hs hrun) (Debuggee.within_disable _ pid)
  | wire => exact hs

/-! ## Resuming -/

/-- A thread is resumed only by a packet that may resume threads. -/
theorem mayResume_of_mem_calls {r : Kernel.Record} (hr : r ∈ s.calls i) (hresume : r.call.IsResume) :
    ∃ b, i = .byte b ∧ s.MayResume b := by
  by_contra hnot
  obtain ⟨ops, hops, brings⟩ := s.performs_step i
  have calm : ∀ op ∈ ops, ¬ op.Resumes := fun op hop h => hnot ((brings op hop).resumes h)
  obtain ⟨new, heq, hnew⟩ := Debuggee.undisturbed_performAll (d := s.debuggee) calm
  rw [calls, hops, heq, ← Array.length_toList, List.drop_left] at hr
  exact hnew r hr hresume

/-! ## Suspension -/

theorem kernel_halt (s : Session) (stop : StopReason) : (s.halt stop).debuggee.kernel = s.debuggee.kernel := by
  simp only [halt]
  split <;> rfl

theorem suspended_halt {stop : StopReason} (h : s.debuggee.Suspended) : (s.halt stop).debuggee.Suspended := by
  simp only [halt]
  split <;> exact h

theorem suspended_quiet {ops : List Operation} {d : Debuggee} (quiet : ∀ op ∈ ops, op.Quiet) (h : d.Suspended) :
    (d.performAll ops).Suspended := by
  induction ops generalizing d with
  | nil => exact h
  | cons op ops ih =>
    have hop := quiet op List.mem_cons_self
    refine ih (fun op' hop => quiet op' (List.mem_cons_of_mem _ hop))
      (Debuggee.suspended_perform op hop.not_resumes ?_ h)
    rintro pid native tcb rfl
    exact hop.elim

theorem suspended_took {r : Except SessionError (Option SessionEvent)} (h : Took s b r s')
    (hr : (s.receive b).1 = r) (stops : s'.debuggee.kernel.NoSuspendFailed)
    (lost : s.LosesDetach b → s'.debuggee.Suspended) (hs : s.AtRest → s.debuggee.Suspended) :
    s'.AtRest → s'.debuggee.Suspended := by
  intro rest
  have queued {stop : StopReason} {queue : List StopReason} (h : s.queue = stop :: queue) : s.AtRest :=
    .inr (by rw [h]; exact List.cons_ne_nil _ _)
  cases h with
  | again | acknowledged | incomplete | refused | unheard => exact hs rest
  | nextStop _ _ _ _ hq reply =>
    rw [reply.debuggee_eq]
    exact suspended_halt (hs (queued hq))
  | lateInterrupt _ _ _ reply =>
    rw [reply.debuggee_eq] at stops ⊢
    exact Debuggee.suspended_suspendAll stops
  | interrupt _ _ reply =>
    rw [reply.debuggee_eq] at stops ⊢
    exact Debuggee.suspended_suspendAll stops
  | answered _ _ _ _ quiet _ reply =>
    rw [AtRest, reply.running_eq, reply.queue_eq] at rest
    rw [reply.debuggee_eq]
    exact suspended_quiet quiet (hs rest)
  | resumed _ _ _ _ _ empty =>
    rcases rest with hrun | hq
    · cases hrun
    · exact absurd empty hq
  | @stopInstead _ _ _ actions _ _ _ _ _ _ _ _ _ hq reply =>
    rw [reply.debuggee_eq]
    exact suspended_halt (Debuggee.suspended_perform (.act (actions.filterMap id)) id (by simp) (hs (queued hq)))
  | left _ _ _ _ reply =>
    rcases rest with hrun | hq
    · cases hrun
    · exact absurd reply.queue_eq hq
  | stuck _ _ _ asks reply =>
    refine lost ⟨⟨_, asks⟩, ?_, _, hr⟩
    rcases rest with hrun | hq
    · rw [reply.running_eq] at hrun
      exact hrun
    · exact absurd reply.queue_eq hq

theorem suspended_noted {accepted : Option StopReason} (h : Noted s i accepted s')
    (stops : s'.debuggee.kernel.NoSuspendFailed) (hs : s.AtRest → s.debuggee.Suspended) :
    s'.AtRest → s'.debuggee.Suspended := by
  intro rest
  cases h with
  | ignored ops enters unchanged =>
    intro cap hcap
    rw [unchanged] at hcap
    exact Debuggee.isSuspended_performAll (fun op hop => (enters op hop).not_resumes) (hs rest cap hcap)
  | reported before after enters leaves _ report =>
    have asked
        (stops : (((s.debuggee.performAll before).perform .suspendAll).performAll after).kernel.NoSuspendFailed) :
        (((s.debuggee.performAll before).perform .suspendAll).performAll after).Suspended := by
      obtain ⟨hw, hk⟩ := @within_left after ((s.debuggee.performAll before).perform .suspendAll) leaves
      rw [hk] at stops
      exact (Debuggee.suspended_suspendAll stops).within hw hk
    cases report with
    | told _ _ reply =>
      rw [reply.debuggee_eq] at stops ⊢
      rw [kernel_halt] at stops
      exact suspended_halt (asked stops)
    | queued _ => exact asked stops

/-- Threads at rest stay suspended, but for the one hole. -/
theorem suspended_step (i : Input) (stops : (s.step i).debuggee.kernel.NoSuspendFailed)
    (silent : ∀ pid native tcb, i = .addThread pid native tcb → s.AtRest → tcb.suspended = true)
    (lost : ∀ b, i = .byte b → s.LosesDetach b → (s.step i).debuggee.Suspended)
    (hs : s.AtRest → s.debuggee.Suspended) : (s.step i).AtRest → (s.step i).debuggee.Suspended := by
  cases i with
  | byte b => exact suspended_took (took_receive s b) rfl stops (lost b rfl) hs
  | fault | spawn | exit => exact suspended_noted (noted_of_reports trivial) stops hs
  | addInferior native space =>
    exact fun rest => Debuggee.suspended_perform (.addInferior native space) id (by simp) (hs rest)
  | addThread pid native tcb =>
    intro rest
    refine Debuggee.suspended_perform (.addThread pid native tcb) id ?_ (hs rest)
    rintro pid' native' tcb' ⟨⟩
    exact silent pid native tcb rfl rest
  | disable pid => exact fun rest => Debuggee.suspended_perform (.disable pid) id (by simp) (hs rest)
  | wire => exact hs

theorem halted_of_error {e : SessionError} (h : Took s b (.error e) s') (halted : s.running = false) :
    s'.running = false := by
  generalize hr : Except.error e = r at h
  cases h with
  | again | incomplete | refused | unheard => exact halted
  | acknowledged | resumed | left => cases hr
  | nextStop _ _ _ _ _ reply => exact reply.running_eq
  | lateInterrupt _ _ _ reply => exact reply.running_eq
  | interrupt _ _ reply => exact reply.running_eq
  | answered _ _ _ _ _ _ reply => exact reply.running_eq.trans halted
  | stopInstead _ _ _ _ _ _ reply => exact reply.running_eq
  | stuck _ _ _ _ reply => exact reply.running_eq.trans halted

/-- A client that fails to leave leaves threads at rest, as far as the session knows. -/
theorem LosesDetach.atRest (h : s.LosesDetach b) : (s.step (.byte b)).AtRest := by
  obtain ⟨-, halted, e, he⟩ := h
  have took := took_receive s b
  rw [he] at took
  exact .inl (halted_of_error took halted)

/-- A client that fails to leave was not heard, or everything was let go of before the reply failed. -/
theorem LosesDetach.released (h : s.LosesDetach b) :
    (s.step (.byte b)).debuggee = s.debuggee ∨ (s.step (.byte b)).debuggee = s.debuggee.release := by
  obtain ⟨⟨pid, asks⟩, halted, e, he⟩ := h
  have took : Took s b (s.receive b).1 (s.step (.byte b)) := took_receive s b
  generalize (s.receive b).1 = r at took he
  generalize s.step (.byte b) = s' at took ⊢
  cases took with
  | again | incomplete | refused | unheard => exact .inl rfl
  | acknowledged | resumed | left => cases he
  | nextStop _ _ _ runs => cases halted.symm.trans runs
  | lateInterrupt waits => simp [command?, waits] at asks
  | interrupt free heard => simp [command?, free, heard] at asks
  | answered _ _ _ stays => exact absurd asks (stays pid)
  | stopInstead _ _ _ resumes => cases asks.symm.trans resumes
  | stuck _ _ _ _ reply => exact .inr reply.debuggee_eq

/-- When a client has failed to leave, threads are still suspended if and only if none was resumed. -/
theorem LosesDetach.suspended_iff (h : s.LosesDetach b) (hs : s.debuggee.Suspended) :
    (s.step (.byte b)).debuggee.Suspended ↔ s.ResumesNone b := by
  rcases h.released with same | released
  · have silent : s.calls (.byte b) = [] := by rw [calls, same, ← Array.length_toList, List.drop_length]
    rw [same]
    refine iff_of_true hs fun cap _ => ?_
    rw [silent]
    exact List.not_mem_nil
  · rw [ResumesNone, calls, released]
    exact Debuggee.suspended_release_iff hs

end Step

/-! ## Runs -/

section Run

variable {s : Session} {inputs : List Input}

/-- Threads that come in unannounced while threads are at rest are suspended. -/
def EntersSuspended (s : Session) (inputs : List Input) : Prop :=
  ∀ before after pid native tcb, inputs = before ++ .addThread pid native tcb :: after →
    (s.run before).AtRest → tcb.suspended = true

/-- All through a run, threads at rest are suspended. -/
def RestsSuspended (s : Session) (inputs : List Input) : Prop :=
  ∀ before after, inputs = before ++ after → (s.run before).AtRest → (s.run before).debuggee.Suspended

/-- Each time a client fails to leave, no registered thread is resumed. -/
def LeavesStopped (s : Session) (inputs : List Input) : Prop :=
  ∀ before b after, inputs = before ++ .byte b :: after → (s.run before).LosesDetach b →
    (s.run before).ResumesNone b

theorem asleep_run (hs : s.running = true → s.debuggee.Asleep) :
    (s.run inputs).running = true → (s.run inputs).debuggee.Asleep := by
  induction inputs generalizing s with
  | nil => exact hs
  | cons i inputs ih => exact ih (asleep_step i hs)

theorem noSuspendFailed_prefix {before after : List Input} (heq : inputs = before ++ after)
    (stops : (s.run inputs).debuggee.kernel.NoSuspendFailed) : (s.run before).debuggee.kernel.NoSuspendFailed := by
  rw [heq, run_append] at stops
  intro r hr
  exact stops r ((history_run _ after).subset hr)

/-- Threads at rest are suspended, if none is resumed when a client fails to leave. -/
theorem restsSuspended_of_leavesStopped (hs : s.AtRest → s.debuggee.Suspended)
    (stops : (s.run inputs).debuggee.kernel.NoSuspendFailed) (silent : s.EntersSuspended inputs)
    (lost : s.LeavesStopped inputs) : s.RestsSuspended inputs := by
  intro before
  induction before using List.reverseRecOn with
  | nil => exact fun _ _ => hs
  | append_singleton before i ih =>
    intro after heq
    rw [List.append_assoc, List.singleton_append] at heq
    have last : s.run (before ++ [i]) = (s.run before).step i := by rw [run_append, run_cons, run_nil]
    rw [last]
    refine suspended_step i ?_ ?_ ?_ (ih _ heq)
    · rw [← last]
      exact noSuspendFailed_prefix (heq.trans (List.append_cons before i after)) stops
    · rintro pid native tcb rfl
      exact silent before after pid native tcb heq
    · rintro b rfl hlost
      have suspended : (s.run before).debuggee.Suspended := ih _ heq (.inl hlost.2.1)
      exact (hlost.suspended_iff suspended).2 (lost before b after heq hlost)

theorem leavesStopped_of_restsSuspended (all : s.RestsSuspended inputs) : s.LeavesStopped inputs := by
  intro before b after heq hlost
  have last : s.run (before ++ [.byte b]) = (s.run before).step (.byte b) := by rw [run_append, run_cons, run_nil]
  have suspended : (s.run before).debuggee.Suspended := all before _ heq (.inl hlost.2.1)
  have still := all (before ++ [.byte b]) after (heq.trans (List.append_cons before _ after))
  rw [last] at still
  exact (hlost.suspended_iff suspended).1 (still hlost.atRest)

/-- If no thread refuses to stop, and threads that come in unannounced at rest are suspended: threads at rest are
suspended, all through a run, if and only if none is resumed when a client fails to leave; a thread is resumed only for
a packet that lets threads run, or with which the client leaves; and while threads run none is set to wake up. -/
theorem run_discipline {c : Config} {wire : Wire} (hstart : start? c wire Kernel.empty = .ok s)
    (stops : (s.run inputs).debuggee.kernel.NoSuspendFailed) (silent : s.EntersSuspended inputs) :
    (s.RestsSuspended inputs ↔ s.LeavesStopped inputs) ∧
      (∀ i, ∀ r ∈ (s.run inputs).calls i, r.call.IsResume → ∃ b, i = .byte b ∧
        (s.run inputs).MayResume b) ∧
      ((s.run inputs).running = true → (s.run inputs).debuggee.Asleep) := by
  have bare : s.debuggee.registry.caps = [] ∧ s.debuggee.Asleep := by
    unfold start? at hstart
    split at hstart
    · cases hstart
    · cases hstart
      refine ⟨by simp [Registry.caps, Registry.empty], fun t thread ht => ?_⟩
      obtain ⟨inf, hinf, -⟩ := Registry.thread?_eq_some_iff.1 ht
      simp [Registry.empty] at hinf
  refine ⟨⟨leavesStopped_of_restsSuspended, fun lost => ?_⟩, ?_, ?_⟩
  · refine restsSuspended_of_leavesStopped (fun _ cap hcap => ?_) stops silent lost
    rw [bare.1] at hcap
    cases hcap
  · exact fun i r hr hresume => mayResume_of_mem_calls hr hresume
  · exact asleep_run fun _ => bare.2

/-- An inferior with one thread comes in, and then only the client does anything. -/
def oneThread (bytes : List UInt8) : List Input :=
  .addInferior 7 .fresh :: .addThread 1 8 .fresh :: bytes.map .byte

/-- Before the client comes threads run, so a thread may come in as it is. -/
theorem entersSuspended_oneThread (runs : s.running = true) (empty : s.queue = []) (bytes : List UInt8) :
    s.EntersSuspended (oneThread bytes) := by
  intro before after pid native tcb heq rest
  rcases before with _ | ⟨first, _ | ⟨second, before⟩⟩
  · cases heq
  · obtain rfl : first = .addInferior 7 .fresh := (List.cons.inj heq).1.symm
    rcases rest with halted | queued
    · cases halted.symm.trans runs
    · exact absurd empty queued
  · have tail : bytes.map Input.byte = before ++ .addThread pid native tcb :: after :=
      (List.cons.inj (List.cons.inj heq).2).2
    have later : Input.addThread pid native tcb ∈ bytes.map Input.byte := by
      rw [tail]
      exact List.mem_append_right _ List.mem_cons_self
    obtain ⟨b, -, hb⟩ := List.mem_map.1 later
    cases hb

/-- A client interrupts, acknowledges the reply and leaves. -/
theorem interrupt_then_leave_disciplined :
    ∃ s, start? {} Wire.fresh Kernel.empty = .ok s ∧ ∃ inputs : List Input,
      (s.run inputs).debuggee.kernel.NoSuspendFailed ∧ s.EntersSuspended inputs ∧
        (s.RestsSuspended inputs ↔ s.LeavesStopped inputs) ∧
        (s.run inputs).running = true ∧ (s.run inputs).debuggee.Asleep := by
  let s : Session := ⟨Debuggee.empty 64 256 32, Wire.fresh, 2048, .outside, true, none, [], []⟩
  let inputs := oneThread (Packet.interruption :: Packet.acceptance :: Packet.frame (ascii "D"))
  have start : start? {} Wire.fresh Kernel.empty = .ok s := rfl
  have final : (∀ r ∈ (s.run inputs).debuggee.kernel.history.toList, r.done = true) ∧
      (s.run inputs).running = true := by decide +kernel
  have stops : (s.run inputs).debuggee.kernel.NoSuspendFailed := fun r hr _ _ => final.1 r hr
  have silent : s.EntersSuspended inputs := entersSuspended_oneThread rfl rfl _
  obtain ⟨rests, -, asleep⟩ := run_discipline start stops silent
  exact ⟨s, start, inputs, stops, silent, rests, final.2, asleep final.2⟩

/-- With room for one byte in a packet the client can interrupt and leave, but not be told so: its thread runs while the
session is stopped. -/
theorem lost_detach_lets_threads_run :
    ∃ s, start? { requestedSize := some 1 } Wire.fresh Kernel.empty = .ok s ∧ ∃ inputs : List Input,
      (s.run inputs).debuggee.kernel.NoSuspendFailed ∧ s.EntersSuspended inputs ∧ ¬ s.RestsSuspended inputs := by
  let s : Session := ⟨Debuggee.empty 64 256 32, Wire.fresh, 1, .outside, true, none, [], []⟩
  let inputs := oneThread (Packet.interruption :: Packet.frame (ascii "D"))
  have start : start? { requestedSize := some 1 } Wire.fresh Kernel.empty = .ok s := rfl
  have final : (∀ r ∈ (s.run inputs).debuggee.kernel.history.toList, r.done = true) ∧
      (s.run inputs).running = false ∧ (s.run inputs).debuggee.registry.caps = [0] ∧
      (s.run inputs).debuggee.kernel.threads[0]?.map (·.suspended) = some false := by decide +kernel
  obtain ⟨done, halted, caps, running⟩ := final
  refine ⟨s, start, inputs, fun r hr _ _ => done r hr, entersSuspended_oneThread rfl rfl _, fun all => ?_⟩
  -- the session is stopped, and its thread runs
  have suspended := all inputs [] (List.append_nil _).symm (.inl halted)
  rw [Debuggee.Suspended, caps] at suspended
  obtain ⟨tcb, htcb, hsuspended⟩ := suspended 0 List.mem_cons_self
  rw [htcb, Option.map_some, hsuspended] at running
  cases running

end Run

end RemoteDebug.Session
