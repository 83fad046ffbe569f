import RemoteDebug.Proofs.Debuggee.Selection
import RemoteDebug.Proofs.Session.Telling

/-!
# What a session selects

A stop that comes out of the queue has its thread selected, whatever has become of the thread meanwhile
(`Session.taken?`). Every other input leaves registered what is selected and registered, and selects no thread that is
not (`Session.reselects_step`).
-/

namespace RemoteDebug.Session

/-- The stop that an input takes out of the queue in order to report it. When the client leaves, the queue is given up.
-/
def taken? (s : Session) (i : Input) : Option StopReason :=
  if s.detaches i = true ∨ s.queue.length ≤ (s.step i).queue.length then none else s.queue.head?

/-- What an input does to the selection. -/
inductive Reselects (s : Session) (i : Input) : Prop
  | taken {stop : StopReason} {t : Ptid} (takes : s.taken? i = some stop) (names : stop.thread? = some t)
      (selected : (s.step i).debuggee.registry.current = some t)
      (same : (s.step i).debuggee.registry.threads = s.debuggee.registry.threads)
  | steady (names : ∀ stop, s.taken? i = some stop → stop.thread? = none)
      (steady : s.debuggee.Steady (s.step i).debuggee)

section Step

variable {s s' : Session} {i : Input} {b : UInt8} {stop : StopReason}

theorem taken?_of_detaches (h : s.detaches i = true) : s.taken? i = none := by simp [taken?, h]

theorem taken?_of_le (h : s.queue.length ≤ (s.step i).queue.length) : s.taken? i = none := by simp [taken?, h]

theorem taken?_of_cons {queue : List StopReason} (stays : s.detaches i = false) (queued : s.queue = stop :: queue)
    (after : (s.step i).queue = queue) : s.taken? i = some stop := by
  simp [taken?, stays, queued, after]

/-- Reporting a stop about a registered thread. -/
theorem steady_halt (h : ∀ t, stop.thread? = some t → t ∈ s.debuggee.registry.threads) :
    s.debuggee.Steady (s.halt stop).debuggee := by
  cases names : stop.thread? with
  | none =>
    rw [debuggee_halt_of_none names]
    exact .refl _
  | some t =>
    rw [debuggee_halt_of_some names]
    exact Debuggee.steady_select (h t names)

/-- A byte by which a stop comes out of the queue. -/
theorem reselects_of_taken {s₁ : Session} {queue : List StopReason} {payload : Option (List UInt8)}
    {r : Except SessionError Unit} (hs' : s.step i = s') (stays : s.detaches i = false)
    (queued : s.queue = stop :: queue)
    (reply : Replied (s₁.halt stop) payload r s') (after : s₁.queue = queue)
    (steady : s.debuggee.Steady s₁.debuggee)
    (same : s₁.debuggee.registry.threads = s.debuggee.registry.threads) : s.Reselects i := by
  have takes : s.taken? i = some stop := by
    refine taken?_of_cons stays queued ?_
    rw [hs', reply.queue_eq, ← after]
    rfl
  have debuggee : (s.step i).debuggee = (s₁.halt stop).debuggee := by rw [hs', reply.debuggee_eq]
  cases names : stop.thread? with
  | none =>
    refine .steady (fun stop' h => ?_) ?_
    · rw [takes, Option.some.injEq] at h
      exact h ▸ names
    · rw [debuggee, debuggee_halt_of_none names]
      exact steady
  | some t =>
    rw [debuggee_halt_of_some names] at debuggee
    exact .taken takes names (by rw [debuggee]; rfl) (by rw [debuggee]; exact same)

theorem reselects_took {r : Except SessionError (Option SessionEvent)} (h : Took s b r s')
    (hs' : s.step (.byte b) = s') : s.Reselects (.byte b) := by
  have calm (queue : s.detaches (.byte b) = true ∨ s'.queue = s.queue) (steady : s.debuggee.Steady s'.debuggee) :
      s.Reselects (.byte b) := by
    refine .steady (fun stop h => ?_) (hs' ▸ steady)
    rcases queue with leaves | same
    · rw [taken?_of_detaches leaves] at h
      cases h
    · rw [taken?_of_le (by rw [hs', same])] at h
      cases h
  have released : s.debuggee.Steady s.debuggee.release := Debuggee.steady_perform .release nofun
  have suspended : s.debuggee.Steady s.debuggee.suspendAll := Debuggee.steady_perform .suspendAll nofun
  cases h with
  | again | acknowledged | incomplete | refused | unheard => exact calm (.inr rfl) (.refl _)
  | nextStop waits _ _ _ queued reply =>
    exact reselects_of_taken hs' (detaches_of_waits waits) queued reply rfl (.refl _) rfl
  | lateInterrupt _ _ _ reply | interrupt _ _ reply =>
    refine calm (.inr reply.queue_eq) ?_
    rw [reply.debuggee_eq]
    exact suspended
  | answered _ _ _ _ quiet _ reply _ selects =>
    refine calm (.inr reply.queue_eq) ?_
    rw [reply.debuggee_eq]
    exact Debuggee.steady_quiet quiet selects
  | @resumed _ _ _ actions =>
    exact calm (.inr rfl) (Debuggee.steady_performAll [.act (actions.filterMap id), .resumeWoken] (by simp))
  | @stopInstead _ _ _ actions _ _ _ _ _ _ _ asks _ queued reply =>
    have same : (s.debuggee.perform (.act (actions.filterMap id))).registry.threads = s.debuggee.registry.threads :=
      Debuggee.threads_perform trivial
    exact reselects_of_taken hs' (detaches_of_asks asks fun pid => by simp) queued reply rfl
      (Debuggee.steady_perform _ nofun) same
  | left _ _ _ asks reply | stuck _ _ _ asks reply =>
    refine calm (.inl (by simp [detaches, asks])) ?_
    show s.debuggee.Steady (Session.debuggee _)
    rw [reply.debuggee_eq]
    exact released

theorem reselects_noted {accepted : Option StopReason} (h : Noted s i accepted s') (hs' : s.step i = s') :
    s.Reselects i := by
  cases h with
  | @ignored ops enters =>
    refine .steady (fun stop h => ?_) ?_
    · rw [taken?_of_le (by rw [hs'])] at h
      cases h
    · rw [hs']
      refine Debuggee.steady_performAll ops fun t ht => ?_
      obtain ⟨_, -, heq | ⟨_, _, heq⟩⟩ := enters _ ht <;> cases heq
  | @reported before after stop _ _ enters leaves _ report lives =>
    have steady : s.debuggee.Steady (((s.debuggee.performAll before).perform .suspendAll).performAll after) := by
      have entered : s.debuggee.Steady (s.debuggee.performAll before) := by
        refine Debuggee.steady_performAll before fun t ht => ?_
        obtain ⟨_, -, heq | ⟨_, _, heq⟩⟩ := enters _ ht <;> cases heq
      have suspended := entered.trans (Debuggee.steady_perform .suspendAll nofun)
      refine suspended.trans (Debuggee.steady_performAll after fun t ht => ?_)
      obtain ⟨_, heq⟩ := leaves _ ht
      cases heq
    refine .steady (fun stop' h => ?_) ?_
    · have longer : s.queue.length ≤ (s.step i).queue.length := by
        rw [hs']
        cases report with
        | told _ _ reply => rw [reply.queue_eq]; exact Nat.le_refl _
        | queued => simp
      rw [taken?_of_le longer] at h
      cases h
    · rw [hs']
      cases report with
      | told _ _ reply =>
        rw [reply.debuggee_eq]
        exact steady.trans (steady_halt lives)
      | queued => exact steady

theorem reselects_step (s : Session) (i : Input) : s.Reselects i := by
  have unqueued (op : Operation) (hs : ∀ t, op ≠ .select t) (hi : s.step i = s.perform op) : s.Reselects i := by
    refine .steady (fun stop h => ?_) ?_
    · rw [taken?_of_le (by rw [hi]; exact Nat.le_refl _)] at h
      cases h
    · rw [hi]
      exact Debuggee.steady_perform op hs
  cases i with
  | byte b => exact reselects_took (took_receive s b) rfl
  | fault | spawn | exit => exact reselects_noted (noted_of_reports trivial) rfl
  | addInferior native space => exact unqueued (.addInferior native space) nofun rfl
  | addThread pid native tcb => exact unqueued (.addThread pid native tcb) nofun rfl
  | disable pid => exact unqueued (.disable pid) nofun rfl
  | wire budget flushFails =>
    refine .steady (fun stop h => ?_) (.refl _)
    rw [taken?_of_le (Nat.le_refl _)] at h
    cases h

end Step

end RemoteDebug.Session
