import RemoteDebug.Proofs.Debuggee.Apart
import RemoteDebug.Proofs.Debuggee.Housed
import RemoteDebug.Proofs.SlotTable.Claim

/-!
# Refusals leave no trace

A registration that is refused, and a thread or an inferior that cannot be let go of, leave the registry and whatever is
registered as they were (`Spared`). Only a new thread can have been called: it is offered the triggers of its inferior
before it is registered (`addThread_error`). If it refuses one, those it has taken are cleared again
(`Kernel.setSlots_undone`). Main statement: `Debuggee.refusesCleanly`.
-/

namespace RemoteDebug

open Kernel

/-! ## A new thread that refuses a trigger -/

namespace Kernel

variable {p : Call → Prop} {k k' k'' : Kernel} {cap : ThreadCap} {tcb : Tcb}

/-- Between two states of the kernel a thread has refused to clear a slot. -/
def ClearRefused (k k' : Kernel) (cap : ThreadCap) : Prop :=
  ∃ new slot, k'.history.toList = k.history.toList ++ new ∧ ⟨.thread cap (.clearSlot slot), false⟩ ∈ new

theorem ClearRefused.after (h : ClearRefused k k' cap) (calls : Calls p k' k'') : ClearRefused k k'' cap := by
  obtain ⟨new, slot, grown, refused⟩ := h
  obtain ⟨more, grown', -⟩ := calls.history
  exact ⟨new ++ more, slot, by rw [grown', grown, List.append_assoc], List.mem_append_left _ refused⟩

theorem ClearRefused.before (h : ClearRefused k' k'' cap) (calls : Calls p k k') : ClearRefused k k'' cap := by
  obtain ⟨new, slot, grown, refused⟩ := h
  obtain ⟨first, grown', -⟩ := calls.history
  exact ⟨first ++ new, slot, by rw [grown, grown', List.append_assoc], List.mem_append_right _ refused⟩

/-- Slots that are cleared in turn are empty, unless the thread has refused to clear one. -/
theorem clearSlots_clears (slots : List Nat) (htcb : k.threads[cap]? = some tcb) :
    ClearRefused k (clearSlots cap slots k) cap ∨ ∃ tcb', (clearSlots cap slots k).threads[cap]? = some tcb' ∧
      ∀ n, tcb'.slot? n = if n ∈ slots then none else tcb.slot? n := by
  induction slots generalizing k tcb with
  | nil => exact .inr ⟨tcb, htcb, fun n => by simp⟩
  | cons slot slots ih =>
    have call : Calls (fun _ => True) k (k.callThread cap (.clearSlot slot)).2 := calls_callThread trivial
    have rest : Calls (fun _ => True) (k.callThread cap (.clearSlot slot)).2 (clearSlots cap (slot :: slots) k) :=
      calls_clearSlots fun _ _ => trivial
    cases accepted : k.accepts cap (.clearSlot slot) with
    | false =>
      have refused : ClearRefused k (k.callThread cap (.clearSlot slot)).2 cap := by
        refine ⟨[⟨.thread cap (.clearSlot slot), false⟩], slot, ?_, List.mem_singleton_self _⟩
        rw [history_callThread, accepted, Array.toList_push]
      exact .inl (refused.after rest)
    | true =>
      have cleared : (k.callThread cap (.clearSlot slot)).2.threads[cap]? = some (tcb.perform (.clearSlot slot)) := by
        rw [thread_callThread, if_pos accepted, htcb]
        rfl
      rcases ih cleared with refused | ⟨tcb', htcb', slots'⟩
      · exact .inl (refused.before call)
      · refine .inr ⟨tcb', htcb', fun n => ?_⟩
        rw [slots' n]
        by_cases hn : n = slot
        · simp [Tcb.perform, hn]
        · simp [Tcb.perform, hn]

/-- A thread that refuses one of its new slots has none of them in the end, unless it has refused to clear one. -/
theorem setSlots_undone {done : List Nat} {pending : List (Nat × Cpu.Trigger)} (htcb : k.threads[cap]? = some tcb)
    (clear : ∀ n, n ∉ done → tcb.slot? n = none) (failed : (setSlots cap done pending k).1 = false) :
    ClearRefused k (setSlots cap done pending k).2 cap ∨
      ∃ tcb', (setSlots cap done pending k).2.threads[cap]? = some tcb' ∧ ∀ n, tcb'.slot? n = none := by
  induction pending generalizing k done tcb with
  | nil => cases failed
  | cons head pending ih =>
    obtain ⟨slot, trigger⟩ := head
    have call : Calls (fun _ => True) k (k.callThread cap (.setSlot slot trigger)).2 := calls_callThread trivial
    cases accepted : k.accepts cap (.setSlot slot trigger) with
    | true =>
      have step : setSlots cap done ((slot, trigger) :: pending) k =
          setSlots cap (done ++ [slot]) pending (k.callThread cap (.setSlot slot trigger)).2 := by
        simp [setSlots, callThread, accepted]
      have set : (k.callThread cap (.setSlot slot trigger)).2.threads[cap]? =
          some (tcb.perform (.setSlot slot trigger)) := by
        rw [thread_callThread, if_pos accepted, htcb]
        rfl
      have clear' : ∀ n, n ∉ done ++ [slot] → (tcb.perform (.setSlot slot trigger)).slot? n = none := by
        intro n hn
        simp only [List.mem_append, List.mem_singleton, not_or] at hn
        simp [Tcb.perform, hn.2, clear n hn.1]
      rw [step] at failed ⊢
      exact (ih set clear' failed).imp_left fun refused => refused.before call
    | false =>
      have step : setSlots cap done ((slot, trigger) :: pending) k =
          (false, clearSlots cap done (k.callThread cap (.setSlot slot trigger)).2) := by
        simp [setSlots, callThread, accepted]
      have kept : (k.callThread cap (.setSlot slot trigger)).2.threads[cap]? = some tcb := by
        rw [thread_callThread, accepted]
        exact htcb
      rw [step]
      rcases clearSlots_clears done kept with refused | ⟨tcb', htcb', slots'⟩
      · exact .inl (refused.before call)
      · refine .inr ⟨tcb', htcb', fun n => ?_⟩
        rw [slots' n]
        split
        · rfl
        · exact clear n ‹_›

end Kernel

/-! ## What a refusal leaves -/

namespace Debuggee

variable {d d' : Debuggee} {pid : Nat} {native : UInt64} {e : RegistryError}

/-- The registry is as before, and so are the threads and the address spaces of all that is registered. -/
structure Spared (d d' : Debuggee) : Prop where
  registry : d'.registry = d.registry
  threads : ∀ t thread, d.registry.thread? t = some thread →
    d'.kernel.threads[thread.cap]? = d.kernel.threads[thread.cap]?
  spaces : ∀ pid inf, d.registry.inferior? pid = some inf →
    d'.kernel.spaces[inf.space]? = d.kernel.spaces[inf.space]?

/-- A new thread was refused, in a table of threads that can be out of ids. Its capability is the next one. -/
structure Declined (d : Debuggee) (tcb : Tcb) (e : RegistryError) (exhausted : Prop) (d' : Debuggee) : Prop where
  spared : d.Spared d'
  /-- Nothing but slots was asked for, and nobody but the new thread. -/
  calls : ∃ new, d'.kernel.history.toList = d.kernel.history.toList ++ new ∧
    ∀ r ∈ new, ∃ call, r.call = .thread d.kernel.threads.length call ∧ call.IsSlot
  /-- Nobody was called at all, unless the new thread did not take the slots or the ids have run out. -/
  silent : e ≠ .debugSlots → ¬ exhausted → d'.kernel.history = d.kernel.history
  /-- A new thread that did not take the slots has none, if it had none and cleared what it was asked to clear. -/
  undone : e = .debugSlots → (∀ n, tcb.slot? n = none) →
    ¬ ClearRefused d.kernel d'.kernel d.kernel.threads.length →
      ∃ tcb', d'.kernel.threads[d.kernel.threads.length]? = some tcb' ∧ ∀ n, tcb'.slot? n = none

theorem Spared.of_kernel (apart : d.Apart) (housed : d.Housed) (registry : d'.registry = d.registry)
    (threads : ∀ cap < d.kernel.threads.length, d'.kernel.threads[cap]? = d.kernel.threads[cap]?)
    (spaces : ∀ space < d.kernel.spaces.length, d'.kernel.spaces[space]? = d.kernel.spaces[space]?) :
    d.Spared d' where
  registry := registry
  threads t thread ht := threads _ (apart.made t thread ht)
  spaces pid inf hinf := spaces _ (housed.made pid _ (Registry.mem_places.2 ⟨inf, hinf, rfl⟩))

/-! ## The operations -/

/-- A thread is refused before it is called, or for what it answers, or because the ids have run out. -/
theorem addThread_error {cap : ThreadCap} (h : d.addThread pid native cap = (.error e, d')) :
    (d' = d ∧ e ≠ .debugSlots) ∨ ∃ inf, d.registry.inferior? pid = some inf ∧
      d' = { d with kernel := (inf.breakpoints.programThread cap d.kernel).2 } ∧
      ((e = .debugSlots ∧ (inf.breakpoints.programThread cap d.kernel).1 = false) ∨
        (e = .full ∧ inf.threads.Exhausted)) := by
  unfold addThread at h
  split at h
  · cases h
    exact .inl ⟨rfl, nofun⟩
  · rename_i inf hinf
    split at h
    · cases h
      exact .inl ⟨rfl, nofun⟩
    · split at h
      · cases h
        exact .inl ⟨rfl, nofun⟩
      · rename_i room
        split at h
        · rename_i kernel programmed
          cases h
          exact .inr ⟨inf, hinf, by rw [programmed], .inl ⟨rfl, by rw [programmed]⟩⟩
        · rename_i kernel programmed
          split at h
          · rename_i none
            cases h
            have exhausted := SlotTable.exhausted_of_insert?_eq_none (Bool.eq_false_iff.2 room) none
            exact .inr ⟨inf, hinf, by rw [programmed], .inr ⟨rfl, exhausted⟩⟩
          · cases h

theorem getElem?_threads_makeThread (tcb : Tcb) {cap : ThreadCap} (h : cap < d.kernel.threads.length) :
    (d.makeThread tcb).2.kernel.threads[cap]? = d.kernel.threads[cap]? := List.getElem?_append_left h

/-- A new thread that nobody has called. -/
theorem declined_uncalled (apart : d.Apart) (housed : d.Housed) (tcb : Tcb) (other : e ≠ .debugSlots)
    (exhausted : Prop) : d.Declined tcb e exhausted (d.makeThread tcb).2 where
  spared := .of_kernel apart housed rfl (fun _ => getElem?_threads_makeThread tcb) fun _ _ => rfl
  calls := ⟨[], by simp [makeThread, Kernel.addThread], by simp⟩
  silent _ _ := rfl
  undone slots := absurd slots other

theorem declined_addThread (apart : d.Apart) (housed : d.Housed) {tcb : Tcb}
    (h : (d.makeThread tcb).2.addThread pid native (d.makeThread tcb).1 = (.error e, d')) :
    d.Declined tcb e (∃ inf, d.registry.inferior? pid = some inf ∧ inf.threads.Exhausted) d' := by
  rcases addThread_error h with ⟨rfl, other⟩ | ⟨inf, hinf, rfl, reason⟩
  · exact declined_uncalled apart housed tcb other _
  · have calls : Calls (fun c => ∃ call, c = .thread d.kernel.threads.length call ∧ call.IsSlot)
        (d.makeThread tcb).2.kernel
        (inf.breakpoints.programThread (d.makeThread tcb).1 (d.makeThread tcb).2.kernel).2 :=
      BreakpointTable.calls_programThread (fun slot trigger => ⟨_, rfl, trivial⟩) fun slot => ⟨_, rfl, trivial⟩
    have threads : ∀ cap < d.kernel.threads.length,
        (inf.breakpoints.programThread (d.makeThread tcb).1 (d.makeThread tcb).2.kernel).2.threads[cap]? =
          d.kernel.threads[cap]? := by
      intro cap hcap
      rw [calls.thread_eq, getElem?_threads_makeThread tcb hcap]
      rintro call ⟨_, heq, -⟩
      exact Nat.ne_of_lt hcap (Call.thread.inj heq).1
    have spaces : ∀ space < d.kernel.spaces.length,
        (inf.breakpoints.programThread (d.makeThread tcb).1 (d.makeThread tcb).2.kernel).2.spaces[space]? =
          d.kernel.spaces[space]? := by
      intro space _
      rw [calls.space_eq]
      · rfl
      · rintro addr word ⟨_, heq, -⟩
        cases heq
    exact {
      spared := .of_kernel apart housed rfl threads spaces
      calls := calls.history
      silent := by
        intro other ids
        rcases reason with ⟨slots, -⟩ | ⟨-, exhausted⟩
        · exact absurd slots other
        · exact absurd ⟨inf, hinf, exhausted⟩ ids
      undone := by
        intro slots clear obedient
        rcases reason with ⟨-, failed⟩ | ⟨full, -⟩
        · have new : (d.makeThread tcb).2.kernel.threads[(d.makeThread tcb).1]? = some tcb := by
            simp [makeThread, Kernel.addThread]
          exact (setSlots_undone new (fun n _ => clear n) failed).resolve_left obedient
        · rw [full] at slots
          cases slots }

theorem addInferior_error {space : SpaceCap} (h : d.addInferior native space = (.error e, d')) : d' = d := by
  unfold addInferior at h
  split at h
  · cases h
    rfl
  · cases h

theorem disable_error (h : d.disable pid = (.error e, d')) : d' = d := by
  unfold disable at h
  split at h
  · cases h
    rfl
  · cases h

theorem exit_error {t : Ptid} (h : d.exit t = (.error e, d')) : d' = d := by
  unfold exit at h
  split at h
  · cases h
    rfl
  · cases h

/-- No operation on who is registered leaves a trace when it is refused. -/
structure RefusesCleanly (d : Debuggee) : Prop where
  /-- Not even the new address space was called. -/
  addInferior : ∀ native space e d',
    (d.makeSpace space).2.addInferior native (d.makeSpace space).1 = (.error e, d') →
    d.Spared d' ∧ d'.kernel.history = d.kernel.history
  addThread : ∀ pid native tcb e d',
    (d.makeThread tcb).2.addThread pid native (d.makeThread tcb).1 = (.error e, d') →
    d.Declined tcb e (∃ inf, d.registry.inferior? pid = some inf ∧ inf.threads.Exhausted) d'
  disable : ∀ pid e d', d.disable pid = (.error e, d') → d' = d
  exit : ∀ t e d', d.exit t = (.error e, d') → d' = d

theorem refusesCleanly (apart : d.Apart) (housed : d.Housed) : d.RefusesCleanly where
  addInferior := by
    intro native space e d' h
    obtain rfl := addInferior_error h
    exact ⟨.of_kernel apart housed rfl (fun _ _ => rfl) fun _ => List.getElem?_append_left, rfl⟩
  addThread _ _ _ _ _ := declined_addThread apart housed
  disable _ _ _ := disable_error
  exit _ _ _ := exit_error

end Debuggee
end RemoteDebug
