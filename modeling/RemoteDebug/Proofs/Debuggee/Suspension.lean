import RemoteDebug.Proofs.Debuggee.Footprint
import RemoteDebug.Proofs.Debuggee.Names

/-!
# Threads that do not run

`Debuggee.Suspended` says that every registered thread is suspended in the kernel, `Debuggee.Asleep` that none is to
wake up. Asking every thread to stop suspends it unless it refuses (`suspended_suspendAll`), and only operations that
resume threads or bring in one that runs end that (`suspended_perform`). Once threads have been let run none is to
wake up (`asleep_resumeWoken`), until a client says which are.
-/

namespace RemoteDebug

open Kernel

/-! ## Suspending -/

namespace Kernel

/-- Whether a thread is there and suspended. -/
def IsSuspended (k : Kernel) (cap : ThreadCap) : Prop := ∃ tcb, k.threads[cap]? = some tcb ∧ tcb.suspended = true

/-- No thread has refused to stop. -/
def NoSuspendFailed (k : Kernel) : Prop :=
  ∀ r ∈ k.history.toList, ∀ cap, r.call = .thread cap .suspend → r.done = true

/-- A suspended thread stays so as long as it is not resumed. -/
theorem Calls.isSuspended {k k' : Kernel} (h : Calls (fun c => ¬ c.IsResume) k k') {cap : ThreadCap}
    (hs : k.IsSuspended cap) : k'.IsSuspended cap := by
  obtain ⟨tcb, htcb, hsusp⟩ := hs
  refine h.keeps_thread (Q := fun tcb => tcb.suspended = true) (fun call tcb hp hq => ?_) htcb hsusp
  cases call with
  | resume => exact absurd trivial hp
  | suspend => rfl
  | _ => exact hq

/-- A call comes last among those made since. -/
theorem drop_push {k k' : Kernel} (grown : k.history.size ≤ k'.history.size) (r : Record) :
    (k'.history.push r).toList.drop k.history.size = k'.history.toList.drop k.history.size ++ [r] := by
  rw [Array.toList_push, List.drop_append_of_le_length (by rw [Array.length_toList]; exact grown)]

/-- A suspended thread that is not asked to stop again is suspended as long as it does not resume. -/
theorem Calls.isSuspended_iff {k k' : Kernel} {cap : ThreadCap} (h : Calls (fun c => c ≠ .thread cap .suspend) k k')
    (hs : k.IsSuspended cap) :
    k'.IsSuspended cap ↔ ⟨.thread cap .resume, true⟩ ∉ k'.history.toList.drop k.history.size := by
  have grown {k' : Kernel} (h : Calls (fun c => c ≠ .thread cap .suspend) k k') :
      k.history.size ≤ k'.history.size := by
    obtain ⟨new, heq, -⟩ := h.history
    rw [← Array.length_toList, ← Array.length_toList, heq, List.length_append]
    exact Nat.le_add_right _ _
  induction h with
  | refl =>
    rw [← Array.length_toList, List.drop_length]
    exact iff_of_true hs List.not_mem_nil
  | @thread k' other call h hp ih =>
    rw [history_callThread, drop_push (grown h), List.mem_append, not_or, List.mem_singleton]
    refine Iff.trans ?_ (and_congr_left' ih)
    by_cases hc : cap = other
    · subst hc
      rw [IsSuspended, thread_callThread]
      cases hacc : k'.accepts cap call with
      | false => simp [IsSuspended]
      | true =>
        obtain ⟨tcb, htcb⟩ := exists_of_accepts hacc
        cases call with
        | suspend => exact absurd rfl hp
        | _ => simp [IsSuspended, htcb, Tcb.perform]
    · have apart : (⟨.thread cap .resume, true⟩ : Record) ≠ ⟨.thread other call, k'.accepts other call⟩ := by
        intro heq
        simp only [Record.mk.injEq, Call.thread.injEq] at heq
        exact hc heq.1.1
      rw [IsSuspended, thread_callThread_of_ne _ _ _ hc]
      exact (and_iff_left apart).symm
  | @read k' space addr h hp ih =>
    rw [history_readWord, drop_push (grown h), List.mem_append, not_or, List.mem_singleton]
    exact ih.trans (and_iff_left nofun).symm
  | @write k' space addr word h hp ih =>
    rw [history_writeWord, drop_push (grown h), List.mem_append, not_or, List.mem_singleton, IsSuspended,
      threads_writeWord]
    exact ih.trans (and_iff_left nofun).symm

theorem isSuspended_callEach {k : Kernel} {caps : List ThreadCap} (hn : (k.callEach .suspend caps).NoSuspendFailed)
    {cap : ThreadCap} (hcap : cap ∈ caps) : (k.callEach .suspend caps).IsSuspended cap := by
  induction caps generalizing k with
  | nil => cases hcap
  | cons first caps ih =>
    have rest : Calls (fun c => ¬ c.IsResume) (k.callThread first .suspend).2 (k.callEach .suspend (first :: caps)) :=
      calls_callEach fun _ _ => id
    by_cases hmem : cap ∈ caps
    · exact ih hn hmem
    · have hfirst : cap = first := (List.mem_cons.1 hcap).resolve_right hmem
      subst hfirst
      refine rest.isSuspended ?_
      -- the call is on record, so it was done
      have recorded : (⟨.thread cap .suspend, k.accepts cap .suspend⟩ : Record) ∈
          (k.callThread cap .suspend).2.history.toList := by
        rw [history_callThread, Array.toList_push]
        exact List.mem_append_right _ (List.mem_singleton_self _)
      have done : k.accepts cap .suspend = true := hn _ (rest.mem_history recorded) cap rfl
      obtain ⟨tcb, htcb⟩ := exists_of_accepts done
      exact ⟨tcb.perform .suspend, by rw [thread_callThread, done, htcb]; rfl, rfl⟩

theorem isSuspended_allocate {k : Kernel} {cap : ThreadCap} (h : k.IsSuspended cap) (op : Operation) :
    (op.allocate k).IsSuspended cap := by
  obtain ⟨tcb, htcb, hsusp⟩ := h
  have grown (new : Tcb) : (k.threads ++ [new])[cap]? = some tcb := by
    rw [List.getElem?_append_left (List.getElem?_eq_some_iff.1 htcb).1]
    exact htcb
  cases op with
  | makeThread new => exact ⟨tcb, grown new, hsusp⟩
  | addThread _ _ new => exact ⟨tcb, grown new, hsusp⟩
  | program _ new => exact ⟨tcb, grown new, hsusp⟩
  | _ => exact ⟨tcb, htcb, hsusp⟩

end Kernel

namespace Debuggee

variable {d d' : Debuggee}

/-- Every registered thread is suspended. -/
def Suspended (d : Debuggee) : Prop := ∀ cap ∈ d.registry.caps, d.kernel.IsSuspended cap

/-- No registered thread is to wake up. -/
def Asleep (d : Debuggee) : Prop := ∀ t thread, d.registry.thread? t = some thread → thread.wakeup = false

theorem suspended_suspendAll (h : d.suspendAll.kernel.NoSuspendFailed) : d.suspendAll.Suspended :=
  fun _ hcap => isSuspended_callEach h hcap

theorem isSuspended_perform {op : Operation} (hop : ¬ op.Resumes) {cap : ThreadCap} (h : d.kernel.IsSuspended cap) :
    (d.perform op).kernel.IsSuspended cap := (d.calls_perform hop).isSuspended (isSuspended_allocate h op)

theorem isSuspended_performAll {ops : List Operation} (hops : ∀ op ∈ ops, ¬ op.Resumes) {cap : ThreadCap}
    (h : d.kernel.IsSuspended cap) : (d.performAll ops).kernel.IsSuspended cap := by
  induction ops generalizing d with
  | nil => exact h
  | cons op ops ih =>
    exact ih (fun op' hop => hops op' (List.mem_cons_of_mem _ hop)) (isSuspended_perform (hops op List.mem_cons_self) h)

/-- The capabilities after an operation are those before it, and that of a thread that is handed over. -/
theorem mem_caps_perform {op : Operation} {cap : ThreadCap} (h : cap ∈ (d.perform op).registry.caps) :
    cap ∈ d.registry.caps ∨ (∃ pid native tcb, op = .addThread pid native tcb) ∧
      cap = d.kernel.threads.length := by
  by_cases hkeeps : op.KeepsRoster
  · rw [Registry.caps_eq, roster_perform d hkeeps, ← Registry.caps_eq] at h
    exact .inl h
  · cases op with
    | addInferior native space =>
      obtain ⟨t, thread, ht, rfl⟩ := Registry.exists_of_mem_caps h
      have hadded := addedInferior_addInferior (d.makeSpace space).2 native (d.makeSpace space).1
      exact .inl (Registry.cap_mem_caps (hadded.thread? ht))
    | addThread pid native tcb =>
      obtain ⟨t, thread, ht, rfl⟩ := Registry.exists_of_mem_caps h
      rcases (added_addThread (d.makeThread tcb).2 pid native (d.makeThread tcb).1).thread? ht with hold | ⟨-, rfl⟩
      · exact .inl (Registry.cap_mem_caps hold)
      · exact .inr ⟨⟨pid, native, tcb, rfl⟩, rfl⟩
    | disable pid => exact .inl ((within_disable d pid).caps.subset h)
    | exit t => exact .inl ((within_exit d t).caps.subset h)
    | _ => exact absurd trivial hkeeps

/-- Threads stay suspended unless an operation resumes them or brings in one that is not. -/
theorem suspended_perform (op : Operation) (hop : ¬ op.Resumes)
    (hnew : ∀ pid native tcb, op = .addThread pid native tcb → tcb.suspended = true) (h : d.Suspended) :
    (d.perform op).Suspended := by
  intro cap hcap
  rcases mem_caps_perform hcap with hold | ⟨⟨pid, native, tcb, rfl⟩, rfl⟩
  · exact isSuspended_perform hop (h cap hold)
  · refine (d.calls_perform hop).isSuspended ⟨tcb, ?_, hnew pid native tcb rfl⟩
    simp [Operation.allocate, Kernel.addThread]

theorem Suspended.within (h : d.Suspended) (hw : d'.registry.Within d.registry) (hk : d'.kernel = d.kernel) :
    d'.Suspended := by
  intro cap hcap
  rw [hk]
  exact h cap (hw.caps.subset hcap)

/-- Suspended threads that are let go of stay suspended if and only if none of them is resumed by that. -/
theorem suspended_release_iff (h : d.Suspended) :
    d.release.Suspended ↔ ∀ cap ∈ d.registry.caps,
      ⟨.thread cap .resume, true⟩ ∉ d.release.kernel.history.toList.drop d.kernel.history.size := by
  have caps_eq : d.release.registry.caps = d.registry.caps := by
    exact Registry.caps_of_outline_eq outline_release
  have kept (cap : ThreadCap) (hcap : cap ∈ d.registry.caps) : d.release.kernel.IsSuspended cap ↔
      ⟨.thread cap .resume, true⟩ ∉ d.release.kernel.history.toList.drop d.kernel.history.size := by
    have calls : Calls (fun c => c ≠ .thread cap .suspend) d.kernel d.release.kernel :=
      calls_release (fun _ _ => nofun) (fun _ _ _ => nofun) (fun _ _ => nofun) (fun _ => nofun) fun _ => nofun
    exact calls.isSuspended_iff (h cap hcap)
  rw [Suspended, caps_eq]
  exact forall₂_congr kept

/-! ## Calls that resume nothing -/

/-- A kernel comes from another without a thread being resumed. -/
def Undisturbed (k k' : Kernel) : Prop :=
  ∃ new : List Record, k'.history.toList = k.history.toList ++ new ∧ ∀ r ∈ new, ¬ r.call.IsResume

theorem Undisturbed.refl (k : Kernel) : Undisturbed k k := ⟨[], by simp, by simp⟩

theorem Undisturbed.trans {k k' k'' : Kernel} (h : Undisturbed k k') (h' : Undisturbed k' k'') : Undisturbed k k'' := by
  obtain ⟨new, heq, hnew⟩ := h
  obtain ⟨new', heq', hnew'⟩ := h'
  refine ⟨new ++ new', by rw [heq', heq, List.append_assoc], fun r hr => ?_⟩
  rcases List.mem_append.1 hr with hr | hr
  · exact hnew r hr
  · exact hnew' r hr

theorem undisturbed_perform {op : Operation} (hop : ¬ op.Resumes) : Undisturbed d.kernel (d.perform op).kernel := by
  obtain ⟨new, heq, hnew⟩ := (d.calls_perform hop).history
  exact ⟨new, by rw [heq, Operation.history_allocate], hnew⟩

theorem undisturbed_performAll {ops : List Operation} (hops : ∀ op ∈ ops, ¬ op.Resumes) :
    Undisturbed d.kernel (d.performAll ops).kernel := by
  induction ops generalizing d with
  | nil => exact .refl _
  | cons op ops ih =>
    exact (undisturbed_perform (hops op List.mem_cons_self)).trans
      (ih fun op' hop => hops op' (List.mem_cons_of_mem _ hop))

/-! ## Waking up -/

theorem thread?_onInferior {α : Type} {pid : Nat} {op : Inferior → Kernel → α × Inferior × Kernel}
    (h : ∀ inf k, (op inf k).2.1.threads = inf.threads) {t : Ptid} {thread : Thread}
    (ht : (d.onInferior pid op).2.registry.thread? t = some thread) : d.registry.thread? t = some thread := by
  unfold onInferior at ht
  split at ht
  · exact ht
  · rename_i inf hinf
    obtain ⟨inf', hinf', hmem⟩ := Registry.thread?_eq_some_iff.1 ht
    obtain ⟨p, q, before, after⟩ :=
      SlotTable.toList_modify (show d.registry.inferiors.get? pid = some inf from hinf)
      fun _ => (op inf d.kernel).2.1
    have list : (d.registry.modifyInferior pid fun _ => (op inf d.kernel).2.1).inferiors.toList =
        p ++ (pid, (op inf d.kernel).2.1) :: q := after
    dsimp only at hinf'
    rw [list] at hinf'
    refine Registry.thread?_eq_some_iff.2 ?_
    rw [before]
    rcases List.mem_append.1 hinf' with hp | hq
    · exact ⟨inf', List.mem_append_left _ hp, hmem⟩
    · rcases List.mem_cons.1 hq with heq | hq
      · simp only [Prod.mk.injEq] at heq
        obtain ⟨hpid, rfl⟩ := heq
        rw [h] at hmem
        exact ⟨inf, by simp [hpid], hmem⟩
      · exact ⟨inf', by simp [hq], hmem⟩

/-- Commands that are answered at once leave every thread as it is. -/
theorem thread?_of_quiet {op : Operation} (hop : op.Quiet) {t : Ptid} {thread : Thread}
    (ht : (d.perform op).registry.thread? t = some thread) : d.registry.thread? t = some thread := by
  cases op with
  | insertPatch | removePatch | insertTrigger | removeTrigger => exact thread?_onInferior (fun _ _ => rfl) ht
  | select | readRegisters | writeRegisters | readMemory | writeMemory => exact ht
  | _ => exact hop.elim

theorem asleep_of_quiet {op : Operation} (hop : op.Quiet) (h : d.Asleep) : (d.perform op).Asleep :=
  fun t thread ht => h t thread (thread?_of_quiet hop ht)

theorem asleep_within (h : d.Asleep) (hw : d'.registry.Within d.registry) : d'.Asleep :=
  fun t thread ht => h t thread (hw.thread? ht)

theorem asleep_addInferior {native : UInt64} {space : Space} (h : d.Asleep) :
    (d.perform (.addInferior native space)).Asleep :=
  fun t thread ht => h t thread ((addedInferior_addInferior (d.makeSpace space).2 native _).thread? ht)

theorem asleep_addThread {pid : Nat} {native : UInt64} {tcb : Tcb} (h : d.Asleep) :
    (d.perform (.addThread pid native tcb)).Asleep := by
  intro t thread ht
  rcases (added_addThread (d.makeThread tcb).2 pid native (d.makeThread tcb).1).thread? ht with hold | ⟨-, rfl⟩
  · exact h t thread hold
  · rfl

/-- Threads that have been let run are not to wake up again. -/
theorem asleep_resumeWoken (d : Debuggee) : d.resumeWoken.Asleep := by
  intro t thread ht
  obtain ⟨inf, hinf, hmem⟩ := Registry.thread?_eq_some_iff.1 ht
  rw [resumeWoken, visitThreads, SlotTable.toList_visit_fst] at hinf
  obtain ⟨before, k, -, rfl⟩ := SlotTable.mem_visitList hinf
  rw [SlotTable.toList_visit_fst] at hmem
  obtain ⟨thread', k', -, rfl⟩ := SlotTable.mem_visitList hmem
  unfold Thread.wake
  split
  · rfl
  · rename_i hwake
    exact Bool.eq_false_iff.2 hwake

theorem asleep_release (d : Debuggee) : d.release.Asleep := asleep_resumeWoken _

end Debuggee
end RemoteDebug
