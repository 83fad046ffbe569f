import RemoteDebug.Proofs.Debuggee.Apart
import RemoteDebug.Proofs.Registry.Mirror

/-!
# Threads are as the registry books them

Every registered thread has the debug state that the registry books for it (`Debuggee.Mirrored`). This is a statement
about each aspect of the debug state by itself. The operations keep it, whatever calls are refused, as long as threads
come in with nothing in that aspect (`Debuggee.mirrored_perform`). Most of them change neither the books
(`Registry.books`) nor the debug state of a registered thread; an operation on one inferior leaves the others alone
(`Debuggee.Mirrored.replace`).
-/

namespace RemoteDebug

open Kernel

/-- The thread that an operation is to register. -/
def Operation.entrant? : Operation → Option Tcb
  | .addThread _ _ tcb => some tcb
  | _ => none

theorem Operation.tcb?_of_entrant? {op : Operation} {tcb : Tcb} (h : op.entrant? = some tcb) : op.tcb? = some tcb := by
  cases op with
  | addThread => exact h
  | _ => cases h

/-! ## The books of a registry -/

/-- What a registry books about the debug state of threads: for each inferior which of them step, and its triggers. -/
def Registry.books (r : Registry) : List (List (ThreadCap × Bool) × List (Option Cpu.Trigger)) :=
  r.inferiors.toList.map fun e => (e.2.stepping, e.2.breakpoints.slots)

namespace Debuggee

variable {d d' : Debuggee} {aspect : Aspect}

/-- In one aspect of their debug state, the threads of every inferior are as it books them. -/
def Mirrored (d : Debuggee) (aspect : Aspect) : Prop :=
  ∀ e ∈ d.registry.inferiors.toList, e.2.Mirrored d.kernel aspect

theorem mirrored_empty (maxInferiors maxThreads maxPatches : Nat) (aspect : Aspect) :
    (empty maxInferiors maxThreads maxPatches).Mirrored aspect := by
  simp [Mirrored, empty, Registry.empty]

/-- The same books, and calls that leave the debug state of registered threads alone. -/
theorem Mirrored.of_calls {p : Call → Prop} (h : d.Mirrored aspect) (books : d'.registry.books = d.registry.books)
    (calls : Calls p d.kernel d'.kernel)
    (hp : ∀ cap ∈ d.registry.caps, ∀ call, p (.thread cap call) → ¬ call.IsDebug) : d'.Mirrored aspect := by
  intro e he
  have booked : (e.2.stepping, e.2.breakpoints.slots) ∈ d.registry.books := by
    rw [← books]
    exact List.mem_map.2 ⟨e, he, rfl⟩
  obtain ⟨e', he', heq⟩ := List.mem_map.1 booked
  obtain ⟨hsteps, hslots⟩ := Prod.mk.inj heq
  refine ((h e' he').of_calls calls fun cap hcap => hp cap ?_).congr hslots.symm hsteps.symm
  exact List.mem_flatMap.2 ⟨e', he', hcap⟩

/-- An inferior in place of another, and calls that leave the debug state of the threads of all others alone. -/
theorem Mirrored.replace {inf inf' : Inferior} {pid : Nat} {before after : List (Nat × Inferior)} {p : Call → Prop}
    (h : d.Mirrored aspect) (old : d.registry.inferiors.toList = before ++ (pid, inf) :: after)
    (new : d'.registry.inferiors.toList = before ++ (pid, inf') :: after) (calls : Calls p d.kernel d'.kernel)
    (hp : ∀ e ∈ before ++ after, ∀ cap ∈ e.2.caps, ∀ call, p (.thread cap call) → ¬ call.IsDebug)
    (keeps : inf'.Mirrored d'.kernel aspect) : d'.Mirrored aspect := by
  have others (e : Nat × Inferior) (he : e ∈ before ++ after) : e.2.Mirrored d'.kernel aspect := by
    refine (h e ?_).of_calls calls (hp e he)
    rw [old]
    rcases List.mem_append.1 he with he | he
    · exact List.mem_append_left _ he
    · exact List.mem_append_right _ (List.mem_cons_of_mem _ he)
  intro e he
  rw [new] at he
  rcases List.mem_append.1 he with he | he
  · exact others e (List.mem_append_left _ he)
  · rcases List.mem_cons.1 he with rfl | he
    · exact keeps
    · exact others e (List.mem_append_right _ he)

/-- An inferior in place of another, and calls on its own threads alone. -/
theorem Mirrored.replace_own {inf inf' : Inferior} {pid : Nat} {before after : List (Nat × Inferior)}
    (h : d.Mirrored aspect) (distinct : d.registry.caps.Nodup)
    (old : d.registry.inferiors.toList = before ++ (pid, inf) :: after)
    (new : d'.registry.inferiors.toList = before ++ (pid, inf') :: after)
    (calls : Calls (Call.OnThreads inf.caps) d.kernel d'.kernel) (keeps : inf'.Mirrored d'.kernel aspect) :
    d'.Mirrored aspect := by
  have caps_eq : d.registry.caps = before.flatMap (·.2.caps) ++ (inf.caps ++ after.flatMap (·.2.caps)) := by
    simp [Registry.caps, old]
  rw [caps_eq] at distinct
  -- a thread of another inferior is none of this one
  obtain ⟨-, rest, first⟩ := List.nodup_append'.1 distinct
  obtain ⟨-, -, last⟩ := List.nodup_append'.1 rest
  refine h.replace old new calls (fun e he cap hcap call hc => ?_) keeps
  have own : cap ∈ inf.caps := onThreads_thread.1 hc
  rcases List.mem_append.1 he with he | he
  · exact absurd (List.mem_append_left _ own) (first (List.mem_flatMap.2 ⟨e, he, hcap⟩))
  · exact absurd (List.mem_flatMap.2 ⟨e, he, hcap⟩) (last own)

/-! ## Operations on one inferior -/

theorem Mirrored.onInferior {α : Type} {op : Inferior → Kernel → α × Inferior × Kernel} (h : d.Mirrored aspect)
    (distinct : d.registry.caps.Nodup) (pid : Nat)
    (calls : ∀ inf k, Calls (Call.OnThreads inf.caps) k (op inf k).2.2)
    (keeps : ∀ {inf k}, inf.Mirrored k aspect → inf.caps.Nodup → (op inf k).2.1.Mirrored (op inf k).2.2 aspect) :
    (d.onInferior pid op).2.Mirrored aspect := by
  unfold Debuggee.onInferior
  split
  · exact h
  · rename_i inf hinf
    obtain ⟨p, q, old, new⟩ := SlotTable.toList_modify (show d.registry.inferiors.get? pid = some inf from hinf)
      fun _ => (op inf d.kernel).2.1
    have hmem : (pid, inf) ∈ d.registry.inferiors.toList := by simp [old]
    exact h.replace_own distinct old new (calls inf d.kernel)
      (keeps (h _ hmem) (Registry.nodup_caps_of_mem distinct hmem))

theorem Mirrored.onThread {α : Type} {op : Thread → Kernel → α × Thread × Kernel} (h : d.Mirrored aspect)
    (distinct : d.registry.caps.Nodup) (t : Ptid) (same : ∀ thread k, (op thread k).2.1.cap = thread.cap)
    (calls : ∀ thread k, Calls (fun c => ∃ on, c = .thread thread.cap (.singleStep on)) k (op thread k).2.2)
    (keeps : ∀ {thread k}, k.Steps thread.cap thread.stepping →
      (op thread k).2.2.Steps thread.cap (op thread k).2.1.stepping) : (d.onThread t op).2.Mirrored aspect := by
  unfold Debuggee.onThread
  split
  · exact h
  · rename_i thread hthread
    obtain ⟨inf, hinf, hget⟩ := Option.bind_eq_some_iff.1 (show (d.registry.inferior? t.pid).bind
      (·.threads.get? t.tid) = some thread from hthread)
    obtain ⟨p, q, old, new⟩ := SlotTable.toList_modify (show d.registry.inferiors.get? t.pid = some inf from hinf)
      fun inf => { inf with threads := inf.threads.modify t.tid fun _ => (op thread d.kernel).2.1 }
    have hmem : (t.pid, inf) ∈ d.registry.inferiors.toList := by simp [old]
    have hcap : thread.cap ∈ inf.caps := Inferior.mem_caps.2 ⟨t.tid, thread, SlotTable.mem_toList.2 hget, rfl⟩
    have kept := (h _ hmem).modifyThread (Registry.nodup_caps_of_mem distinct hmem) hget (same thread d.kernel)
      (calls thread d.kernel) keeps
    refine h.replace_own distinct old new ((calls thread d.kernel).mono ?_) kept
    rintro c ⟨on, rfl⟩
    exact onThreads_thread.2 hcap

/-! ## Operations on all inferiors -/

theorem Mirrored.clearDebugState (h : d.Mirrored aspect) (distinct : d.registry.caps.Nodup) :
    d.clearDebugState.Mirrored aspect := by
  have all := @visitList_forall Inferior Inferior.caps (fun inf k => inf.Mirrored k aspect)
    (fun _ inf k => inf.clearDebugState k)
    (fun calls hm => hm.of_calls calls fun cap hcap call hc => absurd hcap (hc cap call rfl))
    (fun _ inf k => Inferior.calls_clearDebugState (fun _ => onThreads_space) (fun _ _ => onThreads_space)
      (fun cap hcap _ => onThreads_thread.2 hcap) fun cap hcap => onThreads_thread.2 hcap)
    (fun _ inf k => Inferior.caps_of_outline_eq (inf.outline_clearDebugState k))
    (fun _ inf k distinct hm => hm.clearDebugState distinct) d.registry.inferiors.toList d.kernel distinct h
  intro e he
  rw [Debuggee.clearDebugState, SlotTable.toList_visit_fst] at he
  show e.2.Mirrored (d.registry.inferiors.visit (fun _ inf k => inf.clearDebugState k) d.kernel).2 aspect
  rw [SlotTable.visit_snd]
  exact all e he

/-- Which threads are to wake up is not in the books. -/
theorem books_mapThreads {r : Registry} {f : Ptid → Thread → Thread}
    (hcap : ∀ t thread, (f t thread).cap = thread.cap)
    (hstep : ∀ t thread, (f t thread).stepping = thread.stepping) : (r.mapThreads f).books = r.books := by
  simp [Registry.books, Registry.mapThreads, SlotTable.toList_mapLive, Inferior.stepping, hcap, hstep]

theorem Mirrored.mapThreads (h : d.Mirrored aspect) {f : Ptid → Thread → Thread}
    (hcap : ∀ t thread, (f t thread).cap = thread.cap)
    (hstep : ∀ t thread, (f t thread).stepping = thread.stepping) :
    Mirrored { d with registry := d.registry.mapThreads f } aspect :=
  h.of_calls (p := fun _ => False) (books_mapThreads hcap hstep) .refl fun _ _ _ => False.elim

theorem books_resumeWoken : d.resumeWoken.registry.books = d.registry.books := by
  have thread (t : Thread) (k : Kernel) : ((t.wake k).1.cap, (t.wake k).1.stepping) = (t.cap, t.stepping) := by
    unfold Thread.wake
    split <;> rfl
  have inferior (inf : Inferior) (k : Kernel) :
      Inferior.stepping { inf with threads := (inf.threads.visit (fun _ t k => t.wake k) k).1 } = inf.stepping := by
    rw [Inferior.stepping, SlotTable.toList_visit_fst]
    exact SlotTable.map_value_visitList (g := fun t : Thread => (t.cap, t.stepping)) (fun _ t k => thread t k) _ _
  rw [Registry.books, Debuggee.resumeWoken, visitThreads, SlotTable.toList_visit_fst]
  exact SlotTable.map_value_visitList (g := fun inf : Inferior => (inf.stepping, inf.breakpoints.slots))
    (fun _ inf k => Prod.ext (inferior inf k) rfl) _ _

theorem Mirrored.of_harmless (h : d.Mirrored aspect) (books : d'.registry.books = d.registry.books)
    (calls : Calls Call.Harmless d.kernel d'.kernel) : d'.Mirrored aspect :=
  h.of_calls books calls fun cap _ call hc => hc cap call rfl

theorem Mirrored.resumeWoken (h : d.Mirrored aspect) : d.resumeWoken.Mirrored aspect :=
  h.of_harmless books_resumeWoken (calls_resumeWoken fun _ _ => harmless_thread id)

theorem Mirrored.release (h : d.Mirrored aspect) (distinct : d.registry.caps.Nodup) : d.release.Mirrored aspect :=
  ((h.clearDebugState distinct).mapThreads (f := fun _ thread => { thread with wakeup := true }) (fun _ _ => rfl)
    fun _ _ => rfl).resumeWoken

/-! ## Resumption actions -/

theorem Mirrored.applyMotion (h : d.Mirrored aspect) (distinct : d.registry.caps.Nodup) (t : Ptid) (motion : Motion) :
    (d.applyMotion t motion).Mirrored aspect :=
  h.onThread distinct t (fun thread k => thread.cap_setStepping motion.isStep k)
    (fun _ _ => Thread.calls_setStepping ⟨_, rfl⟩) fun hs => Thread.steps_setStepping hs motion.isStep

theorem Mirrored.applyTargets (h : d.Mirrored aspect) (distinct : d.registry.caps.Nodup) (motion : Motion)
    (targets named : List Ptid) : (applyTargets motion targets named d).2.Mirrored aspect := by
  induction targets generalizing named d with
  | nil => exact h
  | cons t targets ih =>
    unfold Debuggee.applyTargets
    split
    · exact ih h distinct named
    · refine ih (h.applyMotion distinct t motion) ?_ _
      rwa [Registry.caps_of_outline_eq (outline_applyMotion t motion)]

theorem Mirrored.applied (h : d.Mirrored aspect) (distinct : d.registry.caps.Nodup) (action : Action)
    (named : List Ptid) : (d.applied action named).2.Mirrored aspect := by
  have marked : (d.marked action.motion named).Mirrored aspect :=
    h.mapThreads (fun t thread => by split <;> rfl) fun t thread => by split <;> rfl
  refine marked.applyTargets ?_ _ _ _
  rwa [Registry.caps_of_outline_eq (outline_marked d action.motion named)]

theorem Mirrored.applyActions (h : d.Mirrored aspect) (distinct : d.registry.caps.Nodup) (actions : List Action)
    (named : List Ptid) : (applyActions actions named d).Mirrored aspect := by
  induction actions generalizing named d with
  | nil => exact h
  | cons action actions ih =>
    rw [applyActions_cons]
    refine ih (h.applied distinct action named) ?_ _
    rwa [Registry.caps_of_outline_eq (outline_applied d action named)]

/-! ## Registering and letting go -/

theorem Mirrored.within (h : d.Mirrored aspect) (hw : d'.registry.Within d.registry) (hk : d'.kernel = d.kernel) :
    d'.Mirrored aspect := by
  intro e he
  obtain ⟨before, hbefore, table, fewer⟩ := hw.inferiors e.1 e.2 he
  rw [hk]
  exact (h _ hbefore).sublist table fewer

/-- The objects that an operation hands over leave those that there are alone. -/
theorem Mirrored.allocate (h : d.Mirrored aspect) (op : Operation) :
    Mirrored { d with kernel := op.allocate d.kernel } aspect := by
  refine fun e he => (h e he).of_threads (op.history_allocate d.kernel) ?_
  intro cap old htcb
  have grown (new : Tcb) : (d.kernel.threads ++ [new])[cap]? = some old := by
    rw [List.getElem?_append_left (List.getElem?_eq_some_iff.1 htcb).1]
    exact htcb
  cases op with
  | makeThread tcb | addThread _ _ tcb | program _ tcb => exact grown tcb
  | _ => exact htcb

theorem Mirrored.addInferior (h : d.Mirrored aspect) (native : UInt64) (space : SpaceCap) :
    (d.addInferior native space).2.Mirrored aspect := by
  have added := addedInferior_addInferior d native space
  generalize (d.addInferior native space).2 = d' at added ⊢
  cases added with
  | refused => exact h
  | done _ before after =>
    intro e he
    have old (e : Nat × Inferior) (he : e ∈ d.registry.inferiors.toList) := h e he
    rw [before] at old
    rw [after] at he
    rcases List.mem_append.1 he with he | he
    · exact old e (List.mem_append_left _ he)
    · rcases List.mem_cons.1 he with rfl | he
      · exact Inferior.mirrored_bare (by simp) _ _ _
      · exact old e (List.mem_append_right _ he)

/-- Programming a thread that is not registered leaves those that are alone. -/
theorem calls_programmed (table : BreakpointTable) (cap : ThreadCap) (k : Kernel) :
    Calls (fun c => ∃ call : ThreadCall, call.IsSlot ∧ c = .thread cap call) k (table.programThread cap k).2 :=
  BreakpointTable.calls_programThread (fun slot trigger => ⟨.setSlot slot trigger, trivial, rfl⟩)
    fun slot => ⟨.clearSlot slot, trivial, rfl⟩

theorem Mirrored.addThread (h : d.Mirrored aspect) (pid : Nat) (native : UInt64) {cap : ThreadCap} {tcb : Tcb}
    (htcb : d.kernel.threads[cap]? = some tcb) (blank : tcb.BlankIn aspect) (new : cap ∉ d.registry.caps) :
    (d.addThread pid native cap).2.Mirrored aspect := by
  have added := added_addThread d pid native cap
  generalize (d.addThread pid native cap).1 = r at added
  generalize (d.addThread pid native cap).2 = d' at added ⊢
  have apart {other : ThreadCap} (hother : other ∈ d.registry.caps) (call : ThreadCall) :
      (∃ call' : ThreadCall, call'.IsSlot ∧ Call.thread other call = .thread cap call') → ¬ call.IsDebug := by
    rintro ⟨call', -, heq⟩
    exact absurd ((Call.thread.inj heq).1 ▸ hother) new
  cases added with
  | refused tried =>
    rcases tried with rfl | ⟨inf, -, rfl⟩
    · exact h
    · exact h.of_calls rfl (calls_programmed _ _ _) fun _ hother call => apart hother call
  | @done inf tid threads kernel inferiors current p q p' q' programmed _ before after before' after' =>
    have calls := calls_programmed inf.breakpoints cap d.kernel
    have hmem : (pid, inf) ∈ d.registry.inferiors.toList := by simp [before]
    have holds (slots : aspect = .slots) : kernel.Holds cap inf.breakpoints.trigger? := by
      subst slots
      have held := BreakpointTable.holds_programThread (t := inf.breakpoints) htcb blank (by rw [programmed])
      rwa [programmed] at held
    rw [programmed] at calls
    have steps (stepping : aspect = .stepping) : kernel.Steps cap false := by
      subst stepping
      refine calls.steps ?_ ⟨tcb, htcb, blank⟩
      rintro on ⟨call, hslot, heq⟩
      obtain ⟨-, rfl⟩ := Call.thread.inj heq
      exact hslot
    have old : inf.Mirrored kernel aspect := (h _ hmem).of_calls calls fun other hother call =>
      apart (List.mem_flatMap.2 ⟨_, hmem, hother⟩) call
    refine h.replace before after calls (fun e he other hother call => ?_) (old.insertThread before' after' holds steps)
    refine apart (List.mem_flatMap.2 ⟨e, ?_, hother⟩) call
    rw [before]
    rcases List.mem_append.1 he with he | he
    · exact List.mem_append_left _ he
    · exact List.mem_append_right _ (List.mem_cons_of_mem _ he)

/-! ## All operations -/

/-- Operations keep every thread as it is booked in one aspect, if threads come in with nothing in that aspect. -/
theorem mirrored_perform (h : d.Mirrored aspect) (apart : d.Apart) (op : Operation)
    (blank : ∀ tcb, op.entrant? = some tcb → tcb.BlankIn aspect) : (d.perform op).Mirrored aspect := by
  have handed {tcb : Tcb} : (d.kernel.threads ++ [tcb])[d.kernel.threads.length]? = some tcb := by simp
  have distinct := apart.distinct.nodup_caps
  cases op with
  | makeThread tcb => exact h.allocate (.makeThread tcb)
  | addInferior native space => exact (h.allocate (.addInferior native space)).addInferior native _
  | addThread pid native tcb =>
    exact (h.allocate (.addThread pid native tcb)).addThread pid native handed (blank tcb rfl) apart.not_mem_caps
  | disable pid => exact h.within (within_disable d pid) (kernel_disable d pid)
  | exit t => exact h.within (within_exit d t) (kernel_exit d t)
  | insertTrigger pid trigger =>
    refine h.onInferior distinct pid (fun inf k => ?_) fun hm distinct => hm.insertTrigger distinct trigger
    exact BreakpointTable.calls_insertTrigger (fun cap hcap _ => onThreads_thread.2 hcap)
      fun cap hcap _ => onThreads_thread.2 hcap
  | removeTrigger pid trigger =>
    refine h.onInferior distinct pid (fun inf k => ?_) fun hm distinct => hm.removeTrigger distinct trigger
    exact BreakpointTable.calls_removeTrigger fun cap hcap _ => onThreads_thread.2 hcap
  | clear pid =>
    refine h.onInferior distinct pid (fun inf k => ?_) fun hm distinct => hm.clearDebugState distinct
    exact Inferior.calls_clearDebugState (fun _ => onThreads_space) (fun _ _ => onThreads_space)
      (fun cap hcap _ => onThreads_thread.2 hcap) fun cap hcap => onThreads_thread.2 hcap
  | program pid tcb =>
    have made := h.allocate (.program pid tcb)
    refine made.of_calls (p := fun c => ∃ call : ThreadCall, call.IsSlot ∧ c = .thread d.kernel.threads.length call)
      (by rw [perform, registry_programThread]; rfl) ?_ ?_
    · exact calls_programThread (d := (d.makeThread tcb).2)
        (fun slot trigger => ⟨.setSlot slot trigger, trivial, rfl⟩)
        fun slot => ⟨.clearSlot slot, trivial, rfl⟩
    · rintro cap hcap call ⟨_, -, heq⟩
      rw [(Call.thread.inj heq).1] at hcap
      exact absurd hcap apart.not_mem_caps
  | setStepping t on =>
    exact h.onThread distinct t (fun thread k => thread.cap_setStepping on k)
      (fun _ _ => Thread.calls_setStepping ⟨_, rfl⟩) fun hs => Thread.steps_setStepping hs on
  | setWakeup t on => exact h.onThread distinct t (fun _ _ => rfl) (fun _ _ => .refl) id
  | act actions => exact h.applyActions distinct actions []
  | resumeWoken => exact h.resumeWoken
  | release => exact h.release distinct
  | insertPatch pid addr =>
    exact h.onInferior distinct pid
      (fun _ _ => BreakpointTable.calls_insertPatch onThreads_space fun _ => onThreads_space)
      fun hm _ => hm.insertPatch addr
  | removePatch pid addr =>
    exact h.onInferior distinct pid
      (fun _ _ => BreakpointTable.calls_removePatch onThreads_space fun _ => onThreads_space)
      fun hm _ => hm.removePatch addr
  | select t => exact h.of_harmless rfl .refl
  | suspendAll => exact h.of_harmless rfl (calls_suspendAll fun _ => harmless_thread id)
  | readRegisters cap => exact h.of_harmless rfl (calls_readRegisters (harmless_thread id))
  | writeRegisters cap registers => exact h.of_harmless rfl (calls_callThread (harmless_thread id))
  | readMemory space addr length => exact h.of_harmless rfl (calls_readBytes fun _ => harmless_space)
  | writeMemory space addr data =>
    exact h.of_harmless rfl (calls_writeBytes (fun _ => harmless_space) fun _ _ => harmless_space)

theorem mirrored_performAll (h : d.Mirrored aspect) (apart : d.Apart) {ops : List Operation}
    (blank : ∀ op ∈ ops, ∀ tcb, op.entrant? = some tcb → tcb.BlankIn aspect) :
    (d.performAll ops).Mirrored aspect := by
  induction ops generalizing d with
  | nil => exact h
  | cons op ops ih =>
    exact ih (mirrored_perform h apart op (blank op List.mem_cons_self)) (apart_perform apart op)
      fun op' hop => blank op' (List.mem_cons_of_mem _ hop)

end Debuggee
end RemoteDebug
