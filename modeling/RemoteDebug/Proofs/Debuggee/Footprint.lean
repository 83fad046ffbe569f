import RemoteDebug.Proofs.Debuggee.Operation
import RemoteDebug.Proofs.Kernel.Calls
import RemoteDebug.Proofs.Registry.Outline
import RemoteDebug.Proofs.Registry.Registration

/-!
# What operations on a debuggee call

The footprint of every operation above the kernel, for any condition `p` on calls that allows what the operation does.
An operation on the breakpoints of an inferior calls its address space and its threads and no other object. Only two
operations resume threads (`Debuggee.calls_perform`).
-/

namespace RemoteDebug

open Kernel

variable {p : Call → Prop} {k : Kernel}

/-! ## Breakpoint tables -/

namespace BreakpointTable

variable {table : BreakpointTable} {space : SpaceCap} {addr : UInt64} {caps : List ThreadCap} {trigger : Cpu.Trigger}

theorem calls_insertPatch (hr : p (.space space (.read addr))) (hw : ∀ word, p (.space space (.write addr word))) :
    Calls p k (table.insertPatch space addr k).2.2 := by
  unfold insertPatch
  split
  · exact .refl
  · split
    · exact .refl
    · split
      · exact .refl
      · have hread : Calls p k (k.readWord space addr).2 := Calls.refl.read hr
        split
        · rename_i k' heq
          rw [heq] at hread
          exact hread
        · rename_i covered k' heq
          rw [heq] at hread
          have hwrite := hread.write (hw (Cpu.insertTrap covered))
          split <;> simp_all

theorem calls_removePatch (hr : p (.space space (.read addr))) (hw : ∀ word, p (.space space (.write addr word))) :
    Calls p k (table.removePatch space addr k).2.2 := by
  unfold removePatch
  split
  · exact .refl
  · rename_i i patch hpatch
    have hread : Calls p k (k.readWord space addr).2 := Calls.refl.read hr
    split
    · rename_i k' heq
      rw [heq] at hread
      exact hread
    · rename_i current k' heq
      rw [heq] at hread
      have hwrite := hread.write (hw (Cpu.removeTrap current patch.covered))
      split <;> simp_all

theorem calls_removePatches {addrs : List UInt64} (hr : ∀ addr, p (.space space (.read addr)))
    (hw : ∀ addr word, p (.space space (.write addr word))) : Calls p k (removePatches space addrs table k).2 := by
  induction addrs generalizing table k with
  | nil => exact .refl
  | cons addr addrs ih =>
    have first : Calls p k (table.removePatch space addr k).2.2 := calls_removePatch (hr addr) (hw addr)
    unfold removePatches
    split
    · rename_i table' k' heq
      rw [heq] at first
      exact first.trans ih
    · rename_i e table' k' heq
      rw [heq] at first
      exact first.trans ih

theorem calls_insertTrigger (hs : ∀ cap ∈ caps, ∀ slot, p (.thread cap (.setSlot slot trigger)))
    (hc : ∀ cap ∈ caps, ∀ slot, p (.thread cap (.clearSlot slot))) :
    Calls p k (table.insertTrigger caps trigger k).2.2 := by
  unfold insertTrigger
  split
  · exact .refl
  · split
    · exact .refl
    · split
      · exact .refl
      · split
        · exact .refl
        · rename_i slot hslot
          have hall : Calls p k (k.setSlotOnAll slot trigger [] caps).2 :=
            calls_setSlotOnAll (fun cap h => hs cap h slot) fun cap h => hc cap h slot
          split <;> simp_all

theorem calls_removeTrigger (hc : ∀ cap ∈ caps, ∀ slot, p (.thread cap (.clearSlot slot))) :
    Calls p k (table.removeTrigger caps trigger k).2.2 := by
  unfold removeTrigger
  split
  · exact .refl
  · rename_i slot hslot
    have hall : Calls p k (k.callAll (.clearSlot slot) caps).2 := calls_callAll fun cap h => hc cap h slot
    split <;> simp_all

theorem calls_removeTriggers {triggers : List Cpu.Trigger}
    (hc : ∀ cap ∈ caps, ∀ slot, p (.thread cap (.clearSlot slot))) :
    Calls p k (removeTriggers caps triggers table k).2 := by
  induction triggers generalizing table k with
  | nil => exact .refl
  | cons trigger triggers ih => exact (calls_removeTrigger hc).trans ih

theorem calls_programThread {cap : ThreadCap} (hs : ∀ slot trigger, p (.thread cap (.setSlot slot trigger)))
    (hc : ∀ slot, p (.thread cap (.clearSlot slot))) : Calls p k (table.programThread cap k).2 :=
  calls_setSlots hs hc

end BreakpointTable

/-! ## Threads and inferiors -/

theorem Thread.calls_setStepping {t : Thread} {on : Bool} (h : p (.thread t.cap (.singleStep on))) :
    Calls p k (t.setStepping on k).2.2 := by
  have hcall : Calls p k (k.callThread t.cap (.singleStep on)).2 := calls_callThread h
  unfold setStepping
  split
  · exact .refl
  · split <;> simp_all

theorem Thread.calls_wake {t : Thread} (h : p (.thread t.cap .resume)) : Calls p k (t.wake k).2 := by
  unfold wake
  split
  · exact calls_callThread h
  · exact .refl

section Visit

variable {α : Type} {f : (id : Nat) → α → Kernel → α × Kernel}

theorem calls_visitList {l : List (Nat × α)} (h : ∀ e ∈ l, ∀ k, Calls p k (f e.1 e.2 k).2) :
    Calls p k (SlotTable.visitList f l k).2 := by
  induction l generalizing k with
  | nil => exact .refl
  | cons e l ih =>
    exact (h e List.mem_cons_self k).trans (ih fun e he => h e (List.mem_cons_of_mem _ he))

theorem calls_visit {t : SlotTable α} (h : ∀ e ∈ t.toList, ∀ k, Calls p k (f e.1 e.2 k).2) :
    Calls p k (t.visit f k).2 := by
  rw [SlotTable.visit_snd]
  exact calls_visitList h

end Visit

theorem Inferior.calls_clearDebugState {inf : Inferior} (hr : ∀ addr, p (.space inf.space (.read addr)))
    (hw : ∀ addr word, p (.space inf.space (.write addr word)))
    (hc : ∀ cap ∈ inf.caps, ∀ slot, p (.thread cap (.clearSlot slot)))
    (hs : ∀ cap ∈ inf.caps, p (.thread cap (.singleStep false))) : Calls p k (inf.clearDebugState k).2 := by
  have patches : Calls p k (BreakpointTable.removePatches inf.space (inf.breakpoints.patchList.map (·.addr))
      inf.breakpoints k).2 := BreakpointTable.calls_removePatches hr hw
  refine (patches.trans (BreakpointTable.calls_removeTriggers hc)).trans (calls_visit fun e he k => ?_)
  refine Thread.calls_setStepping (hs _ ?_)
  exact List.mem_map.2 ⟨e, he, rfl⟩

/-! ## The debuggee -/

namespace Debuggee

variable {d : Debuggee}

theorem calls_onInferior {α : Type} {pid : Nat} {op : Inferior → Kernel → α × Inferior × Kernel}
    (h : ∀ inf, d.registry.inferior? pid = some inf → Calls p d.kernel (op inf d.kernel).2.2) :
    Calls p d.kernel (d.onInferior pid op).2.kernel := by
  unfold onInferior
  split
  · exact .refl
  · exact h _ ‹_›

theorem calls_onThread {α : Type} {t : Ptid} {op : Thread → Kernel → α × Thread × Kernel}
    (h : ∀ thread, d.registry.thread? t = some thread → Calls p d.kernel (op thread d.kernel).2.2) :
    Calls p d.kernel (d.onThread t op).2.kernel := by
  unfold onThread
  split
  · exact .refl
  · exact h _ ‹_›

theorem calls_visitThreads {f : Thread → Kernel → Thread × Kernel}
    (h : ∀ thread, thread.cap ∈ d.registry.caps → ∀ k, Calls p k (f thread k).2) :
    Calls p d.kernel (d.visitThreads f).kernel := by
  refine calls_visit fun inf hinf k => calls_visit fun thread hthread k => h _ ?_ k
  exact Registry.mem_caps.2 ⟨inf.1, inf.2, hinf, Inferior.mem_caps.2 ⟨thread.1, thread.2, hthread, rfl⟩⟩

theorem calls_suspendAll (h : ∀ cap, p (.thread cap .suspend)) : Calls p d.kernel d.suspendAll.kernel :=
  calls_callEach fun cap _ => h cap

theorem calls_resumeWoken (h : ∀ cap ∈ d.registry.caps, p (.thread cap .resume)) :
    Calls p d.kernel d.resumeWoken.kernel :=
  calls_visitThreads fun thread hcap _ => Thread.calls_wake (h thread.cap hcap)

section Actions

variable {motion : Motion} {named : List Ptid}

theorem calls_applyMotion {t : Ptid} (h : ∀ cap ∈ d.registry.caps, ∀ on, p (.thread cap (.singleStep on))) :
    Calls p d.kernel (d.applyMotion t motion).kernel :=
  calls_onThread fun _ ht => Thread.calls_setStepping (h _ (Registry.cap_mem_caps ht) _)

theorem calls_applyTargets {targets : List Ptid}
    (h : ∀ cap ∈ d.registry.caps, ∀ on, p (.thread cap (.singleStep on))) :
    Calls p d.kernel (applyTargets motion targets named d).2.kernel := by
  induction targets generalizing named d with
  | nil => exact .refl
  | cons t targets ih =>
    unfold applyTargets
    split
    · exact ih h
    · have same := Registry.caps_of_outline_eq (outline_applyMotion (d := d) t motion)
      exact (calls_applyMotion h).trans (ih (same ▸ h))

theorem calls_applyActions {actions : List Action}
    (h : ∀ cap ∈ d.registry.caps, ∀ on, p (.thread cap (.singleStep on))) :
    Calls p d.kernel (applyActions actions named d).kernel := by
  induction actions generalizing named d with
  | nil => exact .refl
  | cons action actions ih =>
    have allowed {d' : Debuggee} (same : d'.registry.outline = d.registry.outline) :
        ∀ cap ∈ d'.registry.caps, ∀ on, p (.thread cap (.singleStep on)) := by
      rw [Registry.caps_of_outline_eq same]
      exact h
    have first : Calls p d.kernel (d.applied action named).2.kernel :=
      calls_applyTargets (d := d.marked action.motion named) (allowed (outline_marked d action.motion named))
    rw [applyActions_cons]
    exact first.trans (ih (allowed (outline_applied d action named)))

end Actions

theorem calls_clearDebugState (hr : ∀ space addr, p (.space space (.read addr)))
    (hw : ∀ space addr word, p (.space space (.write addr word)))
    (hc : ∀ cap slot, p (.thread cap (.clearSlot slot)))
    (hs : ∀ cap, p (.thread cap (.singleStep false))) : Calls p d.kernel d.clearDebugState.kernel :=
  calls_visit fun _ _ _ =>
    Inferior.calls_clearDebugState (hr _) (hw _) (fun cap _ slot => hc cap slot) fun cap _ => hs cap

theorem calls_release (hr : ∀ space addr, p (.space space (.read addr)))
    (hw : ∀ space addr word, p (.space space (.write addr word)))
    (hc : ∀ cap slot, p (.thread cap (.clearSlot slot)))
    (hs : ∀ cap, p (.thread cap (.singleStep false))) (h : ∀ cap, p (.thread cap .resume)) :
    Calls p d.kernel d.release.kernel := by
  have woken (registry : Registry) : Calls p d.clearDebugState.kernel
      ({ d.clearDebugState with registry } : Debuggee).resumeWoken.kernel :=
    calls_resumeWoken (d := { d.clearDebugState with registry }) fun cap _ => h cap
  exact (calls_clearDebugState hr hw hc hs).trans (woken _)

theorem calls_programThread {pid : Nat} {cap : ThreadCap}
    (hs : ∀ slot trigger, p (.thread cap (.setSlot slot trigger)))
    (hc : ∀ slot, p (.thread cap (.clearSlot slot))) : Calls p d.kernel (d.programThread pid cap).kernel := by
  unfold programThread
  split
  · exact .refl
  · exact BreakpointTable.calls_programThread hs hc

theorem calls_addThread {pid : Nat} {native : UInt64} {cap : ThreadCap}
    (hs : ∀ slot trigger, p (.thread cap (.setSlot slot trigger)))
    (hc : ∀ slot, p (.thread cap (.clearSlot slot))) :
    Calls p d.kernel (d.addThread pid native cap).2.kernel := by
  unfold addThread
  split
  · exact .refl
  · rename_i inf hinf
    have hprog : Calls p d.kernel (inf.breakpoints.programThread cap d.kernel).2 :=
      BreakpointTable.calls_programThread hs hc
    split
    · exact .refl
    · split
      · exact .refl
      · split
        · simp_all
        · split <;> simp_all

end Debuggee

/-! ## Operations -/

/-- The kernel with the object that an operation hands over. -/
def Operation.allocate (k : Kernel) : Operation → Kernel
  | .makeThread tcb | .addThread _ _ tcb | .program _ tcb => (k.addThread tcb).2
  | .addInferior _ space => (k.addSpace space).2
  | _ => k

/-- The operations that let threads run. -/
def Operation.Resumes : Operation → Prop
  | .resumeWoken | .release => True
  | _ => False

theorem Operation.Quiet.not_resumes {op : Operation} (h : op.Quiet) : ¬ op.Resumes := by
  cases op <;> first | exact h.elim | exact id

/-- Lets a thread run. -/
def Kernel.Call.IsResume : Call → Prop
  | .thread _ .resume => True
  | _ => False

/-- No other operation resumes a thread. -/
theorem Debuggee.calls_perform (d : Debuggee) {op : Operation} (h : ¬ op.Resumes) :
    Calls (fun c => ¬ c.IsResume) (op.allocate d.kernel) (d.perform op).kernel := by
  cases op with
  | resumeWoken | release => exact absurd trivial h
  | makeThread | select => exact .refl
  | addInferior native space =>
    simp only [perform, addInferior]
    split <;> exact .refl
  | addThread pid native tcb =>
    exact calls_addThread (p := fun c => ¬ c.IsResume) (d := (d.makeThread tcb).2) (fun _ _ => id) fun _ => id
  | disable pid =>
    simp only [perform, kernel_disable]
    exact .refl
  | exit t =>
    simp only [perform, kernel_exit]
    exact .refl
  | insertPatch => exact calls_onInferior fun _ _ => BreakpointTable.calls_insertPatch id fun _ => id
  | removePatch => exact calls_onInferior fun _ _ => BreakpointTable.calls_removePatch id fun _ => id
  | insertTrigger =>
    exact calls_onInferior fun _ _ => BreakpointTable.calls_insertTrigger (fun _ _ _ => id) fun _ _ _ => id
  | removeTrigger => exact calls_onInferior fun _ _ => BreakpointTable.calls_removeTrigger fun _ _ _ => id
  | clear =>
    exact calls_onInferior fun _ _ =>
      Inferior.calls_clearDebugState (fun _ => id) (fun _ _ => id) (fun _ _ _ => id) fun _ _ => id
  | program pid tcb =>
    exact calls_programThread (p := fun c => ¬ c.IsResume) (d := (d.makeThread tcb).2) (fun _ _ => id) fun _ => id
  | setStepping t on => exact calls_onThread fun _ _ => Thread.calls_setStepping id
  | setWakeup t on => exact calls_onThread fun _ _ => .refl
  | suspendAll => exact calls_suspendAll fun _ => id
  | act actions => exact calls_applyActions fun _ _ _ => id
  | readRegisters cap => exact calls_readRegisters id
  | writeRegisters cap registers => exact calls_callThread id
  | readMemory space addr length => exact calls_readBytes fun _ => id
  | writeMemory space addr data => exact calls_writeBytes (fun _ => id) fun _ _ => id

@[simp] theorem Operation.history_allocate (op : Operation) (k : Kernel) : (op.allocate k).history = k.history := by
  cases op <;> rfl

theorem Operation.threads_allocate (op : Operation) (k : Kernel) :
    (op.allocate k).threads = k.threads ++ op.tcb?.toList := by
  cases op <;> simp [allocate, tcb?, Kernel.addThread, Kernel.addSpace]

/-- Whatever an operation does to the kernel, it does by calls, once the object that it hands over is there. -/
theorem Debuggee.calls_perform_any (d : Debuggee) (op : Operation) :
    Calls (fun _ => True) (op.allocate d.kernel) (d.perform op).kernel := by
  by_cases hop : op.Resumes
  · cases op with
    | resumeWoken => exact calls_resumeWoken fun _ _ => trivial
    | release =>
      exact calls_release (fun _ _ => trivial) (fun _ _ _ => trivial) (fun _ _ => trivial) (fun _ => trivial)
        fun _ => trivial
    | _ => exact hop.elim
  · exact (d.calls_perform hop).mono fun _ _ => trivial

end RemoteDebug
