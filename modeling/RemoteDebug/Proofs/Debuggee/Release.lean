import RemoteDebug.Proofs.Debuggee.Resumption
import RemoteDebug.Proofs.Debuggee.Suspension
import RemoteDebug.Proofs.Debuggee.Tables

/-!
# Letting go of a debuggee

Once everything was let go of, no breakpoint is recorded, whatever calls are refused (`Debuggee.bare_release`), and
every thread has been resumed just once (`Debuggee.resumed_release`). If no call was ever refused, then threads run
freely (`Debuggee.free_release`): no debug slot is set, none steps, and none is suspended.
-/

namespace RemoteDebug

open Kernel

namespace Kernel

variable {k k' : Kernel} {cap : ThreadCap}

theorem Obeyed.not_clearFailed (h : k.Obeyed) (cap : ThreadCap) : ¬ k.ClearFailed cap := by
  rintro ⟨slot, hmem⟩
  cases h _ hmem

theorem Calls.history_grown {p : Call → Prop} (h : Calls p k k') : k.history.toList <+: k'.history.toList := by
  obtain ⟨new, heq, -⟩ := h.history
  exact ⟨new, heq.symm⟩

/-- A thread that was resumed and not asked to stop since is not suspended. -/
theorem Calls.not_isSuspended (h : Calls (fun c => c ≠ .thread cap .suspend) k k')
    (resumed : ⟨.thread cap .resume, true⟩ ∈ k'.history.toList.drop k.history.size) : ¬ k'.IsSuspended cap := by
  intro suspended
  by_cases before : k.IsSuspended cap
  · exact (h.isSuspended_iff before).1 suspended resumed
  · -- a thread that was not suspended is not suspended either
    obtain ⟨tcb', htcb', hsusp'⟩ := suspended
    have inside : cap < k.threads.length := h.length_threads ▸ (List.getElem?_eq_some_iff.1 htcb').1
    obtain ⟨tcb, htcb⟩ : ∃ tcb, k.threads[cap]? = some tcb := ⟨_, List.getElem?_eq_getElem inside⟩
    have runs : tcb.suspended = false := Bool.eq_false_iff.2 fun hsusp => before ⟨tcb, htcb, hsusp⟩
    obtain ⟨tcb'', htcb'', runs'⟩ := h.keeps_thread (Q := fun tcb => tcb.suspended = false)
      (fun call tcb hp hq => by
        cases call with
        | suspend => exact absurd rfl hp
        | resume => rfl
        | _ => exact hq) htcb runs
    rw [← Option.some.inj (htcb'.symm.trans htcb''), hsusp'] at runs'
    cases runs'

end Kernel

/-- A thread that does as it is asked steps as it is asked. -/
theorem Thread.stepping_setStepping {thread : Thread} {on : Bool} {k : Kernel}
    (h : (thread.setStepping on k).2.2.Obeyed) : (thread.setStepping on k).2.1.stepping = on := by
  obtain ⟨records, stepped, new, grown, own⟩ := thread.stepped_setStepping on k
  generalize (thread.setStepping on k).2.1 = after at stepped ⊢
  cases stepped with
  | same steps => exact steps
  | set => rfl
  | refused =>
    have mine : (⟨.thread thread.cap (.singleStep on), false⟩ : Record) ∈ new :=
      (List.mem_filter.1 (own ▸ List.mem_cons_self)).1
    cases h _ (grown ▸ List.mem_append_right _ mine)

/-- No thread of an inferior steps once everything was cleared, if no call was refused. -/
theorem Inferior.stepping_clearDebugState {inf : Inferior} {k : Kernel} (h : (inf.clearDebugState k).2.Obeyed)
    {tid : Nat} {thread : Thread} (hmem : (tid, thread) ∈ (inf.clearDebugState k).1.threads.toList) :
    thread.stepping = false := by
  unfold clearDebugState at hmem h
  dsimp only at hmem h
  rw [SlotTable.toList_visit_fst] at hmem
  rw [SlotTable.visit_snd] at h
  obtain ⟨before, k', -, rfl, -, later⟩ := SlotTable.mem_visitList_between
    (R := fun k k' : Kernel => k.history.toList <+: k'.history.toList) (fun _ => List.prefix_rfl) List.IsPrefix.trans
    (fun _ thread k => (Thread.calls_setStepping (p := fun _ => True) trivial).history_grown) hmem
  exact Thread.stepping_setStepping (h.of_grown later)

namespace Debuggee

variable {d : Debuggee} {maxPatches pid : Nat} {inf : Inferior} {t : Ptid} {thread : Thread}

/-- The debuggee with everything cleared, and every thread to wake up. -/
def cleared (d : Debuggee) : Debuggee :=
  { d.clearDebugState with
    registry := d.clearDebugState.registry.mapThreads fun _ thread => { thread with wakeup := true } }

theorem release_eq (d : Debuggee) : d.release = d.cleared.resumeWoken := rfl

theorem outline_cleared : d.cleared.registry.outline = d.registry.outline := by
  have marked : d.cleared.registry.outline = d.clearDebugState.registry.outline :=
    Registry.outline_mapThreads fun _ _ => rfl
  rw [marked, outline_clearDebugState]

/-- Nothing is recorded afterwards, whatever calls are refused. -/
theorem bare_release (h : d.Tidy maxPatches) (hinf : d.release.registry.inferior? pid = some inf) :
    inf.breakpoints.breakpoints = [] := by
  have held := Registry.mem_holdings.2 ⟨inf, hinf, rfl, rfl⟩
  rw [release_eq, resumeWoken, holdings_visitThreads, cleared, Registry.holdings_mapThreads] at held
  obtain ⟨inf', hinf', -, ht⟩ := Registry.mem_holdings.1 held
  rw [Registry.inferior?_eq_some_iff, clearDebugState, SlotTable.toList_visit_fst] at hinf'
  obtain ⟨before, k, hbefore, rfl⟩ := SlotTable.mem_visitList hinf'
  rw [← ht]
  exact (Inferior.clear_clearDebugState (h.proper pid before (Registry.inferior?_eq_some_iff.2 hbefore))).2

/-- Every thread is resumed, and once only. -/
theorem resumed_release (distinct : d.registry.Distinct) (ht : d.release.registry.thread? t = some thread) :
    ∃ done, (d.release.kernel.history.toList.drop d.kernel.history.size).filter
      (·.call = .thread thread.cap .resume) = [⟨.thread thread.cap .resume, done⟩] := by
  have clearing : Calls (fun c => ¬ c.IsResume) d.kernel d.cleared.kernel :=
    calls_clearDebugState (fun _ _ => id) (fun _ _ _ => id) (fun _ _ => id) fun _ => id
  obtain ⟨early, hearly, calm⟩ := clearing.history
  -- the thread as it was before it woke up
  rw [release_eq, registry_resumeWoken, Registry.thread?_mapThreads] at ht
  obtain ⟨before, hbefore, rfl⟩ := Option.map_eq_some_iff.1 ht
  have wakes : before.wakeup = true := by
    rw [cleared, Registry.thread?_mapThreads] at hbefore
    obtain ⟨_, -, rfl⟩ := Option.map_eq_some_iff.1 hbefore
    rfl
  obtain ⟨records, ⟨-, late, hlate, own⟩, calls⟩ :=
    becomes_resumeWoken (distinct.of_outline_eq outline_cleared) hbefore
  rw [wakes, if_pos rfl] at calls
  obtain ⟨⟨call, done⟩, rfl, rfl⟩ := List.map_eq_singleton_iff.1 calls
  refine ⟨done, ?_⟩
  rw [release_eq, hlate, hearly, ← Array.length_toList, List.append_assoc, List.drop_left, List.filter_append]
  have none_early : early.filter (·.call = .thread before.cap .resume) = [] := by
    refine List.filter_eq_nil_iff.2 fun r hr heq => calm r hr ?_
    rw [of_decide_eq_true heq]
    trivial
  have once_late : late.filter (·.call = .thread before.cap .resume) =
      (late.filter (·.isOn before.cap)).filter (·.call = .thread before.cap .resume) := by
    rw [List.filter_filter]
    refine List.filter_congr fun r _ => ?_
    by_cases resumes : r.call = .thread before.cap .resume
    · simp [resumes, Record.isOn]
    · simp [resumes]
  rw [none_early, List.nil_append, once_late, own]
  simp

/-- No thread steps afterwards, if no call was refused. -/
theorem stepping_release (obeyed : d.release.kernel.Obeyed) (ht : d.release.registry.thread? t = some thread) :
    thread.stepping = false := by
  rw [release_eq, registry_resumeWoken, Registry.thread?_mapThreads, cleared, Registry.thread?_mapThreads] at ht
  obtain ⟨_, hbefore, rfl⟩ := Option.map_eq_some_iff.1 ht
  obtain ⟨cleared, hcleared, rfl⟩ := Option.map_eq_some_iff.1 hbefore
  obtain ⟨inf, hinf, hmem⟩ := Registry.thread?_eq_some_iff.1 hcleared
  have waking : Calls (fun _ => True) d.clearDebugState.kernel d.release.kernel :=
    calls_resumeWoken (d := d.cleared) fun _ _ => trivial
  have obeyed_cleared : d.clearDebugState.kernel.Obeyed := obeyed.of_grown waking.history_grown
  rw [clearDebugState, SlotTable.toList_visit_fst] at hinf
  obtain ⟨before, k, -, rfl, -, later⟩ := SlotTable.mem_visitList_between
    (R := fun k k' : Kernel => k.history.toList <+: k'.history.toList) (fun _ => List.prefix_rfl) List.IsPrefix.trans
    (fun _ inf k => (Inferior.calls_clearDebugState (p := fun _ => True) (fun _ => trivial) (fun _ _ => trivial)
      (fun _ _ _ => trivial) fun _ _ => trivial).history_grown) hinf
  show cleared.stepping = false
  refine Inferior.stepping_clearDebugState (obeyed_cleared.of_grown ?_) hmem
  show _ <+: (d.registry.inferiors.visit (fun _ inf k => inf.clearDebugState k) d.kernel).2.history.toList
  rw [SlotTable.visit_snd]
  exact later

/-- Threads run freely afterwards, if no call was ever refused. -/
theorem free_release (mirrored : ∀ aspect, d.Mirrored aspect) (tidy : d.Tidy maxPatches)
    (distinct : d.registry.Distinct) (obeyed : d.release.kernel.Obeyed)
    (ht : d.release.registry.thread? t = some thread) :
    ∃ tcb, d.release.kernel.threads[thread.cap]? = some tcb ∧ (∀ n, tcb.slot? n = none) ∧
      tcb.stepping = false ∧
      tcb.suspended = false := by
  obtain ⟨inf, hinf, hmem⟩ := Registry.thread?_eq_some_iff.1 ht
  have booked (aspect : Aspect) := (mirrored aspect).release distinct.nodup_caps (t.pid, inf) hinf
  obtain ⟨tcb, htcb, steps⟩ := booked .stepping (thread.cap, thread.stepping) (List.mem_map.2 ⟨_, hmem, rfl⟩)
  obtain ⟨tcb', htcb', slots⟩ :=
    ((booked .slots).holds thread.cap (Inferior.mem_caps.2 ⟨t.tid, thread, hmem, rfl⟩)).resolve_left
      (obeyed.not_clearFailed thread.cap)
  obtain rfl := Option.some.inj (htcb.symm.trans htcb')
  refine ⟨tcb, htcb, fun n => ?_, steps.trans (stepping_release obeyed ht), Bool.eq_false_iff.2 fun hsusp => ?_⟩
  · have bare := bare_release tidy (Registry.inferior?_eq_some_iff.2 hinf)
    rw [slots, Option.eq_none_iff_forall_not_mem]
    intro trigger hn
    have held := BreakpointTable.trigger_mem_breakpoints.2 ⟨n, hn⟩
    rw [bare] at held
    cases held
  · obtain ⟨done, once⟩ := resumed_release distinct ht
    have resumed := (List.mem_filter.1 (once ▸ List.mem_cons_self)).1
    obtain rfl : done = true := obeyed _ (List.mem_of_mem_drop resumed)
    have calls : Calls (fun c => c ≠ .thread thread.cap .suspend) d.kernel d.release.kernel :=
      calls_release (fun _ _ => nofun) (fun _ _ _ => nofun) (fun _ _ => nofun) (fun _ => nofun) fun _ => nofun
    exact calls.not_isSuspended resumed ⟨tcb, htcb, hsusp⟩

end Debuggee
end RemoteDebug
