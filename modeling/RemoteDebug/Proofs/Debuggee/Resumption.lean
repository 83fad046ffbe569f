import RemoteDebug.Proofs.Debuggee.Motion

/-!
# What a resumption does to a thread

Actions are applied in turn to all threads they cover, but to one thread only the first of them that covers it matters
(`Registry.deciding?`): it makes the thread step, or not, and wake up. A thread that none covers goes on stepping if it
did, and wakes up if the last action continues (`Debuggee.becomes_applyActions`). Then the threads that are to wake up
do (`Debuggee.becomes_resumeWoken`). Which threads were to wake up before is forgotten
(`Debuggee.applyActions_remark`).
-/

namespace RemoteDebug

open Kernel

namespace Debuggee

section Becomes

variable {d d' d'' : Debuggee} {t u : Ptid} {thread after after' : Thread} {records records' : List Record}
/-! ## All actions -/

variable {action : Action} {actions : List Action}

theorem covers_marked (d : Debuggee) (motion : Motion) (named : List Ptid) (id : Option ThreadId) (t : Ptid) :
    (d.marked motion named).registry.covers id t = d.registry.covers id t :=
  Registry.covers_of_outline_eq (outline_marked d motion named) id t

theorem covers_applied (d : Debuggee) (action : Action) (named : List Ptid) (id : Option ThreadId) (t : Ptid) :
    (d.applied action named).2.registry.covers id t = d.registry.covers id t :=
  Registry.covers_of_outline_eq (outline_applied d action named) id t

theorem mem_targets_marked (ht : d.registry.thread? t = some thread) :
    t ∈ (d.marked action.motion named).registry.targets action.threads ↔
      d.registry.covers action.threads t = true := by
  have there : t ∈ (d.marked action.motion named).registry.threads := by
    rw [Registry.threads_of_outline_eq (outline_marked _ _ _)]
    exact Registry.mem_threads.2 ⟨thread, ht⟩
  rw [Registry.mem_targets, covers_marked]
  exact and_iff_right there

theorem mem_applied (ht : d.registry.thread? t = some thread) :
    t ∈ (d.applied action named).1 ↔ t ∈ named ∨ d.registry.covers action.threads t = true := by
  have there : t ∈ (d.marked action.motion named).registry.threads := by
    rw [Registry.threads_of_outline_eq (outline_marked _ _ _)]
    exact Registry.mem_threads.2 ⟨thread, ht⟩
  rw [applied, mem_applyTargets there, mem_targets_marked ht]

theorem distinct_applied (distinct : d.registry.Distinct) (action : Action) (named : List Ptid) :
    (d.applied action named).2.registry.Distinct := distinct.of_outline_eq (outline_applied d action named)

/-- The first of several actions leaves a thread alone that an action has named before. -/
theorem becomes_applied_of_named (distinct : d.registry.Distinct) (ht : d.registry.thread? t = some thread)
    (hn : t ∈ named) : d.Becomes (d.applied action named).2 t thread [] := by
  have mark := becomes_mapThreads ht fun t thread =>
    if t ∈ named then thread else { thread with wakeup := !action.motion.isStep }
  rw [if_pos hn] at mark
  have rest : (d.marked action.motion named).Becomes (d.applied action named).2 t thread [] :=
    becomes_applyTargets_of_other (distinct.of_outline_eq (outline_marked d _ _)) mark.thread (.inl hn)
  exact mark.stays rest

/-- It marks a thread that it does not cover. -/
theorem becomes_applied_of_uncovered (distinct : d.registry.Distinct) (ht : d.registry.thread? t = some thread)
    (hn : t ∉ named) (uncovered : d.registry.covers action.threads t = false) :
    d.Becomes (d.applied action named).2 t { thread with wakeup := !action.motion.isStep } [] := by
  have mark := becomes_mapThreads ht fun t thread =>
    if t ∈ named then thread else { thread with wakeup := !action.motion.isStep }
  rw [if_neg hn] at mark
  have untargeted : t ∉ (d.marked action.motion named).registry.targets action.threads := by
    rw [mem_targets_marked ht, uncovered]
    exact Bool.false_ne_true
  have rest : (d.marked action.motion named).Becomes (d.applied action named).2 t
      { thread with wakeup := !action.motion.isStep } [] :=
    becomes_applyTargets_of_other (distinct.of_outline_eq (outline_marked d _ _)) mark.thread (.inr untargeted)
  exact mark.stays rest

/-- It moves a thread that it covers. -/
theorem becomes_applied_of_covered (distinct : d.registry.Distinct) (ht : d.registry.thread? t = some thread)
    (hn : t ∉ named) (covered : d.registry.covers action.threads t = true) :
    ∃ after records, thread.Stepped action.motion.isStep after records ∧
      d.Becomes (d.applied action named).2 t { after with wakeup := true } records := by
  have mark := becomes_mapThreads ht fun t thread =>
    if t ∈ named then thread else { thread with wakeup := !action.motion.isStep }
  rw [if_neg hn] at mark
  have marked := distinct.of_outline_eq (outline_marked d action.motion named)
  obtain ⟨after, records, stepped, rest⟩ :=
    becomes_applyTargets marked mark.thread hn ((mem_targets_marked ht).2 covered)
  exact ⟨_, records, stepped.of_wakeup, mark.later rest stepped.cap_eq⟩

/-- Once a thread is named, the actions that follow leave it alone. -/
theorem becomes_applyActions_of_named (distinct : d.registry.Distinct) (ht : d.registry.thread? t = some thread)
    (hn : t ∈ named) : d.Becomes (applyActions actions named d) t thread [] := by
  induction actions generalizing named d with
  | nil => exact .refl ht
  | cons action actions ih =>
    rw [applyActions_cons]
    have first : d.Becomes (d.applied action named).2 t thread [] := becomes_applied_of_named distinct ht hn
    have still : t ∈ (d.applied action named).1 := (mem_applied ht).2 (.inl hn)
    have rest := ih (distinct_applied distinct action named) first.thread still
    exact first.stays rest

end Becomes

end Debuggee

namespace Registry

/-- The action that decides about a thread: the first that covers it. -/
def deciding? (r : Registry) (actions : List Action) (t : Ptid) : Option Action :=
  actions.find? fun action => r.covers action.threads t

/-- Whether a thread is to wake up: an action covers it, or the last action lets threads continue. -/
def wakes (r : Registry) (actions : List Action) (t : Ptid) : Bool :=
  (r.deciding? actions t).isSome || actions.getLast?.any fun last => !last.motion.isStep

/-- Whether a thread is to step: what the action says that decides about it, and what it did before if there is none. -/
def steps (r : Registry) (actions : List Action) (t : Ptid) (thread : Thread) : Bool :=
  ((r.deciding? actions t).map (·.motion.isStep)).getD thread.stepping

end Registry

namespace Debuggee

section Becomes

variable {d : Debuggee} {t : Ptid} {thread : Thread} {named : List Ptid} {actions : List Action}

theorem deciding?_applied (d : Debuggee) (action : Action) (named : List Ptid) (actions : List Action) (t : Ptid) :
    (d.applied action named).2.registry.deciding? actions t = d.registry.deciding? actions t := by
  simp only [Registry.deciding?, covers_applied]

theorem becomes_applyActions_of_some {decider : Action} (distinct : d.registry.Distinct)
    (ht : d.registry.thread? t = some thread) (hn : t ∉ named) (h : d.registry.deciding? actions t = some decider) :
    ∃ after records, thread.Stepped decider.motion.isStep after records ∧
      d.Becomes (applyActions actions named d) t { after with wakeup := true } records := by
  induction actions generalizing named d thread with
  | nil => cases h
  | cons action actions ih =>
    rw [applyActions_cons]
    have distinct' := distinct_applied distinct action named
    cases covered : d.registry.covers action.threads t with
    | true =>
      obtain rfl : action = decider := by simpa [Registry.deciding?, covered] using h
      obtain ⟨after, records, stepped, first⟩ := becomes_applied_of_covered distinct ht hn covered
      have rest : (d.applied action named).2.Becomes
          (applyActions actions (d.applied action named).1 (d.applied action named).2) t
          { after with wakeup := true } [] :=
        becomes_applyActions_of_named distinct' first.thread ((mem_applied ht).2 (.inr covered))
      exact ⟨after, records, stepped, first.stays rest⟩
    | false =>
      have first := becomes_applied_of_uncovered distinct ht hn covered
      have unnamed : t ∉ (d.applied action named).1 := by
        rw [mem_applied ht, covered]
        exact not_or.2 ⟨hn, Bool.false_ne_true⟩
      have h' : (d.applied action named).2.registry.deciding? actions t = some decider := by
        rw [deciding?_applied]
        simpa [Registry.deciding?, covered] using h
      obtain ⟨after, records, stepped, rest⟩ := ih distinct' first.thread unnamed h'
      exact ⟨_, records, stepped.of_wakeup, first.later rest stepped.cap_eq⟩

/-- Among threads that none covers, the last action has the last word. -/
theorem becomes_applyActions_of_none (distinct : d.registry.Distinct) (ht : d.registry.thread? t = some thread)
    (hn : t ∉ named) (h : d.registry.deciding? actions t = none) :
    d.Becomes (applyActions actions named d) t
      { thread with wakeup := (actions.getLast?.map fun last => !last.motion.isStep).getD thread.wakeup } [] := by
  induction actions generalizing named d thread with
  | nil => exact .refl ht
  | cons action actions ih =>
    rw [applyActions_cons]
    have uncovered : d.registry.covers action.threads t = false := by
      rw [Registry.deciding?, List.find?_eq_none] at h
      simpa using h action List.mem_cons_self
    have first := becomes_applied_of_uncovered distinct ht hn uncovered
    have unnamed : t ∉ (d.applied action named).1 := by
      rw [mem_applied ht, uncovered]
      exact not_or.2 ⟨hn, Bool.false_ne_true⟩
    have h' : (d.applied action named).2.registry.deciding? actions t = none := by
      rw [deciding?_applied]
      simpa [Registry.deciding?, uncovered] using h
    have rest := ih (distinct_applied distinct action named) first.thread unnamed h'
    have both := first.later rest rfl
    rw [List.getLast?_cons]
    cases hlast : actions.getLast? with
    | none => simpa [hlast] using both
    | some last => simpa [hlast] using both

/-- What actions make of a thread. -/
theorem becomes_applyActions (distinct : d.registry.Distinct) (ht : d.registry.thread? t = some thread)
    (given : actions ≠ []) : ∃ after records, thread.Stepped (d.registry.steps actions t thread) after records ∧
      d.Becomes (applyActions actions [] d) t { after with wakeup := d.registry.wakes actions t } records := by
  cases h : d.registry.deciding? actions t with
  | some decider =>
    obtain ⟨after, records, stepped, becomes⟩ := becomes_applyActions_of_some distinct ht List.not_mem_nil h
    refine ⟨after, records, ?_, ?_⟩
    · rw [Registry.steps, h]
      exact stepped
    · rw [Registry.wakes, h]
      exact becomes
  | none =>
    have becomes := becomes_applyActions_of_none distinct ht List.not_mem_nil h
    refine ⟨thread, [], ?_, ?_⟩
    · rw [Registry.steps, h]
      exact .same rfl
    · have last := List.getLast?_eq_some_getLast given
      rw [last] at becomes
      rw [Registry.wakes, h, last]
      exact becomes

/-! ## Marks from before -/

/-- The debuggee with other threads to wake up. -/
def remark (d : Debuggee) (marks : Ptid → Bool) : Debuggee :=
  { d with registry := d.registry.mapThreads fun t thread => { thread with wakeup := marks t } }

/-- The first action marks every thread, so it does not matter which were marked. -/
theorem applyActions_remark (d : Debuggee) (marks : Ptid → Bool) (given : actions ≠ []) :
    applyActions actions [] (d.remark marks) = applyActions actions [] d := by
  cases actions with
  | nil => exact absurd rfl given
  | cons action actions =>
    have same : (d.remark marks).marked action.motion [] = d.marked action.motion [] := by
      simp only [remark, marked, Registry.mapThreads_mapThreads, List.not_mem_nil, if_false]
    rw [applyActions_cons, applyActions_cons, applied, same, applied]

/-! ## Waking up -/

theorem registry_resumeWoken (d : Debuggee) :
    d.resumeWoken.registry = d.registry.mapThreads fun _ thread => { thread with wakeup := false } := by
  have inferiors := SlotTable.visit_fst_eq_mapLive
    (f := fun _ (inf : Inferior) (k : Kernel) =>
      ({ inf with threads := (inf.threads.visit (fun _ thread k => thread.wake k) k).1 },
        (inf.threads.visit (fun _ thread k => thread.wake k) k).2))
    (g := fun _ inf => { inf with threads := inf.threads.mapLive fun _ thread => { thread with wakeup := false } })
    (fun _ inf k => by
      dsimp only
      rw [SlotTable.visit_fst_eq_mapLive fun _ thread k => thread.wake_fst k])
    d.registry.inferiors d.kernel
  exact congrArg (fun inferiors => { d.registry with inferiors }) inferiors

/-- A thread that is to wake up is resumed once, and others are not. -/
theorem becomes_resumeWoken (distinct : d.registry.Distinct) (ht : d.registry.thread? t = some thread) :
    ∃ records, d.Becomes d.resumeWoken t { thread with wakeup := false } records ∧
      records.map (·.call) = if thread.wakeup then [.thread thread.cap .resume] else [] := by
  obtain ⟨inf, hinf, hthread⟩ := Option.bind_eq_some_iff.1 (show (d.registry.inferior? t.pid).bind
    (·.threads.get? t.tid) = some thread from ht)
  -- a thread of another name is another object
  have apart {u : Ptid} {other : Thread} (hu : d.registry.thread? u = some other) (h : u ≠ t) (k : Kernel) :
      Calls (Call.Avoids thread.cap) k (other.wake k).2 := by
    refine Thread.calls_wake (Call.avoids_of_ne ?_ _)
    exact fun heq => h (distinct u t other thread hu ht heq)
  have within (k : Kernel) :
      ∃ records, k.Adds (inf.threads.visit (fun _ thread k => thread.wake k) k).2 thread.cap records ∧
        records.map (·.call) = if thread.wakeup then [.thread thread.cap .resume] else [] :=
    adds_visit hthread
      (fun e he hne => apart (u := ⟨t.pid, e.1⟩)
        (Registry.thread?_eq_some_iff.2 ⟨inf, Registry.inferior?_eq_some_iff.1 hinf, he⟩)
        fun h => hne (congrArg Ptid.tid h))
      thread.adds_wake k
  have everywhere : ∃ records, d.kernel.Adds d.resumeWoken.kernel thread.cap records ∧
      records.map (·.call) = if thread.wakeup then [.thread thread.cap .resume] else [] :=
    adds_visit hinf
      (fun e he hne k => calls_visit fun e' he' =>
        apart (u := ⟨e.1, e'.1⟩) (Registry.thread?_eq_some_iff.2 ⟨e.2, he, he'⟩)
        fun h => hne (congrArg Ptid.pid h))
      within d.kernel
  obtain ⟨records, made, calls⟩ := everywhere
  refine ⟨records, ⟨?_, made⟩, calls⟩
  rw [registry_resumeWoken, Registry.thread?_mapThreads, ht, Option.map_some]

/-- A resumption calls registered threads only. -/
theorem calls_resumption (d : Debuggee) (actions : List Action) :
    Calls (fun c => ∃ cap ∈ d.registry.caps, ∃ call, c = .thread cap call) d.kernel
      (applyActions actions [] d).resumeWoken.kernel := by
  have same : (applyActions actions [] d).registry.caps = d.registry.caps :=
    Registry.caps_of_outline_eq (outline_applyActions actions [])
  have setUp : Calls (fun c => ∃ cap ∈ d.registry.caps, ∃ call, c = .thread cap call) d.kernel
      (applyActions actions [] d).kernel := calls_applyActions fun cap hcap on => ⟨cap, hcap, _, rfl⟩
  refine setUp.trans (calls_resumeWoken fun cap hcap => ⟨cap, ?_, _, rfl⟩)
  rwa [same] at hcap

end Becomes

end Debuggee
end RemoteDebug
