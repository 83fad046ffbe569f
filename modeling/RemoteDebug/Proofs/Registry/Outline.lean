import RemoteDebug.Proofs.Registry.Roster

/-!
# What a registry is apart from flags and breakpoints

The outline of a registry forgets the flags of its threads and the breakpoints of its inferiors, and nothing else: who
is registered under which ids and native ids, who was, and which thread is selected can all be read off it. What happens
to the flags and breakpoints keeps the outline (`Registry.outline_modifyThread`, `Registry.outline_mapThreads`,
`Debuggee.outline_visit`), and so does a whole resumption (`Debuggee.outline_applyActions`).
-/

namespace RemoteDebug

/-- A thread without its flags. -/
def Thread.outline (t : Thread) : Thread := { t with wakeup := false, stepping := false }

/-- An inferior without its breakpoints and the flags of its threads. -/
def Inferior.outline (inf : Inferior) : Inferior :=
  { inf with threads := inf.threads.mapLive fun _ => Thread.outline, breakpoints := BreakpointTable.empty 0 }

/-- A registry without breakpoints and flags. -/
def Registry.outline (r : Registry) : Registry := { r with inferiors := r.inferiors.mapLive fun _ => Inferior.outline }

@[simp] theorem Thread.outline_setStepping (t : Thread) (on : Bool) (k : Kernel) :
    (t.setStepping on k).2.1.outline = t.outline := by
  unfold Thread.setStepping
  split
  · rfl
  · split <;> rfl

@[simp] theorem Thread.outline_wake (t : Thread) (k : Kernel) : (t.wake k).1.outline = t.outline := by
  unfold Thread.wake
  split <;> rfl

@[simp] theorem Thread.cap_setStepping (t : Thread) (on : Bool) (k : Kernel) :
    (t.setStepping on k).2.1.cap = t.cap := by
  have same := congrArg cap (t.outline_setStepping on k)
  exact same

theorem Inferior.outline_visit {σ : Type} {inf : Inferior} {f : (id : Nat) → Thread → σ → Thread × σ}
    (h : ∀ id t s, (f id t s).1.outline = t.outline) (breakpoints : BreakpointTable) (s : σ) :
    Inferior.outline { inf with threads := (inf.threads.visit f s).1, breakpoints } = inf.outline := by
  unfold Inferior.outline
  rw [SlotTable.mapLive_visit h]

theorem Inferior.outline_clearDebugState (inf : Inferior) (k : Kernel) :
    (inf.clearDebugState k).1.outline = inf.outline :=
  Inferior.outline_visit (fun _ t k => t.outline_setStepping false k) _ _

/-! ## Reading the outline -/

theorem Inferior.roster_outline (inf : Inferior) : inf.outline.roster = inf.roster := by
  simp [roster, outline, Thread.outline, SlotTable.toList_mapLive]

theorem Inferior.caps_of_outline_eq {inf inf' : Inferior} (h : inf'.outline = inf.outline) : inf'.caps = inf.caps := by
  rw [caps_eq, ← roster_outline, h, roster_outline, ← caps_eq]

namespace Registry

variable {r r' : Registry}

theorem current_eq_of_outline_eq (h : r'.outline = r.outline) : r'.current = r.current :=
  show r'.outline.current = r.outline.current by rw [h]

theorem roster_outline (r : Registry) : r.outline.roster = r.roster := by
  simp [roster, outline, Inferior.roster_outline, SlotTable.toList_mapLive]

theorem roster_of_outline_eq (h : r'.outline = r.outline) : r'.roster = r.roster := by
  rw [← roster_outline, h, roster_outline]

theorem caps_of_outline_eq (h : r'.outline = r.outline) : r'.caps = r.caps := by
  rw [caps_eq, roster_of_outline_eq h, ← caps_eq]

theorem threads_of_outline_eq (h : r'.outline = r.outline) : r'.threads = r.threads :=
  threads_of_roster_eq (roster_of_outline_eq h)

/-! ## What keeps the outline -/

theorem outline_modifyInferior {pid : Nat} {f : Inferior → Inferior}
    (h : ∀ inf, r.inferior? pid = some inf → (f inf).outline = inf.outline) :
    (r.modifyInferior pid f).outline = r.outline := by
  unfold outline modifyInferior
  rw [SlotTable.mapLive_modify h]

theorem outline_modifyThread {t : Ptid} {f : Thread → Thread}
    (h : ∀ thread, r.thread? t = some thread → (f thread).outline = thread.outline) :
    (r.modifyThread t f).outline = r.outline := by
  refine outline_modifyInferior fun inf hinf => ?_
  unfold Inferior.outline
  rw [SlotTable.mapLive_modify fun thread ht => h thread (by simp [thread?, hinf, ht])]

theorem outline_mapThreads {f : Ptid → Thread → Thread} (h : ∀ t thread, (f t thread).outline = thread.outline) :
    (r.mapThreads f).outline = r.outline := by
  unfold outline mapThreads Inferior.outline
  simp only [SlotTable.mapLive_mapLive, h]

end Registry

namespace Debuggee

variable {d : Debuggee}

theorem outline_onInferior {α : Type} {pid : Nat} {op : Inferior → Kernel → α × Inferior × Kernel}
    (h : ∀ inf k, (op inf k).2.1.outline = inf.outline) :
    (d.onInferior pid op).2.registry.outline = d.registry.outline := by
  unfold onInferior
  split
  · rfl
  · rename_i inf hinf
    refine Registry.outline_modifyInferior fun inf' hinf' => ?_
    rw [hinf, Option.some.injEq] at hinf'
    rw [← hinf', ← h inf d.kernel]

theorem outline_onThread {α : Type} {t : Ptid} {op : Thread → Kernel → α × Thread × Kernel}
    (h : ∀ thread k, (op thread k).2.1.outline = thread.outline) :
    (d.onThread t op).2.registry.outline = d.registry.outline := by
  unfold onThread
  split
  · rfl
  · rename_i thread ht
    refine Registry.outline_modifyThread fun thread' ht' => ?_
    rw [ht, Option.some.injEq] at ht'
    rw [← ht', ← h thread d.kernel]

/-- A visit to all inferiors that keeps the outline of each. -/
theorem outline_visit {f : (id : Nat) → Inferior → Kernel → Inferior × Kernel}
    (h : ∀ id inf k, (f id inf k).1.outline = inf.outline) :
    Registry.outline { d.registry with inferiors := (d.registry.inferiors.visit f d.kernel).1 } =
      d.registry.outline := by
  unfold Registry.outline
  rw [SlotTable.mapLive_visit h]

theorem outline_resumeWoken : d.resumeWoken.registry.outline = d.registry.outline :=
  outline_visit fun _ inf k => Inferior.outline_visit (fun _ t k => t.outline_wake k) inf.breakpoints k

theorem outline_clearDebugState : d.clearDebugState.registry.outline = d.registry.outline :=
  outline_visit fun _ inf k => inf.outline_clearDebugState k

theorem outline_applyMotion (t : Ptid) (motion : Motion) :
    (d.applyMotion t motion).registry.outline = d.registry.outline :=
  outline_onThread fun thread k => thread.outline_setStepping motion.isStep k

theorem outline_applyTargets (motion : Motion) (targets named : List Ptid) :
    (applyTargets motion targets named d).2.registry.outline = d.registry.outline := by
  induction targets generalizing named d with
  | nil => rfl
  | cons t targets ih =>
    unfold applyTargets
    split
    · exact ih named
    · rw [ih, outline_applyMotion]

/-- The debuggee once an action has marked the threads that no action has named. -/
def marked (d : Debuggee) (motion : Motion) (named : List Ptid) : Debuggee :=
  { d with registry := d.registry.mapThreads fun t thread =>
      if t ∈ named then thread else { thread with wakeup := !motion.isStep } }

/-- What the first of several actions comes to: the threads that are named then, and the debuggee. -/
def applied (d : Debuggee) (action : Action) (named : List Ptid) : List Ptid × Debuggee :=
  applyTargets action.motion ((d.marked action.motion named).registry.targets action.threads) named
    (d.marked action.motion named)

theorem applyActions_cons (d : Debuggee) (action : Action) (actions : List Action) (named : List Ptid) :
    applyActions (action :: actions) named d =
      applyActions actions (d.applied action named).1 (d.applied action named).2 := rfl

theorem outline_marked (d : Debuggee) (motion : Motion) (named : List Ptid) :
    (d.marked motion named).registry.outline = d.registry.outline := by
  refine Registry.outline_mapThreads fun t thread => ?_
  split <;> rfl

theorem outline_applied (d : Debuggee) (action : Action) (named : List Ptid) :
    (d.applied action named).2.registry.outline = d.registry.outline :=
  (outline_applyTargets _ _ _).trans (outline_marked d action.motion named)

theorem outline_applyActions (actions : List Action) (named : List Ptid) :
    (applyActions actions named d).registry.outline = d.registry.outline := by
  induction actions generalizing named d with
  | nil => rfl
  | cons action actions ih => rw [applyActions_cons, ih, outline_applied]

theorem outline_release : d.release.registry.outline = d.registry.outline := by
  simp only [release, outline_resumeWoken]
  rw [Registry.outline_mapThreads, outline_clearDebugState]
  exact fun _ _ => rfl

end Debuggee
end RemoteDebug
