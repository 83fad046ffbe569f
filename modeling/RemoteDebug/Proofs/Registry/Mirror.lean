import RemoteDebug.Proofs.Breakpoint.Slots
import RemoteDebug.Proofs.Debuggee.Footprint

/-!
# An inferior and the debug state of its threads

The debug state of a thread is its debug slots and whether it steps (`Kernel.Aspect`). An inferior books which of its
threads step and which triggers are set. `Inferior.Mirrored` says, of either aspect by itself, that its threads are as
it books them. That survives calls which leave the debug state of its threads alone (`Inferior.Mirrored.of_calls`), and
every operation on the inferior, whatever calls are refused (`Inferior.Mirrored.insertTrigger`,
`Inferior.Mirrored.clearDebugState`).
-/

namespace RemoteDebug

open Kernel

/-! ## Debug state -/

namespace Kernel

/-- What there is to the debug state of a thread: its debug slots, and whether it steps. -/
inductive Aspect
  | slots
  | stepping

/-- A thread none of whose debug slots is set. -/
def Tcb.Clear (t : Tcb) : Prop := ∀ n, t.slot? n = none

/-- A thread without debug state. -/
def Tcb.Blank (t : Tcb) : Prop := t.Clear ∧ t.stepping = false

/-- A thread with nothing in one aspect of its debug state. -/
def Tcb.BlankIn (t : Tcb) : Aspect → Prop
  | .slots => t.Clear
  | .stepping => t.stepping = false

theorem Tcb.Blank.blankIn {t : Tcb} (h : t.Blank) (aspect : Aspect) : t.BlankIn aspect := by
  cases aspect with
  | slots => exact h.1
  | stepping => exact h.2

variable {k k' : Kernel} {cap : ThreadCap} {on : Bool}

/-- Changes the debug state of a thread. -/
def ThreadCall.IsDebug : ThreadCall → Prop
  | .setSlot _ _ | .clearSlot _ | .singleStep _ => True
  | _ => False

theorem ThreadCall.IsSlot.isDebug {call : ThreadCall} (h : call.IsSlot) : call.IsDebug := by
  cases call <;> trivial

/-- A thread steps or not, as given. -/
def Steps (k : Kernel) (cap : ThreadCap) (on : Bool) : Prop := ∃ tcb, k.threads[cap]? = some tcb ∧ tcb.stepping = on

/-- A thread goes on stepping, or not, until it is told otherwise. -/
theorem Calls.steps {p : Call → Prop} (h : Calls p k k') (hp : ∀ on, ¬ p (.thread cap (.singleStep on)))
    (hs : k.Steps cap on) : k'.Steps cap on := by
  obtain ⟨tcb, htcb, hon⟩ := hs
  refine h.keeps_thread (Q := fun tcb => tcb.stepping = on) (fun call tcb hc hq => ?_) htcb hon
  cases call with
  | singleStep on => exact absurd hc (hp on)
  | _ => exact hq

/-- A call on one of these threads, if it is one on a thread. -/
def Call.OnThreads (caps : List ThreadCap) (c : Call) : Prop := ∀ cap call, c = .thread cap call → cap ∈ caps

@[simp] theorem onThreads_thread {caps : List ThreadCap} {call : ThreadCall} :
    Call.OnThreads caps (.thread cap call) ↔ cap ∈ caps := by
  constructor
  · exact fun h => h cap call rfl
  · rintro h cap' call' ⟨⟩
    exact h

@[simp] theorem onThreads_space {caps : List ThreadCap} {space : SpaceCap} {call : SpaceCall} :
    Call.OnThreads caps (.space space call) := nofun

/-- A call that leaves debug state alone, whatever it is made on. -/
def Call.Harmless (c : Call) : Prop := ∀ cap call, c = .thread cap call → ¬ call.IsDebug

theorem harmless_thread {call : ThreadCall} (h : ¬ call.IsDebug) : Call.Harmless (.thread cap call) := by
  rintro _ _ ⟨⟩
  exact h

theorem harmless_space {space : SpaceCap} {call : SpaceCall} : Call.Harmless (.space space call) := nofun

end Kernel

theorem Thread.steps_setStepping {t : Thread} {k : Kernel} (h : k.Steps t.cap t.stepping) (on : Bool) :
    (t.setStepping on k).2.2.Steps t.cap (t.setStepping on k).2.1.stepping := by
  obtain ⟨tcb, htcb, hon⟩ := h
  unfold setStepping
  split
  · exact ⟨tcb, htcb, hon⟩
  · have after := thread_callThread k t.cap (.singleStep on)
    have answer := callThread_fst k t.cap (.singleStep on)
    split
    · rename_i k' heq
      rw [heq] at after answer
      rw [← answer, htcb] at after
      exact ⟨tcb.perform (.singleStep on), after, rfl⟩
    · rename_i k' heq
      rw [heq] at after answer
      rw [← answer, htcb] at after
      exact ⟨tcb, after, hon⟩

/-! ## Visiting -/

section Visit

variable {α : Type} {caps : α → List ThreadCap} {P : α → Kernel → Prop}
    {f : (id : Nat) → α → Kernel → α × Kernel}

/-- What a visit does to each of several values with threads of their own holds in the end, if no call on the threads of
others ends it. -/
theorem visitList_forall
    (frame : ∀ {a k k'}, Calls (fun c => ∀ cap call, c = .thread cap call → cap ∉ caps a) k k' →
      P a k → P a k')
    (foot : ∀ id a k, Calls (Call.OnThreads (caps a)) k (f id a k).2) (same : ∀ id a k, caps (f id a k).1 = caps a)
    (step : ∀ id a k, (caps a).Nodup → P a k → P (f id a k).1 (f id a k).2) {l : List (Nat × α)} {k : Kernel}
    (distinct : (l.flatMap fun e => caps e.2).Nodup) (all : ∀ e ∈ l, P e.2 k) :
    ∀ e ∈ (SlotTable.visitList f l k).1, P e.2 (SlotTable.visitList f l k).2 := by
  induction l generalizing k with
  | nil => exact all
  | cons first l ih =>
    rw [List.flatMap_cons] at distinct
    obtain ⟨own, rest, apart⟩ := List.nodup_append'.1 distinct
    have others : ∀ e ∈ l, P e.2 (f first.1 first.2 k).2 := by
      intro e he
      refine frame ((foot first.1 first.2 k).mono fun c hc cap call heq hcap => ?_) (all e (List.mem_cons_of_mem _ he))
      exact apart (hc cap call heq) (List.mem_flatMap.2 ⟨e, he, hcap⟩)
    have later : Calls (Call.OnThreads (l.flatMap fun e => caps e.2)) (f first.1 first.2 k).2
        (SlotTable.visitList f l (f first.1 first.2 k).2).2 :=
      calls_visitList fun e he k => (foot e.1 e.2 k).mono fun c hc cap call heq =>
        List.mem_flatMap.2 ⟨e, he, hc cap call heq⟩
    intro e he
    rcases List.mem_cons.1 he with rfl | he
    · refine frame (later.mono fun c hc cap call heq hcap => ?_)
        (step first.1 first.2 k own (all first List.mem_cons_self))
      dsimp only at hcap
      rw [same] at hcap
      exact apart hcap (hc cap call heq)
    · exact ih rest others e he

end Visit

/-! ## Inferiors -/

namespace Inferior

variable {inf inf' : Inferior} {k k' : Kernel} {aspect : Aspect}

/-- The threads of an inferior, each with whether it is booked as stepping. -/
def stepping (inf : Inferior) : List (ThreadCap × Bool) := inf.threads.toList.map fun e => (e.2.cap, e.2.stepping)

/-- In one aspect of their debug state, the threads of an inferior are as it books them. -/
def Mirrored (inf : Inferior) (k : Kernel) : Aspect → Prop
  | .slots => inf.breakpoints.HeldBy inf.caps k
  | .stepping => ∀ e ∈ inf.stepping, k.Steps e.1 e.2

theorem caps_eq_stepping (inf : Inferior) : inf.caps = inf.stepping.map Prod.fst := by
  simp [caps, stepping, Function.comp_def]

theorem mirrored_bare {space : SpaceCap} {native : UInt64} {threads : SlotTable Thread} (nobody : threads.toList = [])
    (maxPatches : Nat) (aspect : Aspect) (k : Kernel) :
    Mirrored ⟨native, space, threads, BreakpointTable.empty maxPatches⟩ k aspect := by
  cases aspect with
  | slots => exact ⟨BreakpointTable.laid_empty _, by simp [caps, nobody]⟩
  | stepping => simp [Mirrored, stepping, nobody]

/-- What an inferior books is in its slots and in which threads step. -/
theorem Mirrored.congr (h : inf.Mirrored k aspect) (hslots : inf'.breakpoints.slots = inf.breakpoints.slots)
    (hsteps : inf'.stepping = inf.stepping) : inf'.Mirrored k aspect := by
  cases aspect with
  | slots =>
    rw [Mirrored, caps_eq_stepping, hsteps, ← caps_eq_stepping]
    exact BreakpointTable.HeldBy.of_slots_eq h hslots
  | stepping =>
    rw [Mirrored, hsteps]
    exact h

/-- Calls that leave the debug state of its threads alone leave an inferior mirrored. -/
theorem Mirrored.of_calls {p : Call → Prop} (h : inf.Mirrored k aspect) (calls : Calls p k k')
    (hp : ∀ cap ∈ inf.caps, ∀ call, p (.thread cap call) → ¬ call.IsDebug) : inf.Mirrored k' aspect := by
  cases aspect with
  | slots =>
    refine ⟨h.laid, fun cap hcap => ?_⟩
    exact calls.holds (fun call hc hslot => hp cap hcap call hc hslot.isDebug) (h.holds cap hcap)
  | stepping =>
    intro e he
    have hcap : e.1 ∈ inf.caps := by
      rw [caps_eq_stepping]
      exact List.mem_map_of_mem he
    exact calls.steps (fun on hc => hp e.1 hcap _ hc trivial) (h e he)

theorem Mirrored.insertTrigger (h : inf.Mirrored k aspect) (distinct : inf.caps.Nodup) (trigger : Cpu.Trigger) :
    (inf.insertTrigger trigger k).2.1.Mirrored (inf.insertTrigger trigger k).2.2 aspect := by
  cases aspect with
  | slots => exact BreakpointTable.heldBy_insertTrigger distinct h trigger
  | stepping =>
    have calls : Calls (fun c => ∀ on cap, c ≠ .thread cap (.singleStep on)) k (inf.insertTrigger trigger k).2.2 :=
      BreakpointTable.calls_insertTrigger (fun _ _ _ => nofun) fun _ _ _ => nofun
    exact fun e he => calls.steps (fun on hc => hc on e.1 rfl) (h e he)

theorem Mirrored.removeTrigger (h : inf.Mirrored k aspect) (distinct : inf.caps.Nodup) (trigger : Cpu.Trigger) :
    (inf.removeTrigger trigger k).2.1.Mirrored (inf.removeTrigger trigger k).2.2 aspect := by
  cases aspect with
  | slots => exact BreakpointTable.heldBy_removeTrigger distinct h trigger
  | stepping =>
    have calls : Calls (fun c => ∀ on cap, c ≠ .thread cap (.singleStep on)) k (inf.removeTrigger trigger k).2.2 :=
      BreakpointTable.calls_removeTrigger fun _ _ _ => nofun
    exact fun e he => calls.steps (fun on hc => hc on e.1 rfl) (h e he)

theorem slots_insertPatch (t : BreakpointTable) (space : SpaceCap) (addr : UInt64) (k : Kernel) :
    (t.insertPatch space addr k).2.1.slots = t.slots := by
  unfold BreakpointTable.insertPatch
  split
  · rfl
  · split
    · rfl
    · split
      · rfl
      · split
        · rfl
        · split <;> rfl

theorem slots_removePatch (t : BreakpointTable) (space : SpaceCap) (addr : UInt64) (k : Kernel) :
    (t.removePatch space addr k).2.1.slots = t.slots := by
  unfold BreakpointTable.removePatch
  split
  · rfl
  · split
    · rfl
    · split <;> rfl

theorem slots_removePatches (space : SpaceCap) (addrs : List UInt64) (t : BreakpointTable) (k : Kernel) :
    (BreakpointTable.removePatches space addrs t k).1.slots = t.slots := by
  induction addrs generalizing t k with
  | nil => rfl
  | cons addr addrs ih =>
    have forget (t : BreakpointTable) : (t.forgetPatch addr).slots = t.slots := by
      unfold BreakpointTable.forgetPatch
      split <;> rfl
    have one := slots_removePatch t space addr k
    unfold BreakpointTable.removePatches
    split
    · rename_i heq
      rw [heq] at one
      rw [ih]
      exact one
    · rename_i heq
      rw [heq] at one
      rw [ih, forget]
      exact one

/-- Traps are none of the debug state of threads. -/
theorem Mirrored.insertPatch (h : inf.Mirrored k aspect) (addr : UInt64) :
    (inf.insertPatch addr k).2.1.Mirrored (inf.insertPatch addr k).2.2 aspect := by
  have calls : Calls Call.Harmless k (inf.insertPatch addr k).2.2 :=
    BreakpointTable.calls_insertPatch harmless_space fun _ => harmless_space
  have kept := h.of_calls calls fun cap _ call hc => hc cap call rfl
  exact kept.congr (slots_insertPatch inf.breakpoints inf.space addr k) rfl

theorem Mirrored.removePatch (h : inf.Mirrored k aspect) (addr : UInt64) :
    (inf.removePatch addr k).2.1.Mirrored (inf.removePatch addr k).2.2 aspect := by
  have calls : Calls Call.Harmless k (inf.removePatch addr k).2.2 :=
    BreakpointTable.calls_removePatch harmless_space fun _ => harmless_space
  have kept := h.of_calls calls fun cap _ call hc => hc cap call rfl
  exact kept.congr (slots_removePatch inf.breakpoints inf.space addr k) rfl

/-- Ending single-stepping on all threads of an inferior, as far as they go along. -/
theorem Mirrored.visit_setStepping (h : inf.Mirrored k aspect) (distinct : inf.caps.Nodup) (on : Bool) :
    Mirrored { inf with threads := (inf.threads.visit (fun _ t k => (t.setStepping on k).2) k).1 }
      (inf.threads.visit (fun _ t k => (t.setStepping on k).2) k).2 aspect := by
  cases aspect with
  | slots =>
    have calls : Calls (fun c => ∃ cap on, c = .thread cap (.singleStep on)) k
        (inf.threads.visit (fun _ t k => (t.setStepping on k).2) k).2 :=
      calls_visit fun e _ k => Thread.calls_setStepping ⟨_, _, rfl⟩
    have caps_eq :
        caps { inf with threads := (inf.threads.visit (fun _ t k => (t.setStepping on k).2) k).1 } = inf.caps := by
      exact caps_of_outline_eq (outline_visit (fun _ t k => t.outline_setStepping on k) inf.breakpoints k)
    refine ⟨h.laid, ?_⟩
    rw [caps_eq]
    intro cap hcap
    refine calls.holds (fun call hc => ?_) (h.holds cap hcap)
    obtain ⟨_, _, heq⟩ := hc
    cases heq
    exact id
  | stepping =>
    have steps := @visitList_forall Thread (fun t => [t.cap]) (fun t k => k.Steps t.cap t.stepping)
      (fun _ t k => (t.setStepping on k).2)
      (fun calls hs => calls.steps (fun _ hc => hc _ _ rfl List.mem_cons_self) hs)
      (fun _ t k => Thread.calls_setStepping (by simp)) (fun _ t k => by simp)
      (fun _ t k _ hs => by simpa using Thread.steps_setStepping hs on) inf.threads.toList k
      (by simpa [caps, ← List.map_eq_flatMap] using distinct)
      (fun e he => h (e.2.cap, e.2.stepping) (List.mem_map.2 ⟨e, he, rfl⟩))
    intro e he
    rw [stepping, SlotTable.toList_visit_fst, List.mem_map] at he
    obtain ⟨e', he', rfl⟩ := he
    rw [SlotTable.visit_snd]
    exact steps e' he'

/-- Taking all triggers off the threads of an inferior. -/
theorem Mirrored.removeTriggers (h : inf.Mirrored k aspect) (distinct : inf.caps.Nodup) (triggers : List Cpu.Trigger) :
    Mirrored { inf with breakpoints := (BreakpointTable.removeTriggers inf.caps triggers inf.breakpoints k).1 }
      (BreakpointTable.removeTriggers inf.caps triggers inf.breakpoints k).2 aspect := by
  cases aspect with
  | slots => exact BreakpointTable.heldBy_removeTriggers distinct h triggers
  | stepping =>
    have calls : Calls (fun c => ∀ on cap, c ≠ .thread cap (.singleStep on)) k
        (BreakpointTable.removeTriggers inf.caps triggers inf.breakpoints k).2 :=
      BreakpointTable.calls_removeTriggers fun _ _ _ => nofun
    exact fun e he => calls.steps (fun on hc => hc on e.1 rfl) (h e he)

theorem Mirrored.clearDebugState (h : inf.Mirrored k aspect) (distinct : inf.caps.Nodup) :
    (inf.clearDebugState k).1.Mirrored (inf.clearDebugState k).2 aspect := by
  let unpatched := BreakpointTable.removePatches inf.space (inf.breakpoints.patchList.map (·.addr)) inf.breakpoints k
  have patches : Calls Call.Harmless k unpatched.2 :=
    BreakpointTable.calls_removePatches (fun _ => harmless_space) fun _ _ => harmless_space
  have first : Mirrored { inf with breakpoints := unpatched.1 } unpatched.2 aspect :=
    (h.of_calls patches fun cap _ call hc => hc cap call rfl).congr (slots_removePatches _ _ _ _) rfl
  exact (first.removeTriggers distinct (unpatched.1.triggers.map (·.2))).visit_setStepping distinct false

/-- A thread that comes in with the debug state that is booked for it. -/
theorem Mirrored.insertThread (h : inf.Mirrored k aspect) {threads : SlotTable Thread} {p q : List (Nat × Thread)}
    {tid : Nat} {t : Thread} (before : inf.threads.toList = p ++ q) (after : threads.toList = p ++ (tid, t) :: q)
    (holds : aspect = .slots → k.Holds t.cap inf.breakpoints.trigger?)
    (steps : aspect = .stepping → k.Steps t.cap t.stepping) : Mirrored { inf with threads } k aspect := by
  cases aspect with
  | slots =>
    refine ⟨h.laid, fun cap hcap => ?_⟩
    have old (hmem : cap ∈ p.map (·.2.cap) ∨ cap ∈ q.map (·.2.cap)) : k.Holds cap inf.breakpoints.trigger? := by
      refine h.holds cap ?_
      simpa only [caps, before, List.map_append, List.mem_append] using hmem
    simp only [caps, after, List.map_append, List.map_cons, List.mem_append, List.mem_cons] at hcap
    rcases hcap with hp | rfl | hq
    · exact old (.inl hp)
    · exact holds rfl
    · exact old (.inr hq)
  | stepping =>
    intro e he
    have old (hmem : e ∈ p.map (fun e => (e.2.cap, e.2.stepping)) ∨ e ∈ q.map fun e => (e.2.cap, e.2.stepping)) :
        k.Steps e.1 e.2 := by
      refine h e ?_
      simpa only [stepping, before, List.map_append, List.mem_append] using hmem
    simp only [stepping, after, List.map_append, List.map_cons, List.mem_append, List.mem_cons] at he
    rcases he with hp | rfl | hq
    · exact old (.inl hp)
    · exact steps rfl
    · exact old (.inr hq)

/-- An inferior that has fewer threads at most. -/
theorem Mirrored.sublist (h : inf.Mirrored k aspect) (table : inf'.breakpoints = inf.breakpoints)
    (fewer : inf'.threads.toList.Sublist inf.threads.toList) : inf'.Mirrored k aspect := by
  cases aspect with
  | slots =>
    refine ⟨table ▸ h.laid, fun cap hcap => ?_⟩
    rw [table]
    exact h.holds cap ((fewer.map _).subset hcap)
  | stepping => exact fun e he => h e ((fewer.map _).subset he)

/-- Kernel objects that are made leave those that there are alone. -/
theorem Mirrored.of_threads (h : inf.Mirrored k aspect) (history : k'.history = k.history)
    (threads : ∀ {cap : ThreadCap} {tcb : Tcb}, k.threads[cap]? = some tcb → k'.threads[cap]? = some tcb) :
    inf.Mirrored k' aspect := by
  cases aspect with
  | slots =>
    refine ⟨h.laid, fun cap hcap => ?_⟩
    rcases h.holds cap hcap with ⟨slot, failed⟩ | ⟨tcb, htcb, hslot⟩
    · exact .inl ⟨slot, history ▸ failed⟩
    · exact .inr ⟨tcb, threads htcb, hslot⟩
  | stepping =>
    intro e he
    obtain ⟨tcb, htcb, hon⟩ := h e he
    exact ⟨tcb, threads htcb, hon⟩

/-- Changing one thread: it may be told to step or not, and is booked as it is. -/
theorem Mirrored.modifyThread (h : inf.Mirrored k aspect) (distinct : inf.caps.Nodup) {tid : Nat} {t t' : Thread}
    (ht : inf.threads.get? tid = some t) (same : t'.cap = t.cap)
    (calls : Calls (fun c => ∃ on, c = .thread t.cap (.singleStep on)) k k')
    (steps : k.Steps t.cap t.stepping → k'.Steps t.cap t'.stepping) :
    Mirrored { inf with threads := inf.threads.modify tid fun _ => t' } k' aspect := by
  obtain ⟨p, q, before, after⟩ := SlotTable.toList_modify ht fun _ => t'
  cases aspect with
  | slots =>
    have caps_eq : caps { inf with threads := inf.threads.modify tid fun _ => t' } = inf.caps := by
      simp [caps, before, after, same]
    refine ⟨h.laid, ?_⟩
    rw [caps_eq]
    intro cap hcap
    refine calls.holds (fun call hc => ?_) (h.holds cap hcap)
    obtain ⟨_, heq⟩ := hc
    cases heq
    exact id
  | stepping =>
    intro e he
    simp only [stepping, after, List.map_append, List.map_cons, List.mem_append, List.mem_cons] at he
    have others (e : ThreadCap × Bool) (hmem : e ∈ inf.stepping) (hne : e.1 ≠ t.cap) : k'.Steps e.1 e.2 := by
      refine calls.steps (fun on hc => ?_) (h e hmem)
      obtain ⟨_, heq⟩ := hc
      exact hne (Call.thread.inj heq).1
    -- no other thread of the inferior has the same capability
    have apart : t.cap ∉ p.map (·.2.cap) ++ q.map (·.2.cap) := by
      have hcaps : inf.caps = p.map (·.2.cap) ++ t.cap :: q.map (·.2.cap) := by simp [caps, before]
      rw [hcaps] at distinct
      exact (List.nodup_cons.1 (List.nodup_middle.1 distinct)).1
    rcases he with hp | rfl | hq
    · refine others e ?_ fun heq => apart (List.mem_append_left _ ?_)
      · simp only [stepping, before, List.map_append, List.mem_append]
        exact .inl hp
      · obtain ⟨x, hx, rfl⟩ := List.mem_map.1 hp
        exact List.mem_map.2 ⟨x, hx, heq⟩
    · dsimp only
      rw [same]
      exact steps (h _ (List.mem_map.2 ⟨_, SlotTable.mem_toList.2 ht, rfl⟩))
    · refine others e ?_ fun heq => apart (List.mem_append_right _ ?_)
      · simp only [stepping, before, List.map_append, List.map_cons, List.mem_append, List.mem_cons]
        exact .inr (.inr hq)
      · obtain ⟨x, hx, rfl⟩ := List.mem_map.1 hq
        exact List.mem_map.2 ⟨x, hx, heq⟩

end Inferior
end RemoteDebug
