import Mathlib.Data.List.Nodup
import RemoteDebug.Proofs.Kernel.Calls

/-!
# Triggers are held by threads

A table of triggers is held by a thread if the thread's debug slots are those of the table (`Kernel.Holds`). A thread
that has once refused to clear a slot is excused for good. Setting a trigger on threads, removing one and programming
a new thread leave every thread holding the table that comes out, whatever calls are refused (`heldBy_insertTrigger`,
`heldBy_removeTriggers`, `holds_programThread`).
-/

namespace RemoteDebug

open Kernel

/-! ## The slots of a table -/

namespace BreakpointTable

variable {t : BreakpointTable} {trigger : Cpu.Trigger} {slot n : Nat}

/-- A table has all slots of the processor, and every trigger in a slot that can hold it. -/
structure Laid (t : BreakpointTable) : Prop where
  length : t.slots.length = Cpu.slotCount
  fits : ∀ n trigger, t.trigger? n = some trigger → n ∈ trigger.condition.slots

theorem trigger?_of_getElem? {x : Option Cpu.Trigger} (h : t.slots[slot]? = some x) : t.trigger? slot = x := by
  simp [trigger?, h]

theorem trigger?_setSlot (h : slot < t.slots.length) (x : Option Cpu.Trigger) :
    (t.setSlot slot x).trigger? = fun n => if n = slot then x else t.trigger? n := by
  funext n
  by_cases hn : n = slot
  · subst hn
    simp [trigger?, setSlot, h]
  · simp [trigger?, setSlot, hn, List.getElem?_set_ne (Ne.symm hn)]

theorem laid_empty (maxPatches : Nat) : (empty maxPatches).Laid := by
  refine ⟨by simp [empty], fun n trigger h => ?_⟩
  simp [trigger?, empty, List.getElem?_replicate, Option.join_eq_some_iff] at h

theorem Laid.setSlot (h : t.Laid) (hslot : slot < t.slots.length) {x : Option Cpu.Trigger}
    (hx : ∀ trigger, x = some trigger → slot ∈ trigger.condition.slots) : (t.setSlot slot x).Laid := by
  refine ⟨by simpa [BreakpointTable.setSlot] using h.length, fun n trigger ht => ?_⟩
  rw [trigger?_setSlot hslot] at ht
  dsimp only at ht
  split at ht
  · rename_i hn
    rw [hn]
    exact hx trigger ht
  · exact h.fits n trigger ht

theorem slotOf?_eq_some (h : t.slotOf? trigger = some slot) :
    slot < t.slots.length ∧ t.trigger? slot = some trigger := by
  have held : t.slots[slot]? = some (some trigger) := by simpa using List.find?_some h
  exact ⟨(List.getElem?_eq_some_iff.1 held).1, trigger?_of_getElem? held⟩

theorem freeSlot?_eq_some {condition : Cpu.Condition} (h : t.freeSlot? condition = some slot) :
    slot ∈ condition.slots ∧ slot < t.slots.length ∧ t.trigger? slot = none := by
  have free : t.slots[slot]? = some none := by simpa using List.find?_some h
  exact ⟨List.mem_of_find?_eq_some h, (List.getElem?_eq_some_iff.1 free).1, trigger?_of_getElem? free⟩

theorem mem_triggers : (n, trigger) ∈ t.triggers ↔ t.trigger? n = some trigger := by
  simp only [triggers, List.mem_filterMap, Prod.exists, List.mem_zipIdx_iff_getElem?, Option.map_eq_some_iff,
    Prod.mk.injEq, trigger?, Option.join_eq_some_iff]
  constructor
  · rintro ⟨x, i, hx, trigger', rfl, rfl, rfl⟩
    exact hx
  · intro h
    exact ⟨some trigger, n, h, trigger, rfl, rfl, rfl⟩

end BreakpointTable

/-! ## The slots of a thread -/

namespace Kernel

variable {k k' : Kernel} {cap : ThreadCap} {f : Nat → Option Cpu.Trigger}

/-- Sets or clears a debug slot. -/
def ThreadCall.IsSlot : ThreadCall → Prop
  | .setSlot _ _ | .clearSlot _ => True
  | _ => False

/-- A thread has refused to clear a slot. -/
def ClearFailed (k : Kernel) (cap : ThreadCap) : Prop :=
  ∃ slot, ⟨.thread cap (.clearSlot slot), false⟩ ∈ k.history.toList

/-- The slots of a thread are as wanted, unless it has refused to clear one. -/
def Holds (k : Kernel) (cap : ThreadCap) (f : Nat → Option Cpu.Trigger) : Prop :=
  k.ClearFailed cap ∨ ∃ tcb, k.threads[cap]? = some tcb ∧ tcb.slot? = f

theorem Calls.clearFailed {p : Call → Prop} (h : Calls p k k') (hf : k.ClearFailed cap) : k'.ClearFailed cap := by
  obtain ⟨slot, hslot⟩ := hf
  exact ⟨slot, h.mem_history hslot⟩

/-- A thread holds its slots as long as none is set or cleared. -/
theorem Calls.holds {p : Call → Prop} (h : Calls p k k') (hp : ∀ call, p (.thread cap call) → ¬ call.IsSlot)
    (hh : k.Holds cap f) : k'.Holds cap f := by
  rcases hh with failed | ⟨tcb, htcb, hslot⟩
  · exact .inl (h.clearFailed failed)
  · refine .inr (h.keeps_thread (Q := fun tcb => tcb.slot? = f) (fun call tcb hc hq => ?_) htcb hslot)
    cases call with
    | setSlot | clearSlot => exact absurd trivial (hp _ hc)
    | _ => exact hq

/-- A call on another thread is none on this one. -/
theorem Holds.callThread_of_ne (h : k.Holds cap f) {other : ThreadCap} (hne : cap ≠ other) (call : ThreadCall) :
    (k.callThread other call).2.Holds cap f := by
  refine (calls_callThread (p := fun c => c = .thread other call) rfl).holds (fun call' hc => ?_) h
  cases hc
  exact absurd rfl hne

theorem Holds.setSlot {slot : Nat} {trigger : Cpu.Trigger} (h : k.Holds cap f)
    (done : k.accepts cap (.setSlot slot trigger) = true) :
    (k.callThread cap (.setSlot slot trigger)).2.Holds cap fun n => if n = slot then some trigger else f n := by
  rcases h with failed | ⟨tcb, htcb, rfl⟩
  · exact .inl ((calls_callThread (p := fun _ => True) trivial).clearFailed failed)
  · refine .inr ⟨tcb.perform (.setSlot slot trigger), ?_, rfl⟩
    rw [thread_callThread, if_pos done, htcb]
    rfl

/-- A thread that refuses a trigger is left as it is. -/
theorem Holds.refused {call : ThreadCall} (h : k.Holds cap f) (refused : k.accepts cap call = false) :
    (k.callThread cap call).2.Holds cap f := by
  rcases h with failed | ⟨tcb, htcb, rfl⟩
  · exact .inl ((calls_callThread (p := fun _ => True) trivial).clearFailed failed)
  · refine .inr ⟨tcb, ?_, rfl⟩
    rw [thread_callThread, refused]
    exact htcb

/-- A slot is clear once the thread has been asked to clear it, or the thread is excused. -/
theorem Holds.clearSlot (h : k.Holds cap f) (slot : Nat) :
    (k.callThread cap (.clearSlot slot)).2.Holds cap fun n => if n = slot then none else f n := by
  cases done : k.accepts cap (.clearSlot slot) with
  | false =>
    refine .inl ⟨slot, ?_⟩
    rw [history_callThread, done, Array.toList_push]
    exact List.mem_append_right _ (List.mem_singleton_self _)
  | true =>
    rcases h with failed | ⟨tcb, htcb, rfl⟩
    · exact .inl ((calls_callThread (p := fun _ => True) trivial).clearFailed failed)
    · refine .inr ⟨tcb.perform (.clearSlot slot), ?_, rfl⟩
      rw [thread_callThread, if_pos done, htcb]
      rfl

/-! ## All threads of an inferior -/

section All

variable {slot : Nat} {trigger : Cpu.Trigger}

/-- Threads that are not asked to clear a slot are left as they are. -/
theorem Holds.callEach_of_notMem (h : k.Holds cap f) {caps : List ThreadCap} (hcap : cap ∉ caps) (call : ThreadCall) :
    (k.callEach call caps).Holds cap f := by
  have others : Calls (fun c => ∃ other ∈ caps, c = .thread other call) k (k.callEach call caps) :=
    calls_callEach fun other hother => ⟨other, hother, rfl⟩
  refine others.holds ?_ h
  rintro call' ⟨other, hother, heq⟩
  cases heq
  exact absurd hother hcap

theorem holds_callEach_clearSlot {caps : List ThreadCap} (distinct : caps.Nodup) (h : ∀ cap ∈ caps, k.Holds cap f) :
    ∀ cap ∈ caps, (k.callEach (.clearSlot slot) caps).Holds cap fun n => if n = slot then none else f n := by
  induction caps generalizing k with
  | nil => simp
  | cons first caps ih =>
    obtain ⟨hfirst, hrest⟩ := List.nodup_cons.1 distinct
    intro cap hcap
    rcases List.mem_cons.1 hcap with rfl | hcap
    · exact ((h cap List.mem_cons_self).clearSlot slot).callEach_of_notMem hfirst _
    · refine ih hrest (fun other hother => ?_) cap hcap
      have hne : other ≠ first := by
        rintro rfl
        exact hfirst hother
      exact (h other (List.mem_cons_of_mem _ hother)).callThread_of_ne hne _

/-- Threads on which a slot was set hold what they did before once it is cleared again. -/
theorem holds_undone {caps : List ThreadCap} (distinct : caps.Nodup) (free : f slot = none)
    (set : ∀ cap ∈ caps, k.Holds cap fun n => if n = slot then some trigger else f n) :
    ∀ cap ∈ caps, (k.callEach (.clearSlot slot) caps).Holds cap f := by
  have undone : (fun n => if n = slot then none else if n = slot then some trigger else f n) = f := by
    funext n
    split
    · rename_i hn
      rw [hn, free]
    · rfl
  rw [← undone]
  exact holds_callEach_clearSlot distinct set

/-- Setting a trigger on threads in turn: those before hold the new slots, those to come the old ones. In the end all
hold the new ones, or all the old ones if a thread has refused. -/
theorem holds_setSlotOnAll {done pending : List ThreadCap} (distinct : (done ++ pending).Nodup) (free : f slot = none)
    (set : ∀ cap ∈ done, k.Holds cap fun n => if n = slot then some trigger else f n)
    (unset : ∀ cap ∈ pending, k.Holds cap f) :
    ∀ cap ∈ done ++ pending, (k.setSlotOnAll slot trigger done pending).2.Holds cap
      (if (k.setSlotOnAll slot trigger done pending).1 then fun n => if n = slot then some trigger else f n
        else f) := by
  induction pending generalizing k done with
  | nil =>
    rw [List.append_nil]
    exact set
  | cons next pending ih =>
    obtain ⟨hnext, hrest⟩ := List.nodup_cons.1 (List.nodup_middle.1 distinct)
    have apart {cap : ThreadCap} (hcap : cap ∈ done ++ pending) : cap ≠ next := by
      rintro rfl
      exact hnext hcap
    have set' : ∀ cap ∈ done, (k.callThread next (.setSlot slot trigger)).2.Holds cap
        fun n => if n = slot then some trigger else f n := fun cap hcap =>
      (set cap hcap).callThread_of_ne (apart (List.mem_append_left _ hcap)) _
    have unset' : ∀ cap ∈ pending, (k.callThread next (.setSlot slot trigger)).2.Holds cap f := fun cap hcap =>
      (unset cap (List.mem_cons_of_mem _ hcap)).callThread_of_ne (apart (List.mem_append_right _ hcap)) _
    cases hcall : k.accepts next (.setSlot slot trigger) with
    | true =>
      have step : k.setSlotOnAll slot trigger done (next :: pending) =
          (k.callThread next (.setSlot slot trigger)).2.setSlotOnAll slot trigger (done ++ [next]) pending := by
        simp [setSlotOnAll, callThread, hcall]
      rw [step, List.append_cons]
      refine ih (by rwa [← List.append_cons]) (fun cap hcap => ?_) unset'
      rcases List.mem_append.1 hcap with hcap | hcap
      · exact set' cap hcap
      · rw [List.mem_singleton.1 hcap]
        exact (unset next List.mem_cons_self).setSlot hcall
    | false =>
      have step : k.setSlotOnAll slot trigger done (next :: pending) =
          (false, (k.callThread next (.setSlot slot trigger)).2.callEach (.clearSlot slot) done) := by
        simp [setSlotOnAll, callThread, hcall]
      rw [step]
      obtain ⟨hdone, -, disjoint⟩ := List.nodup_append'.1 hrest
      intro cap hcap
      rcases List.mem_append.1 hcap with hcap | hcap
      · exact holds_undone hdone free set' cap hcap
      · rcases List.mem_cons.1 hcap with rfl | hcap
        · exact ((unset cap List.mem_cons_self).refused hcall).callEach_of_notMem
            (fun hmem => hnext (List.mem_append_left _ hmem)) _
        · exact (unset' cap hcap).callEach_of_notMem (fun hmem => disjoint hmem hcap) _

end All

/-! ## A new thread -/

/-- Once a thread has taken slots in turn it holds those, and its own for the rest. -/
theorem holds_setSlots {done : List Nat} {pending : List (Nat × Cpu.Trigger)} {tcb : Tcb}
    (htcb : k.threads[cap]? = some tcb) (wanted : ∀ e ∈ pending, f e.1 = some e.2)
    (rest : ∀ n, (∀ e ∈ pending, e.1 ≠ n) → tcb.slot? n = f n) (h : (setSlots cap done pending k).1 = true) :
    (setSlots cap done pending k).2.Holds cap f := by
  induction pending generalizing k done tcb with
  | nil => exact .inr ⟨tcb, htcb, funext fun n => rest n (by simp)⟩
  | cons head pending ih =>
    obtain ⟨slot, trigger⟩ := head
    cases hcall : k.accepts cap (.setSlot slot trigger) with
    | true =>
      have step : setSlots cap done ((slot, trigger) :: pending) k =
          setSlots cap (done ++ [slot]) pending (k.callThread cap (.setSlot slot trigger)).2 := by
        simp [setSlots, callThread, hcall]
      rw [step] at h ⊢
      have hset : (k.callThread cap (.setSlot slot trigger)).2.threads[cap]? =
          some (tcb.perform (.setSlot slot trigger)) := by
        rw [thread_callThread, if_pos hcall, htcb]
        rfl
      refine ih hset (fun e he => wanted e (List.mem_cons_of_mem _ he)) (fun n hn => ?_) h
      by_cases hslot : n = slot
      · subst hslot
        simpa [Tcb.perform] using (wanted (n, trigger) List.mem_cons_self).symm
      · have own : tcb.slot? n = f n := by
          refine rest n fun e he => ?_
          rcases List.mem_cons.1 he with rfl | he
          · exact Ne.symm hslot
          · exact hn e he
        simpa [Tcb.perform, hslot] using own
    | false =>
      have step : (setSlots cap done ((slot, trigger) :: pending) k).1 = false := by
        simp [setSlots, callThread, hcall]
      rw [step] at h
      cases h

end Kernel

/-! ## Tables held by threads -/

namespace BreakpointTable

variable {t : BreakpointTable} {k : Kernel} {caps : List ThreadCap}

/-- A table whose triggers all of these threads hold. -/
structure HeldBy (t : BreakpointTable) (caps : List ThreadCap) (k : Kernel) : Prop where
  laid : t.Laid
  holds : ∀ cap ∈ caps, k.Holds cap t.trigger?

/-- What a table of triggers means to threads is in its slots alone. -/
theorem HeldBy.of_slots_eq (h : t.HeldBy caps k) {t' : BreakpointTable} (hslots : t'.slots = t.slots) :
    t'.HeldBy caps k := by
  have htrigger : t'.trigger? = t.trigger? := by
    funext n
    rw [trigger?, trigger?, hslots]
  refine ⟨⟨hslots ▸ h.laid.length, ?_⟩, ?_⟩
  · rw [htrigger]
    exact h.laid.fits
  · rw [htrigger]
    exact h.holds

theorem heldBy_insertTrigger (distinct : caps.Nodup) (h : t.HeldBy caps k) (trigger : Cpu.Trigger) :
    (t.insertTrigger caps trigger k).2.1.HeldBy caps (t.insertTrigger caps trigger k).2.2 := by
  unfold insertTrigger
  split
  · exact h
  · split
    · exact h
    · split
      · exact h
      · split
        · exact h
        · rename_i slot hslot
          obtain ⟨fits, inside, free⟩ := freeSlot?_eq_some hslot
          have all := @holds_setSlotOnAll k t.trigger? slot trigger [] caps distinct free (by simp) h.holds
          split
          · rename_i k' heq
            rw [heq] at all
            refine ⟨h.laid.setSlot inside fun trigger' htrigger => ?_, ?_⟩
            · cases htrigger
              exact fits
            · rw [trigger?_setSlot inside]
              exact all
          · rename_i k' heq
            rw [heq] at all
            exact ⟨h.laid, all⟩

theorem heldBy_removeTrigger (distinct : caps.Nodup) (h : t.HeldBy caps k) (trigger : Cpu.Trigger) :
    (t.removeTrigger caps trigger k).2.1.HeldBy caps (t.removeTrigger caps trigger k).2.2 := by
  unfold removeTrigger
  split
  · exact h
  · rename_i slot hslot
    have inside := (slotOf?_eq_some hslot).1
    have cleared : (t.setSlot slot none).HeldBy caps (k.callAll (.clearSlot slot) caps).2 := by
      refine ⟨h.laid.setSlot inside nofun, ?_⟩
      rw [trigger?_setSlot inside, callAll_snd]
      exact holds_callEach_clearSlot distinct h.holds
    split
    · rename_i k' heq
      rw [heq] at cleared
      exact cleared
    · rename_i k' heq
      rw [heq] at cleared
      exact cleared

theorem heldBy_removeTriggers (distinct : caps.Nodup) (h : t.HeldBy caps k) (triggers : List Cpu.Trigger) :
    (removeTriggers caps triggers t k).1.HeldBy caps (removeTriggers caps triggers t k).2 := by
  induction triggers generalizing t k with
  | nil => exact h
  | cons trigger triggers ih => exact ih (heldBy_removeTrigger distinct h trigger)

/-- A new thread that takes over all triggers holds the table. -/
theorem holds_programThread {cap : ThreadCap} {tcb : Tcb} (htcb : k.threads[cap]? = some tcb)
    (clear : ∀ n, tcb.slot? n = none) (h : (t.programThread cap k).1 = true) :
    (t.programThread cap k).2.Holds cap t.trigger? := by
  refine holds_setSlots htcb (fun e he => mem_triggers.1 he) (fun n hn => ?_) h
  rw [clear]
  cases htrigger : t.trigger? n with
  | none => rfl
  | some trigger => exact absurd rfl (hn _ (mem_triggers.2 htrigger))

end BreakpointTable
end RemoteDebug
