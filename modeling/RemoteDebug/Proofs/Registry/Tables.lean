import RemoteDebug.Proofs.Breakpoint.Entries
import RemoteDebug.Proofs.Registry.Mirror
import RemoteDebug.Proofs.Registry.Overlay

/-!
# Setting and removing breakpoints

Setting a breakpoint of either kind comes to one of five things (`BreakpointTable.Setting`), of which only the last
changes the table. Whatever is set, removed or cleared, a table stays proper (`Inferior.proper_set`,
`Inferior.proper_unset`, `Inferior.clear_clearDebugState`), and a breakpoint that is not set leaves memory and debug
slots as they were (`Inferior.kept_of_error`, `Inferior.slots?_of_error`).
-/

namespace RemoteDebug

open Kernel

namespace BreakpointTable

variable {t : BreakpointTable} {k k' : Kernel} {space : SpaceCap} {caps : List ThreadCap} {addr : UInt64}
  {trigger : Cpu.Trigger} {maxPatches : Nat}

/-- What setting a breakpoint can come to. -/
inductive Setting (t : BreakpointTable) (b : Breakpoint) (k : Kernel) :
    Except BreakpointError Unit → BreakpointTable → Kernel → Prop
  | invalid {e : BreakpointError} (bad : ¬ b.Valid) (other : e ≠ .noFreeSlot) : Setting t b k (.error e) t k
  | present (held : b ∈ t.breakpoints) : Setting t b k (.ok ()) t k
  | full (new : b ∉ t.breakpoints) (full : t.Full b) : Setting t b k (.error .noFreeSlot) t k
  | refused {e : BreakpointError} {k' : Kernel} (new : b ∉ t.breakpoints) (room : ¬ t.Full b)
      (other : e ≠ .noFreeSlot) (same : k'.spaces = k.spaces) : Setting t b k (.error e) t k'
  | done {t' : BreakpointTable} {k' : Kernel} (valid : b.Valid) (new : b ∉ t.breakpoints) (room : ¬ t.Full b)
      (laid : t'.Laid) (places : t'.patches.length = t.patches.length)
      (adds : t'.breakpoints.Perm (b :: t.breakpoints)) : Setting t b k (.ok ()) t' k'

theorem setting_insertPatch (h : t.Laid) (space : SpaceCap) (addr : UInt64) (k : Kernel) :
    Setting t (.patch addr) k (t.insertPatch space addr k).1 (t.insertPatch space addr k).2.1
      (t.insertPatch space addr k).2.2 := by
  unfold insertPatch
  split
  · rename_i hzero
    exact .invalid (fun valid => valid hzero) nofun
  · rename_i valid
    split
    · exact .present (patchAt?_isSome_iff.1 ‹_›)
    · rename_i absent
      have new : .patch addr ∉ t.breakpoints := fun held => absent (patchAt?_isSome_iff.2 held)
      split
      · exact .full new (freePatch?_eq_none_iff.1 ‹_›)
      · rename_i i hfree
        have room : ¬ t.Full (.patch addr) := by
          rw [← freePatch?_eq_none_iff, hfree]
          exact nofun
        split
        · rename_i k' hread
          refine .refused new room nofun ?_
          rw [← spaces_readWord k space addr, hread]
        · rename_i covered k' hread
          have same : k'.spaces = k.spaces := by rw [← spaces_readWord k space addr, hread]
          split
          · rename_i k'' hwrite
            refine .refused new room nofun ?_
            rw [← same, ← spaces_writeWord (congrArg Prod.fst hwrite), hwrite]
          · obtain ⟨others, old, adds⟩ := perm_setPatch (freePatch?_eq_some hfree) (some ⟨addr, covered⟩)
            exact .done valid new room ⟨h.length, h.fits⟩ (by simp [setPatch]) (adds.trans (old.symm.cons _))

theorem setting_insertTrigger (h : t.Laid) (caps : List ThreadCap) (trigger : Cpu.Trigger) (k : Kernel) :
    Setting t (.trigger trigger) k (t.insertTrigger caps trigger k).1 (t.insertTrigger caps trigger k).2.1
      (t.insertTrigger caps trigger k).2.2 := by
  have calls : Calls (fun c => ∀ space call, c ≠ .space space call) k (t.insertTrigger caps trigger k).2.2 :=
    calls_insertTrigger (fun _ _ _ => nofun) fun _ _ _ => nofun
  have same : (t.insertTrigger caps trigger k).2.2.spaces = k.spaces :=
    List.ext_getElem? fun space => calls.space_eq fun addr word hc => hc space (.write addr word) rfl
  revert same
  unfold insertTrigger
  split
  · rename_i hzero
    exact fun _ => .invalid (fun valid => (Breakpoint.valid_trigger_iff.1 valid).1 hzero) nofun
  · rename_i hzero
    split
    · rename_i hsize
      refine fun _ => .invalid (fun valid => ?_) nofun
      rw [(Breakpoint.valid_trigger_iff.1 valid).2] at hsize
      cases hsize
    · rename_i hsize
      have valid : (Breakpoint.trigger trigger).Valid :=
        Breakpoint.valid_trigger_iff.2 ⟨hzero, by simpa using hsize⟩
      split
      · exact fun _ => .present (h.slotOf?_isSome_iff.1 ‹_›)
      · rename_i absent
        have new : .trigger trigger ∉ t.breakpoints := fun held => absent (h.slotOf?_isSome_iff.2 held)
        split
        · exact fun _ => .full new (h.freeSlot?_eq_none_iff.1 ‹_›)
        · rename_i slot hslot
          have room : ¬ t.Full (.trigger trigger) := by
            rw [← h.freeSlot?_eq_none_iff, hslot]
            exact nofun
          obtain ⟨fits, inside, free⟩ := freeSlot?_eq_some hslot
          split
          · intro _
            have place : t.slots[slot]? = some none := by
              rw [List.getElem?_eq_getElem inside]
              rwa [trigger?_of_getElem? (List.getElem?_eq_getElem inside), ← Option.some.injEq] at free
            obtain ⟨others, old, adds⟩ := perm_setSlot place (some trigger)
            refine .done valid new room (h.setSlot inside ?_) rfl (adds.trans (old.symm.cons _))
            rintro _ ⟨⟩
            exact fits
          · exact .refused new room nofun

/-! ## Removing -/

/-- A trap that memory lets go is taken out of the table, and one that it does not stays. -/
theorem Proper.removePatch (h : t.Proper maxPatches) (space : SpaceCap) (addr : UInt64) (k : Kernel) :
    ((t.removePatch space addr k).1 = .ok () →
        t.Without maxPatches [.patch addr] (t.removePatch space addr k).2.1) ∧
      ∀ e, (t.removePatch space addr k).1 = .error e →
        (t.removePatch space addr k).2.1 = t ∧ (t.removePatch space addr k).2.2.spaces = k.spaces := by
  have removed := removed_removePatch t space addr k
  generalize (t.removePatch space addr k).1 = r, (t.removePatch space addr k).2.1 = t',
    (t.removePatch space addr k).2.2 = k' at removed ⊢
  cases removed with
  | absent absent =>
    refine ⟨fun _ => h.without fun b hb held => ?_, nofun⟩
    rw [List.mem_singleton.1 hb, ← patchAt?_isSome_iff, absent] at held
    cases held
  | failed same => exact ⟨nofun, fun _ _ => ⟨rfl, same⟩⟩
  | done held addr_eq => exact ⟨fun _ => addr_eq ▸ h.dropPatch held, nofun⟩

theorem Proper.removePatches (h : t.Proper maxPatches) (space : SpaceCap) (addrs : List UInt64) (k : Kernel) :
    t.Without maxPatches (addrs.map .patch) (removePatches space addrs t k).1 := by
  induction addrs generalizing t k with
  | nil => exact h.without (by simp)
  | cons addr addrs ih =>
    obtain ⟨taken, kept⟩ := h.removePatch space addr k
    unfold BreakpointTable.removePatches
    rcases hout : t.removePatch space addr k with ⟨result, t', k'⟩
    rw [hout] at taken kept
    cases result with
    | ok => exact (taken rfl).trans (ih (taken rfl).proper k')
    | error e =>
      obtain ⟨rfl, -⟩ := kept e rfl
      exact (h.forgetPatch addr).trans (ih (h.forgetPatch addr).proper k')

/-- Removing a trigger that is set: every thread is asked to clear its slot, and the trigger is gone whatever they
say. -/
theorem removeTrigger_of_mem (h : t.Laid) (held : .trigger trigger ∈ t.breakpoints) (caps : List ThreadCap)
    (k : Kernel) :
    ∃ slot, t.slots[slot]? = some (some trigger) ∧
      t.removeTrigger caps trigger k =
        (if (k.callAll (.clearSlot slot) caps).1 then .ok () else .error .thread, t.setSlot slot none,
          k.callEach (.clearSlot slot) caps) := by
  obtain ⟨slot, hslot⟩ := Option.isSome_iff_exists.1 (h.slotOf?_isSome_iff.2 held)
  refine ⟨slot, by simpa using List.find?_some hslot, ?_⟩
  have after := callAll_snd (.clearSlot slot) caps k
  unfold removeTrigger
  rw [hslot]
  rcases hcall : k.callAll (.clearSlot slot) caps with ⟨done, k'⟩
  rw [hcall] at after
  cases done <;> simp [hcall, ← after]

theorem removeTrigger_of_not_mem (absent : .trigger trigger ∉ t.breakpoints) (caps : List ThreadCap) (k : Kernel) :
    t.removeTrigger caps trigger k = (.error .notFound, t, k) := by
  unfold removeTrigger
  split
  · rfl
  · rename_i slot hslot
    exact absurd (trigger_mem_breakpoints.2 ⟨slot, (slotOf?_eq_some hslot).2⟩) absent

theorem Proper.removeTrigger (h : t.Proper maxPatches) (caps : List ThreadCap) (trigger : Cpu.Trigger) (k : Kernel) :
    t.Without maxPatches [.trigger trigger] (t.removeTrigger caps trigger k).2.1 := by
  by_cases held : .trigger trigger ∈ t.breakpoints
  · obtain ⟨slot, hslot, heq⟩ := removeTrigger_of_mem h.laid held caps k
    rw [heq]
    exact h.dropTrigger hslot
  · rw [removeTrigger_of_not_mem held]
    refine h.without fun b hb => ?_
    rwa [List.mem_singleton.1 hb]

theorem Proper.removeTriggers (h : t.Proper maxPatches) (caps : List ThreadCap) (triggers : List Cpu.Trigger)
    (k : Kernel) : t.Without maxPatches (triggers.map .trigger) (removeTriggers caps triggers t k).1 := by
  induction triggers generalizing t k with
  | nil => exact h.without (by simp)
  | cons trigger triggers ih =>
    have one := h.removeTrigger caps trigger k
    exact one.trans (ih one.proper _)

end BreakpointTable

/-! ## Debug slots -/

namespace Kernel

variable {k k' : Kernel} {cap : ThreadCap} {caps : List ThreadCap} {f : Nat → Option Cpu.Trigger}

/-- The debug slots of a thread. -/
def slots? (k : Kernel) (cap : ThreadCap) : Option (Nat → Option Cpu.Trigger) := k.threads[cap]?.map (·.slot?)

/-- Slots stay as they are as long as none is set or cleared. -/
theorem Calls.slots?_eq {p : Call → Prop} (h : Calls p k k')
    (hp : ∀ call, p (.thread cap call) → ¬ call.IsSlot) :
    k'.slots? cap = k.slots? cap := by
  induction h with
  | refl => rfl
  | @thread k' other call _ hc ih =>
    rw [← ih]
    by_cases hcap : cap = other
    · subst hcap
      rw [slots?, thread_callThread, slots?]
      split
      · cases k'.threads[cap]? with
        | none => rfl
        | some tcb =>
          cases call with
          | setSlot | clearSlot => exact absurd trivial (hp _ hc)
          | _ => rfl
      · rfl
    · rw [slots?, thread_callThread_of_ne _ _ _ hcap, slots?]
  | read _ _ ih => exact ih
  | write _ _ ih => rw [← ih, slots?, threads_writeWord, slots?]

theorem Holds.slots?_eq (h : k.Holds cap f) (calm : ¬ k.ClearFailed cap) : k.slots? cap = some f := by
  obtain ⟨tcb, htcb, rfl⟩ := h.resolve_left calm
  rw [slots?, htcb]
  rfl

/-- The calls that are made on threads in turn, one on each, and what they come to together. -/
theorem history_callAll (k : Kernel) (call : ThreadCall) (caps : List ThreadCap) :
    ∃ new : List Record, (k.callAll call caps).2.history.toList = k.history.toList ++ new ∧
      new.map (·.call) = caps.map (.thread · call) ∧ (k.callAll call caps).1 = new.all (·.done) := by
  induction caps generalizing k with
  | nil => exact ⟨[], by simp [callAll], rfl, rfl⟩
  | cons cap caps ih =>
    obtain ⟨new, grown, asked, answer⟩ := ih (k.callThread cap call).2
    refine ⟨⟨.thread cap call, k.accepts cap call⟩ :: new, ?_, ?_, ?_⟩
    · rw [callAll, grown, history_callThread, Array.toList_push, List.append_assoc]
      rfl
    · rw [List.map_cons, asked, List.map_cons]
    · rw [List.all_cons, ← answer, ← callThread_fst]
      rfl

end Kernel

/-! ## Inferiors -/

namespace Inferior

variable {inf : Inferior} {k : Kernel} {maxPatches : Nat} {b : Breakpoint} {trigger : Cpu.Trigger}

/-- Sets a breakpoint. -/
def set (inf : Inferior) : Breakpoint → Kernel → Except BreakpointError Unit × Inferior × Kernel
  | .patch addr => inf.insertPatch addr
  | .trigger trigger => inf.insertTrigger trigger

/-- Removes a breakpoint. -/
def unset (inf : Inferior) : Breakpoint → Kernel → Except BreakpointError Unit × Inferior × Kernel
  | .patch addr => inf.removePatch addr
  | .trigger trigger => inf.removeTrigger trigger

theorem setting_set (h : inf.breakpoints.Laid) (b : Breakpoint) (k : Kernel) :
    inf.breakpoints.Setting b k (inf.set b k).1 (inf.set b k).2.1.breakpoints (inf.set b k).2.2 := by
  cases b with
  | patch addr => exact BreakpointTable.setting_insertPatch h inf.space addr k
  | trigger trigger => exact BreakpointTable.setting_insertTrigger h inf.caps trigger k

/-- Only the table of an inferior is changed. -/
theorem set_fst (inf : Inferior) (b : Breakpoint) (k : Kernel) :
    (inf.set b k).2.1 = { inf with breakpoints := (inf.set b k).2.1.breakpoints } := by
  cases b <;> rfl

theorem proper_set (h : inf.breakpoints.Proper maxPatches) (b : Breakpoint) (k : Kernel) :
    (inf.set b k).2.1.breakpoints.Proper maxPatches := by
  have setting := setting_set h.laid b k
  generalize (inf.set b k).1 = r, (inf.set b k).2.1.breakpoints = t', (inf.set b k).2.2 = k' at setting ⊢
  cases setting with
  | invalid | present | full | refused => exact h
  | done valid new _ laid places adds => exact h.add laid places new valid adds

theorem proper_unset (h : inf.breakpoints.Proper maxPatches) (b : Breakpoint) (k : Kernel) :
    (inf.unset b k).2.1.breakpoints.Proper maxPatches := by
  cases b with
  | patch addr =>
    obtain ⟨taken, kept⟩ := h.removePatch inf.space addr k
    cases hr : (inf.breakpoints.removePatch inf.space addr k).1 with
    | ok => exact (taken hr).proper
    | error e =>
      have same : (inf.breakpoints.removePatch inf.space addr k).2.1 = inf.breakpoints := (kept e hr).1
      exact (show (inf.unset (.patch addr) k).2.1.breakpoints = inf.breakpoints from same) ▸ h
  | trigger trigger => exact (h.removeTrigger inf.caps trigger k).proper

/-- Nothing is recorded once everything was cleared, whatever calls are refused. -/
theorem clear_clearDebugState (h : inf.breakpoints.Proper maxPatches) :
    (inf.clearDebugState k).1.breakpoints.Proper maxPatches ∧
      (inf.clearDebugState k).1.breakpoints.breakpoints = [] := by
  let addrs := inf.breakpoints.patchList.map (·.addr)
  let unpatched := BreakpointTable.removePatches inf.space addrs inf.breakpoints k
  have patches : inf.breakpoints.Without maxPatches (addrs.map .patch) unpatched.1 := h.removePatches _ _ _
  have triggers := patches.proper.removeTriggers inf.caps (unpatched.1.triggers.map (·.2)) unpatched.2
  refine ⟨triggers.proper, List.eq_nil_iff_forall_not_mem.2 fun b hb => ?_⟩
  obtain ⟨held, left⟩ := (triggers.mem b).1 hb
  cases b with
  | patch addr =>
    obtain ⟨recorded, kept⟩ := (patches.mem _).1 held
    obtain ⟨p, hp, rfl⟩ := BreakpointTable.patch_mem_breakpoints.1 recorded
    exact kept (List.mem_map_of_mem (List.mem_map_of_mem hp))
  | trigger trigger =>
    obtain ⟨n, hn⟩ := BreakpointTable.trigger_mem_breakpoints.1 held
    exact left (List.mem_map_of_mem (List.mem_map.2 ⟨(n, trigger), BreakpointTable.mem_triggers.2 hn, rfl⟩))

/-- Setting a breakpoint that is there changes nothing and makes no call. -/
theorem set_of_mem (h : inf.breakpoints.Laid) (valid : b.Valid) (held : b ∈ inf.breakpoints.breakpoints) :
    inf.set b k = (.ok (), inf, k) := by
  have setting := setting_set h b k
  have same := inf.set_fst b k
  rcases hout : inf.set b k with ⟨r, inf', k'⟩
  rw [hout] at setting same
  dsimp only at setting same
  generalize inf'.breakpoints = t' at setting same
  cases setting with
  | invalid bad => exact absurd valid bad
  | present => rw [same]
  | full new | refused new | done _ new => exact absurd held new

/-- A new breakpoint finds no slot exactly if there is no room for one more of its sort. -/
theorem set_full_iff (h : inf.breakpoints.Laid) (valid : b.Valid) (new : b ∉ inf.breakpoints.breakpoints) :
    (inf.set b k).1 = .error .noFreeSlot ↔ inf.breakpoints.Full b := by
  have setting := setting_set h b k
  generalize (inf.set b k).1 = r, (inf.set b k).2.1.breakpoints = t', (inf.set b k).2.2 = k' at setting
  cases setting with
  | invalid bad => exact absurd valid bad
  | present held => exact absurd held new
  | full _ full => exact iff_of_true rfl full
  | refused _ room other => exact iff_of_false (fun heq => other (Except.error.inj heq)) room
  | done _ _ room => exact iff_of_false nofun room

/-- A breakpoint that is set comes into the table, and nothing else does. -/
theorem mem_set_of_ok (h : inf.breakpoints.Laid) (ok : (inf.set b k).1 = .ok ()) {b' : Breakpoint} :
    b' ∈ (inf.set b k).2.1.breakpoints.breakpoints ↔ b' = b ∨ b' ∈ inf.breakpoints.breakpoints := by
  have setting := setting_set h b k
  rw [ok] at setting
  generalize (inf.set b k).2.1.breakpoints = t', (inf.set b k).2.2 = k' at setting ⊢
  cases setting with
  | present held => exact ⟨.inr, fun hb => hb.elim (fun heq => heq ▸ held) id⟩
  | done _ _ _ _ _ adds => rw [adds.mem_iff, List.mem_cons]

/-- A breakpoint that is not set leaves the table and all memory as they were. -/
theorem kept_of_error (h : inf.breakpoints.Laid) {e : BreakpointError} (refused : (inf.set b k).1 = .error e) :
    (inf.set b k).2.1 = inf ∧ (inf.set b k).2.2.spaces = k.spaces := by
  have setting := setting_set h b k
  have same := inf.set_fst b k
  rw [refused] at setting
  generalize (inf.set b k).2.1.breakpoints = t', (inf.set b k).2.2 = k' at setting same ⊢
  cases setting with
  | invalid | full => exact ⟨same, rfl⟩
  | refused _ _ _ memory => exact ⟨same, memory⟩

/-- A breakpoint that is not set leaves the debug slots of all threads as they were, if no thread refuses to clear one:
a thread on which the slot had been set already has cleared it again. -/
theorem slots?_of_error (held : inf.breakpoints.HeldBy inf.caps k) (distinct : inf.caps.Nodup) {e : BreakpointError}
    (refused : (inf.set b k).1 = .error e) (calm : ∀ cap ∈ inf.caps, ¬ (inf.set b k).2.2.ClearFailed cap)
    (cap : ThreadCap) : (inf.set b k).2.2.slots? cap = k.slots? cap := by
  obtain ⟨kept, -⟩ := kept_of_error held.laid refused
  cases b with
  | patch addr =>
    have calls : Calls (fun c => ∃ call, c = .space inf.space call) k (inf.set (.patch addr) k).2.2 :=
      BreakpointTable.calls_insertPatch ⟨_, rfl⟩ fun _ => ⟨_, rfl⟩
    refine calls.slots?_eq ?_
    rintro call ⟨_, heq⟩
    cases heq
  | trigger trigger =>
    have calls : Calls (Call.OnThreads inf.caps) k (inf.set (.trigger trigger) k).2.2 :=
      BreakpointTable.calls_insertTrigger (fun cap hcap _ => onThreads_thread.2 hcap)
        fun cap hcap _ => onThreads_thread.2 hcap
    by_cases hcap : cap ∈ inf.caps
    · have after := (BreakpointTable.heldBy_insertTrigger distinct held trigger).holds cap hcap
      have table : (inf.breakpoints.insertTrigger inf.caps trigger k).2.1 = inf.breakpoints :=
        congrArg Inferior.breakpoints kept
      rw [table] at after
      have before : ¬ k.ClearFailed cap := fun failed => calm cap hcap (calls.clearFailed failed)
      rw [(held.holds cap hcap).slots?_eq before]
      exact after.slots?_eq (calm cap hcap)
    · exact calls.slots?_eq fun call hc => absurd (onThreads_thread.1 hc) hcap

/-- A trap that is not removed leaves the table, all memory and all debug slots as they were. -/
theorem kept_of_unset_error (h : inf.breakpoints.Proper maxPatches) {addr : UInt64} {e : BreakpointError}
    (refused : (inf.unset (.patch addr) k).1 = .error e) :
    (inf.unset (.patch addr) k).2.1 = inf ∧ (inf.unset (.patch addr) k).2.2.spaces = k.spaces ∧
      ∀ cap, (inf.unset (.patch addr) k).2.2.slots? cap = k.slots? cap := by
  obtain ⟨table, memory⟩ := (h.removePatch inf.space addr k).2 e refused
  have calls : Calls (fun c => ∃ call, c = .space inf.space call) k (inf.unset (.patch addr) k).2.2 :=
    BreakpointTable.calls_removePatch ⟨_, rfl⟩ fun _ => ⟨_, rfl⟩
  refine ⟨?_, memory, fun cap => calls.slots?_eq ?_⟩
  · exact congrArg (fun breakpoints => ({ inf with breakpoints } : Inferior)) table
  · rintro call ⟨_, heq⟩
    cases heq

/-- Removing a trigger that is not set changes nothing and makes no call. -/
theorem unset_of_not_mem (absent : .trigger trigger ∉ inf.breakpoints.breakpoints) :
    inf.unset (.trigger trigger) k = (.error .notFound, inf, k) := by
  simp only [unset, removeTrigger, onTable, BreakpointTable.removeTrigger_of_not_mem absent]

theorem mem_unset_trigger (h : inf.breakpoints.Proper maxPatches) {b' : Breakpoint} :
    b' ∈ (inf.unset (.trigger trigger) k).2.1.breakpoints.breakpoints ↔
      b' ∈ inf.breakpoints.breakpoints ∧ b' ≠ .trigger trigger := by
  have dropped := (h.removeTrigger inf.caps trigger k).mem b'
  rw [List.mem_singleton] at dropped
  exact dropped

/-- A trigger is removed whatever the threads say, all of which are asked to clear its slot. -/
theorem unset_trigger (h : inf.breakpoints.Proper maxPatches) (held : .trigger trigger ∈ inf.breakpoints.breakpoints)
    (k : Kernel) :
    ∃ slot new, inf.breakpoints.trigger? slot = some trigger ∧
      (inf.unset (.trigger trigger) k).2.2.history.toList = k.history.toList ++ new ∧
      new.map (·.call) = inf.caps.map (.thread · (.clearSlot slot)) ∧
      (inf.unset (.trigger trigger) k).1 = if new.all (·.done) then .ok () else .error .thread := by
  obtain ⟨slot, hslot, heq⟩ := BreakpointTable.removeTrigger_of_mem h.laid held inf.caps k
  obtain ⟨new, grown, asked, answer⟩ := history_callAll k (.clearSlot slot) inf.caps
  rw [callAll_snd] at grown
  refine ⟨slot, new, BreakpointTable.trigger?_of_getElem? hslot, ?_, asked, ?_⟩
  · show (inf.breakpoints.removeTrigger inf.caps trigger k).2.2.history.toList = _
    rw [heq, grown]
  · show (inf.breakpoints.removeTrigger inf.caps trigger k).1 = _
    rw [heq, answer]

end Inferior
end RemoteDebug
