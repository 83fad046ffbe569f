import Mathlib.Logic.Relation
import RemoteDebug.Proofs.Breakpoint.Traps
import RemoteDebug.Proofs.Debuggee.Footprint

/-!
# Software breakpoints lie over memory

Through any run of setting, removing and clearing software breakpoints of an inferior, with writes to its memory in
between, memory is the memory without traps with the trap over each recorded address (`Overlay.memory_of_run`).
Reading and writing may fail at any call but while everything is cleared: a trap that memory does not let go is then
forgotten.
-/

namespace RemoteDebug

open Kernel

/-! ## Memory through calls -/

namespace Kernel

variable {k k' k'' : Kernel} {space : SpaceCap} {addr word : UInt64} {m : Memory}

/-- The memory of an address space. -/
def memory? (k : Kernel) (space : SpaceCap) : Option Memory := k.spaces[space]?.map (·.memory)

theorem memory?_of_spaces_eq (h : k'.spaces = k.spaces) (space : SpaceCap) : k'.memory? space = k.memory? space := by
  rw [memory?, h, memory?]

theorem word?_of_peekWord {call : SpaceCall} (h : k.peekWord space addr call = some word) :
    ∃ m, k.memory? space = some m ∧ m.word? addr = some word := by
  unfold peekWord at h
  split at h
  · rename_i sp hsp
    split at h
    · cases h
    · exact ⟨sp.memory, by simp [memory?, hsp], h⟩
  · cases h

theorem memory?_writeWord (h : (k.writeWord space addr word).1 = true) (hm : k.memory? space = some m) :
    (k.writeWord space addr word).2.memory? space = some (m.storeWord addr word) := by
  unfold writeWord at h ⊢
  dsimp only at h ⊢
  split
  · obtain ⟨sp, hsp, rfl⟩ := Option.map_eq_some_iff.1 hm
    simp [memory?, record, List.getElem?_modify_eq, hsp]
  · rename_i hrefused
    rw [if_neg hrefused] at h
    cases h

theorem spaces_writeWord (h : (k.writeWord space addr word).1 = false) :
    (k.writeWord space addr word).2.spaces = k.spaces := by
  unfold writeWord at h ⊢
  dsimp only at h ⊢
  split
  · rename_i hdone
    rw [if_pos hdone] at h
    cases h
  · rfl

/-- All calls on memory that lead from one kernel to another were done. -/
def MemoryDone (k k' : Kernel) : Prop :=
  ∃ new : List Record, k'.history.toList = k.history.toList ++ new ∧
    ∀ r ∈ new, ∀ space call, r.call = .space space call → r.done = true

theorem MemoryDone.split_of_grown (h : MemoryDone k k'') (first : k.history.toList <+: k'.history.toList)
    (second : k'.history.toList <+: k''.history.toList) : MemoryDone k k' ∧ MemoryDone k' k'' := by
  obtain ⟨new, heq, done⟩ := h
  obtain ⟨early, hearly⟩ := first
  obtain ⟨late, hlate⟩ := second
  rw [← hlate, ← hearly, List.append_assoc] at heq
  obtain rfl := List.append_cancel_left heq
  exact ⟨⟨early, hearly.symm, fun r hr => done r (List.mem_append_left _ hr)⟩,
    late, hlate.symm, fun r hr => done r (List.mem_append_right _ hr)⟩

theorem MemoryDone.split {p q : Call → Prop} (h : MemoryDone k k'') (first : Calls p k k') (second : Calls q k' k'') :
    MemoryDone k k' ∧ MemoryDone k' k'' := by
  obtain ⟨early, hearly, -⟩ := first.history
  obtain ⟨late, hlate, -⟩ := second.history
  exact h.split_of_grown ⟨early, hearly.symm⟩ ⟨late, hlate.symm⟩

/-- No call was ever refused. -/
def Obeyed (k : Kernel) : Prop := ∀ r ∈ k.history.toList, r.done = true

instance : DecidablePred Obeyed := fun k => inferInstanceAs (Decidable (∀ r ∈ k.history.toList, r.done = true))

theorem Obeyed.of_grown (h : k'.Obeyed) (grown : k.history.toList <+: k'.history.toList) : k.Obeyed :=
  fun r hr => h r (grown.subset hr)

theorem Obeyed.memoryDone (h : k'.Obeyed) (grown : k.history.toList <+: k'.history.toList) : MemoryDone k k' := by
  obtain ⟨new, heq⟩ := grown
  exact ⟨new, heq.symm, fun r hr _ _ _ => h r (heq ▸ List.mem_append_right _ hr)⟩

theorem not_memoryDone {call : SpaceCall} (h : k'.history = k.history.push ⟨.space space call, false⟩) :
    ¬ MemoryDone k k' := by
  rintro ⟨new, heq, done⟩
  rw [h, Array.toList_push] at heq
  obtain rfl := List.append_cancel_left heq
  cases done _ List.mem_cons_self space call rfl

theorem not_memoryDone_readWord (h : (k.readWord space addr).1 = none) : ¬ MemoryDone k (k.readWord space addr).2 := by
  have history := history_readWord k space addr
  rw [h] at history
  exact not_memoryDone history

theorem not_memoryDone_writeWord (h : (k.writeWord space addr word).1 = false) :
    ¬ MemoryDone k (k.writeWord space addr word).2 := by
  have history := history_writeWord k space addr word
  rw [h] at history
  exact not_memoryDone history

end Kernel

/-! ## Setting and removing a trap -/

namespace BreakpointTable

variable {t t' : BreakpointTable} {space : SpaceCap} {addr : UInt64} {k k' : Kernel} {clean m : Memory}

/-- What setting a trap can come to. -/
inductive Inserted (t : BreakpointTable) (space : SpaceCap) (addr : UInt64) (k : Kernel) :
    BreakpointTable → Kernel → Prop
  | kept {k' : Kernel} (same : k'.spaces = k.spaces) : Inserted t space addr k t k'
  | done {i : Nat} {covered : UInt64} {m : Memory} {k' : Kernel} (free : t.patches[i]? = some none)
      (new : t.patchAt? addr = none) (before : k.memory? space = some m) (read : m.word? addr = some covered)
      (after : k'.memory? space = some (m.store addr.toNat Cpu.trapBytes)) :
      Inserted t space addr k (t.setPatch i (some ⟨addr, covered⟩)) k'

theorem inserted_insertPatch (t : BreakpointTable) (space : SpaceCap) (addr : UInt64) (k : Kernel) :
    Inserted t space addr k (t.insertPatch space addr k).2.1 (t.insertPatch space addr k).2.2 := by
  unfold insertPatch
  split
  · exact .kept rfl
  · split
    · exact .kept rfl
    · rename_i new
      split
      · exact .kept rfl
      · rename_i i hfree
        split
        · rename_i k' hread
          refine .kept ?_
          rw [← spaces_readWord k space addr, hread]
        · rename_i covered k' hread
          have spaces : k'.spaces = k.spaces := by rw [← spaces_readWord k space addr, hread]
          obtain ⟨m, hm, hword⟩ := word?_of_peekWord (congrArg Prod.fst hread)
          split
          · rename_i k'' hwrite
            refine .kept ?_
            rw [← spaces, ← spaces_writeWord (congrArg Prod.fst hwrite), hwrite]
          · rename_i k'' hwrite
            have after := memory?_writeWord (congrArg Prod.fst hwrite) ((memory?_of_spaces_eq spaces space).trans hm)
            rw [hwrite, Cpu.insertTrap, Memory.storeWord_overlay hword (LittleEndian.length_encode 4 _)] at after
            exact .done (freePatch?_eq_some hfree) (by simpa using new) hm hword after

/-- What removing a trap can come to. -/
inductive Removed (t : BreakpointTable) (space : SpaceCap) (addr : UInt64) (k : Kernel) :
    Except BreakpointError Unit → BreakpointTable → Kernel → Prop
  | absent (absent : t.patchAt? addr = none) : Removed t space addr k (.ok ()) t k
  | failed {e : BreakpointError} {k' : Kernel} (same : k'.spaces = k.spaces) (failed : ¬ MemoryDone k k') :
      Removed t space addr k (.error e) t k'
  | done {i : Nat} {p : Patch} {m : Memory} {k' : Kernel}
      (held : t.patches[i]? = some (some p)) (addr_eq : p.addr = addr)
      (before : k.memory? space = some m)
      (after : k'.memory? space = some (m.store addr.toNat ((LittleEndian.ofWord p.covered).take 4))) :
      Removed t space addr k (.ok ()) (t.setPatch i none) k'

theorem removed_removePatch (t : BreakpointTable) (space : SpaceCap) (addr : UInt64) (k : Kernel) :
    Removed t space addr k (t.removePatch space addr k).1 (t.removePatch space addr k).2.1
      (t.removePatch space addr k).2.2 := by
  unfold removePatch
  split
  · exact .absent ‹_›
  · rename_i i p hp
    obtain ⟨held, rfl⟩ := patchAt?_eq_some hp
    split
    · rename_i k' hread
      have spaces : k'.spaces = k.spaces := by rw [← spaces_readWord k space p.addr, hread]
      have refused := not_memoryDone_readWord (congrArg Prod.fst hread)
      rw [hread] at refused
      exact .failed spaces refused
    · rename_i current k' hread
      have spaces : k'.spaces = k.spaces := by rw [← spaces_readWord k space p.addr, hread]
      have calls : Calls (fun _ => True) k (k.readWord space p.addr).2 := Calls.refl.read trivial
      rw [hread] at calls
      obtain ⟨m, hm, hword⟩ := word?_of_peekWord (congrArg Prod.fst hread)
      split
      · rename_i k'' hwrite
        have same := spaces_writeWord (congrArg Prod.fst hwrite)
        have refused := not_memoryDone_writeWord (congrArg Prod.fst hwrite)
        have calls' : Calls (fun _ => True) k' (k'.writeWord space p.addr (Cpu.removeTrap current p.covered)).2 :=
          Calls.refl.write trivial
        rw [hwrite] at same refused calls'
        exact .failed (same.trans spaces) fun done => refused (done.split calls calls').2
      · rename_i k'' hwrite
        have after := memory?_writeWord (congrArg Prod.fst hwrite) ((memory?_of_spaces_eq spaces space).trans hm)
        rw [hwrite, Cpu.removeTrap, Memory.storeWord_overlay hword (by simp)] at after
        exact .done held rfl hm after

/-! ## Tables over memory -/

/-- The memory of an address space is memory beneath with the traps of the table over it. -/
def Overlaid (t : BreakpointTable) (space : SpaceCap) (k : Kernel) (clean : Memory) : Prop :=
  ∃ m, k.memory? space = some m ∧ t.Overlays clean m

theorem Overlaid.of_spaces_eq (h : t.Overlaid space k clean) (same : k'.spaces = k.spaces) :
    t.Overlaid space k' clean := by
  obtain ⟨m, hm, lies⟩ := h
  exact ⟨m, (memory?_of_spaces_eq same space).trans hm, lies⟩

theorem Overlaid.insertPatch (h : t.Overlaid space k clean) (aligned : addr.toNat % 4 = 0) :
    (t.insertPatch space addr k).2.1.Overlaid space (t.insertPatch space addr k).2.2 clean := by
  have inserted := inserted_insertPatch t space addr k
  generalize (t.insertPatch space addr k).2.1 = t', (t.insertPatch space addr k).2.2 = k' at inserted ⊢
  cases inserted with
  | kept same => exact h.of_spaces_eq same
  | done free new before read after =>
    obtain ⟨m, hm, lies⟩ := h
    obtain rfl := Option.some.inj (hm.symm.trans before)
    exact ⟨_, after, lies.insert aligned free new read⟩

theorem Overlaid.removePatch (h : t.Overlaid space k clean) (addr : UInt64) :
    (t.removePatch space addr k).2.1.Overlaid space (t.removePatch space addr k).2.2 clean := by
  have removed := removed_removePatch t space addr k
  generalize (t.removePatch space addr k).1 = r, (t.removePatch space addr k).2.1 = t',
    (t.removePatch space addr k).2.2 = k' at removed ⊢
  cases removed with
  | absent => exact h
  | failed same => exact h.of_spaces_eq same
  | done held addr_eq before after =>
    obtain ⟨m, hm, lies⟩ := h
    obtain rfl := Option.some.inj (hm.symm.trans before)
    rw [← addr_eq] at after
    exact ⟨_, after, lies.remove held⟩

/-- Nothing is forgotten as long as memory goes along. -/
theorem Overlaid.removePatches {addrs : List UInt64} (h : t.Overlaid space k clean)
    (done : MemoryDone k (removePatches space addrs t k).2) :
    (removePatches space addrs t k).1.Overlaid space (removePatches space addrs t k).2 clean := by
  induction addrs generalizing t k with
  | nil => exact h
  | cons addr addrs ih =>
    have first : Calls (fun _ => True) k (t.removePatch space addr k).2.2 := calls_removePatch trivial fun _ => trivial
    have kept := h.removePatch addr
    have removed := removed_removePatch t space addr k
    unfold BreakpointTable.removePatches at done ⊢
    rcases hout : t.removePatch space addr k with ⟨result, t', k'⟩
    rw [hout] at first kept removed done
    have rest (t' : BreakpointTable) : Calls (fun _ => True) k' (removePatches space addrs t' k').2 :=
      calls_removePatches (fun _ => trivial) fun _ _ => trivial
    cases result with
    | ok => exact ih kept (done.split first (rest t')).2
    | error e =>
      cases removed with
      | failed _ failed => exact absurd (done.split first (rest _)).1 failed

/-- Triggers are no traps. -/
theorem patches_removeTriggers (caps : List ThreadCap) (triggers : List Cpu.Trigger) (t : BreakpointTable)
    (k : Kernel) :
    (removeTriggers caps triggers t k).1.patches = t.patches := by
  induction triggers generalizing t k with
  | nil => rfl
  | cons trigger triggers ih =>
    have one : (t.removeTrigger caps trigger k).2.1.patches = t.patches := by
      unfold removeTrigger
      split
      · rfl
      · split <;> rfl
    exact (ih _ _).trans one

end BreakpointTable

/-- Once everything is cleared, whatever threads say, memory is still as recorded if all calls on it were done. -/
theorem Inferior.overlaid_clearDebugState {inf : Inferior} {k : Kernel} {clean : Memory}
    (h : inf.breakpoints.Overlaid inf.space k clean) (done : MemoryDone k (inf.clearDebugState k).2) :
    (inf.clearDebugState k).1.breakpoints.Overlaid inf.space (inf.clearDebugState k).2 clean := by
  let unpatched := BreakpointTable.removePatches inf.space (inf.breakpoints.patchList.map (·.addr)) inf.breakpoints k
  let unset := BreakpointTable.removeTriggers inf.caps (unpatched.1.triggers.map (·.2)) unpatched.1 unpatched.2
  have patches : Calls (fun _ => True) k unpatched.2 :=
    BreakpointTable.calls_removePatches (fun _ => trivial) fun _ _ => trivial
  have threads : Calls (fun c => ∃ cap call, c = .thread cap call) unpatched.2 (inf.clearDebugState k).2 :=
    (BreakpointTable.calls_removeTriggers fun _ _ _ => ⟨_, _, rfl⟩).trans
      (calls_visit fun _ _ _ => Thread.calls_setStepping ⟨_, _, rfl⟩)
  obtain ⟨m, hm, lies⟩ := h.removePatches (done.split patches threads).1
  refine ⟨m, ?_, lies.of_patches_eq (BreakpointTable.patches_removeTriggers _ _ _ _)⟩
  rw [memory?, threads.space_eq (by rintro addr word ⟨_, _, ⟨⟩⟩)]
  exact hm

/-! ## Runs -/

/-- An inferior and its kernel, with the memory of the inferior as it would be without traps. -/
structure Overlay where
  inferior : Inferior
  kernel : Kernel
  clean : Memory

namespace Overlay

/-- What can happen to an inferior with traps in its memory. Something else that changes its memory, and anything else
in the kernel, leaves the bytes of every trap as they are. -/
inductive Step (o : Overlay) : Overlay → Prop
  | insert (addr : UInt64) (aligned : addr.toNat % 4 = 0) :
      Step o { o with
        inferior := (o.inferior.insertPatch addr o.kernel).2.1
        kernel := (o.inferior.insertPatch addr o.kernel).2.2 }
  | remove (addr : UInt64) :
      Step o { o with
        inferior := (o.inferior.removePatch addr o.kernel).2.1
        kernel := (o.inferior.removePatch addr o.kernel).2.2 }
  | clear (done : MemoryDone o.kernel (o.inferior.clearDebugState o.kernel).2) :
      Step o { o with
        inferior := (o.inferior.clearDebugState o.kernel).1
        kernel := (o.inferior.clearDebugState o.kernel).2 }
  | write {kernel : Kernel} {m m' : Memory} (before : o.kernel.memory? o.inferior.space = some m)
      (after : kernel.memory? o.inferior.space = some m')
      (leaves : ∀ a, o.inferior.breakpoints.covers a = true → m'.byte? a = m.byte? a) :
      Step o { o with kernel, clean := o.inferior.breakpoints.beneath o.clean m' }

variable {o o' : Overlay}

/-- The memory of the inferior is memory without traps with the traps of its table over it. -/
def Sound (o : Overlay) : Prop := o.inferior.breakpoints.Overlaid o.inferior.space o.kernel o.clean

theorem sound_step (h : o.Sound) (step : o.Step o') : o'.Sound := by
  cases step with
  | insert addr aligned => exact BreakpointTable.Overlaid.insertPatch h aligned
  | remove addr => exact BreakpointTable.Overlaid.removePatch h addr
  | clear done => exact Inferior.overlaid_clearDebugState h done
  | write before after leaves =>
    obtain ⟨m, hm, lies⟩ := h
    obtain rfl := Option.some.inj (hm.symm.trans before)
    exact ⟨_, after, lies.beneath leaves⟩

theorem sound_run (h : o.Sound) (run : Relation.ReflTransGen Step o o') : o'.Sound := by
  induction run with
  | refl => exact h
  | tail _ step ih => exact sound_step ih step

/-- A trap that is taken away leaves its own instruction behind, and all other bytes as they are. -/
theorem restored_of_removed {m : Memory} (lies : o.inferior.breakpoints.Overlays o.clean m)
    (hm : o.kernel.memory? o.inferior.space = some m) {p : Patch} (hp : p ∈ o.inferior.breakpoints.patchList)
    (done : (o.inferior.removePatch p.addr o.kernel).1 = .ok ()) :
    ∃ m', (o.inferior.removePatch p.addr o.kernel).2.2.memory? o.inferior.space = some m' ∧
      (∀ j < 4, m'.byte? (p.addr.toNat + j) = o.clean.byte? (p.addr.toNat + j)) ∧
      ∀ a, ¬ Cpu.InInstruction p.addr a → m'.byte? a = m.byte? a := by
  have removed := BreakpointTable.removed_removePatch o.inferior.breakpoints o.inferior.space p.addr o.kernel
  have result : (o.inferior.breakpoints.removePatch o.inferior.space p.addr o.kernel).1 = .ok () := done
  rw [result] at removed
  show ∃ m', (o.inferior.breakpoints.removePatch o.inferior.space p.addr o.kernel).2.2.memory? _ = some m' ∧ _
  generalize (o.inferior.breakpoints.removePatch o.inferior.space p.addr o.kernel).2.1 = t' at removed
  generalize (o.inferior.breakpoints.removePatch o.inferior.space p.addr o.kernel).2.2 = k' at removed ⊢
  cases removed with
  | absent absent => exact absurd rfl (BreakpointTable.patchAt?_eq_none_iff.1 absent p hp)
  | @done i q _ _ held addr_eq before after =>
    obtain rfl := Option.some.inj (hm.symm.trans before)
    have hlength : ((LittleEndian.ofWord q.covered).take 4).length = 4 := by simp
    refine ⟨_, after, fun j hj => ?_, fun a ha => Memory.byte?_store_elsewhere hlength ha⟩
    rw [Memory.byte?_store_instruction hlength hj, List.getElem?_take_of_lt hj, ← addr_eq]
    exact lies.saved q (BreakpointTable.mem_patchList.2 ⟨i, held⟩) j hj

/-- After any run, the bytes at each recorded address are those of the trap and all others are those of memory without
traps. A trap that is removed then leaves its own instruction behind and all other bytes as they are; and if none is
recorded, none is left. -/
theorem memory_of_run (none_yet : o.inferior.breakpoints.patchList = [])
    (start : o.kernel.memory? o.inferior.space = some o.clean) (run : Relation.ReflTransGen Step o o') :
    ∃ m, o'.kernel.memory? o'.inferior.space = some m ∧
      (∀ p ∈ o'.inferior.breakpoints.patchList, ∀ j < 4, m.byte? (p.addr.toNat + j) = Cpu.trapBytes[j]?) ∧
      (∀ a, o'.inferior.breakpoints.covers a = false → m.byte? a = o'.clean.byte? a) ∧
      (∀ p ∈ o'.inferior.breakpoints.patchList, (o'.inferior.removePatch p.addr o'.kernel).1 = .ok () →
        ∃ m', (o'.inferior.removePatch p.addr o'.kernel).2.2.memory? o'.inferior.space = some m' ∧
          (∀ j < 4, m'.byte? (p.addr.toNat + j) = o'.clean.byte? (p.addr.toNat + j)) ∧
          ∀ a, ¬ Cpu.InInstruction p.addr a → m'.byte? a = m.byte? a) ∧
      (o'.inferior.breakpoints.patchList = [] → m = o'.clean) := by
  obtain ⟨m, hm, lies⟩ := sound_run ⟨o.clean, start, .refl none_yet o.clean⟩ run
  exact ⟨m, hm, lies.traps, lies.rest, fun p hp done => restored_of_removed lies hm hp done,
    lies.eq_of_patchList_eq_nil⟩

/-- Traps go over both halves of a word, and the first is taken away again: its instruction is back and the other trap
is still there. -/
theorem adjacent_traps :
    ∃ o o' : Overlay, o.inferior.breakpoints.patchList = [] ∧ o.kernel.memory? o.inferior.space = some o.clean ∧
      Relation.ReflTransGen Step o o' ∧ ∃ m, o'.kernel.memory? o'.inferior.space = some m ∧
        (∀ j < 4, m.byte? (0x1000 + j) = o.clean.byte? (0x1000 + j)) ∧
        ∀ j < 4, m.byte? (0x1004 + j) = Cpu.trapBytes[j]? := by
  let memory := Memory.empty.mapWords 0x1000 2 0x1122334455667788
  let o : Overlay :=
    ⟨⟨7, 0, SlotTable.empty 1, BreakpointTable.empty 2⟩,
      ⟨[⟨memory, fun _ _ => false⟩], [], #[]⟩, memory⟩
  let both : Overlay := { o with
    inferior := ((o.inferior.insertPatch 0x1000 o.kernel).2.1.insertPatch 0x1004
      (o.inferior.insertPatch 0x1000 o.kernel).2.2).2.1
    kernel := ((o.inferior.insertPatch 0x1000 o.kernel).2.1.insertPatch 0x1004
      (o.inferior.insertPatch 0x1000 o.kernel).2.2).2.2 }
  let second : Overlay := { both with
    inferior := (both.inferior.removePatch 0x1000 both.kernel).2.1
    kernel := (both.inferior.removePatch 0x1000 both.kernel).2.2 }
  have run : Relation.ReflTransGen Step o second :=
    ((Relation.ReflTransGen.refl.tail (.insert 0x1000 rfl)).tail (.insert 0x1004 rfl)).tail (.remove 0x1000)
  obtain ⟨m, hm, traps, rest, -⟩ := @memory_of_run o second rfl rfl run
  have left : ∃ p ∈ second.inferior.breakpoints.patchList, p.addr = 0x1004 := by decide +kernel
  obtain ⟨p, hp, haddr⟩ := left
  have own := traps p hp
  rw [haddr] at own
  have uncovered : ∀ j < 4, second.inferior.breakpoints.covers (0x1000 + j) = false := by decide +kernel
  exact ⟨o, second, rfl, rfl, run, m, hm, fun j hj => rest _ (uncovered j hj), own⟩

end Overlay
end RemoteDebug
