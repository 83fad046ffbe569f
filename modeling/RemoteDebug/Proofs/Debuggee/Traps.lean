import RemoteDebug.Proofs.Breakpoint.Restoring
import RemoteDebug.Proofs.Debuggee.Housed
import RemoteDebug.Proofs.Debuggee.Replay
import RemoteDebug.Proofs.Kernel.Writing

/-!
# Traps in the memories of a debuggee

Few operations reach a trap or write to memory (`Debuggee.aside_perform`). What an operation does to the traps of one
inferior and to its memory is one of the things that can happen to traps, if all calls on memory are done
(`Debuggee.treated_perform`).
-/

namespace RemoteDebug

open Kernel

/-- Writes to memory of no other address space. -/
def Kernel.Call.WritesOnly (space : SpaceCap) (c : Call) : Prop :=
  ∀ other addr word, c = .space other (.write addr word) → other = space

theorem Kernel.Call.writesOnly_thread (space : SpaceCap) (cap : ThreadCap) (call : ThreadCall) :
    Call.WritesOnly space (.thread cap call) := fun _ _ _ => nofun

theorem Kernel.Call.writesOnly_read (space other : SpaceCap) (addr : UInt64) :
    Call.WritesOnly space (.space other (.read addr)) := fun _ _ _ => nofun

theorem Kernel.Call.writesOnly_write (space : SpaceCap) (addr word : UInt64) :
    Call.WritesOnly space (.space space (.write addr word)) := by
  rintro _ _ _ ⟨⟩
  rfl

/-! ## One table -/

namespace BreakpointTable

variable {t : BreakpointTable} {space : SpaceCap} {addr : UInt64} {k : Kernel} {m : Memory} {maxPatches : Nat}

theorem Proper.distinct (h : t.Proper maxPatches) : (t.patchList.map (·.addr)).Nodup := by
  have once := h.once
  rw [breakpoints] at once
  have patches : (t.patchList.map fun p => Breakpoint.patch p.addr) = (t.patchList.map (·.addr)).map .patch := by simp
  rw [patches] at once
  exact (List.nodup_append.1 once).1.of_map _

theorem patches_insertTrigger (t : BreakpointTable) (caps : List ThreadCap) (trigger : Cpu.Trigger) (k : Kernel) :
    (t.insertTrigger caps trigger k).2.1.patches = t.patches := by
  unfold insertTrigger
  split
  · rfl
  · split
    · rfl
    · split
      · rfl
      · split
        · rfl
        · split <;> rfl

theorem treats_insertPatch (hm : k.memory? space = some m) (addr : UInt64) :
    ∃ m', (t.insertPatch space addr k).2.2.memory? space = some m' ∧
      t.Treats m none (t.insertPatch space addr k).2.1 m' := by
  have inserted := inserted_insertPatch t space addr k
  generalize (t.insertPatch space addr k).2.1 = t', (t.insertPatch space addr k).2.2 = k' at inserted ⊢
  cases inserted with
  | kept same => exact ⟨m, (memory?_of_spaces_eq same space).trans hm, .written none rfl⟩
  | done free new before read after =>
    obtain rfl := Option.some.inj (hm.symm.trans before)
    exact ⟨_, after, .planted free new read rfl⟩

theorem treats_removePatch (hm : k.memory? space = some m) (addr : UInt64) :
    ∃ m', (t.removePatch space addr k).2.2.memory? space = some m' ∧
      t.Treats m none (t.removePatch space addr k).2.1 m' := by
  have removed := removed_removePatch t space addr k
  generalize (t.removePatch space addr k).1 = r, (t.removePatch space addr k).2.1 = t',
    (t.removePatch space addr k).2.2 = k' at removed ⊢
  cases removed with
  | absent => exact ⟨m, hm, .written none rfl⟩
  | failed same => exact ⟨m, (memory?_of_spaces_eq same space).trans hm, .written none rfl⟩
  | done held addr_eq before after =>
    obtain rfl := Option.some.inj (hm.symm.trans before)
    rw [← addr_eq] at after
    exact ⟨_, after, .taken held rfl⟩

/-- Taking the first trap out of a table leaves the others. -/
theorem patchList_setPatch_none {i : Nat} {p q : Patch} {ps : List Patch} (held : t.patches[i]? = some (some q))
    (addr_eq : q.addr = p.addr) (distinct : (t.patchList.map (·.addr)).Nodup) (list : t.patchList = p :: ps) :
    q = p ∧ (t.setPatch i none).patchList = ps := by
  obtain ⟨front, back, old, new⟩ := patchList_setPatch held none
  rw [Option.toList_some, List.append_assoc, List.singleton_append] at old
  rw [list] at old distinct
  rw [new, Option.toList_none, List.append_nil]
  cases front with
  | nil =>
    obtain ⟨rfl, rfl⟩ := List.cons.inj old
    exact ⟨rfl, rfl⟩
  | cons x front =>
    obtain ⟨rfl, rfl⟩ := List.cons.inj old
    have twice : p.addr ∈ (front ++ q :: back).map (·.addr) :=
      List.mem_map.2 ⟨q, List.mem_append_right _ List.mem_cons_self, addr_eq⟩
    exact absurd twice (List.nodup_cons.1 distinct).1

/-- The traps are taken off in the order in which they stand in the table. -/
theorem putBack_removePatches {ps : List Patch} (list : t.patchList = ps)
    (distinct : (t.patchList.map (·.addr)).Nodup) (hm : k.memory? space = some m)
    (done : MemoryDone k (removePatches space (ps.map (·.addr)) t k).2) :
    (removePatches space (ps.map (·.addr)) t k).1.patchList = [] ∧
      (removePatches space (ps.map (·.addr)) t k).2.memory? space = some (m.putBack ps) := by
  induction ps generalizing t k m with
  | nil => exact ⟨list, hm⟩
  | cons p ps ih =>
    have first : Calls (fun _ => True) k (t.removePatch space p.addr k).2.2 :=
      calls_removePatch trivial fun _ => trivial
    have removed := removed_removePatch t space p.addr k
    rw [List.map_cons] at done ⊢
    unfold BreakpointTable.removePatches at done ⊢
    rcases hout : t.removePatch space p.addr k with ⟨result, t', k'⟩
    rw [hout] at first removed done
    have rest (t' : BreakpointTable) : Calls (fun _ => True) k' (removePatches space (ps.map (·.addr)) t' k').2 :=
      calls_removePatches (fun _ => trivial) fun _ _ => trivial
    cases removed with
    | absent absent => exact absurd rfl (patchAt?_eq_none_iff.1 absent p (list ▸ List.mem_cons_self))
    | failed _ failed => exact absurd (done.split first (rest _)).1 failed
    | done held addr_eq before after =>
      obtain ⟨rfl, left⟩ := patchList_setPatch_none held addr_eq distinct list
      obtain rfl := Option.some.inj (hm.symm.trans before)
      refine ih left ?_ after (done.split first (rest _)).2
      rw [list] at distinct
      have others : ((t.setPatch _ none).patchList.map (·.addr)).Nodup := left ▸ (List.nodup_cons.1 distinct).2
      exact others

end BreakpointTable

/-- All traps are taken off once everything was cleared. -/
theorem Inferior.treats_clearDebugState {inf : Inferior} {k : Kernel} {m : Memory}
    (distinct : (inf.breakpoints.patchList.map (·.addr)).Nodup) (hm : k.memory? inf.space = some m)
    (done : MemoryDone k (inf.clearDebugState k).2) :
    ∃ m', (inf.clearDebugState k).2.memory? inf.space = some m' ∧
      inf.breakpoints.Treats m none (inf.clearDebugState k).1.breakpoints m' := by
  let unpatched := BreakpointTable.removePatches inf.space (inf.breakpoints.patchList.map (·.addr)) inf.breakpoints k
  have patches : Calls (fun _ => True) k unpatched.2 :=
    BreakpointTable.calls_removePatches (fun _ => trivial) fun _ _ => trivial
  have threads : Calls (fun c => ∃ cap call, c = .thread cap call) unpatched.2 (inf.clearDebugState k).2 :=
    (BreakpointTable.calls_removeTriggers fun _ _ _ => ⟨_, _, rfl⟩).trans
      (calls_visit fun _ _ _ => Thread.calls_setStepping ⟨_, _, rfl⟩)
  obtain ⟨empty, after⟩ := BreakpointTable.putBack_removePatches rfl distinct hm (done.split patches threads).1
  refine ⟨m.putBack inf.breakpoints.patchList, ?_, .cleared ?_⟩
  · rw [threads.memory?_eq (by rintro addr word ⟨_, _, ⟨⟩⟩)]
    exact after
  · rw [← empty]
    exact congrArg (List.filterMap id) (BreakpointTable.patches_removeTriggers inf.caps _ _ _)

theorem Inferior.writesOnly_clearDebugState (inf : Inferior) (k : Kernel) :
    Calls (Call.WritesOnly inf.space) k (inf.clearDebugState k).2 :=
  calls_clearDebugState (fun _ => Call.writesOnly_read _ _ _) (Call.writesOnly_write _)
    (fun _ _ _ => Call.writesOnly_thread _ _ _) fun _ _ => Call.writesOnly_thread _ _ _

/-! ## What is left alone -/

/-- Each inferior with its address space and its traps. -/
def Registry.patched (r : Registry) : List (Nat × SpaceCap × List (Option Patch)) :=
  r.holdings.map fun h => (h.1, h.2.1, h.2.2.patches)

theorem Registry.mem_patched {r : Registry} {pid : Nat} {space : SpaceCap} {patches : List (Option Patch)} :
    (pid, space, patches) ∈ r.patched ↔
      ∃ inf, r.inferior? pid = some inf ∧ inf.space = space ∧ inf.breakpoints.patches = patches := by
  simp only [patched, List.mem_map, Prod.exists, Prod.mk.injEq, mem_holdings]
  constructor
  · rintro ⟨pid, _, _, ⟨inf, hinf, rfl, rfl⟩, rfl, rfl, rfl⟩
    exact ⟨inf, hinf, rfl, rfl⟩
  · rintro ⟨inf, hinf, rfl, rfl⟩
    exact ⟨pid, _, _, ⟨inf, hinf, rfl, rfl⟩, rfl, rfl, rfl⟩

/-- The operations that reach a trap or write to memory, or change which inferiors there are. -/
def Operation.Touches : Operation → Prop
  | .addInferior _ _ | .disable _ | .insertPatch _ _ | .removePatch _ _ | .clear _ | .release | .writeMemory _ _ _ =>
      True
  | _ => False

/-- Writes to memory. -/
def Kernel.Call.IsWrite : Call → Prop
  | .space _ (.write _ _) => True
  | _ => False

namespace Debuggee

variable {d d' d'' : Debuggee} {pid : Nat}

/-- A later state of a debuggee has the inferiors, traps and memories of an earlier one. -/
structure Aside (d d' : Debuggee) : Prop where
  patched : d'.registry.patched = d.registry.patched
  memory : ∀ space, d'.kernel.memory? space = d.kernel.memory? space
  history : d.kernel.history.toList <+: d'.kernel.history.toList

theorem Aside.refl (d : Debuggee) : d.Aside d := ⟨rfl, fun _ => rfl, List.prefix_rfl⟩

theorem Aside.trans (h : d.Aside d') (h' : d'.Aside d'') : d.Aside d'' :=
  ⟨h'.patched.trans h.patched, fun space => (h'.memory space).trans (h.memory space), h.history.trans h'.history⟩

theorem patched_of_holdings_eq (h : d'.registry.holdings = d.registry.holdings) :
    d'.registry.patched = d.registry.patched := by rw [Registry.patched, h, Registry.patched]

theorem patched_onInferior {α : Type} {op : Inferior → Kernel → α × Inferior × Kernel}
    (h : ∀ inf k, (op inf k).2.1.space = inf.space ∧ (op inf k).2.1.breakpoints.patches = inf.breakpoints.patches) :
    (d.onInferior pid op).2.registry.patched = d.registry.patched := by
  unfold onInferior
  split
  · rfl
  · rename_i inf hinf
    obtain ⟨p, q, before, after⟩ := SlotTable.toList_modify hinf fun _ => (op inf d.kernel).2.1
    simp [Registry.patched, Registry.holdings, Registry.modifyInferior, before, after, h]

/-- The calls of an operation that touches nothing. -/
theorem not_isWrite_perform {op : Operation} (h : ¬ op.Touches) :
    Calls (fun c => ¬ c.IsWrite) (op.allocate d.kernel) (d.perform op).kernel := by
  cases op with
  | addInferior | disable | insertPatch | removePatch | clear | release | writeMemory => exact absurd trivial h
  | makeThread | select => exact .refl
  | addThread pid native tcb =>
    exact calls_addThread (p := fun c => ¬ c.IsWrite) (d := (d.makeThread tcb).2) (fun _ _ => id) fun _ => id
  | exit t =>
    simp only [perform, kernel_exit]
    exact .refl
  | insertTrigger =>
    exact calls_onInferior fun _ _ => BreakpointTable.calls_insertTrigger (fun _ _ _ => id) fun _ _ _ => id
  | removeTrigger => exact calls_onInferior fun _ _ => BreakpointTable.calls_removeTrigger fun _ _ _ => id
  | program pid tcb =>
    exact calls_programThread (p := fun c => ¬ c.IsWrite) (d := (d.makeThread tcb).2) (fun _ _ => id) fun _ => id
  | setStepping t on => exact calls_onThread fun _ _ => Thread.calls_setStepping id
  | setWakeup t on => exact calls_onThread fun _ _ => .refl
  | suspendAll => exact calls_suspendAll fun _ => id
  | resumeWoken => exact calls_resumeWoken fun _ _ => id
  | act actions => exact calls_applyActions fun _ _ _ => id
  | readRegisters cap => exact calls_readRegisters id
  | writeRegisters cap registers => exact calls_callThread id
  | readMemory space addr length => exact calls_readBytes fun _ => id

theorem aside_perform (d : Debuggee) {op : Operation} (h : ¬ op.Touches) : d.Aside (d.perform op) := by
  refine ⟨?_, fun space => ?_, (d.replays_perform op).history⟩
  · by_cases hkeeps : op.KeepsHoldings
    · exact patched_of_holdings_eq (holdings_perform hkeeps)
    · cases op with
      | insertTrigger =>
        exact patched_onInferior fun inf k => ⟨rfl, inf.breakpoints.patches_insertTrigger inf.caps _ k⟩
      | removeTrigger pid trigger =>
        exact patched_onInferior fun inf k =>
          ⟨rfl, BreakpointTable.patches_removeTriggers inf.caps [trigger] inf.breakpoints k⟩
      | addInferior | disable | insertPatch | removePatch | clear | release => exact absurd trivial h
      | _ => exact absurd trivial hkeeps
  · have allocated : (op.allocate d.kernel).memory? space = d.kernel.memory? space := by
      cases op with
      | addInferior => exact absurd trivial h
      | _ => rfl
    rw [(not_isWrite_perform h).memory?_eq fun _ _ hw => hw trivial, allocated]

/-! ## What is done to traps -/

/-- The part of what is written that goes to an address space. -/
def writtenTo (space : SpaceCap) (wrote : Option (SpaceCap × Nat × List UInt8)) : Option (Nat × List UInt8) :=
  wrote.bind fun w => if w.1 = space then some w.2 else none

/-- What happens to an inferior that stays is something that can happen to traps and memory. -/
def Treated (d d' : Debuggee) (pid : Nat) (wrote : Option (SpaceCap × Nat × List UInt8)) : Prop :=
  ∀ inf inf', d.registry.inferior? pid = some inf → d'.registry.inferior? pid = some inf' →
    inf'.space = inf.space ∧ ∀ m, d.kernel.memory? inf.space = some m →
      ∃ m', d'.kernel.memory? inf.space = some m' ∧
        inf.breakpoints.Treats m (writtenTo inf.space wrote) inf'.breakpoints m'

theorem Aside.inferior? (h : d.Aside d') {inf' : Inferior} (hinf' : d'.registry.inferior? pid = some inf') :
    ∃ inf, d.registry.inferior? pid = some inf ∧ inf'.space = inf.space ∧
      inf'.breakpoints.patches = inf.breakpoints.patches := by
  have here := Registry.mem_patched.2 ⟨inf', hinf', rfl, rfl⟩
  rw [h.patched] at here
  obtain ⟨inf, hinf, space, patches⟩ := Registry.mem_patched.1 here
  exact ⟨inf, hinf, space.symm, patches.symm⟩

theorem Aside.places_eq (h : d.Aside d') : d'.registry.places = d.registry.places := by
  have of_patched (r : Registry) : r.places = r.patched.map fun e => (e.1, e.2.1) := by
    simp [Registry.places_eq_holdings, Registry.patched, Function.comp_def]
  rw [of_patched, h.patched, ← of_patched]

theorem Aside.treated (h : d.Aside d') (pid : Nat) : d.Treated d' pid none := by
  intro inf inf' hinf hinf'
  obtain ⟨old, hold, space, patches⟩ := h.inferior? hinf'
  obtain rfl := Option.some.inj (hinf.symm.trans hold)
  exact ⟨space, fun m hm => ⟨m, (h.memory _).trans hm, .written none patches⟩⟩

/-- What is left alone afterwards does not matter. -/
theorem Treated.aside {wrote : Option (SpaceCap × Nat × List UInt8)} (h : d.Treated d' pid wrote)
    (h' : d'.Aside d'') : d.Treated d'' pid wrote := by
  intro inf inf' hinf hinf'
  obtain ⟨mid, hmid, space', patches⟩ := h'.inferior? hinf'
  obtain ⟨space, treats⟩ := h inf mid hinf hmid
  refine ⟨space'.trans space, fun m hm => ?_⟩
  obtain ⟨m', hm', step⟩ := treats m hm
  exact ⟨m', (h'.memory _).trans hm', step.of_patches_eq patches⟩

/-- An operation on one inferior that writes to no other address space. -/
theorem treated_onInferior {α : Type} {pid' : Nat} {op : Inferior → Kernel → α × Inferior × Kernel}
    (housed : d.Housed) (space : ∀ inf k, (op inf k).2.1.space = inf.space)
    (foot : ∀ inf k, Calls (Call.WritesOnly inf.space) k (op inf k).2.2)
    (own : ∀ inf m, d.registry.inferior? pid' = some inf → d.kernel.memory? inf.space = some m →
      ∃ m', (op inf d.kernel).2.2.memory? inf.space = some m' ∧
        inf.breakpoints.Treats m none (op inf d.kernel).2.1.breakpoints m') (pid : Nat) :
    d.Treated (d.onInferior pid' op).2 pid none := by
  intro inf inf' hinf hinf'
  unfold onInferior at hinf' ⊢
  split at hinf'
  · exact (Aside.refl d).treated pid inf inf' hinf hinf'
  · rename_i other hother
    by_cases hpid : pid' = pid
    · subst hpid
      obtain rfl := Option.some.inj (hinf.symm.trans hother)
      rw [Registry.inferior?_modifyInferior, hinf, Option.map_some, Option.some.injEq] at hinf'
      subst hinf'
      exact ⟨space inf d.kernel, fun m hm => own inf m hinf hm⟩
    · rw [Registry.inferior?_modifyInferior_of_ne hpid] at hinf'
      obtain rfl := Option.some.inj (hinf.symm.trans hinf')
      refine ⟨rfl, fun m hm => ⟨m, ?_, .written none rfl⟩⟩
      rw [← hm]
      refine (foot other d.kernel).memory?_eq fun addr word only => hpid ?_
      exact housed.apart pid' pid inf.space
        (Registry.mem_places.2 ⟨other, hother, (only inf.space addr word rfl).symm⟩)
        (Registry.mem_places.2 ⟨inf, hinf, rfl⟩)

/-- All inferiors are cleared in turn, each in its own address space. -/
theorem treated_clearDebugState {maxPatches : Nat} (housed : d.Housed) (tidy : d.Tidy maxPatches)
    (done : MemoryDone d.kernel d.clearDebugState.kernel) (pid : Nat) : d.Treated d.clearDebugState pid none := by
  intro inf inf' hinf hinf'
  let visit := fun (_ : Nat) (inf : Inferior) (k : Kernel) => inf.clearDebugState k
  have listed := Registry.inferior?_eq_some_iff.1 hinf
  obtain ⟨before, after, split⟩ := List.append_of_mem listed
  let k₁ := (SlotTable.visitList visit before d.kernel).2
  let k₂ := (inf.clearDebugState k₁).2
  let k₃ := (SlotTable.visitList visit after k₂).2
  have list : d.clearDebugState.registry.inferiors.toList = (SlotTable.visitList visit before d.kernel).1 ++
      (pid, (inf.clearDebugState k₁).1) :: (SlotTable.visitList visit after k₂).1 := by
    rw [clearDebugState, SlotTable.toList_visit_fst, split, SlotTable.visitList_append]
    rfl
  have kernel : d.clearDebugState.kernel = k₃ := by
    show (d.registry.inferiors.visit visit d.kernel).2 = k₃
    rw [SlotTable.visit_snd, split, SlotTable.visitList_append]
    rfl
  have made : inf' = (inf.clearDebugState k₁).1 := by
    have here := Registry.inferior?_eq_some_iff.2 (list ▸ List.mem_append_right _ List.mem_cons_self)
    exact Option.some.inj (hinf'.symm.trans here)
  -- the other inferiors are cleared in address spaces of their own
  have elsewhere (es : List (Nat × Inferior)) (k : Kernel)
      (others : ∀ e ∈ es, e ∈ d.registry.inferiors.toList ∧ e.1 ≠ pid) :
      Calls (fun c => ∀ addr word, c ≠ .space inf.space (.write addr word)) k
      (SlotTable.visitList visit es k).2 := by
    refine calls_visitList fun e he k => (e.2.writesOnly_clearDebugState k).mono fun c only addr word hc => ?_
    refine (others e he).2 (housed.apart e.1 pid inf.space ?_ (Registry.mem_places.2 ⟨inf, hinf, rfl⟩))
    exact Registry.mem_places.2 ⟨e.2, Registry.inferior?_eq_some_iff.2 (others e he).1, (only _ addr word hc).symm⟩
  have once := SlotTable.nodup_ids d.registry.inferiors
  rw [SlotTable.ids, split, List.map_append, List.map_cons] at once
  obtain ⟨-, later, apart⟩ := List.nodup_append.1 once
  have first := elsewhere before d.kernel fun e he => by
    refine ⟨split ▸ List.mem_append_left _ he, fun heq => ?_⟩
    exact apart e.1 (List.mem_map_of_mem he) pid List.mem_cons_self heq
  have last := elsewhere after k₂ fun e he => by
    refine ⟨split ▸ List.mem_append_right _ (List.mem_cons_of_mem _ he), fun heq => ?_⟩
    exact (List.nodup_cons.1 later).1 (List.mem_map.2 ⟨e, he, heq⟩)
  have own := inf.writesOnly_clearDebugState k₁
  rw [kernel] at done
  have rest : Calls (fun _ => True) k₁ k₃ := (own.mono fun _ _ => trivial).trans (last.mono fun _ _ => trivial)
  have cleared := ((done.split first rest).2.split own last).1
  refine ⟨by rw [made]; rfl, fun m hm => ?_⟩
  have hm₁ : k₁.memory? inf.space = some m := (first.memory?_eq fun addr word h => h addr word rfl).trans hm
  obtain ⟨m', hm', step⟩ := Inferior.treats_clearDebugState (tidy.proper pid inf hinf).distinct hm₁ cleared
  refine ⟨m', ?_, made ▸ step⟩
  rw [kernel]
  exact (last.memory?_eq fun addr word h => h addr word rfl).trans hm'

theorem treated_addInferior (native : UInt64) (space : Space) (pid : Nat) :
    d.Treated (d.perform (.addInferior native space)) pid none := by
  have added := addedInferior_addInferior (d.makeSpace space).2 native (d.makeSpace space).1
  change d.Treated ((d.makeSpace space).2.addInferior native (d.makeSpace space).1).2 pid none
  have old (cap : SpaceCap) (m : Memory) (hm : d.kernel.memory? cap = some m) :
      (d.makeSpace space).2.kernel.memory? cap = some m := by
    rw [← hm, memory?, memory?, makeSpace, Kernel.addSpace, List.getElem?_append_left (lt_of_memory? hm)]
  intro inf inf' hinf hinf'
  have same : inf' = inf ∧
      ((d.makeSpace space).2.addInferior native (d.makeSpace space).1).2.kernel = (d.makeSpace space).2.kernel := by
    generalize ((d.makeSpace space).2.addInferior native (d.makeSpace space).1).2 = d' at added hinf'
    cases added with
    | refused => exact ⟨Option.some.inj (hinf'.symm.trans hinf), rfl⟩
    | @done _ inferiors p q _ before after =>
      have listed : (pid, inf) ∈ p ++ q := before ▸ Registry.inferior?_eq_some_iff.1 hinf
      have kept : (pid, inf) ∈ inferiors.toList := by
        rw [after]
        rcases List.mem_append.1 listed with hp | hq
        · exact List.mem_append_left _ hp
        · exact List.mem_append_right _ (List.mem_cons_of_mem _ hq)
      exact ⟨Option.some.inj (hinf'.symm.trans (Registry.inferior?_eq_some_iff.2 kept)), rfl⟩
  obtain ⟨rfl, kernel⟩ := same
  exact ⟨rfl, fun m hm => ⟨m, by rw [kernel, old _ m hm], .written none rfl⟩⟩

end Debuggee

/-- What an operation writes to memory for the client. -/
def Operation.write? : Operation → Option (SpaceCap × Nat × List UInt8)
  | .writeMemory space addr data => some (space, addr, data)
  | _ => none

namespace Debuggee

variable {d : Debuggee} {maxPatches : Nat}

theorem treated_writeMemory {space : SpaceCap} {addr : Nat} {data : List UInt8} (room : addr + data.length ≤ 2 ^ 64)
    (done : MemoryDone d.kernel (d.perform (.writeMemory space addr data)).kernel) (pid : Nat) :
    d.Treated (d.perform (.writeMemory space addr data)) pid (some (space, addr, data)) := by
  intro inf inf' hinf hinf'
  obtain rfl := Option.some.inj (hinf.symm.trans hinf')
  refine ⟨rfl, fun m hm => ?_⟩
  by_cases hspace : space = inf.space
  · subst hspace
    refine ⟨_, memory?_writeBytes room hm done, ?_⟩
    rw [writtenTo, Option.bind_some, if_pos rfl]
    exact .written (some (addr, data)) rfl
  · have foot : Calls (Call.WritesOnly space) d.kernel (d.kernel.writeBytes space addr data).2 :=
      calls_writeBytes (fun _ => Call.writesOnly_read _ _ _) (Call.writesOnly_write _)
    refine ⟨m, ?_, ?_⟩
    · rw [← hm]
      exact foot.memory?_eq fun addr word only => hspace (only _ addr word rfl).symm
    · rw [writtenTo, Option.bind_some, if_neg hspace]
      exact .written none rfl

/-- Whatever is done to a debuggee, what happens to an inferior that stays is something that can happen to traps and
memory. -/
theorem treated_perform (housed : d.Housed) (tidy : d.Tidy maxPatches) {op : Operation}
    (room : ∀ space addr data, op.write? = some (space, addr, data) → addr + data.length ≤ 2 ^ 64)
    (done : MemoryDone d.kernel (d.perform op).kernel) (pid : Nat) : d.Treated (d.perform op) pid op.write? := by
  by_cases htouches : op.Touches
  · cases op with
    | addInferior native space => exact treated_addInferior native space pid
    | disable pid' =>
      intro inf inf' hinf hinf'
      obtain rfl := Option.some.inj (hinf.symm.trans (inferior?_disable hinf'))
      refine ⟨rfl, fun m hm => ⟨m, ?_, .written none rfl⟩⟩
      rw [perform, kernel_disable]
      exact hm
    | insertPatch pid' addr =>
      refine treated_onInferior housed (fun _ _ => rfl) (fun inf k => ?_) (fun inf m _ hm => ?_) pid
      · exact BreakpointTable.calls_insertPatch (Call.writesOnly_read _ _ _) (Call.writesOnly_write _ _)
      · exact BreakpointTable.treats_insertPatch hm addr
    | removePatch pid' addr =>
      refine treated_onInferior housed (fun _ _ => rfl) (fun inf k => ?_) (fun inf m _ hm => ?_) pid
      · exact BreakpointTable.calls_removePatch (Call.writesOnly_read _ _ _) (Call.writesOnly_write _ _)
      · exact BreakpointTable.treats_removePatch hm addr
    | clear pid' =>
      refine treated_onInferior housed (fun _ _ => rfl) (fun inf k => inf.writesOnly_clearDebugState k)
        (fun inf m hinf hm => Inferior.treats_clearDebugState (tidy.proper pid' inf hinf).distinct hm ?_) pid
      simp only [perform, onInferior, hinf] at done
      exact done
    | release =>
      let marked : Debuggee := { d.clearDebugState with
        registry := d.clearDebugState.registry.mapThreads fun _ thread => { thread with wakeup := true } }
      have quiet : d.clearDebugState.Aside marked :=
        ⟨patched_of_holdings_eq (Registry.holdings_mapThreads _), fun _ => rfl, List.prefix_rfl⟩
      have clearing : Calls (fun _ => True) d.kernel d.clearDebugState.kernel :=
        calls_clearDebugState (fun _ _ => trivial) (fun _ _ _ => trivial) (fun _ _ => trivial) fun _ => trivial
      have waking : Calls (fun _ => True) d.clearDebugState.kernel marked.resumeWoken.kernel :=
        calls_resumeWoken (d := marked) fun _ _ => trivial
      have cleared := treated_clearDebugState housed tidy (done.split clearing waking).1 pid
      exact cleared.aside (quiet.trans (marked.aside_perform (show ¬ Operation.Touches .resumeWoken from id)))
    | writeMemory space addr data => exact treated_writeMemory (room space addr data rfl) done pid
    | _ => exact htouches.elim
  · have quiet := (d.aside_perform htouches).treated pid
    cases op with
    | writeMemory => exact absurd trivial htouches
    | _ => exact quiet

end Debuggee
end RemoteDebug
