import RemoteDebug.Proofs.Debuggee.Mirror
import RemoteDebug.Proofs.Registry.Lookup
import RemoteDebug.Proofs.Registry.Tables

/-!
# The breakpoint tables of a debuggee

Few operations change the breakpoints of an inferior (`Debuggee.holdings_perform`), and through all of them every table
stays proper (`Debuggee.tidy_performAll`). So tables are bounded sets of breakpoints, from which a breakpoint that is
not set or removed leaves nothing behind (`Debuggee.set_or_left_alone`).
-/

namespace RemoteDebug

open Kernel

/-- What each inferior has in memory and in its table. -/
def Registry.holdings (r : Registry) : List (Nat × SpaceCap × BreakpointTable) :=
  r.inferiors.toList.map fun e => (e.1, e.2.space, e.2.breakpoints)

theorem Registry.mem_holdings {r : Registry} {pid : Nat} {space : SpaceCap} {t : BreakpointTable} :
    (pid, space, t) ∈ r.holdings ↔ ∃ inf, r.inferior? pid = some inf ∧ inf.space = space ∧
      inf.breakpoints = t := by
  simp only [holdings, List.mem_map, Prod.exists, Prod.mk.injEq, inferior?_eq_some_iff]
  constructor
  · rintro ⟨pid, inf, hinf, rfl, hspace, ht⟩
    exact ⟨inf, hinf, hspace, ht⟩
  · rintro ⟨inf, hinf, hspace, ht⟩
    exact ⟨pid, inf, hinf, rfl, hspace, ht⟩

/-- The operations that change no breakpoints and leave registered which inferiors there are. -/
def Operation.KeepsHoldings : Operation → Prop
  | .addInferior _ _ | .disable _ | .insertPatch _ _ | .removePatch _ _ | .insertTrigger _ _ | .removeTrigger _ _
  | .clear _ | .release => False
  | _ => True

namespace Registry

variable {r : Registry}

theorem holdings_modifyInferior {pid : Nat} {f : Inferior → Inferior}
    (h : ∀ inf, (f inf).space = inf.space ∧ (f inf).breakpoints = inf.breakpoints) :
    (r.modifyInferior pid f).holdings = r.holdings := by
  cases hinf : r.inferiors.get? pid with
  | none => rw [modifyInferior, SlotTable.modify_of_get?_eq_none hinf]
  | some inf =>
    obtain ⟨p, q, before, after⟩ := SlotTable.toList_modify hinf f
    simp [holdings, modifyInferior, before, after, h]

theorem holdings_mapThreads (f : Ptid → Thread → Thread) : (r.mapThreads f).holdings = r.holdings := by
  simp [holdings, mapThreads, SlotTable.toList_mapLive]

end Registry

namespace Debuggee

variable {d d' : Debuggee}

theorem holdings_onThread {α : Type} (t : Ptid) (op : Thread → Kernel → α × Thread × Kernel) :
    (d.onThread t op).2.registry.holdings = d.registry.holdings := by
  unfold onThread
  split
  · rfl
  · exact Registry.holdings_modifyInferior fun _ => ⟨rfl, rfl⟩

theorem holdings_visitThreads (f : Thread → Kernel → Thread × Kernel) :
    (d.visitThreads f).registry.holdings = d.registry.holdings := by
  rw [Registry.holdings, visitThreads, SlotTable.toList_visit_fst]
  exact SlotTable.map_visitList (g := fun inf : Inferior => (inf.space, inf.breakpoints)) (fun _ _ _ => rfl) _ _

theorem holdings_applyTargets (motion : Motion) (targets named : List Ptid) :
    (applyTargets motion targets named d).2.registry.holdings = d.registry.holdings := by
  induction targets generalizing named d with
  | nil => rfl
  | cons t targets ih =>
    unfold applyTargets
    split
    · exact ih named
    · rw [ih, applyMotion, holdings_onThread]

theorem holdings_applyActions (actions : List Action) (named : List Ptid) :
    (applyActions actions named d).registry.holdings = d.registry.holdings := by
  induction actions generalizing named d with
  | nil => rfl
  | cons action actions ih =>
    rw [applyActions_cons, ih, applied, holdings_applyTargets, marked, Registry.holdings_mapThreads]

theorem holdings_addThread (pid : Nat) (native : UInt64) (cap : ThreadCap) :
    (d.addThread pid native cap).2.registry.holdings = d.registry.holdings := by
  have added := added_addThread d pid native cap
  generalize (d.addThread pid native cap).1 = r, (d.addThread pid native cap).2 = d' at added ⊢
  cases added with
  | refused => rfl
  | done _ _ before after => simp [Registry.holdings, before, after]

theorem holdings_exit (t : Ptid) : (d.exit t).2.registry.holdings = d.registry.holdings := by
  unfold exit
  split
  · rfl
  · rename_i r hr
    unfold Registry.exit at hr
    split at hr
    · cases hr
    · split at hr
      · cases hr
      · have same : r.holdings = (d.registry.modifyInferior t.pid fun inf =>
            { inf with threads := inf.threads.retire t.tid }).holdings := by
          simp only [Except.ok.injEq] at hr
          rw [← hr]
          split <;> rfl
        rw [same]
        exact Registry.holdings_modifyInferior fun _ => ⟨rfl, rfl⟩

theorem holdings_perform {op : Operation} (h : op.KeepsHoldings) :
    (d.perform op).registry.holdings = d.registry.holdings := by
  cases op with
  | addInferior | disable | insertPatch | removePatch | insertTrigger | removeTrigger | clear | release => exact h.elim
  | addThread pid native tcb => exact holdings_addThread (d := (d.makeThread tcb).2) pid native _
  | exit t => exact holdings_exit t
  | setStepping | setWakeup => exact holdings_onThread _ _
  | program pid tcb => rw [perform, registry_programThread]; rfl
  | act actions => exact holdings_applyActions actions []
  | resumeWoken => exact holdings_visitThreads _
  | makeThread | select | suspendAll | readRegisters | writeRegisters | readMemory | writeMemory => rfl

/-! ## Operations on breakpoints -/

/-- After an operation on one inferior each has what it had, but for that one. -/
theorem mem_holdings_onInferior {α : Type} {pid pid' : Nat} {op : Inferior → Kernel → α × Inferior × Kernel}
    {space : SpaceCap} {t : BreakpointTable} (h : (pid', space, t) ∈ (d.onInferior pid op).2.registry.holdings) :
    (pid', space, t) ∈ d.registry.holdings ∨ pid' = pid ∧ ∃ inf, d.registry.inferior? pid = some inf ∧
      (op inf d.kernel).2.1.space = space ∧ (op inf d.kernel).2.1.breakpoints = t := by
  unfold onInferior at h
  split at h
  · exact .inl h
  · rename_i inf hinf
    obtain ⟨inf', hinf', hspace, ht⟩ := Registry.mem_holdings.1 h
    by_cases hpid : pid = pid'
    · subst hpid
      rw [Registry.inferior?_modifyInferior, hinf, Option.map_some, Option.some.injEq] at hinf'
      rw [← hinf'] at hspace ht
      exact .inr ⟨rfl, inf, hinf, hspace, ht⟩
    · rw [Registry.inferior?_modifyInferior_of_ne hpid] at hinf'
      exact .inl (Registry.mem_holdings.2 ⟨inf', hinf', hspace, ht⟩)

/-- Every table is proper, with as many places as the registry gives. -/
structure Tidy (maxPatches : Nat) (d : Debuggee) : Prop where
  places : d.registry.maxPatches = maxPatches
  proper : ∀ pid inf, d.registry.inferior? pid = some inf → inf.breakpoints.Proper maxPatches

variable {maxPatches : Nat}

theorem Tidy.of_holdings (h : d.Tidy maxPatches) (same : d'.registry.maxPatches = d.registry.maxPatches)
    (all : ∀ pid space t, (pid, space, t) ∈ d'.registry.holdings →
      (pid, space, t) ∈ d.registry.holdings ∨ t.Proper maxPatches) : d'.Tidy maxPatches := by
  refine ⟨same.trans h.places, fun pid inf hinf => ?_⟩
  rcases all pid _ _ (Registry.mem_holdings.2 ⟨inf, hinf, rfl, rfl⟩) with old | proper
  · obtain ⟨inf', hinf', -, ht⟩ := Registry.mem_holdings.1 old
    exact ht ▸ h.proper pid inf' hinf'
  · exact proper

theorem tidy_empty (maxInferiors maxThreads maxPatches : Nat) :
    (empty maxInferiors maxThreads maxPatches).Tidy maxPatches := by
  refine ⟨rfl, fun pid inf hinf => ?_⟩
  have none_yet := Registry.inferior?_eq_some_iff.1 hinf
  simp [empty, Registry.empty] at none_yet

theorem Tidy.onInferior {α : Type} {pid : Nat} {op : Inferior → Kernel → α × Inferior × Kernel}
    (h : d.Tidy maxPatches)
    (keeps : ∀ {inf k}, inf.breakpoints.Proper maxPatches → (op inf k).2.1.breakpoints.Proper maxPatches) :
    (d.onInferior pid op).2.Tidy maxPatches := by
  refine h.of_holdings ?_ fun pid' space t hmem => ?_
  · unfold Debuggee.onInferior
    split <;> rfl
  · refine (mem_holdings_onInferior hmem).imp_right ?_
    rintro ⟨-, inf, hinf, -, rfl⟩
    exact keeps (h.proper pid inf hinf)

theorem Tidy.clearDebugState (h : d.Tidy maxPatches) : d.clearDebugState.Tidy maxPatches := by
  refine ⟨h.places, fun pid inf hinf => ?_⟩
  rw [Registry.inferior?_eq_some_iff, Debuggee.clearDebugState, SlotTable.toList_visit_fst] at hinf
  obtain ⟨inf', k, hinf', rfl⟩ := SlotTable.mem_visitList hinf
  exact (Inferior.clear_clearDebugState (h.proper pid inf' (Registry.inferior?_eq_some_iff.2 hinf'))).1

theorem maxPatches_perform (d : Debuggee) (op : Operation) :
    (d.perform op).registry.maxPatches = d.registry.maxPatches := by
  have of_outline {r r' : Registry} (h : r'.outline = r.outline) : r'.maxPatches = r.maxPatches :=
    show r'.outline.maxPatches = r.outline.maxPatches by rw [h]
  cases op with
  | addInferior native space =>
    have added := addedInferior_addInferior (d.makeSpace space).2 native (d.makeSpace space).1
    show ((d.makeSpace space).2.addInferior native (d.makeSpace space).1).2.registry.maxPatches = _
    generalize ((d.makeSpace space).2.addInferior native (d.makeSpace space).1).2 = d' at added ⊢
    cases added <;> rfl
  | addThread pid native tcb =>
    have added := added_addThread (d.makeThread tcb).2 pid native (d.makeThread tcb).1
    show ((d.makeThread tcb).2.addThread pid native (d.makeThread tcb).1).2.registry.maxPatches = _
    generalize ((d.makeThread tcb).2.addThread pid native (d.makeThread tcb).1).1 = r,
      ((d.makeThread tcb).2.addThread pid native (d.makeThread tcb).1).2 = d' at added ⊢
    cases added <;> rfl
  | disable pid =>
    simp only [perform, disable, Registry.disable]
    split
    · rfl
    · rename_i r hr
      split at hr
      · cases hr
      · simp only [Except.ok.injEq] at hr
        rw [← hr]
        split <;> rfl
  | exit t =>
    simp only [perform, exit, Registry.exit]
    split
    · rfl
    · rename_i r hr
      split at hr
      · cases hr
      · split at hr
        · cases hr
        · simp only [Except.ok.injEq] at hr
          rw [← hr]
          split <;> rfl
  | select t => rfl
  | _ => exact of_outline (outline_perform trivial fun _ => Operation.noConfusion)

/-- Every operation keeps tables proper, whatever calls are refused. -/
theorem tidy_perform (h : d.Tidy maxPatches) (op : Operation) : (d.perform op).Tidy maxPatches := by
  by_cases hkeeps : op.KeepsHoldings
  · exact h.of_holdings (maxPatches_perform d op) fun pid space t hmem => .inl (holdings_perform hkeeps ▸ hmem)
  · cases op with
    | insertPatch pid addr => exact h.onInferior fun hp => Inferior.proper_set hp (.patch addr) _
    | insertTrigger pid trigger => exact h.onInferior fun hp => Inferior.proper_set hp (.trigger trigger) _
    | removePatch pid addr => exact h.onInferior fun hp => Inferior.proper_unset hp (.patch addr) _
    | removeTrigger pid trigger => exact h.onInferior fun hp => Inferior.proper_unset hp (.trigger trigger) _
    | clear pid => exact h.onInferior fun hp => (Inferior.clear_clearDebugState hp).1
    | release =>
      refine h.clearDebugState.of_holdings rfl fun pid space t hmem => .inl ?_
      rw [perform, release, resumeWoken, holdings_visitThreads, Registry.holdings_mapThreads] at hmem
      exact hmem
    | addInferior native space =>
      have added := addedInferior_addInferior (d.makeSpace space).2 native (d.makeSpace space).1
      refine h.of_holdings (maxPatches_perform d (.addInferior native space)) fun pid cap t hmem => ?_
      change (pid, cap, t) ∈ ((d.makeSpace space).2.addInferior native (d.makeSpace space).1).2.registry.holdings
        at hmem
      generalize ((d.makeSpace space).2.addInferior native (d.makeSpace space).1).2 = d' at added hmem
      cases added with
      | refused => exact .inl hmem
      | @done pid inferiors p q _ before after =>
        have old : d.registry.holdings = p.map (fun e => (e.1, e.2.space, e.2.breakpoints)) ++
            q.map fun e => (e.1, e.2.space, e.2.breakpoints) := by
          rw [← List.map_append, ← before]
          rfl
        simp only [Registry.holdings, after, List.map_append, List.map_cons, List.mem_append, List.mem_cons,
          Prod.mk.injEq] at hmem
        rw [old, List.mem_append]
        rcases hmem with hp | ⟨-, -, rfl⟩ | hq
        · exact .inl (.inl hp)
        · exact .inr (h.places ▸ BreakpointTable.proper_empty _)
        · exact .inl (.inr hq)
    | disable pid =>
      refine h.of_holdings (maxPatches_perform d (.disable pid)) fun pid' space t hmem => ?_
      obtain ⟨inf, hinf, -, rfl⟩ := Registry.mem_holdings.1 hmem
      obtain ⟨before, hbefore, table, -⟩ :=
        (within_disable d pid).inferiors pid' inf (Registry.inferior?_eq_some_iff.1 hinf)
      exact .inr (table ▸ h.proper pid' before (Registry.inferior?_eq_some_iff.2 hbefore))
    | _ => exact absurd trivial hkeeps

theorem tidy_performAll (h : d.Tidy maxPatches) (ops : List Operation) : (d.performAll ops).Tidy maxPatches := by
  induction ops generalizing d with
  | nil => exact h
  | cons op ops ih => exact ih (tidy_perform h op)

/-- After any run in which threads come in with no slot set, whatever calls are refused, a table is a set of
breakpoints, each of which could be set. Setting one that is there changes nothing and makes no call. A new one that
could be set finds no slot exactly if the table has as many of its sort as there is room for. One that is set comes into
the table and nothing else does; one that is not set leaves the table and memory as they were, and also the debug slots
of all threads if no thread refuses to clear one. The same goes for a trap that is not removed. A trigger leaves the
table whatever the threads say: every thread is asked to clear its slot, and what the threads say is the result. -/
theorem set_or_left_alone (maxInferiors maxThreads maxPatches : Nat) {ops : List Operation}
    (clear : ∀ op ∈ ops, ∀ tcb, op.entrant? = some tcb → tcb.Clear) {pid : Nat} {inf : Inferior} {k : Kernel}
    (hk : ((empty maxInferiors maxThreads maxPatches).performAll ops).kernel = k)
    (hinf : ((empty maxInferiors maxThreads maxPatches).performAll ops).registry.inferior? pid = some inf) :
    (inf.breakpoints.breakpoints.Nodup ∧ ∀ b ∈ inf.breakpoints.breakpoints, b.Valid) ∧
      (∀ b ∈ inf.breakpoints.breakpoints, inf.set b k = (.ok (), inf, k)) ∧
      (∀ b ∉ inf.breakpoints.breakpoints, b.Valid → ((inf.set b k).1 = .error .noFreeSlot ↔
        (inf.breakpoints.breakpoints.filter b.alike).length = b.room maxPatches)) ∧
      (∀ b, (inf.set b k).1 = .ok () → ∀ b', b' ∈ (inf.set b k).2.1.breakpoints.breakpoints ↔
        b' = b ∨ b' ∈ inf.breakpoints.breakpoints) ∧
      (∀ b e, (inf.set b k).1 = .error e → (inf.set b k).2.1 = inf ∧ (inf.set b k).2.2.spaces = k.spaces ∧
        ((∀ cap ∈ inf.caps, ¬ (inf.set b k).2.2.ClearFailed cap) →
          ∀ cap, (inf.set b k).2.2.slots? cap = k.slots? cap)) ∧
      (∀ addr e, (inf.unset (.patch addr) k).1 = .error e → (inf.unset (.patch addr) k).2.1 = inf ∧
        (inf.unset (.patch addr) k).2.2.spaces = k.spaces ∧
        ∀ cap, (inf.unset (.patch addr) k).2.2.slots? cap = k.slots? cap) ∧
      (∀ trigger, .trigger trigger ∉ inf.breakpoints.breakpoints →
        inf.unset (.trigger trigger) k = (.error .notFound, inf, k)) ∧
      ∀ trigger, .trigger trigger ∈ inf.breakpoints.breakpoints →
        (∀ b, b ∈ (inf.unset (.trigger trigger) k).2.1.breakpoints.breakpoints ↔
          b ∈ inf.breakpoints.breakpoints ∧ b ≠ .trigger trigger) ∧
        ∃ slot new, inf.breakpoints.trigger? slot = some trigger ∧
          (inf.unset (.trigger trigger) k).2.2.history.toList = k.history.toList ++ new ∧
          new.map (·.call) = inf.caps.map (.thread · (.clearSlot slot)) ∧
          (inf.unset (.trigger trigger) k).1 = if new.all (·.done) then .ok () else .error .thread := by
  have bare := apart_empty maxInferiors maxThreads maxPatches
  have apart := apart_performAll bare ops
  have mirrored := mirrored_performAll (mirrored_empty maxInferiors maxThreads maxPatches .slots) bare clear
  have tidy := tidy_performAll (tidy_empty maxInferiors maxThreads maxPatches) ops
  rw [← hk]
  generalize (empty maxInferiors maxThreads maxPatches).performAll ops = d at apart mirrored tidy hinf ⊢
  have hmem := Registry.inferior?_eq_some_iff.1 hinf
  have proper := tidy.proper pid inf hinf
  have distinct := Registry.nodup_caps_of_mem apart.distinct.nodup_caps hmem
  refine ⟨⟨proper.once, proper.valid⟩, fun b hb => Inferior.set_of_mem proper.laid (proper.valid b hb) hb,
    fun b new valid => ?_, fun b ok b' => Inferior.mem_set_of_ok proper.laid ok, fun b e refused => ?_,
    fun addr e refused => Inferior.kept_of_unset_error proper refused,
    fun trigger absent => Inferior.unset_of_not_mem absent,
    fun trigger hset => ⟨fun b => Inferior.mem_unset_trigger proper, Inferior.unset_trigger proper hset d.kernel⟩⟩
  · rw [Inferior.set_full_iff proper.laid valid new, BreakpointTable.Full, proper.places]
  · obtain ⟨kept, memory⟩ := Inferior.kept_of_error proper.laid refused
    exact ⟨kept, memory, Inferior.slots?_of_error (mirrored _ hmem) distinct refused⟩

/-- A trap finds no room beside the only one there may be. A trigger that the second thread refuses is taken off the
first again, and one that the second thread does not let go leaves the table all the same. The first thread comes in
stepping. -/
theorem one_patch_and_a_stubborn_thread :
    ∃ ops : List Operation, (∀ op ∈ ops, ∀ tcb, op.entrant? = some tcb → tcb.Clear) ∧ ∃ inf k,
      ((empty 1 2 1).performAll ops).kernel = k ∧ ((empty 1 2 1).performAll ops).registry.inferior? 1 = some inf ∧
      (inf.set (.patch 0x1004) k).1 = .error .noFreeSlot ∧
      (inf.set (.trigger ⟨0x2000, .fetch⟩) k).1 = .error .thread ∧
      (∀ cap, (inf.set (.trigger ⟨0x2000, .fetch⟩) k).2.2.slots? cap = k.slots? cap) ∧
      (inf.unset (.trigger ⟨0x1000, .fetch⟩) k).1 = .error .thread ∧
      .trigger ⟨0x1000, .fetch⟩ ∉ (inf.unset (.trigger ⟨0x1000, .fetch⟩) k).2.1.breakpoints.breakpoints := by
  let space : Space := ⟨Memory.empty.mapWords 0x1000 2 0x1122334455667788, fun _ _ => false⟩
  let stubborn : Tcb :=
    { Tcb.fresh with refuses := fun _ call => call = .setSlot 1 ⟨0x2000, .fetch⟩ ∨ call = .clearSlot 0 }
  let ops : List Operation := [.addInferior 7 space, .addThread 1 8 { Tcb.fresh with stepping := true },
    .addThread 1 9 stubborn, .insertTrigger 1 ⟨0x1000, .fetch⟩, .insertPatch 1 0x1000]
  have clear : ∀ op ∈ ops, ∀ tcb, op.entrant? = some tcb → tcb.Clear := by
    intro op hop tcb htcb
    simp only [ops, List.mem_cons, List.not_mem_nil, or_false] at hop
    rcases hop with rfl | rfl | rfl | rfl | rfl <;> cases htcb
    · exact fun _ => rfl
    · exact fun _ => rfl
  let d : Debuggee := (empty 1 2 1).performAll ops
  -- what is recorded, and what the three operations come to
  have outcome : (d.registry.inferior? 1).map (fun inf => (inf.breakpoints.breakpoints,
      (inf.set (.trigger ⟨0x2000, .fetch⟩) d.kernel).1,
      ((inf.set (.trigger ⟨0x2000, .fetch⟩) d.kernel).2.2.history.toList.filter (!·.done)).map (·.call),
      (inf.unset (.trigger ⟨0x1000, .fetch⟩) d.kernel).1)) =
      some ([.patch 0x1000, .trigger ⟨0x1000, .fetch⟩], .error .thread,
      [.thread 1 (.setSlot 1 ⟨0x2000, .fetch⟩)],
        .error .thread) := by decide +kernel
  obtain ⟨inf, hinf, heq⟩ := Option.map_eq_some_iff.1 outcome
  simp only [Prod.mk.injEq] at heq
  obtain ⟨table, refused, lost, kept⟩ := heq
  obtain ⟨-, -, full, -, undone, -, -, gone⟩ := set_or_left_alone 1 2 1 clear (k := d.kernel) rfl hinf
  refine ⟨ops, clear, inf, d.kernel, rfl, hinf, ?_, refused, ?_, kept, fun hmem => ?_⟩
  · refine (full (.patch 0x1004) ?_ ?_).2 ?_
    · rw [table]
      decide
    · exact (by decide : (0x1004 : UInt64) ≠ 0)
    · rw [table]
      rfl
  · refine (undone _ _ refused).2.2 fun cap _ failed => ?_
    obtain ⟨slot, hfailed⟩ := failed
    have mem : Kernel.Call.thread cap (.clearSlot slot) ∈
        [Kernel.Call.thread 1 (.setSlot 1 ⟨0x2000, .fetch⟩)] := by
      rw [← lost]
      exact List.mem_map.2 ⟨_, List.mem_filter.2 ⟨hfailed, rfl⟩, rfl⟩
    cases List.mem_singleton.1 mem
  · have removed := ((gone ⟨0x1000, .fetch⟩ ?_).1 _).1 hmem
    · exact removed.2 rfl
    · rw [table]
      decide

end Debuggee
end RemoteDebug
