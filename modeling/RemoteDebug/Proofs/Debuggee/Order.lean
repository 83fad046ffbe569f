import Mathlib.Data.List.Nodup
import RemoteDebug.Proofs.Debuggee.Selection

/-!
# Native ids

Inferiors differ in their native ids, and so do the threads of one inferior (`Registry.Orderly`): a registration refuses
a native id that is there already, and no other operation brings one in (`orderly_perform`). So a lookup by native ids
finds what it should and nothing else (`findThread?_eq_some_iff`), and `registry_in_order` says of every run what the
lookups, the listing and the selection have to do with each other.
-/

namespace RemoteDebug

namespace SlotTable

variable {α β : Type} {t : SlotTable α} {f : α → β} {id id' : Nat} {v v' : α}

/-- Values that differ under `f` wherever they differ are under one id if they agree under `f`. -/
theorem id_eq_of_nodup (h : (t.toList.map fun e => f e.2).Nodup) (hv : t.get? id = some v) (hv' : t.get? id' = some v')
    (heq : f v = f v') : id = id' :=
  congrArg Prod.fst (List.inj_on_of_nodup_map h (mem_toList.2 hv) (mem_toList.2 hv') heq)

theorem find?_eq_some_iff [DecidableEq β] (h : (t.toList.map fun e => f e.2).Nodup) (b : β) (id : Nat) (v : α) :
    t.toList.find? (fun e => f e.2 = b) = some (id, v) ↔ t.get? id = some v ∧ f v = b := by
  constructor
  · intro hfind
    exact ⟨mem_toList.1 (List.mem_of_find?_eq_some hfind), by simpa using List.find?_some hfind⟩
  · rintro ⟨hv, rfl⟩
    cases hfind : t.toList.find? (fun e => f e.2 = f v) with
    | none => exact absurd (List.find?_eq_none.1 hfind _ (mem_toList.2 hv)) (by simp)
    | some e =>
      have hf : f e.2 = f v := by simpa using List.find?_some hfind
      rw [List.inj_on_of_nodup_map h (List.mem_of_find?_eq_some hfind) (mem_toList.2 hv) hf]

end SlotTable

/-- The native ids of an inferior's threads. -/
def Inferior.natives (inf : Inferior) : List UInt64 := inf.threads.toList.map (·.2.native)

namespace Registry

variable {r r' : Registry} {t : Ptid}

/-- The native ids of the inferiors, each with those of its threads. -/
def natives (r : Registry) : List (UInt64 × List UInt64) := r.inferiors.toList.map fun p => (p.2.native, p.2.natives)

/-- No two inferiors share a native id, and no two threads of an inferior do. -/
structure Orderly (r : Registry) : Prop where
  inferiors : (r.inferiors.toList.map (·.2.native)).Nodup
  threads : ∀ pid inf, (pid, inf) ∈ r.inferiors.toList → inf.natives.Nodup

theorem orderly_iff : r.Orderly ↔ (r.natives.map Prod.fst).Nodup ∧ ∀ e ∈ r.natives, e.2.Nodup := by
  have first : r.natives.map Prod.fst = r.inferiors.toList.map (·.2.native) := by simp [natives, Function.comp_def]
  rw [first]
  constructor
  · intro h
    refine ⟨h.inferiors, fun e he => ?_⟩
    obtain ⟨⟨pid, inf⟩, hinf, rfl⟩ := List.mem_map.1 he
    exact h.threads pid inf hinf
  · intro h
    exact ⟨h.1, fun pid inf hinf => h.2 _ (List.mem_map.2 ⟨(pid, inf), hinf, rfl⟩)⟩

@[simp] theorem natives_outline (r : Registry) : r.outline.natives = r.natives := by
  simp [natives, outline, Inferior.natives, Inferior.outline, Thread.outline, SlotTable.toList_mapLive,
    Function.comp_def]

theorem Orderly.of_outline_eq (h : r.Orderly) (heq : r'.outline = r.outline) : r'.Orderly := by
  have natives : r'.natives = r.natives := by rw [← natives_outline r', heq, natives_outline]
  rw [orderly_iff, natives]
  exact orderly_iff.1 h

theorem Orderly.within (h : r.Orderly) (hw : r'.Within r) : r'.Orderly := by
  refine ⟨h.inferiors.sublist hw.natives, fun pid inf hinf => ?_⟩
  obtain ⟨before, hbefore, -, fewer⟩ := hw.inferiors pid inf hinf
  exact (h.threads pid before hbefore).sublist (fewer.map _)

theorem orderly_empty (maxInferiors maxThreads maxPatches : Nat) : (empty maxInferiors maxThreads maxPatches).Orderly :=
  ⟨by simp [empty], fun _ _ h => by simp [empty] at h⟩

/-! ## Lookups -/

/-- Every thread is listed once. -/
theorem nodup_threads (r : Registry) : r.threads.Nodup := by
  refine List.nodup_flatMap.2 ⟨fun e _ => ?_, ?_⟩
  · exact (SlotTable.nodup_ids e.2.threads).map fun _ _ h => congrArg Ptid.tid h
  · -- names from different inferiors differ in the process id
    refine (List.pairwise_map.1 (SlotTable.nodup_ids r.inferiors)).imp fun hne t ht ht' => ?_
    obtain ⟨_, -, rfl⟩ := List.mem_map.1 ht
    obtain ⟨_, -, heq⟩ := List.mem_map.1 ht'
    exact hne (congrArg Ptid.pid heq).symm

theorem mem_threads_iff :
    t ∈ r.threads ↔ ∃ inf thread, r.inferior? t.pid = some inf ∧ inf.threads.get? t.tid = some thread := by
  rw [mem_threads]
  simp only [thread?, Option.bind_eq_some_iff]
  exact exists_comm

theorem Orderly.findInferior?_eq_some_iff (h : r.Orderly) {native : UInt64} {pid : Nat} :
    r.findInferior? native = some pid ↔ ∃ inf, r.inferior? pid = some inf ∧ inf.native = native := by
  have find := SlotTable.find?_eq_some_iff h.inferiors native pid
  unfold findInferior? inferior?
  simp only [← find, Option.map_eq_some_iff, Prod.exists]
  constructor
  · rintro ⟨_, inf, found, rfl⟩
    exact ⟨inf, found⟩
  · rintro ⟨inf, found⟩
    exact ⟨pid, inf, found, rfl⟩

/-- Looking up native ids finds the thread that has them, and fails if there is none. -/
theorem Orderly.findThread?_eq_some_iff (h : r.Orderly) {a b : UInt64} :
    r.findThread? a b = some t ↔
      ∃ inf thread, r.inferior? t.pid = some inf ∧ inf.threads.get? t.tid = some thread ∧ inf.native = a ∧
        thread.native = b := by
  have inInferior {pid : Nat} {inf : Inferior} (hinf : r.inferior? pid = some inf) :
      ((inf.threads.toList.find? fun e => e.2.native = b).map fun e => (⟨pid, e.1⟩ : Ptid)) = some t ↔
        pid = t.pid ∧ ∃ thread, inf.threads.get? t.tid = some thread ∧ thread.native = b := by
    have find := SlotTable.find?_eq_some_iff (h.threads pid inf (inferior?_eq_some_iff.1 hinf)) b
    simp only [Option.map_eq_some_iff, Prod.exists, find]
    constructor
    · rintro ⟨tid, thread, found, rfl⟩
      exact ⟨rfl, thread, found⟩
    · rintro ⟨rfl, thread, found⟩
      exact ⟨t.tid, thread, found, rfl⟩
  unfold findThread?
  constructor
  · intro found
    split at found
    · cases found
    · rename_i pid hpid
      obtain ⟨inf, hinf, ha⟩ := h.findInferior?_eq_some_iff.1 hpid
      rw [hinf] at found
      obtain ⟨rfl, thread, ht, hb⟩ := (inInferior hinf).1 found
      exact ⟨inf, thread, hinf, ht, ha, hb⟩
  · rintro ⟨inf, thread, hinf, ht, ha, hb⟩
    rw [h.findInferior?_eq_some_iff.2 ⟨inf, hinf, ha⟩]
    simp only [hinf]
    exact (inInferior hinf).2 ⟨rfl, thread, ht, hb⟩

end Registry

namespace Debuggee

variable {d d' : Debuggee}

/-! ## One operation -/

theorem AddedInferior.orderly {native : UInt64} {space : Kernel.SpaceCap} (h : AddedInferior d native space d')
    (ho : d.registry.Orderly) : d'.registry.Orderly := by
  cases h with
  | refused => exact ho
  | @done pid inferiors p q id before after fresh =>
    refine ⟨?_, fun pid' inf hinf => ?_⟩
    · have old : ((p ++ q).map (·.2.native)).Nodup := before ▸ ho.inferiors
      rw [List.map_append] at old
      simp only [after, List.map_append, List.map_cons]
      refine List.nodup_middle.2 (List.nodup_cons.2 ⟨fun hmem => ?_, old⟩)
      rw [← List.map_append, ← before] at hmem
      obtain ⟨⟨pid', inf⟩, hinf, heq⟩ := List.mem_map.1 hmem
      exact fresh pid' inf hinf heq
    · simp only [after, List.mem_append, List.mem_cons, Prod.mk.injEq] at hinf
      rcases hinf with hp | ⟨-, rfl⟩ | hq
      · exact ho.threads pid' inf (by simp [before, hp])
      · simp [Inferior.natives]
      · exact ho.threads pid' inf (by simp [before, hq])

theorem Added.orderly {pid : Nat} {native : UInt64} {cap : Kernel.ThreadCap} {result : Except RegistryError Ptid}
    (h : Added d pid native cap result d') (ho : d.registry.Orderly) : d'.registry.Orderly := by
  cases h with
  | refused _ => exact ho
  | @done inf tid threads kernel inferiors current p q p' q' _ _ before after before' after' fresh =>
    have natives : (inferiors.toList.map (·.2.native)) = d.registry.inferiors.toList.map (·.2.native) := by
      simp [before, after]
    refine ⟨by rw [natives]; exact ho.inferiors, fun pid' inf' hinf => ?_⟩
    simp only [after, List.mem_append, List.mem_cons, Prod.mk.injEq] at hinf
    rcases hinf with hp | ⟨-, rfl⟩ | hq
    · exact ho.threads pid' inf' (by simp [before, hp])
    · have old : ((p' ++ q').map (·.2.native)).Nodup := before' ▸ ho.threads pid inf (by simp [before])
      rw [List.map_append] at old
      simp only [Inferior.natives, after', List.map_append, List.map_cons]
      refine List.nodup_middle.2 (List.nodup_cons.2 ⟨fun hmem => ?_, old⟩)
      rw [← List.map_append, ← before'] at hmem
      obtain ⟨⟨tid', thread⟩, ht, heq⟩ := List.mem_map.1 hmem
      exact fresh tid' thread ht heq
    · exact ho.threads pid' inf' (by simp [before, hq])

/-- No operation gives two inferiors, or two threads of an inferior, one native id. -/
theorem orderly_perform (op : Operation) (h : d.registry.Orderly) : (d.perform op).registry.Orderly := by
  by_cases hs : ∃ t, op = .select t
  · obtain ⟨t, rfl⟩ := hs
    exact ⟨h.inferiors, h.threads⟩
  · by_cases hkeeps : op.KeepsRoster
    · exact h.of_outline_eq (outline_perform hkeeps fun t heq => hs ⟨t, heq⟩)
    · cases op with
      | addInferior native space =>
        exact (addedInferior_addInferior (d.makeSpace space).2 native (d.makeSpace space).1).orderly h
      | addThread pid native tcb =>
        exact (added_addThread (d.makeThread tcb).2 pid native (d.makeThread tcb).1).orderly h
      | disable pid => exact h.within (within_disable d pid)
      | exit t => exact h.within (within_exit d t)
      | _ => exact absurd trivial hkeeps

/-! ## Runs -/

theorem orderly_performAll (ops : List Operation) (h : d.registry.Orderly) : (d.performAll ops).registry.Orderly := by
  induction ops generalizing d with
  | nil => exact h
  | cons op ops ih => exact ih (orderly_perform op h)

theorem selects_performAll (ops : List Operation) (h : d.registry.Selects) : (d.performAll ops).registry.Selects := by
  induction ops generalizing d with
  | nil => exact h
  | cons op ops ih => exact ih (selects_perform op h)

theorem live_performAll {ops : List Operation} (h : d.registry.Live)
    (selected : ∀ before t after, ops = before ++ .select t :: after →
      t ∈ (d.performAll before).registry.threads) :
    (d.performAll ops).registry.Live := by
  induction ops generalizing d with
  | nil => exact h
  | cons op ops ih =>
    refine ih ?_ fun before t after hops => selected (op :: before) t after (by rw [hops, List.cons_append])
    by_cases hs : ∃ t, op = .select t
    · obtain ⟨t, rfl⟩ := hs
      exact Registry.live_select.2 (selected [] t ops rfl)
    · exact (steady_perform op fun t heq => hs ⟨t, heq⟩).live h

/-- After every run in which only registered threads are selected: native ids lead to one inferior, and in it to one
thread; the listing has each thread once, and nothing else; a lookup by native ids finds the thread that has them, and
nothing if none does; and a thread is selected if there is one, and it is registered. -/
theorem registry_in_order {maxInferiors maxThreads maxPatches : Nat} {ops : List Operation}
    (selected : ∀ before t after, ops = before ++ .select t :: after →
      t ∈ ((empty maxInferiors maxThreads maxPatches).performAll before).registry.threads) :
    let r := ((empty maxInferiors maxThreads maxPatches).performAll ops).registry
    (∀ pid pid' inf inf', r.inferior? pid = some inf → r.inferior? pid' = some inf' → inf.native = inf'.native →
        pid = pid') ∧
      (∀ pid inf, r.inferior? pid = some inf → ∀ tid tid' thread thread', inf.threads.get? tid = some thread →
        inf.threads.get? tid' = some thread' → thread.native = thread'.native → tid = tid') ∧
      (r.threads.Nodup ∧ ∀ t, t ∈ r.threads ↔
        ∃ inf thread, r.inferior? t.pid = some inf ∧ inf.threads.get? t.tid = some thread) ∧
      (∀ a b t, r.findThread? a b = some t ↔
        ∃ inf thread, r.inferior? t.pid = some inf ∧ inf.threads.get? t.tid = some thread ∧ inf.native = a ∧
          thread.native = b) ∧
      (r.current = none ↔ ∀ t, t ∉ r.threads) ∧ ∀ t, r.current = some t → t ∈ r.threads := by
  intro r
  have orderly : r.Orderly := orderly_performAll ops (Registry.orderly_empty _ _ _)
  have selects : r.Selects := selects_performAll ops (Registry.selects_empty _ _ _)
  have live : r.Live := live_performAll (Registry.live_empty _ _ _) selected
  refine ⟨fun pid pid' inf inf' => ?_, fun pid inf hinf tid tid' thread thread' => ?_, ?_, ?_, ?_, live⟩
  · exact SlotTable.id_eq_of_nodup orderly.inferiors
  · exact SlotTable.id_eq_of_nodup (orderly.threads pid inf (Registry.inferior?_eq_some_iff.1 hinf))
  · exact ⟨Registry.nodup_threads r, fun t => Registry.mem_threads_iff⟩
  · exact fun a b t => orderly.findThread?_eq_some_iff
  · rw [Registry.current_eq_none_iff selects live, List.eq_nil_iff_forall_not_mem]

/-- One slot for a thread in each of two inferiors. The first thread is let go, its slot is claimed again under the same
native id, the thread of the second inferior is selected, and then that inferior is let go. -/
theorem registry_in_order_of_reused_slot :
    let ops : List Operation := [.addInferior 7 .fresh, .addThread 1 8 .fresh, .addInferior 9 .fresh,
      .addThread 2 8 .fresh, .exit ⟨1, 1⟩, .addThread 1 8 .fresh, .select ⟨2, 1⟩, .disable 2]
    let r := ((empty 2 1 0).performAll ops).registry
    r.threads = [⟨1, 2⟩] ∧ r.current = some ⟨1, 2⟩ ∧ r.findThread? 7 8 = some ⟨1, 2⟩ ∧
      ∀ a b t, r.findThread? a b = some t → t = ⟨1, 2⟩ := by
  intro ops r
  have selected : ∀ before t after, ops = before ++ .select t :: after →
      t ∈ ((empty 2 1 0).performAll before).registry.threads := by
    intro before t after h
    obtain ⟨rfl, rfl, -⟩ : before = ops.take 6 ∧ t = ⟨2, 1⟩ ∧ after = [.disable 2] := by
      simpa [ops, List.cons_eq_append_iff] using h
    decide +kernel
  have order := registry_in_order selected
  have threads : r.threads = [⟨1, 2⟩] := by decide +kernel
  refine ⟨threads, by decide +kernel, by decide +kernel, fun a b t found => ?_⟩
  obtain ⟨inf, thread, hinf, ht, -⟩ := (order.2.2.2.1 a b t).1 found
  have there : t ∈ r.threads := (order.2.2.1.2 t).2 ⟨inf, thread, hinf, ht⟩
  simpa [threads] using there

end Debuggee
end RemoteDebug
