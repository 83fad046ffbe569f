import RemoteDebug.Proofs.Debuggee.Names
import RemoteDebug.Proofs.Registry.Lookup
import RemoteDebug.Proofs.SlotTable.Given

/-!
# Names that were given

The ledger of a registry counts how often each of its slots was claimed, those of inferiors and those of the threads of
each inferior. Only a registration changes it (`ledger_perform`). A name that the ledger knows (`Registry.Given`) is
known from then on (`given_perform`), and no registration gives it again (`not_given_of_added`), since a thread id comes
back only in another inferior, which has another process id.
-/

namespace RemoteDebug

namespace Registry

variable {r : Registry} {t : Ptid}

/-- How often each slot was claimed. -/
def ledger (r : Registry) : List Nat × List (Nat × List Nat) :=
  (r.inferiors.generations, r.inferiors.toList.map fun p => (p.1, p.2.threads.generations))

/-- Whether a name was given. Of an inferior that is gone, all of its names count as given. -/
def Given (r : Registry) (t : Ptid) : Prop :=
  r.inferiors.Given t.pid ∧ ∀ inf, r.inferior? t.pid = some inf → inf.threads.Given t.tid

theorem given_iff :
    r.Given t ↔ SlotTable.GivenBy r.ledger.1 t.pid ∧
      ∀ generations, (t.pid, generations) ∈ r.ledger.2 → SlotTable.GivenBy generations t.tid := by
  refine and_congr_right fun _ => ?_
  constructor
  · intro h generations hmem
    obtain ⟨⟨pid, inf⟩, hinf, heq⟩ := List.mem_map.1 hmem
    simp only [Prod.mk.injEq] at heq
    obtain ⟨rfl, rfl⟩ := heq
    exact h inf (inferior?_eq_some_iff.2 hinf)
  · intro h inf hinf
    exact h _ (List.mem_map.2 ⟨(t.pid, inf), inferior?_eq_some_iff.1 hinf, rfl⟩)

theorem Given.of_ledger_eq {r' : Registry} (h : r.Given t) (heq : r'.ledger = r.ledger) : r'.Given t := by
  rw [given_iff, heq]
  exact given_iff.1 h

theorem Given.of_inferiors_eq {r' : Registry} (h : r.Given t) (heq : r'.inferiors = r.inferiors) : r'.Given t := by
  unfold Given inferior?
  rw [heq]
  exact h

/-- The name of a registered thread was given. -/
theorem given_of_mem (h : t ∈ r.threads) : r.Given t := by
  obtain ⟨thread, ht⟩ := mem_threads.1 h
  simp only [thread?, Option.bind_eq_some_iff] at ht
  obtain ⟨inf, hinf, hget⟩ := ht
  refine ⟨SlotTable.given_of_get? hinf, fun inf' hinf' => ?_⟩
  rw [hinf, Option.some.injEq] at hinf'
  rw [← hinf']
  exact SlotTable.given_of_get? hget

/-! ## What keeps the ledger -/

theorem ledger_modifyInferior {pid : Nat} {f : Inferior → Inferior}
    (h : ∀ inf, r.inferior? pid = some inf → (f inf).threads.generations = inf.threads.generations) :
    (r.modifyInferior pid f).ledger = r.ledger := by
  cases hinf : r.inferior? pid with
  | none => rw [modifyInferior, SlotTable.modify_of_get?_eq_none hinf]
  | some inf =>
    obtain ⟨p, q, before, after⟩ := SlotTable.toList_modify hinf f
    simp [ledger, modifyInferior, after, before, h inf hinf]

@[simp] theorem ledger_outline (r : Registry) : r.outline.ledger = r.ledger := by
  simp [ledger, outline, Inferior.outline, SlotTable.toList_mapLive]

end Registry

namespace Debuggee

variable {d : Debuggee}

/-- Only a registration changes the ledger of what stays registered. -/
theorem ledger_perform {op : Operation} (h : op.KeepsRoster) : (d.perform op).registry.ledger = d.registry.ledger := by
  by_cases hs : ∃ t, op = .select t
  · obtain ⟨t, rfl⟩ := hs
    rfl
  · rw [← Registry.ledger_outline, outline_perform h fun t heq => hs ⟨t, heq⟩, Registry.ledger_outline]

/-! ## What changes it -/

/-- What registering an inferior does to the inferiors. -/
theorem inferiors_addInferior (d : Debuggee) (native : UInt64) (space : Kernel.SpaceCap) :
    (d.addInferior native space).2.registry.inferiors = d.registry.inferiors ∨
      ∃ pid inf, d.registry.inferiors.insert? inf =
      some (pid, (d.addInferior native space).2.registry.inferiors) := by
  unfold addInferior
  split
  · exact .inl rfl
  · rename_i pid r hr
    unfold Registry.addInferior at hr
    split at hr
    · cases hr
    · split at hr
      · cases hr
      · rename_i pid' inferiors hins
        simp only [Except.ok.injEq, Prod.mk.injEq] at hr
        obtain ⟨rfl, rfl⟩ := hr
        exact .inr ⟨pid', _, hins⟩

/-- What registering a thread does to the inferiors, and the name it gives. -/
theorem inferiors_addThread (d : Debuggee) (pid : Nat) (native : UInt64) (cap : Kernel.ThreadCap) :
    ((d.addThread pid native cap).2.registry.inferiors = d.registry.inferiors ∧
        ∀ t, (d.addThread pid native cap).1 ≠ .ok t) ∨
      ∃ inf thread tid threads, d.registry.inferior? pid = some inf ∧
        inf.threads.insert? thread = some (tid, threads) ∧ (d.addThread pid native cap).1 = .ok ⟨pid, tid⟩ ∧
        (d.addThread pid native cap).2.registry.inferiors =
          d.registry.inferiors.modify pid fun inf => { inf with threads } := by
  unfold addThread
  split
  · exact .inl ⟨rfl, nofun⟩
  · rename_i inf hinf
    split
    · exact .inl ⟨rfl, nofun⟩
    · split
      · exact .inl ⟨rfl, nofun⟩
      · split
        · exact .inl ⟨rfl, nofun⟩
        · split
          · exact .inl ⟨rfl, nofun⟩
          · rename_i tid threads hins
            refine .inr ⟨inf, _, tid, threads, hinf, hins, rfl, ?_⟩
            dsimp only
            split <;> rfl

theorem given_addInferior {t : Ptid} (h : d.registry.Given t) (native : UInt64) (space : Kernel.SpaceCap) :
    (d.addInferior native space).2.registry.Given t := by
  obtain same | ⟨pid, inf, hins⟩ := inferiors_addInferior d native space
  · exact h.of_inferiors_eq same
  · refine ⟨h.1.insert? hins, fun inf' hinf' => h.2 inf' ?_⟩
    obtain ⟨-, -, p, q, before, after⟩ := SlotTable.toList_insert? hins
    have hmem := Registry.inferior?_eq_some_iff.1 hinf'
    rw [after] at hmem
    refine Registry.inferior?_eq_some_iff.2 ?_
    rw [before]
    rcases List.mem_append.1 hmem with hp | hrest
    · exact List.mem_append_left _ hp
    · rcases List.mem_cons.1 hrest with hnew | hq
      · -- the new inferior has another process id
        have hpid : t.pid = pid := congrArg Prod.fst hnew
        exact absurd (hpid ▸ h.1) (SlotTable.not_given_of_insert? hins)
      · exact List.mem_append_right _ hq

theorem given_addThread {t : Ptid} (h : d.registry.Given t) (pid : Nat) (native : UInt64) (cap : Kernel.ThreadCap) :
    (d.addThread pid native cap).2.registry.Given t := by
  obtain ⟨same, -⟩ | ⟨inf, thread, tid, threads, hinf, hins, -, after⟩ := inferiors_addThread d pid native cap
  · exact h.of_inferiors_eq same
  · refine Registry.Given.of_inferiors_eq (r := d.registry.modifyInferior pid fun inf => { inf with threads }) ?_ after
    refine ⟨h.1.of_generations_eq (SlotTable.generations_modify _ _ _), fun inf' hinf' => ?_⟩
    by_cases hpid : pid = t.pid
    · subst hpid
      rw [Registry.inferior?_modifyInferior, hinf, Option.map_some, Option.some.injEq] at hinf'
      rw [← hinf']
      exact (h.2 inf hinf).insert? hins
    · rw [Registry.inferior?_modifyInferior_of_ne hpid] at hinf'
      exact h.2 inf' hinf'

/-- A name that a registration gives was not given before. -/
theorem not_given_of_added {pid : Nat} {native : UInt64} {cap : Kernel.ThreadCap} {t : Ptid}
    (h : (d.addThread pid native cap).1 = .ok t) : ¬ d.registry.Given t := by
  intro given
  obtain ⟨-, refused⟩ | ⟨inf, thread, tid, threads, hinf, hins, added, -⟩ :=
    inferiors_addThread d pid native cap
  · exact refused t h
  · rw [added, Except.ok.injEq] at h
    obtain rfl := h
    exact SlotTable.not_given_of_insert? hins (given.2 inf hinf)

/-- Of an inferior that is let go, the counts of its threads are dropped and its own stays. -/
theorem given_disable {t : Ptid} (h : d.registry.Given t) (pid : Nat) : (d.disable pid).2.registry.Given t := by
  unfold disable
  split
  · exact h
  · rename_i r hr
    unfold Registry.disable at hr
    split at hr
    · cases hr
    · rename_i inf hinf
      have after : r.inferiors = d.registry.inferiors.retire pid := by
        simp only [Except.ok.injEq] at hr
        rw [← hr]
        split <;> rfl
      refine Registry.Given.of_inferiors_eq (r := { d.registry with inferiors := d.registry.inferiors.retire pid })
        ?_ after
      refine ⟨h.1.of_generations_eq (SlotTable.generations_retire _ _), fun inf' hinf' => h.2 inf' ?_⟩
      by_cases hpid : pid = t.pid
      · subst hpid
        exact absurd ((SlotTable.get?_retire _ _).symm.trans hinf') nofun
      · exact (SlotTable.get?_retire_of_ne hpid).symm.trans hinf'

theorem given_exit {t : Ptid} (h : d.registry.Given t) (u : Ptid) : (d.exit u).2.registry.Given t := by
  unfold exit
  split
  · exact h
  · rename_i r hr
    unfold Registry.exit at hr
    split at hr
    · cases hr
    · split at hr
      · cases hr
      · simp only [Except.ok.injEq] at hr
        have after : r.ledger = d.registry.ledger := by
          rw [← hr]
          split
          all_goals exact Registry.ledger_modifyInferior fun _ _ => SlotTable.generations_retire _ _
        exact h.of_ledger_eq after

/-- A name stays given. -/
theorem given_perform {t : Ptid} (op : Operation) (h : d.registry.Given t) : (d.perform op).registry.Given t := by
  by_cases hkeeps : op.KeepsRoster
  · exact h.of_ledger_eq (ledger_perform hkeeps)
  · cases op with
    | addInferior native space => exact given_addInferior (d := (d.makeSpace space).2) h native _
    | addThread pid native tcb => exact given_addThread (d := (d.makeThread tcb).2) h pid native _
    | disable pid => exact given_disable h pid
    | exit u => exact given_exit h u
    | _ => exact absurd trivial hkeeps

end Debuggee
end RemoteDebug
