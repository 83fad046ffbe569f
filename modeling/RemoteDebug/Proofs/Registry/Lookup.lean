import RemoteDebug.Proofs.Registry.Roster

/-!
# Lookups after changes

A change under one id shows under that id alone: what a slot table, and with it the registry, says about every other id
stays as it was.
-/

namespace RemoteDebug

namespace SlotTable

variable {α : Type} {t u : SlotTable α} {id : Nat}

/-- Tables whose lists differ under other ids say the same about an id. -/
theorem get?_eq_of_toList {p q a b : List (Nat × α)} (ht : t.toList = p ++ (a ++ q)) (hu : u.toList = p ++ (b ++ q))
    (ha : ∀ e ∈ a, e.1 ≠ id) (hb : ∀ e ∈ b, e.1 ≠ id) : u.get? id = t.get? id := by
  apply Option.ext
  intro v
  have left : (id, v) ∉ a := fun h => ha _ h rfl
  have right : (id, v) ∉ b := fun h => hb _ h rfl
  rw [← mem_toList, ← mem_toList, ht, hu]
  simp [left, right]

theorem get?_modify (t : SlotTable α) (id : Nat) (f : α → α) : (t.modify id f).get? id = (t.get? id).map f := by
  cases h : t.get? id with
  | none => rw [modify_of_get?_eq_none h, h, Option.map_none]
  | some v =>
    obtain ⟨p, q, -, after⟩ := toList_modify h f
    rw [Option.map_some, ← mem_toList, after]
    exact List.mem_append_right _ List.mem_cons_self

theorem get?_modify_of_ne {id' : Nat} (h : id' ≠ id) (f : α → α) : (t.modify id' f).get? id = t.get? id := by
  cases hv : t.get? id' with
  | none => rw [modify_of_get?_eq_none hv]
  | some v =>
    obtain ⟨p, q, before, after⟩ := toList_modify hv f
    exact get?_eq_of_toList (a := [(id', v)]) (b := [(id', f v)]) before after (by simpa using h) (by simpa using h)

theorem get?_retire (t : SlotTable α) (id : Nat) : (t.retire id).get? id = none := by
  cases h : t.get? id with
  | none => simp [retire, h]
  | some v =>
    apply Option.eq_none_iff_forall_ne_some.2
    intro w hw
    -- the id stood in the list once, and that entry is gone
    obtain ⟨p, q, before, after⟩ := toList_retire h
    have left := mem_toList.2 hw
    rw [after] at left
    exact ne_of_around before left rfl

theorem get?_retire_of_ne {id' : Nat} (h : id' ≠ id) : (t.retire id').get? id = t.get? id := by
  cases hv : t.get? id' with
  | none => simp [retire, hv]
  | some v =>
    obtain ⟨p, q, before, after⟩ := toList_retire hv
    exact get?_eq_of_toList (a := [(id', v)]) (b := []) before after (by simpa using h) (by simp)

end SlotTable

namespace Registry

variable {r : Registry} {t u : Ptid}

/-- The selected inferior is that of the selected name. -/
theorem currentInferior?_eq_some_iff {pid : Nat} {inf : Inferior} :
    r.currentInferior? = some (pid, inf) ↔ ∃ t, r.current = some t ∧ t.pid = pid ∧
      r.inferior? pid = some inf := by
  simp only [currentInferior?, Option.bind_eq_some_iff, Option.map_eq_some_iff, Prod.mk.injEq]
  constructor
  · rintro ⟨t, selected, _, hinf, rfl, rfl⟩
    exact ⟨t, selected, rfl, hinf⟩
  · rintro ⟨t, selected, rfl, hinf⟩
    exact ⟨t, selected, inf, hinf, rfl, rfl⟩

theorem currentThread?_eq_none (h : r.currentInferior? = none) : r.currentThread? = none := by
  unfold currentThread?
  cases selected : r.current with
  | none => rfl
  | some t =>
    simp only [currentInferior?, selected, Option.bind_some, Option.map_eq_none_iff] at h
    simp only [Option.bind_some, thread?, h, Option.bind_none]

theorem inferior?_modifyInferior (r : Registry) (pid : Nat) (f : Inferior → Inferior) :
    (r.modifyInferior pid f).inferior? pid = (r.inferior? pid).map f := SlotTable.get?_modify _ _ _

theorem inferior?_modifyInferior_of_ne {pid pid' : Nat} (h : pid' ≠ pid) (f : Inferior → Inferior) :
    (r.modifyInferior pid' f).inferior? pid = r.inferior? pid := SlotTable.get?_modify_of_ne h f

/-- A change to the threads of an inferior, seen from one of them. -/
theorem thread?_modifyInferior (r : Registry) (t : Ptid) (f : Inferior → Inferior) :
    (r.modifyInferior t.pid f).thread? t = (r.inferior? t.pid).bind fun inf => (f inf).threads.get? t.tid := by
  rw [thread?, inferior?_modifyInferior]
  cases r.inferior? t.pid <;> rfl

theorem thread?_modifyInferior_of_ne {pid : Nat} (h : pid ≠ t.pid) (f : Inferior → Inferior) :
    (r.modifyInferior pid f).thread? t = r.thread? t := by
  rw [thread?, inferior?_modifyInferior_of_ne h, thread?]

theorem thread?_modifyThread (r : Registry) (t : Ptid) (f : Thread → Thread) :
    (r.modifyThread t f).thread? t = (r.thread? t).map f := by
  rw [modifyThread, thread?_modifyInferior, thread?]
  cases r.inferior? t.pid with
  | none => rfl
  | some inf => exact SlotTable.get?_modify _ _ _

/-- A change to the thread of one name, seen from another name. -/
theorem thread?_modifyInferior_of_other {f : Inferior → Inferior} (h : u ≠ t)
    (hf : ∀ inf tid, u.tid ≠ tid → (f inf).threads.get? tid = inf.threads.get? tid) :
    (r.modifyInferior u.pid f).thread? t = r.thread? t := by
  by_cases hpid : u.pid = t.pid
  · have htid : u.tid ≠ t.tid := by
      intro htid
      exact h (by cases u; cases t; simp_all)
    rw [hpid, thread?_modifyInferior, thread?]
    cases r.inferior? t.pid with
    | none => rfl
    | some inf => exact hf inf t.tid htid
  · exact thread?_modifyInferior_of_ne hpid _

theorem thread?_modifyThread_of_ne (h : u ≠ t) (f : Thread → Thread) :
    (r.modifyThread u f).thread? t = r.thread? t :=
  thread?_modifyInferior_of_other h fun _ _ htid => SlotTable.get?_modify_of_ne htid f

theorem inferior?_mapThreads (r : Registry) (f : Ptid → Thread → Thread) (pid : Nat) :
    (r.mapThreads f).inferior? pid =
      (r.inferior? pid).map fun inf => { inf with threads := inf.threads.mapLive fun tid => f ⟨pid, tid⟩ } :=
  SlotTable.get?_mapLive _ _ _

theorem thread?_mapThreads (r : Registry) (f : Ptid → Thread → Thread) (t : Ptid) :
    (r.mapThreads f).thread? t = (r.thread? t).map (f t) := by
  rw [thread?, inferior?_mapThreads, thread?]
  cases r.inferior? t.pid with
  | none => rfl
  | some inf => exact SlotTable.get?_mapLive _ _ _

theorem mapThreads_mapThreads (r : Registry) (f g : Ptid → Thread → Thread) :
    (r.mapThreads g).mapThreads f = r.mapThreads fun t thread => f t (g t thread) := by
  simp only [mapThreads, SlotTable.mapLive_mapLive]

/-! ## Letting go -/

theorem thread?_of_disable {pid : Nat} {r' : Registry} (h : r.disable pid = .ok r') (t : Ptid) :
    r'.thread? t = if pid = t.pid then none else r.thread? t := by
  unfold disable at h
  split at h
  · cases h
  · have inferiors : r'.inferiors = r.inferiors.retire pid := by
      simp only [Except.ok.injEq] at h
      rw [← h]
      split <;> rfl
    rw [thread?, inferior?, inferiors]
    split
    · rename_i hpid
      rw [hpid, SlotTable.get?_retire]
      rfl
    · rename_i hpid
      rw [SlotTable.get?_retire_of_ne hpid]
      rfl

theorem inferior?_of_disable_error {pid : Nat} {e : RegistryError} (h : r.disable pid = .error e) :
    r.inferior? pid = none := by
  unfold disable at h
  split at h
  · assumption
  · cases h

theorem thread?_of_exit {r' : Registry} (h : r.exit u = .ok r') (t : Ptid) :
    r'.thread? t = if u = t then none else r.thread? t := by
  unfold exit at h
  split at h
  · cases h
  · rename_i inf hinf
    split at h
    · cases h
    · have inferiors : r'.thread? t =
          (r.modifyInferior u.pid fun inf => { inf with threads := inf.threads.retire u.tid }).thread? t := by
        simp only [Except.ok.injEq] at h
        rw [← h]
        split <;> rfl
      rw [inferiors]
      split
      · rename_i hut
        subst hut
        rw [thread?_modifyInferior, hinf]
        exact SlotTable.get?_retire _ _
      · rename_i hut
        exact thread?_modifyInferior_of_other hut fun _ _ htid => SlotTable.get?_retire_of_ne htid

theorem thread?_of_exit_error {e : RegistryError} (h : r.exit u = .error e) : r.thread? u = none := by
  unfold exit at h
  split at h
  · rename_i hinf
    simp [thread?, hinf]
  · rename_i inf hinf
    split at h
    · rename_i hthread
      simp [thread?, hinf, hthread]
    · cases h

end Registry

namespace Debuggee

/-- Who is registered after an inferior is let go. -/
theorem thread?_disable (d : Debuggee) (pid : Nat) (t : Ptid) :
    (d.disable pid).2.registry.thread? t = if pid = t.pid then none else d.registry.thread? t := by
  cases h : d.registry.disable pid with
  | ok r => simpa only [disable, h] using Registry.thread?_of_disable h t
  | error e =>
    simp only [disable, h]
    split
    · rename_i hpid
      have unknown := Registry.inferior?_of_disable_error h
      rw [Registry.thread?, ← hpid, unknown]
      rfl
    · rfl

/-- Who is registered after a thread is let go. -/
theorem thread?_exit (d : Debuggee) (u t : Ptid) :
    (d.exit u).2.registry.thread? t = if u = t then none else d.registry.thread? t := by
  cases h : d.registry.exit u with
  | ok r => simpa only [exit, h] using Registry.thread?_of_exit h t
  | error e =>
    simp only [exit, h]
    split
    · rename_i hut
      rw [← hut]
      exact Registry.thread?_of_exit_error h
    · rfl

end Debuggee
end RemoteDebug
