import RemoteDebug.Proofs.Registry.Roster

/-!
# Registering and letting go

What the four operations that change who is registered come to. A thread is registered only once all triggers of its
inferior are set on it (`Added`). Letting go of a thread or of an inferior leaves a registry within the one before
(`Registry.Within`): what is left is left as it was.
-/

namespace RemoteDebug

/-! ## Letting go -/

/-- A registry in which nothing is new: its inferiors have fewer threads at most. -/
structure Registry.Within (r' r : Registry) : Prop where
  inferiors : ∀ pid inf, (pid, inf) ∈ r'.inferiors.toList → ∃ before, (pid, before) ∈ r.inferiors.toList ∧
    inf.breakpoints = before.breakpoints ∧ inf.threads.toList.Sublist before.threads.toList
  caps : r'.caps.Sublist r.caps
  natives : (r'.inferiors.toList.map (·.2.native)).Sublist (r.inferiors.toList.map (·.2.native))

namespace Registry.Within

variable {r r' r'' : Registry}

theorem refl (r : Registry) : r.Within r :=
  ⟨fun _ inf h => ⟨inf, h, rfl, List.Sublist.refl _⟩, List.Sublist.refl _, List.Sublist.refl _⟩

theorem trans (h : r''.Within r') (h' : r'.Within r) : r''.Within r := by
  refine ⟨fun pid inf hinf => ?_, h.caps.trans h'.caps, h.natives.trans h'.natives⟩
  obtain ⟨mid, hmid, htable, hsub⟩ := h.inferiors _ _ hinf
  obtain ⟨before, hbefore, htable', hsub'⟩ := h'.inferiors _ _ hmid
  exact ⟨before, hbefore, htable.trans htable', hsub.trans hsub'⟩

/-- A thread that is left was there before. -/
theorem thread? (h : r'.Within r) {t : Ptid} {thread : Thread} (ht : r'.thread? t = some thread) :
    r.thread? t = some thread := by
  obtain ⟨inf, hinf, hmem⟩ := thread?_eq_some_iff.1 ht
  obtain ⟨before, hbefore, -, hsub⟩ := h.inferiors _ _ hinf
  exact thread?_eq_some_iff.2 ⟨before, hbefore, hsub.subset hmem⟩

end Registry.Within

namespace Debuggee

variable {d : Debuggee}

@[simp] theorem kernel_disable (d : Debuggee) (pid : Nat) : (d.disable pid).2.kernel = d.kernel := by
  unfold disable
  split <;> rfl

@[simp] theorem kernel_exit (d : Debuggee) (t : Ptid) : (d.exit t).2.kernel = d.kernel := by
  unfold exit
  split <;> rfl

theorem within_disable (d : Debuggee) (pid : Nat) : (d.disable pid).2.registry.Within d.registry := by
  unfold disable
  split
  · exact .refl _
  · rename_i r hr
    unfold Registry.disable at hr
    split at hr
    · cases hr
    · rename_i inf hinf
      obtain ⟨p, q, before, after⟩ :=
        SlotTable.toList_retire (show d.registry.inferiors.get? pid = some inf from hinf)
      have list : r.inferiors.toList = p ++ q := by
        simp only [Except.ok.injEq] at hr
        rw [← hr, ← after]
        split <;> rfl
      refine ⟨fun pid' inf' h => ⟨inf', ?_, rfl, List.Sublist.refl _⟩, ?_, ?_⟩
      · rw [list] at h
        rw [before]
        exact List.mem_append.2 ((List.mem_append.1 h).imp_right (List.mem_cons_of_mem _))
      · simp only [Registry.caps, list, before, List.flatMap_append, List.flatMap_cons]
        exact (List.Sublist.refl _).append (List.sublist_append_right _ _)
      · rw [list, before]
        exact ((List.Sublist.refl p).append (List.sublist_cons_self _ q)).map _

theorem within_exit (d : Debuggee) (t : Ptid) : (d.exit t).2.registry.Within d.registry := by
  unfold exit
  split
  · exact .refl _
  · rename_i r hr
    unfold Registry.exit at hr
    split at hr
    · cases hr
    · rename_i inf hinf
      split at hr
      · cases hr
      · rename_i thread hthread
        obtain ⟨p, q, before, after⟩ := SlotTable.toList_modify
          (show d.registry.inferiors.get? t.pid = some inf from hinf)
          fun inf => { inf with threads := inf.threads.retire t.tid }
        obtain ⟨p', q', before', after'⟩ := SlotTable.toList_retire hthread
        have list : r.inferiors.toList = p ++ (t.pid, { inf with threads := inf.threads.retire t.tid }) :: q := by
          simp only [Except.ok.injEq] at hr
          rw [← hr, ← after]
          split <;> rfl
        have fewer : (inf.threads.retire t.tid).toList.Sublist inf.threads.toList := by
          rw [before', after']
          exact (List.Sublist.refl _).append (List.sublist_cons_self _ _)
        refine ⟨fun pid' inf' h => ?_, ?_, ?_⟩
        · rw [list] at h
          rcases List.mem_append.1 h with h | h
          · exact ⟨inf', by rw [before]; exact List.mem_append_left _ h, rfl, List.Sublist.refl _⟩
          · rcases List.mem_cons.1 h with h | h
            · simp only [Prod.mk.injEq] at h
              obtain ⟨rfl, rfl⟩ := h
              exact ⟨inf, by rw [before]; simp, rfl, fewer⟩
            · exact ⟨inf', by rw [before]; simp [h], rfl, List.Sublist.refl _⟩
        · simp only [Registry.caps, list, before, List.flatMap_append, List.flatMap_cons, Inferior.caps]
          exact (List.Sublist.refl _).append ((fewer.map _).append (List.Sublist.refl _))
        · simp [list, before]

/-! ## Registering -/

/-- What registering an inferior can come to. -/
inductive AddedInferior (d : Debuggee) (native : UInt64) (space : Kernel.SpaceCap) : Debuggee → Prop
  | refused : AddedInferior d native space d
  | done {pid : Nat} {inferiors : SlotTable Inferior} {p q : List (Nat × Inferior)} (id : 0 < pid ∧ pid < 2 ^ 64)
      (before : d.registry.inferiors.toList = p ++ q)
      (after : inferiors.toList = p ++ (pid, ⟨native, space, SlotTable.empty d.registry.maxThreads,
        BreakpointTable.empty d.registry.maxPatches⟩) :: q)
      (fresh : ∀ pid inf, (pid, inf) ∈ d.registry.inferiors.toList → inf.native ≠ native) :
      AddedInferior d native space { d with registry := { d.registry with inferiors } }

theorem addedInferior_addInferior (d : Debuggee) (native : UInt64) (space : Kernel.SpaceCap) :
    AddedInferior d native space (d.addInferior native space).2 := by
  unfold addInferior
  split
  · exact .refused
  · rename_i pid r hr
    unfold Registry.addInferior at hr
    split at hr
    · cases hr
    · rename_i unknown
      split at hr
      · cases hr
      · rename_i pid' inferiors hins
        simp only [Except.ok.injEq, Prod.mk.injEq] at hr
        obtain ⟨rfl, rfl⟩ := hr
        obtain ⟨h0, h64, p, q, before, after⟩ := SlotTable.toList_insert? hins
        refine .done ⟨h0, h64⟩ before after fun pid inf hinf heq => unknown ?_
        simp only [Registry.findInferior?, Option.isSome_map, List.find?_isSome, Prod.exists, decide_eq_true_eq]
        exact ⟨pid, inf, hinf, heq⟩

/-- No thread comes with an inferior. -/
theorem AddedInferior.thread? {d' : Debuggee} {native : UInt64} {space : Kernel.SpaceCap}
    (h : AddedInferior d native space d') {t : Ptid} {thread : Thread} (ht : d'.registry.thread? t = some thread) :
    d.registry.thread? t = some thread := by
  cases h with
  | refused => exact ht
  | done _ before after =>
    obtain ⟨inf, hinf, hmem⟩ := Registry.thread?_eq_some_iff.1 ht
    refine Registry.thread?_eq_some_iff.2 ⟨inf, ?_, hmem⟩
    simp only [after, List.mem_append, List.mem_cons, Prod.mk.injEq] at hinf
    rcases hinf with hp | ⟨-, rfl⟩ | hq
    · simp [before, hp]
    · simp at hmem
    · simp [before, hq]

/-- The threads that were registered before still are. -/
theorem AddedInferior.mem_threads {d' : Debuggee} {native : UInt64} {space : Kernel.SpaceCap}
    (h : AddedInferior d native space d') {t : Ptid} (ht : t ∈ d.registry.threads) : t ∈ d'.registry.threads := by
  cases h with
  | refused => exact ht
  | done _ before after =>
    obtain ⟨thread, ht⟩ := Registry.mem_threads.1 ht
    obtain ⟨inf, hinf, hmem⟩ := Registry.thread?_eq_some_iff.1 ht
    refine Registry.mem_threads.2 ⟨thread, Registry.thread?_eq_some_iff.2 ⟨inf, ?_, hmem⟩⟩
    rw [before] at hinf
    simp only [after]
    exact List.mem_append.2 ((List.mem_append.1 hinf).imp_right (List.mem_cons_of_mem _))

/-- What registering a thread can come to. Even if it is refused, the thread may have been programmed. -/
inductive Added (d : Debuggee) (pid : Nat) (native : UInt64) (cap : Kernel.ThreadCap) :
    Except RegistryError Ptid → Debuggee → Prop
  | refused {e : RegistryError} {kernel : Kernel} (tried : kernel = d.kernel ∨ ∃ inf, (pid, inf) ∈
      d.registry.inferiors.toList ∧ kernel = (inf.breakpoints.programThread cap d.kernel).2) :
      Added d pid native cap (.error e) { d with kernel }
  | done {inf : Inferior} {tid : Nat} {threads : SlotTable Thread} {kernel : Kernel} {inferiors : SlotTable Inferior}
      {current : Option Ptid} {p q : List (Nat × Inferior)} {p' q' : List (Nat × Thread)}
      (programmed : inf.breakpoints.programThread cap d.kernel = (true, kernel)) (id : 0 < tid ∧ tid < 2 ^ 64)
      (before : d.registry.inferiors.toList = p ++ (pid, inf) :: q)
      (after : inferiors.toList = p ++ (pid, { inf with threads }) :: q)
      (threads_before : inf.threads.toList = p' ++ q')
      (threads_after : threads.toList = p' ++ (tid, ⟨native, cap, false, false⟩) :: q')
      (fresh : ∀ tid thread, (tid, thread) ∈ inf.threads.toList → thread.native ≠ native) :
      Added d pid native cap (.ok ⟨pid, tid⟩) { registry := { d.registry with inferiors, current }, kernel }

theorem added_addThread (d : Debuggee) (pid : Nat) (native : UInt64) (cap : Kernel.ThreadCap) :
    Added d pid native cap (d.addThread pid native cap).1 (d.addThread pid native cap).2 := by
  unfold addThread
  split
  · exact .refused (.inl rfl)
  · rename_i inf hinf
    have hmem := Registry.inferior?_eq_some_iff.1 hinf
    split
    · exact .refused (.inl rfl)
    · rename_i unknown
      have fresh (tid : Nat) (thread : Thread) (ht : (tid, thread) ∈ inf.threads.toList) :
          thread.native ≠ native := by
        intro heq
        exact unknown (List.any_eq_true.2 ⟨(tid, thread), ht, by simp [heq]⟩)
      split
      · exact .refused (.inl rfl)
      · split
        · rename_i kernel hprog
          exact .refused (.inr ⟨inf, hmem, by rw [hprog]⟩)
        · rename_i kernel hprog
          split
          · exact .refused (.inr ⟨inf, hmem, by rw [hprog]⟩)
          · rename_i tid threads hins
            obtain ⟨h0, h64, p', q', before', after'⟩ := SlotTable.toList_insert? hins
            obtain ⟨p, q, before, after⟩ := SlotTable.toList_modify
              (show d.registry.inferiors.get? pid = some inf from hinf) fun inf => { inf with threads }
            dsimp only
            split
            · exact .done hprog ⟨h0, h64⟩ before after before' after' fresh
            · exact .done hprog ⟨h0, h64⟩ before after before' after' fresh

namespace Added

variable {d d' : Debuggee} {pid : Nat} {native : UInt64} {cap : Kernel.ThreadCap} {t : Ptid}

/-- A thread is the new one or was there before. -/
theorem thread? {r : Except RegistryError Ptid} (h : Added d pid native cap r d') {thread : Thread}
    (ht : d'.registry.thread? t = some thread) :
    d.registry.thread? t = some thread ∨ r = .ok t ∧ thread = ⟨native, cap, false, false⟩ := by
  cases h with
  | refused _ => exact .inl ht
  | @done inf tid threads kernel inferiors current p q p' q' _ _ before after before' after' =>
    obtain ⟨inf', hinf, hmem⟩ := Registry.thread?_eq_some_iff.1 ht
    simp only [after, List.mem_append, List.mem_cons, Prod.mk.injEq] at hinf
    rcases hinf with hp | ⟨hpid, rfl⟩ | hq
    · exact .inl (Registry.thread?_eq_some_iff.2 ⟨inf', by simp [before, hp], hmem⟩)
    · have found : (t.pid, inf) ∈ d.registry.inferiors.toList := by simp [before, hpid]
      simp only [after', List.mem_append, List.mem_cons, Prod.mk.injEq] at hmem
      rcases hmem with hp | ⟨htid, rfl⟩ | hq
      · exact .inl (Registry.thread?_eq_some_iff.2 ⟨inf, found, by simp [before', hp]⟩)
      · exact .inr ⟨by rw [← hpid, ← htid], rfl⟩
      · exact .inl (Registry.thread?_eq_some_iff.2 ⟨inf, found, by simp [before', hq]⟩)
    · exact .inl (Registry.thread?_eq_some_iff.2 ⟨inf', by simp [before, hq], hmem⟩)

/-- The threads that were registered before still are. -/
theorem mem_threads {r : Except RegistryError Ptid} (h : Added d pid native cap r d') (ht : t ∈ d.registry.threads) :
    t ∈ d'.registry.threads := by
  cases h with
  | refused _ => exact ht
  | @done inf tid threads kernel inferiors current p q p' q' _ _ before after before' after' =>
    obtain ⟨thread, ht⟩ := Registry.mem_threads.1 ht
    obtain ⟨inf', hinf, hmem⟩ := Registry.thread?_eq_some_iff.1 ht
    refine Registry.mem_threads.2 ⟨thread, Registry.thread?_eq_some_iff.2 ?_⟩
    simp only [before, List.mem_append, List.mem_cons, Prod.mk.injEq] at hinf
    simp only [after]
    rcases hinf with hp | ⟨hpid, rfl⟩ | hq
    · exact ⟨inf', by simp [hp], hmem⟩
    · refine ⟨{ inf' with threads }, by simp [hpid], ?_⟩
      simp only [before', List.mem_append] at hmem
      simp only [after', List.mem_append, List.mem_cons]
      exact hmem.imp_right .inr
    · exact ⟨inf', by simp [hq], hmem⟩

/-- A thread that comes in is registered under the name it is given. -/
theorem name_mem (h : Added d pid native cap (.ok t) d') : t ∈ d'.registry.threads := by
  cases h with
  | @done inf tid threads kernel inferiors current p q p' q' _ _ before after before' after' =>
    refine Registry.mem_threads.2 ⟨⟨native, cap, false, false⟩, Registry.thread?_eq_some_iff.2 ?_⟩
    exact ⟨{ inf with threads }, by simp [after], by simp [after']⟩

end Added

end Debuggee
end RemoteDebug
