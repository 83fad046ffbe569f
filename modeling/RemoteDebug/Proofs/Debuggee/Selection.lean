import RemoteDebug.Proofs.Debuggee.Lifetime

/-!
# The selected thread

As long as a thread is registered, one is selected (`Registry.Selects`): no operation breaks that (`selects_perform`).
The selected thread is registered (`Registry.Live`) for as long as only registered threads are selected: whatever else
is done, a selected thread that is let go is replaced by one that is left (`steady_perform`).
-/

namespace RemoteDebug

namespace Registry

variable {r r' : Registry}

/-- If no thread is selected, there is none. -/
def Selects (r : Registry) : Prop := r.current = none → r.threads = []

/-- A selected thread is registered. -/
def Live (r : Registry) : Prop := ∀ t, r.current = some t → t ∈ r.threads

theorem current_eq_none_iff (hs : r.Selects) (hl : r.Live) : r.current = none ↔ r.threads = [] := by
  refine ⟨hs, fun h => Option.eq_none_iff_forall_ne_some.2 fun t ht => ?_⟩
  have there := hl t ht
  rw [h] at there
  cases there

theorem selects_empty (maxInferiors maxThreads maxPatches : Nat) :
    (empty maxInferiors maxThreads maxPatches).Selects := by
  intro _
  simp [threads, empty]

theorem live_empty (maxInferiors maxThreads maxPatches : Nat) : (empty maxInferiors maxThreads maxPatches).Live := nofun

theorem live_select {t : Ptid} : (r.select t).Live ↔ t ∈ r.threads :=
  ⟨fun h => h t rfl, fun h _ heq => Option.some.inj heq ▸ h⟩

/-! ## Selecting the first thread -/

theorem selects_of_head? (h : r.current = r.threads.head?) : r.Selects := fun hc => List.head?_eq_none_iff.1 (h ▸ hc)

theorem live_of_head? (h : r.current = r.threads.head?) : r.Live := fun _ ht => List.mem_of_head? (h ▸ ht)

theorem current_of_disable {pid : Nat} (h : r.disable pid = .ok r') :
    r'.current = r'.threads.head? ∨ r'.current = r.current ∧ ∀ t, r.current = some t → pid ≠ t.pid := by
  unfold disable at h
  split at h
  · cases h
  · simp only [Except.ok.injEq] at h
    split at h
    · left
      rw [← h]
      rfl
    · rename_i other
      right
      rw [← h]
      refine ⟨rfl, fun t ht => ?_⟩
      simpa [ht, eq_comm] using other

theorem current_of_exit {u : Ptid} (h : r.exit u = .ok r') :
    r'.current = r'.threads.head? ∨ r'.current = r.current ∧ ∀ t, r.current = some t → u ≠ t := by
  unfold exit at h
  split at h
  · cases h
  · split at h
    · cases h
    · simp only [Except.ok.injEq] at h
      split at h
      · left
        rw [← h]
        rfl
      · rename_i other
        right
        rw [← h]
        refine ⟨rfl, fun t ht hu => other ?_⟩
        rw [hu]
        exact ht

end Registry

namespace Debuggee

variable {d : Debuggee}

theorem current_addInferior (d : Debuggee) (native : UInt64) (space : Kernel.SpaceCap) :
    (d.addInferior native space).2.registry.current = d.registry.current := by
  have outcome := addedInferior_addInferior d native space
  generalize (d.addInferior native space).2 = d' at outcome
  cases outcome <;> rfl

/-- The first thread of all is selected. -/
theorem current_addThread (d : Debuggee) (pid : Nat) (native : UInt64) (cap : Kernel.ThreadCap) :
    (d.addThread pid native cap).2.registry.current =
      d.registry.current.or (d.addThread pid native cap).1.toOption := by
  unfold addThread
  split
  · simp [Except.toOption]
  · split
    · simp [Except.toOption]
    · split
      · simp [Except.toOption]
      · split
        · simp [Except.toOption]
        · split
          · simp [Except.toOption]
          · dsimp only
            split
            · rename_i none
              simp_all [Registry.select, Registry.modifyInferior, Except.toOption]
            · rename_i some
              cases hc : d.registry.current <;> simp_all [Registry.modifyInferior]

/-- An operation that selects no thread by name selects the first one left, unless the selection stays; if there was
none, the thread that is registered is selected. -/
theorem current_perform {op : Operation} (hs : ∀ t, op ≠ .select t) :
    (d.perform op).registry.current = (d.perform op).registry.threads.head? ∨
      (d.perform op).registry.current = d.registry.current.or (d.registered? op) ∧
        ∀ t, d.registry.current = some t → t ∈ d.registry.threads → ¬ op.LetsGo t := by
  by_cases hkeeps : op.KeepsRoster
  · have same := Registry.current_eq_of_outline_eq (outline_perform (d := d) hkeeps hs)
    refine .inr ⟨?_, fun t _ _ letsGo => ?_⟩
    · rw [same]
      cases op <;> first | exact hkeeps.elim | simp [registered?]
    · cases op <;> first | exact hkeeps.elim | exact letsGo.elim
  · cases op with
    | addInferior native space =>
      refine .inr ⟨?_, fun _ _ _ => id⟩
      simp only [registered?, Option.or_none]
      exact current_addInferior (d.makeSpace space).2 native _
    | addThread pid native tcb =>
      exact .inr ⟨current_addThread (d.makeThread tcb).2 pid native _, fun _ _ _ => id⟩
    | disable pid =>
      simp only [perform, disable, registered?, Option.or_none]
      split
      · rename_i e h
        -- the inferior is unknown, so it is not that of a thread
        refine .inr ⟨rfl, fun t _ ht hpid => ?_⟩
        obtain ⟨thread, ht⟩ := Registry.mem_threads.1 ht
        have unknown := Registry.inferior?_of_disable_error h
        rw [show pid = t.pid from hpid] at unknown
        simp [Registry.thread?, unknown] at ht
      · rename_i r h
        exact (Registry.current_of_disable h).imp_right fun same => ⟨same.1, fun t ht _ => same.2 t ht⟩
    | exit u =>
      simp only [perform, exit, registered?, Option.or_none]
      split
      · rename_i e h
        refine .inr ⟨rfl, fun t _ ht hu => ?_⟩
        obtain ⟨thread, ht⟩ := Registry.mem_threads.1 ht
        rw [← show u = t from hu, Registry.thread?_of_exit_error h] at ht
        cases ht
      · rename_i r h
        exact (Registry.current_of_exit h).imp_right fun same => ⟨same.1, fun t ht _ => same.2 t ht⟩
    | _ => exact absurd trivial hkeeps

/-! ## One operation -/

/-- No operation leaves threads with none of them selected. -/
theorem selects_perform (op : Operation) (h : d.registry.Selects) : (d.perform op).registry.Selects := by
  by_cases hs : ∃ t, op = .select t
  · obtain ⟨t, rfl⟩ := hs
    exact nofun
  · rcases current_perform (d := d) (fun t heq => hs ⟨t, heq⟩) with first | ⟨same, -⟩
    · exact Registry.selects_of_head? first
    · intro hc
      rw [same, Option.or_eq_none_iff] at hc
      refine List.eq_nil_iff_forall_not_mem.2 fun t ht => ?_
      rcases of_mem_threads_perform ht with old | new
      · rw [h hc.1] at old
        cases old
      · rw [hc.2] at new
        cases new

/-- Whatever is selected in the end is registered, or was selected at first and is registered if it was then. -/
def Steady (d d' : Debuggee) : Prop :=
  ∀ t, d'.registry.current = some t → t ∈ d'.registry.threads ∨
    d.registry.current = some t ∧ (t ∈ d.registry.threads → t ∈ d'.registry.threads)

namespace Steady

variable {d' d'' : Debuggee}

theorem refl (d : Debuggee) : d.Steady d := fun _ ht => .inr ⟨ht, id⟩

theorem trans (h : d.Steady d') (h' : d'.Steady d'') : d.Steady d'' := by
  intro t ht
  rcases h' t ht with now | ⟨ht', kept'⟩
  · exact .inl now
  · exact (h t ht').imp kept' fun before => ⟨before.1, kept' ∘ before.2⟩

theorem live (h : d.Steady d') (hl : d.registry.Live) : d'.registry.Live := by
  intro t ht
  exact (h t ht).elim id fun before => before.2 (hl t before.1)

end Steady

theorem steady_select {t : Ptid} (h : t ∈ d.registry.threads) : d.Steady (d.select t) :=
  fun _ heq => .inl (Registry.live_select.2 h _ heq)

theorem steady_perform (op : Operation) (hs : ∀ t, op ≠ .select t) : d.Steady (d.perform op) := by
  intro t ht
  rcases current_perform (d := d) hs with first | ⟨same, kept⟩
  · exact .inl (Registry.live_of_head? first t ht)
  · rw [same, Option.or_eq_some_iff] at ht
    rcases ht with old | ⟨-, new⟩
    · exact .inr ⟨old, fun there => mem_threads_perform there (kept t old there)⟩
    · exact .inl (mem_threads_of_registered new)

theorem steady_performAll (ops : List Operation) (hs : ∀ t, .select t ∉ ops) : d.Steady (d.performAll ops) := by
  induction ops generalizing d with
  | nil => exact .refl d
  | cons op ops ih =>
    have first : d.Steady (d.perform op) := steady_perform op fun t heq => hs t (heq ▸ List.mem_cons_self)
    exact first.trans (ih fun t ht => hs t (List.mem_cons_of_mem _ ht))

theorem steady_quiet {ops : List Operation} (quiet : ∀ op ∈ ops, op.Quiet)
    (selects : ∀ t, .select t ∈ ops → t ∈ d.registry.threads) : d.Steady (d.performAll ops) := by
  induction ops generalizing d with
  | nil => exact .refl d
  | cons op ops ih =>
    have same : (d.perform op).registry.threads = d.registry.threads :=
      threads_perform (quiet op List.mem_cons_self).keepsRoster
    have first : d.Steady (d.perform op) := by
      by_cases hs : ∃ t, op = .select t
      · obtain ⟨t, rfl⟩ := hs
        exact steady_select (selects t List.mem_cons_self)
      · exact steady_perform op fun t heq => hs ⟨t, heq⟩
    refine first.trans (ih (fun op' h => quiet op' (List.mem_cons_of_mem _ h)) fun t ht => ?_)
    rw [same]
    exact selects t (List.mem_cons_of_mem _ ht)

end Debuggee
end RemoteDebug
