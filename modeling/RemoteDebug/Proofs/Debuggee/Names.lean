import RemoteDebug.Proofs.Debuggee.Operation
import RemoteDebug.Proofs.Registry.Outline
import RemoteDebug.Proofs.Registry.Registration
import RemoteDebug.Proofs.Thread.Name

/-!
# The names that a registry gives

Only four operations change who is registered (`Debuggee.roster_perform`), and no operation gives an inferior or a
thread an id that is zero or does not fit 64 bits (`Debuggee.named_perform`). So every registered thread has a name
that can be written and read back (`Registry.Named.valid`).
-/

namespace RemoteDebug

/-- The operations that leave alone who is registered. -/
def Operation.KeepsRoster : Operation → Prop
  | .addInferior _ _ | .addThread _ _ _ | .disable _ | .exit _ => False
  | _ => True

namespace Debuggee

@[simp] theorem registry_programThread (d : Debuggee) (pid : Nat) (cap : Kernel.ThreadCap) :
    (d.programThread pid cap).registry = d.registry := by
  unfold programThread
  split <;> rfl

/-- Only registering, letting go and selecting change more than flags and breakpoints. -/
theorem outline_perform {d : Debuggee} {op : Operation} (h : op.KeepsRoster) (hs : ∀ t, op ≠ .select t) :
    (d.perform op).registry.outline = d.registry.outline := by
  cases op with
  | addInferior | addThread | disable | exit => exact h.elim
  | select t => exact absurd rfl (hs t)
  | insertPatch | removePatch | insertTrigger | removeTrigger => exact outline_onInferior fun _ _ => rfl
  | clear => exact outline_onInferior fun inf k => inf.outline_clearDebugState k
  | setStepping t on => exact outline_onThread fun thread k => thread.outline_setStepping on k
  | setWakeup => exact outline_onThread fun _ _ => rfl
  | program pid tcb => rw [perform, registry_programThread]; rfl
  | act actions => exact outline_applyActions actions []
  | resumeWoken => exact outline_resumeWoken
  | release => exact outline_release
  | makeThread | suspendAll | readRegisters | writeRegisters | readMemory | writeMemory => rfl

theorem roster_perform (d : Debuggee) {op : Operation} (h : op.KeepsRoster) :
    (d.perform op).registry.roster = d.registry.roster := by
  by_cases hs : ∃ t, op = .select t
  · obtain ⟨t, rfl⟩ := hs
    rfl
  · exact Registry.roster_of_outline_eq (outline_perform h fun t heq => hs ⟨t, heq⟩)

theorem threads_perform {d : Debuggee} {op : Operation} (h : op.KeepsRoster) :
    (d.perform op).registry.threads = d.registry.threads := Registry.threads_of_roster_eq (roster_perform d h)

end Debuggee

theorem Operation.Quiet.keepsRoster {op : Operation} (h : op.Quiet) : op.KeepsRoster := by
  cases op <;> trivial

/-! ## Ids -/

/-- An id that can be given. -/
def ValidId (id : Nat) : Prop := 0 < id ∧ id < 2 ^ 64

namespace Registry

/-- Every id was given. -/
def Named (r : Registry) : Prop := ∀ p ∈ r.roster, ValidId p.1 ∧ ∀ q ∈ p.2, ValidId q.1

variable {r r' : Registry}

theorem Named.of_roster_eq (h : r.Named) (heq : r'.roster = r.roster) : r'.Named := by
  rw [Named, heq]
  exact h

theorem named_iff :
    r.Named ↔ ∀ pid inf, (pid, inf) ∈ r.inferiors.toList →
      ValidId pid ∧ ∀ tid thread, (tid, thread) ∈ inf.threads.toList → ValidId tid := by
  simp only [Named, roster, List.mem_map, Prod.exists, Inferior.roster]
  constructor
  · intro h pid inf hinf
    obtain ⟨hpid, htid⟩ := h (pid, inf.threads.toList.map fun p => (p.1, p.2.cap)) ⟨pid, inf, hinf, rfl⟩
    exact ⟨hpid, fun tid thread ht => htid (tid, thread.cap) (List.mem_map.2 ⟨(tid, thread), ht, rfl⟩)⟩
  · rintro h p ⟨pid, inf, hinf, rfl⟩
    refine ⟨(h pid inf hinf).1, fun q hq => ?_⟩
    obtain ⟨⟨tid, thread⟩, ht, rfl⟩ := List.mem_map.1 hq
    exact (h pid inf hinf).2 tid thread ht

/-- The name of a registered thread can be written and read back. -/
theorem Named.valid (h : r.Named) {t : Ptid} (ht : t ∈ r.threads) : t.Valid := by
  obtain ⟨thread, ht⟩ := mem_threads.1 ht
  obtain ⟨inf, hinf, hmem⟩ := thread?_eq_some_iff.1 ht
  obtain ⟨hpid, htid⟩ := named_iff.1 h _ _ hinf
  exact ⟨hpid, htid _ _ hmem⟩

theorem Named.within (h : r.Named) (hw : r'.Within r) : r'.Named := by
  refine named_iff.2 fun pid inf hinf => ?_
  obtain ⟨before, hbefore, -, hsub⟩ := hw.inferiors _ _ hinf
  obtain ⟨hpid, htid⟩ := named_iff.1 h _ _ hbefore
  exact ⟨hpid, fun tid thread ht => htid tid thread (hsub.subset ht)⟩

theorem named_empty (maxInferiors maxThreads maxPatches : Nat) : (empty maxInferiors maxThreads maxPatches).Named := by
  intro p hp
  simp [roster, empty] at hp

end Registry

namespace Debuggee

variable {d d' : Debuggee}

theorem AddedInferior.named {native : UInt64} {space : Kernel.SpaceCap} (h : AddedInferior d native space d')
    (hn : d.registry.Named) : d'.registry.Named := by
  cases h with
  | refused => exact hn
  | done id before after =>
    refine Registry.named_iff.2 fun pid inf hinf => ?_
    simp only [after, List.mem_append, List.mem_cons, Prod.mk.injEq] at hinf
    rcases hinf with hp | ⟨rfl, rfl⟩ | hq
    · exact Registry.named_iff.1 hn _ _ (by simp [before, hp])
    · exact ⟨id, by simp⟩
    · exact Registry.named_iff.1 hn _ _ (by simp [before, hq])

theorem Added.named {pid : Nat} {native : UInt64} {cap : Kernel.ThreadCap} {r : Except RegistryError Ptid}
    (h : Added d pid native cap r d') (hn : d.registry.Named) : d'.registry.Named := by
  cases h with
  | refused _ => exact hn
  | done _ id before after before' after' =>
    refine Registry.named_iff.2 fun pid' inf' hinf => ?_
    simp only [after, List.mem_append, List.mem_cons, Prod.mk.injEq] at hinf
    rcases hinf with hp | ⟨rfl, rfl⟩ | hq
    · exact Registry.named_iff.1 hn _ _ (by simp [before, hp])
    · obtain ⟨hpid, htid⟩ := Registry.named_iff.1 hn _ _ (show (pid', _) ∈ d.registry.inferiors.toList by
        rw [before]; exact List.mem_append_right _ List.mem_cons_self)
      refine ⟨hpid, fun tid thread ht => ?_⟩
      simp only [after', List.mem_append, List.mem_cons, Prod.mk.injEq] at ht
      rcases ht with hp | ⟨rfl, -⟩ | hq
      · exact htid tid thread (by simp [before', hp])
      · exact id
      · exact htid tid thread (by simp [before', hq])
    · exact Registry.named_iff.1 hn _ _ (by simp [before, hq])

/-- No operation gives an id that is none. -/
theorem named_perform (op : Operation) (h : d.registry.Named) : (d.perform op).registry.Named := by
  by_cases hkeeps : op.KeepsRoster
  · exact h.of_roster_eq (roster_perform d hkeeps)
  · cases op with
    | addInferior native space =>
      exact (addedInferior_addInferior (d.makeSpace space).2 native (d.makeSpace space).1).named h
    | addThread pid native tcb =>
      exact (added_addThread (d.makeThread tcb).2 pid native (d.makeThread tcb).1).named h
    | disable pid => exact h.within (within_disable d pid)
    | exit t => exact h.within (within_exit d t)
    | _ => exact absurd trivial hkeeps

theorem named_performAll (ops : List Operation) (h : d.registry.Named) : (d.performAll ops).registry.Named := by
  induction ops generalizing d with
  | nil => exact h
  | cons op ops ih => exact ih (named_perform op h)

end Debuggee
end RemoteDebug
