import RemoteDebug.Proofs.Debuggee.Apart
import RemoteDebug.Proofs.Registry.Lookup
import RemoteDebug.Proofs.Registry.Targets

/-!
# What one action does to a thread

An action is applied to its targets in turn: each is told to step, or not to (`Thread.Stepped`), and is to wake up.
`Debuggee.Becomes` follows one thread through this, with the calls on it. A target changes when its turn comes
(`Debuggee.becomes_applyTargets`), and any other thread not at all (`Debuggee.becomes_applyTargets_of_other`).
-/

namespace RemoteDebug

open Kernel

/-- A visit to the values of a table makes the calls on a thread that it makes at the one value that concerns it. -/
theorem Kernel.adds_visit {α : Type} {cap : ThreadCap} {f : (id : Nat) → α → Kernel → α × Kernel}
    {P : List Record → Prop} {table : SlotTable α} {id : Nat} {v : α} (there : table.get? id = some v)
    (others : ∀ e ∈ table.toList, e.1 ≠ id → ∀ k, Calls (Call.Avoids cap) k (f e.1 e.2 k).2)
    (here : ∀ k : Kernel, ∃ records, k.Adds (f id v k).2 cap records ∧ P records) (k : Kernel) :
    ∃ records, k.Adds (table.visit f k).2 cap records ∧ P records := by
  obtain ⟨a, b, around⟩ := List.append_of_mem (SlotTable.mem_toList.2 there)
  have before (k : Kernel) : k.Adds (SlotTable.visitList f a k).2 cap [] := by
    refine .of_avoids (calls_visitList fun e he => others e (by simp [around, he]) ?_)
    exact SlotTable.ne_of_around around (List.mem_append_left b he)
  have after (k : Kernel) : k.Adds (SlotTable.visitList f b k).2 cap [] := by
    refine .of_avoids (calls_visitList fun e he => others e (by simp [around, he]) ?_)
    exact SlotTable.ne_of_around around (List.mem_append_right a he)
  obtain ⟨records, made, holds⟩ := here (SlotTable.visitList f a k).2
  refine ⟨records, ?_, holds⟩
  rw [SlotTable.visit_snd, around, SlotTable.visitList_append]
  have all := ((before k).trans made).trans (after _)
  rwa [List.nil_append, List.append_nil] at all

/-! ## One thread -/

/-- What turning stepping on or off makes of a thread, and the calls that this takes. -/
inductive Thread.Stepped (thread : Thread) (on : Bool) : Thread → List Record → Prop
  | same (steps : thread.stepping = on) : Stepped thread on thread []
  | set (steps : thread.stepping ≠ on) :
      Stepped thread on { thread with stepping := on } [⟨.thread thread.cap (.singleStep on), true⟩]
  | refused (steps : thread.stepping ≠ on) :
      Stepped thread on thread [⟨.thread thread.cap (.singleStep on), false⟩]

theorem Thread.Stepped.cap_eq {thread after : Thread} {on : Bool} {records : List Record}
    (h : thread.Stepped on after records) : after.cap = thread.cap := by
  cases h <;> rfl

/-- Whether a thread is to wake up makes no difference. -/
theorem Thread.Stepped.of_wakeup {thread after : Thread} {on wakeup : Bool} {records : List Record}
    (h : { thread with wakeup }.Stepped on after records) :
    thread.Stepped on { after with wakeup := thread.wakeup } records := by
  cases h with
  | same steps => exact .same steps
  | set steps => exact .set steps
  | refused steps => exact .refused steps

/-- A call that turns stepping on or off is made only where that changes something. -/
theorem Thread.stepped_setStepping (thread : Thread) (on : Bool) (k : Kernel) :
    ∃ records, thread.Stepped on (thread.setStepping on k).2.1 records ∧
      k.Adds (thread.setStepping on k).2.2 thread.cap records := by
  by_cases steps : thread.stepping = on
  · refine ⟨[], ?_, ?_⟩
    · rw [setStepping, if_pos steps]
      exact .same steps
    · rw [setStepping, if_pos steps]
      exact .refl k thread.cap
  · have made := adds_callThread k thread.cap (.singleStep on)
    have answer := callThread_fst k thread.cap (.singleStep on)
    rcases hcall : k.callThread thread.cap (.singleStep on) with ⟨done, k'⟩
    rw [hcall] at made answer
    dsimp only at made answer
    rw [← answer] at made
    refine ⟨[⟨.thread thread.cap (.singleStep on), done⟩], ?_, ?_⟩
    · cases done with
      | true => simpa only [setStepping, if_neg steps, hcall] using Stepped.set steps
      | false => simpa only [setStepping, if_neg steps, hcall] using Stepped.refused steps
    · cases done <;> simpa only [setStepping, if_neg steps, hcall] using made

/-- A thread is resumed exactly if it is to wake up. -/
theorem Thread.adds_wake (thread : Thread) (k : Kernel) :
    ∃ records, k.Adds (thread.wake k).2 thread.cap records ∧
      records.map (·.call) = if thread.wakeup then [.thread thread.cap .resume] else [] := by
  unfold wake
  cases thread.wakeup with
  | true => exact ⟨_, adds_callThread k thread.cap .resume, rfl⟩
  | false => exact ⟨[], .refl k thread.cap, rfl⟩

theorem Thread.wake_fst (thread : Thread) (k : Kernel) : (thread.wake k).1 = { thread with wakeup := false } := by
  unfold wake
  split
  · rfl
  · rename_i h
    rw [← Bool.eq_false_iff.2 h]

namespace Debuggee

/-- From one state to another a thread has become what is given, by these calls on it. -/
structure Becomes (d d' : Debuggee) (t : Ptid) (after : Thread) (records : List Record) : Prop where
  thread : d'.registry.thread? t = some after
  calls : d.kernel.Adds d'.kernel after.cap records

section Becomes

variable {d d' d'' : Debuggee} {t u : Ptid} {thread after after' : Thread} {records records' : List Record}

theorem Becomes.refl (ht : d.registry.thread? t = some thread) : d.Becomes d t thread [] := ⟨ht, .refl _ _⟩

theorem Becomes.trans (h : d.Becomes d' t after records) (h' : d'.Becomes d'' t after' records')
    (hcap : after'.cap = after.cap) : d.Becomes d'' t after' (records ++ records') := by
  refine ⟨h'.thread, ?_⟩
  rw [hcap]
  exact h.calls.trans (hcap ▸ h'.calls)

/-- A thread that then stays as it is. -/
theorem Becomes.stays (h : d.Becomes d' t after records) (h' : d'.Becomes d'' t after []) :
    d.Becomes d'' t after records := by
  have both := h.trans h' rfl
  rwa [List.append_nil] at both

/-- A thread on which no call was made until then. -/
theorem Becomes.later (h : d.Becomes d' t thread []) (h' : d'.Becomes d'' t after records)
    (hcap : after.cap = thread.cap) : d.Becomes d'' t after records := by
  have both := h.trans h' hcap
  rwa [List.nil_append] at both

theorem becomes_mapThreads (ht : d.registry.thread? t = some thread) (f : Ptid → Thread → Thread) :
    d.Becomes { d with registry := d.registry.mapThreads f } t (f t thread) [] := by
  refine ⟨?_, .refl _ _⟩
  rw [Registry.thread?_mapThreads, ht, Option.map_some]

/-! ## One action -/

theorem becomes_applyMotion (ht : d.registry.thread? t = some thread) (motion : Motion) :
    ∃ after records, thread.Stepped motion.isStep after records ∧
      d.Becomes (d.applyMotion t motion) t { after with wakeup := true } records := by
  obtain ⟨records, stepped, made⟩ := thread.stepped_setStepping motion.isStep d.kernel
  refine ⟨_, records, stepped, ?_, ?_⟩
  · simp [applyMotion, Debuggee.onThread, ht, Registry.thread?_modifyThread]
  · rw [stepped.cap_eq]
    simpa only [applyMotion, Debuggee.onThread, ht] using made

/-- What is done to one thread is not done to another. -/
theorem becomes_applyMotion_of_ne (distinct : d.registry.Distinct) (ht : d.registry.thread? t = some thread)
    (h : u ≠ t) (motion : Motion) : d.Becomes (d.applyMotion u motion) t thread [] := by
  cases hu : d.registry.thread? u with
  | none =>
    have same : d.applyMotion u motion = d := by simp [applyMotion, Debuggee.onThread, hu]
    rw [same]
    exact .refl ht
  | some other =>
    have apart : other.cap ≠ thread.cap := fun heq => h (distinct u t other thread hu ht heq)
    have calls : Calls (Call.Avoids thread.cap) d.kernel (d.applyMotion u motion).kernel := by
      refine calls_onThread fun thread' hthread' => Thread.calls_setStepping (Call.avoids_of_ne ?_ _)
      rwa [Option.some.inj (hthread'.symm.trans hu)]
    refine ⟨?_, .of_avoids calls⟩
    simp only [applyMotion, Debuggee.onThread, hu]
    rw [Registry.thread?_modifyThread_of_ne h, ht]

/-! ## The targets of an action -/

variable {motion : Motion} {targets named : List Ptid}

theorem distinct_applyMotion (distinct : d.registry.Distinct) (u : Ptid) (motion : Motion) :
    (d.applyMotion u motion).registry.Distinct := distinct.of_outline_eq (outline_applyMotion u motion)

/-- A thread that an earlier action has named, or this one does not cover, stays as it is. -/
theorem becomes_applyTargets_of_other (distinct : d.registry.Distinct) (ht : d.registry.thread? t = some thread)
    (h : t ∈ named ∨ t ∉ targets) : d.Becomes (applyTargets motion targets named d).2 t thread [] := by
  induction targets generalizing named d with
  | nil => exact .refl ht
  | cons u targets ih =>
    have h' : t ∈ named ∨ t ∉ targets := h.imp_right fun hn hmem => hn (List.mem_cons_of_mem _ hmem)
    unfold applyTargets
    split
    · exact ih distinct ht h'
    · rename_i hu
      have other : u ≠ t := by
        rintro rfl
        exact h.elim (fun hn => hu (.inl hn)) fun hn => hn List.mem_cons_self
      have first := becomes_applyMotion_of_ne distinct ht other motion
      have rest := ih (distinct_applyMotion distinct u motion) first.thread
        (h'.imp_left fun hn => List.mem_append_left [u] hn)
      exact first.stays rest

theorem becomes_applyTargets (distinct : d.registry.Distinct) (ht : d.registry.thread? t = some thread)
    (hn : t ∉ named) (hmem : t ∈ targets) : ∃ after records, thread.Stepped motion.isStep after records ∧
      d.Becomes (applyTargets motion targets named d).2 t { after with wakeup := true } records := by
  induction targets generalizing named d with
  | nil => cases hmem
  | cons u targets ih =>
    unfold applyTargets
    by_cases hut : u = t
    · subst hut
      have unnamed : ¬ (u ∈ named ∨ d.registry.thread? u = none) := by
        rintro (h | h)
        · exact hn h
        · cases ht.symm.trans h
      rw [if_neg unnamed]
      obtain ⟨after, records, stepped, first⟩ := becomes_applyMotion ht motion
      have rest : (d.applyMotion u motion).Becomes
          (applyTargets motion targets (named ++ [u]) (d.applyMotion u motion)).2 u { after with wakeup := true } [] :=
        becomes_applyTargets_of_other (distinct_applyMotion distinct u motion) first.thread (.inl (by simp))
      exact ⟨after, records, stepped, first.stays rest⟩
    · have hmem' : t ∈ targets := (List.mem_cons.1 hmem).resolve_left fun h => hut h.symm
      split
      · exact ih distinct ht hn hmem'
      · have first := becomes_applyMotion_of_ne distinct ht hut motion
        have hn' : t ∉ named ++ [u] := by
          rw [List.mem_append, List.mem_singleton, not_or]
          exact ⟨hn, fun h => hut h.symm⟩
        obtain ⟨after, records, stepped, rest⟩ := ih (distinct_applyMotion distinct u motion) first.thread hn' hmem'
        exact ⟨after, records, stepped, first.later rest stepped.cap_eq⟩

/-- An action names the threads it covers. -/
theorem mem_applyTargets (ht : t ∈ d.registry.threads) :
    t ∈ (applyTargets motion targets named d).1 ↔ t ∈ named ∨ t ∈ targets := by
  induction targets generalizing named d with
  | nil => simp [applyTargets]
  | cons u targets ih =>
    unfold applyTargets
    split
    · rename_i hu
      rw [ih ht, List.mem_cons]
      have named_of_eq : t = u → t ∈ named := by
        rintro rfl
        refine hu.resolve_right fun hnone => ?_
        obtain ⟨thread, hthread⟩ := Registry.mem_threads.1 ht
        cases hnone.symm.trans hthread
      constructor
      · exact Or.imp_right .inr
      · rintro (h | h | h)
        · exact .inl h
        · exact .inl (named_of_eq h)
        · exact .inr h
    · have ht' : t ∈ (d.applyMotion u motion).registry.threads := by
        rw [Registry.threads_of_outline_eq (outline_applyMotion u motion)]
        exact ht
      rw [ih ht', List.mem_append, List.mem_singleton, List.mem_cons, or_assoc]

end Becomes

end Debuggee
end RemoteDebug
