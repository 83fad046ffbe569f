import Mathlib.Data.List.Nodup
import RemoteDebug.Proofs.Debuggee.Footprint
import RemoteDebug.Proofs.Debuggee.Names

/-!
# Every thread has a kernel object of its own

A thread comes in together with a new kernel object, and its capability never changes. So no two registered threads ever
share one (`Debuggee.apart_performAll`), and a call on a thread is a call on no other.
-/

namespace RemoteDebug

open Kernel

namespace Kernel

variable {p : Call → Prop} {k k' : Kernel}

/-- Calls make no thread. -/
theorem Calls.length_threads (h : Calls p k k') : k'.threads.length = k.threads.length := by
  induction h with
  | refl => rfl
  | thread _ _ ih =>
    rw [threads_callThread]
    split
    · rw [List.length_modify, ih]
    · exact ih
  | read _ _ ih => exact ih
  | write _ _ ih => rw [threads_writeWord, ih]

end Kernel

namespace Registry

variable {r r' : Registry}

/-- No two threads share a capability. -/
def Distinct (r : Registry) : Prop :=
  ∀ t u a b, r.thread? t = some a → r.thread? u = some b → a.cap = b.cap → t = u

/-- The roster says which capability a thread has. -/
theorem exists_thread?_of_roster_eq (h : r'.roster = r.roster) {t : Ptid} {a : Thread} (ht : r'.thread? t = some a) :
    ∃ b, r.thread? t = some b ∧ b.cap = a.cap := by
  obtain ⟨inf, hinf, ha⟩ := thread?_eq_some_iff.1 ht
  have listed : (t.pid, inf.roster) ∈ r.roster := h ▸ List.mem_map.2 ⟨(t.pid, inf), hinf, rfl⟩
  obtain ⟨⟨pid, inf'⟩, hinf', heq⟩ := List.mem_map.1 listed
  simp only [Prod.mk.injEq] at heq
  obtain ⟨rfl, same⟩ := heq
  have entry : (t.tid, a.cap) ∈ inf'.roster := same ▸ List.mem_map.2 ⟨(t.tid, a), ha, rfl⟩
  obtain ⟨⟨tid, b⟩, hb, heq⟩ := List.mem_map.1 entry
  simp only [Prod.mk.injEq] at heq
  obtain ⟨rfl, hcap⟩ := heq
  exact ⟨b, thread?_eq_some_iff.2 ⟨inf', hinf', hb⟩, hcap⟩

theorem Distinct.of_roster_eq (hd : r.Distinct) (h : r'.roster = r.roster) : r'.Distinct := by
  intro t u a b ht hu heq
  obtain ⟨a', ht', hcap⟩ := exists_thread?_of_roster_eq h ht
  obtain ⟨b', hu', hcap'⟩ := exists_thread?_of_roster_eq h hu
  exact hd t u a' b' ht' hu' (by rw [hcap, hcap', heq])

/-- The capabilities of the registered threads are all different. -/
theorem Distinct.nodup_caps (h : r.Distinct) : r.caps.Nodup := by
  have same {e e' : Nat × Inferior} {t t' : Nat × Thread} (he : e ∈ r.inferiors.toList)
      (he' : e' ∈ r.inferiors.toList)
      (ht : t ∈ e.2.threads.toList) (ht' : t' ∈ e'.2.threads.toList) (hcap : t.2.cap = t'.2.cap) :
      (⟨e.1, t.1⟩ : Ptid) = ⟨e'.1, t'.1⟩ :=
    h _ _ _ _ (thread?_eq_some_iff.2 ⟨e.2, he, ht⟩) (thread?_eq_some_iff.2 ⟨e'.2, he', ht'⟩) hcap
  refine List.nodup_flatMap.2 ⟨fun e he => List.pairwise_map.2 ?_, ?_⟩
  · refine (List.pairwise_map.1 (SlotTable.nodup_ids e.2.threads)).imp_of_mem fun ht ht' hne hcap => ?_
    exact hne (congrArg Ptid.tid (same he he ht ht' hcap))
  · refine (List.pairwise_map.1 (SlotTable.nodup_ids r.inferiors)).imp_of_mem fun he he' hne cap hcap hcap' => ?_
    obtain ⟨t, ht, rfl⟩ := List.mem_map.1 hcap
    obtain ⟨t', ht', heq⟩ := List.mem_map.1 hcap'
    exact hne (congrArg Ptid.pid (same he he' ht ht' heq.symm))

theorem nodup_caps_of_mem (distinct : r.caps.Nodup) {e : Nat × Inferior} (he : e ∈ r.inferiors.toList) :
    e.2.caps.Nodup := (List.nodup_flatMap.1 distinct).1 e he

theorem Distinct.of_outline_eq (hd : r.Distinct) (h : r'.outline = r.outline) : r'.Distinct :=
  hd.of_roster_eq (roster_of_outline_eq h)

end Registry

namespace Debuggee

variable {d d' : Debuggee}

/-- Every registered thread has a kernel object, and no two share one. -/
structure Apart (d : Debuggee) : Prop where
  made : ∀ t thread, d.registry.thread? t = some thread → thread.cap < d.kernel.threads.length
  distinct : d.registry.Distinct

/-- The kernel object that comes next is that of no registered thread. -/
theorem Apart.not_mem_caps (h : d.Apart) : d.kernel.threads.length ∉ d.registry.caps := by
  intro hmem
  obtain ⟨t, thread, ht, heq⟩ := Registry.exists_of_mem_caps hmem
  exact absurd heq (Nat.ne_of_lt (h.made t thread ht))

theorem apart_empty (maxInferiors maxThreads maxPatches : Nat) : (empty maxInferiors maxThreads maxPatches).Apart := by
  have nobody (t : Ptid) (thread : Thread) :
      (empty maxInferiors maxThreads maxPatches).registry.thread? t ≠ some thread := by
    intro h
    obtain ⟨inf, hinf, -⟩ := Registry.thread?_eq_some_iff.1 h
    simp [empty, Registry.empty] at hinf
  exact ⟨fun t thread h => absurd h (nobody t thread), fun t _ a _ h => absurd h (nobody t a)⟩

/-- Kernel objects stay. -/
theorem length_threads_perform (d : Debuggee) (op : Operation) :
    d.kernel.threads.length ≤ (d.perform op).kernel.threads.length := by
  rw [(d.calls_perform_any op).length_threads, op.threads_allocate, List.length_append]
  exact Nat.le_add_right _ _

/-- A registry whose threads were all there before, with the same capabilities. -/
theorem Apart.of_thread? (h : d.Apart) (grown : d.kernel.threads.length ≤ d'.kernel.threads.length)
    (old : ∀ t a, d'.registry.thread? t = some a → ∃ b, d.registry.thread? t = some b ∧ b.cap = a.cap) :
    d'.Apart := by
  refine ⟨fun t a ht => ?_, fun t u a b ht hu heq => ?_⟩
  · obtain ⟨b, hb, hcap⟩ := old t a ht
    rw [← hcap]
    exact Nat.lt_of_lt_of_le (h.made t b hb) grown
  · obtain ⟨a', ht', hcap⟩ := old t a ht
    obtain ⟨b', hu', hcap'⟩ := old u b hu
    exact h.distinct t u a' b' ht' hu' (by rw [hcap, hcap', heq])

theorem apart_addThread (h : d.Apart) (pid : Nat) (native : UInt64) (tcb : Tcb) :
    (d.perform (.addThread pid native tcb)).Apart := by
  have outcome := added_addThread (d.makeThread tcb).2 pid native (d.makeThread tcb).1
  have grown : d.kernel.threads.length < (d.perform (.addThread pid native tcb)).kernel.threads.length := by
    have calls := d.calls_perform (show ¬ (Operation.addThread pid native tcb).Resumes from id)
    rw [calls.length_threads]
    simp [Operation.allocate, Kernel.addThread]
  -- the new thread has the capability of the object that was made for it, and the old ones have older objects
  have known : ∀ t a, (d.perform (.addThread pid native tcb)).registry.thread? t = some a →
      d.registry.thread? t = some a ∨
        ((d.makeThread tcb).2.addThread pid native (d.makeThread tcb).1).1 = .ok t ∧
        a.cap = d.kernel.threads.length := by
    intro t a ht
    rcases outcome.thread? ht with old | ⟨new, rfl⟩
    · exact .inl old
    · exact .inr ⟨new, rfl⟩
  refine ⟨fun t a ht => ?_, fun t u a b ht hu heq => ?_⟩
  · rcases known t a ht with old | ⟨-, hcap⟩
    · exact Nat.lt_trans (h.made t a old) grown
    · exact hcap ▸ grown
  · rcases known t a ht with oldA | ⟨newA, hcapA⟩
    · rcases known u b hu with oldB | ⟨-, hcapB⟩
      · exact h.distinct t u a b oldA oldB heq
      · exact absurd (heq.trans hcapB) (Nat.ne_of_lt (h.made t a oldA))
    · rcases known u b hu with oldB | ⟨newB, -⟩
      · exact absurd (heq.symm.trans hcapA) (Nat.ne_of_lt (h.made u b oldB))
      · exact Except.ok.inj (newA.symm.trans newB)

theorem apart_perform (h : d.Apart) (op : Operation) : (d.perform op).Apart := by
  have grown := length_threads_perform d op
  by_cases hkeeps : op.KeepsRoster
  · exact h.of_thread? grown fun t a ht => Registry.exists_thread?_of_roster_eq (roster_perform d hkeeps) ht
  · cases op with
    | addThread pid native tcb => exact apart_addThread h pid native tcb
    | addInferior native space =>
      have outcome := addedInferior_addInferior (d.makeSpace space).2 native (d.makeSpace space).1
      exact h.of_thread? grown fun t a ht => ⟨a, outcome.thread? ht, rfl⟩
    | disable pid => exact h.of_thread? grown fun t a ht => ⟨a, (within_disable d pid).thread? ht, rfl⟩
    | exit u => exact h.of_thread? grown fun t a ht => ⟨a, (within_exit d u).thread? ht, rfl⟩
    | _ => exact absurd trivial hkeeps

theorem apart_performAll (h : d.Apart) (ops : List Operation) : (d.performAll ops).Apart := by
  induction ops generalizing d with
  | nil => exact h
  | cons op ops ih => exact ih (apart_perform h op)

end Debuggee
end RemoteDebug
