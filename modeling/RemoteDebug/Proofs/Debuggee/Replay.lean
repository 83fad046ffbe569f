import RemoteDebug.Proofs.Debuggee.Footprint

/-!
# Threads are what their calls have made of them

The kernel object of a thread changes by the calls on it alone, and by those only that are done. So what it is can be
worked out from what it once was and the calls recorded since (`Tcb.replay`), whatever operations have been performed
meanwhile (`Debuggee.replays_performAll`). Above all, registers stay as they are until they are written
(`Tcb.registers_replay`).
-/

namespace RemoteDebug

namespace Kernel

/-- A thread after a recorded call. -/
def Tcb.after (cap : ThreadCap) (tcb : Tcb) (r : Record) : Tcb :=
  match r with
  | ⟨.thread other call, true⟩ => if other = cap then tcb.perform call else tcb
  | _ => tcb

/-- A thread after recorded calls, the earliest first. -/
def Tcb.replay (cap : ThreadCap) (records : List Record) (tcb : Tcb) : Tcb := records.foldl (Tcb.after cap) tcb

section Replay

variable {cap : ThreadCap} {tcb : Tcb} {records : List Record}

@[simp] theorem Tcb.replay_nil : tcb.replay cap [] = tcb := rfl

theorem Tcb.replay_append (a b : List Record) : tcb.replay cap (a ++ b) = (tcb.replay cap a).replay cap b :=
  List.foldl_append

@[simp] theorem Tcb.replay_single (r : Record) : tcb.replay cap [r] = tcb.after cap r := rfl

/-- A call does not change what a thread refuses. -/
theorem Tcb.refuses_after (r : Record) : (tcb.after cap r).refuses = tcb.refuses := by
  unfold Tcb.after
  split
  · rename_i other call
    split
    · cases call <;> rfl
    · rfl
  · rfl

theorem Tcb.refuses_replay : (tcb.replay cap records).refuses = tcb.refuses := by
  induction records generalizing tcb with
  | nil => rfl
  | cons r records ih => exact ih.trans (refuses_after r)

theorem Tcb.registers_after {r : Record}
    (h : ∀ registers, r ≠ ⟨.thread cap (.writeRegisters registers), true⟩) :
    (tcb.after cap r).registers = tcb.registers := by
  unfold Tcb.after
  split
  · rename_i other call
    split
    · rename_i same
      subst same
      cases call with
      | writeRegisters registers => exact absurd rfl (h registers)
      | _ => rfl
    · rfl
  · rfl

/-- Registers stay as they are until they are written. -/
theorem Tcb.registers_replay (h : ∀ registers, ⟨.thread cap (.writeRegisters registers), true⟩ ∉ records) :
    (tcb.replay cap records).registers = tcb.registers := by
  induction records generalizing tcb with
  | nil => rfl
  | cons r records ih =>
    have first : ∀ registers, r ≠ ⟨.thread cap (.writeRegisters registers), true⟩ :=
      fun registers heq => h registers (heq ▸ List.mem_cons_self)
    have rest : ((tcb.after cap r).replay cap records).registers = (tcb.after cap r).registers :=
      ih fun registers hmem => h registers (List.mem_cons_of_mem _ hmem)
    exact rest.trans (registers_after first)

end Replay

/-- A kernel has come from another by recorded calls: they make of every thread what it is. -/
def Replays (k k' : Kernel) : Prop :=
  ∃ new : List Record, k'.history.toList = k.history.toList ++ new ∧
    ∀ (cap : ThreadCap) (tcb : Tcb), k.threads[cap]? = some tcb → k'.threads[cap]? = some (tcb.replay cap new)

section Replays

variable {p : Call → Prop} {k k' k'' : Kernel}

theorem Replays.refl (k : Kernel) : k.Replays k := ⟨[], (List.append_nil _).symm, fun _ _ h => h⟩

theorem Replays.trans (h : k.Replays k') (h' : k'.Replays k'') : k.Replays k'' := by
  obtain ⟨new, heq, hnew⟩ := h
  obtain ⟨new', heq', hnew'⟩ := h'
  refine ⟨new ++ new', by rw [heq', heq, List.append_assoc], fun cap tcb ht => ?_⟩
  rw [Tcb.replay_append]
  exact hnew' cap _ (hnew cap tcb ht)

/-- What was recorded stays recorded. -/
theorem Replays.history (h : k.Replays k') : k.history.toList <+: k'.history.toList := by
  obtain ⟨new, heq, -⟩ := h
  exact ⟨new, heq.symm⟩

theorem replays_callThread (k : Kernel) (cap : ThreadCap) (call : ThreadCall) :
    k.Replays (k.callThread cap call).2 := by
  refine ⟨[⟨.thread cap call, k.accepts cap call⟩], by rw [history_callThread, Array.toList_push], ?_⟩
  intro other tcb ht
  rw [Tcb.replay_single]
  by_cases hc : other = cap
  · subst hc
    rw [thread_callThread, ht]
    cases k.accepts other call with
    | true => simp [Tcb.after]
    | false => simp [Tcb.after]
  · rw [thread_callThread_of_ne _ _ _ hc, ht]
    cases k.accepts cap call with
    | true => simp [Tcb.after, Ne.symm hc]
    | false => simp [Tcb.after]

/-- A call on an address space is none on a thread. -/
theorem replays_of_space {cap : SpaceCap} {call : SpaceCall} {done : Bool} (threads : k'.threads = k.threads)
    (history : k'.history = k.history.push ⟨.space cap call, done⟩) : k.Replays k' := by
  refine ⟨[⟨.space cap call, done⟩], by rw [history, Array.toList_push], fun cap tcb ht => ?_⟩
  rw [threads, ht]
  rfl

theorem Calls.replays (h : Calls p k k') : k.Replays k' := by
  induction h with
  | refl => exact .refl k
  | thread _ _ ih => exact ih.trans (replays_callThread _ _ _)
  | read _ _ ih => exact ih.trans (replays_of_space rfl (history_readWord _ _ _))
  | write _ _ ih => exact ih.trans (replays_of_space (threads_writeWord _ _ _ _) (history_writeWord _ _ _ _))

end Replays

end Kernel

open Kernel

/-- A new object takes nothing away. -/
theorem Operation.replays_allocate (op : Operation) (k : Kernel) : k.Replays (op.allocate k) := by
  refine ⟨[], by rw [op.history_allocate, List.append_nil], fun cap tcb ht => ?_⟩
  have old : cap < k.threads.length := (List.getElem?_eq_some_iff.1 ht).1
  rw [op.threads_allocate, List.getElem?_append_left old, ht, Tcb.replay_nil]

namespace Debuggee

theorem replays_perform (d : Debuggee) (op : Operation) : d.kernel.Replays (d.perform op).kernel :=
  (op.replays_allocate d.kernel).trans (d.calls_perform_any op).replays

theorem replays_performAll (d : Debuggee) (ops : List Operation) : d.kernel.Replays (d.performAll ops).kernel := by
  induction ops generalizing d with
  | nil => exact .refl _
  | cons op ops ih => exact (d.replays_perform op).trans (ih _)

end Debuggee
end RemoteDebug
