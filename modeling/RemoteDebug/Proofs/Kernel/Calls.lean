import RemoteDebug.Breakpoint.Trigger
import RemoteDebug.Kernel.Transfer

/-!
# What calls change

`Calls p k k'` says that the kernel comes from `k` to `k'` by calls that `p` allows, whether they are done or refused.
Whatever the debugger does to the kernel has such a footprint, and what a kernel keeps is read off the footprint:
calls are only added to the history (`Calls.history`), an object keeps what no allowed call on it changes
(`Calls.keeps_thread`), and an address space that is not written to stays as it is (`Calls.space_eq`).

`Adds` says more about one thread, namely which calls on it were made, and in which order; other footprints add none
(`Adds.of_avoids`).
-/

namespace RemoteDebug.Kernel

/-! ## One call -/

section CallThread

variable (k : Kernel) (cap : ThreadCap) (call : ThreadCall)

@[simp] theorem callThread_fst : (k.callThread cap call).1 = k.accepts cap call := by
  unfold callThread
  split <;> simp_all

theorem history_callThread :
    (k.callThread cap call).2.history = k.history.push ⟨.thread cap call, k.accepts cap call⟩ := by
  unfold callThread
  split <;> simp_all [record]

@[simp] theorem spaces_callThread : (k.callThread cap call).2.spaces = k.spaces := by
  unfold callThread
  split <;> rfl

theorem threads_callThread :
    (k.callThread cap call).2.threads =
      if k.accepts cap call then k.threads.modify cap (·.perform call) else k.threads := by
  unfold callThread
  split <;> rfl

theorem thread_callThread_of_ne {other : ThreadCap} (h : other ≠ cap) :
    (k.callThread cap call).2.threads[other]? = k.threads[other]? := by
  rw [threads_callThread]
  split
  · exact List.getElem?_modify_ne _ _ (Ne.symm h)
  · rfl

theorem thread_callThread :
    (k.callThread cap call).2.threads[cap]? =
      if k.accepts cap call then k.threads[cap]?.map (·.perform call) else k.threads[cap]? := by
  rw [threads_callThread]
  split
  · exact List.getElem?_modify_eq _ _ _
  · rfl

/-- To read registers changes no thread. -/
theorem threads_callThread_readRegisters : (k.callThread cap .readRegisters).2.threads = k.threads := by
  rw [threads_callThread]
  split
  · exact List.modify_id _ _
  · rfl

end CallThread

/-- A call is done only by a thread that there is. -/
theorem exists_of_accepts {k : Kernel} {cap : ThreadCap} {call : ThreadCall} (h : k.accepts cap call = true) :
    ∃ tcb, k.threads[cap]? = some tcb := by
  unfold accepts at h
  split at h
  · exact ⟨_, ‹_›⟩
  · cases h

/-- A call is done if it is not refused. -/
theorem accepts_of_not_refuses {k : Kernel} {cap : ThreadCap} {call : ThreadCall} {tcb : Tcb}
    (object : k.threads[cap]? = some tcb) (granted : tcb.refuses k.history.size call = false) :
    k.accepts cap call = true := by simp [accepts, object, granted]

/-- Registers that are read are those of the thread. -/
theorem readRegisters_of_accepts {k : Kernel} {cap : ThreadCap} {tcb : Tcb} (object : k.threads[cap]? = some tcb)
    (accepted : k.accepts cap .readRegisters = true) :
    k.readRegisters cap = (some tcb.registers, (k.callThread cap .readRegisters).2) := by
  have same : (k.callThread cap .readRegisters).2.threads[cap]? = some tcb := by
    rw [threads_callThread_readRegisters, object]
  rcases done : k.callThread cap .readRegisters with ⟨_ | _, k'⟩
  · have refused := callThread_fst k cap .readRegisters
    rw [done, accepted] at refused
    cases refused
  · rw [done] at same
    simp only [readRegisters, done, same, Option.map_some]

@[simp] theorem spaces_readWord (k : Kernel) (cap : SpaceCap) (addr : UInt64) :
    (k.readWord cap addr).2.spaces = k.spaces := rfl

theorem history_readWord (k : Kernel) (cap : SpaceCap) (addr : UInt64) :
    (k.readWord cap addr).2.history = k.history.push ⟨.space cap (.read addr), (k.readWord cap addr).1.isSome⟩ :=
  rfl

@[simp] theorem threads_writeWord (k : Kernel) (cap : SpaceCap) (addr word : UInt64) :
    (k.writeWord cap addr word).2.threads = k.threads := by
  unfold writeWord
  dsimp only
  split <;> rfl

theorem history_writeWord (k : Kernel) (cap : SpaceCap) (addr word : UInt64) :
    (k.writeWord cap addr word).2.history =
      k.history.push ⟨.space cap (.write addr word), (k.writeWord cap addr word).1⟩ := by
  unfold writeWord
  dsimp only
  split <;> rfl

theorem space_writeWord_of_ne (k : Kernel) {cap other : SpaceCap} (addr word : UInt64) (h : other ≠ cap) :
    (k.writeWord cap addr word).2.spaces[other]? = k.spaces[other]? := by
  unfold writeWord
  dsimp only
  split
  · exact List.getElem?_modify_ne _ _ (Ne.symm h)
  · rfl

/-! ## Footprints -/

/-- The kernel comes from one state to another by calls that `p` allows. -/
inductive Calls (p : Call → Prop) (k : Kernel) : Kernel → Prop
  | refl : Calls p k k
  | thread {k' : Kernel} {cap : ThreadCap} {call : ThreadCall} (h : Calls p k k') (hp : p (.thread cap call)) :
      Calls p k (k'.callThread cap call).2
  | read {k' : Kernel} {cap : SpaceCap} {addr : UInt64} (h : Calls p k k') (hp : p (.space cap (.read addr))) :
      Calls p k (k'.readWord cap addr).2
  | write {k' : Kernel} {cap : SpaceCap} {addr word : UInt64} (h : Calls p k k')
      (hp : p (.space cap (.write addr word))) : Calls p k (k'.writeWord cap addr word).2

namespace Calls

variable {p q : Call → Prop} {k k' k'' : Kernel}

theorem trans (h : Calls p k k') (h' : Calls p k' k'') : Calls p k k'' := by
  induction h' with
  | refl => exact h
  | thread _ hp ih => exact ih.thread hp
  | read _ hp ih => exact ih.read hp
  | write _ hp ih => exact ih.write hp

theorem mono (h : Calls p k k') (hpq : ∀ c, p c → q c) : Calls q k k' := by
  induction h with
  | refl => exact .refl
  | thread _ hp ih => exact ih.thread (hpq _ hp)
  | read _ hp ih => exact ih.read (hpq _ hp)
  | write _ hp ih => exact ih.write (hpq _ hp)

/-- The history grows by calls that are allowed. -/
theorem history (h : Calls p k k') :
    ∃ new : List Record, k'.history.toList = k.history.toList ++ new ∧ ∀ r ∈ new, p r.call := by
  have snoc : ∀ {k' : Kernel} {r : Record}, p r.call →
      (∃ new : List Record, k'.history.toList = k.history.toList ++ new ∧ ∀ r ∈ new, p r.call) →
      ∃ new : List Record, (k'.history.push r).toList = k.history.toList ++ new ∧ ∀ r ∈ new, p r.call := by
    rintro k' r hr ⟨new, heq, hnew⟩
    refine ⟨new ++ [r], by rw [Array.toList_push, heq, List.append_assoc], fun x hx => ?_⟩
    rcases List.mem_append.1 hx with hx | hx
    · exact hnew x hx
    · rw [List.mem_singleton.1 hx]
      exact hr
  induction h with
  | refl => exact ⟨[], by simp, by simp⟩
  | thread _ hp ih => rw [history_callThread]; exact snoc hp ih
  | read _ hp ih => rw [history_readWord]; exact snoc hp ih
  | write _ hp ih => rw [history_writeWord]; exact snoc hp ih

/-- What was recorded stays recorded. -/
theorem mem_history (h : Calls p k k') {r : Record} (hr : r ∈ k.history.toList) : r ∈ k'.history.toList := by
  obtain ⟨new, heq, -⟩ := h.history
  rw [heq]
  exact List.mem_append_left _ hr

/-- A thread keeps what no allowed call on it changes. -/
theorem keeps_thread (h : Calls p k k') {cap : ThreadCap} {Q : Tcb → Prop}
    (hQ : ∀ call tcb, p (.thread cap call) → Q tcb → Q (tcb.perform call)) {tcb : Tcb}
    (ht : k.threads[cap]? = some tcb) (hq : Q tcb) : ∃ tcb', k'.threads[cap]? = some tcb' ∧ Q tcb' := by
  induction h with
  | refl => exact ⟨tcb, ht, hq⟩
  | @thread k' other call _ hp ih =>
    obtain ⟨tcb', ht', hq'⟩ := ih
    by_cases hc : cap = other
    · subst hc
      rw [thread_callThread, ht']
      split
      · exact ⟨_, rfl, hQ call tcb' hp hq'⟩
      · exact ⟨tcb', rfl, hq'⟩
    · rw [thread_callThread_of_ne _ _ _ hc]
      exact ⟨tcb', ht', hq'⟩
  | read _ _ ih => exact ih
  | write _ _ ih => rw [threads_writeWord]; exact ih

/-- A thread on which no call is allowed stays as it is. -/
theorem thread_eq (h : Calls p k k') {cap : ThreadCap} (hn : ∀ call, ¬ p (.thread cap call)) :
    k'.threads[cap]? = k.threads[cap]? := by
  induction h with
  | refl => rfl
  | @thread k' other call _ hp ih =>
    have hc : cap ≠ other := fun hc => hn call (hc ▸ hp)
    rw [thread_callThread_of_ne _ _ _ hc, ih]
  | read _ _ ih => exact ih
  | write _ _ ih => rw [threads_writeWord, ih]

/-- An address space to which no write is allowed stays as it is. -/
theorem space_eq (h : Calls p k k') {cap : SpaceCap} (hn : ∀ addr word, ¬ p (.space cap (.write addr word))) :
    k'.spaces[cap]? = k.spaces[cap]? := by
  induction h with
  | refl => rfl
  | thread _ _ ih => rw [spaces_callThread, ih]
  | read _ _ ih => exact ih
  | @write k' other addr word _ hp ih =>
    have hc : cap ≠ other := fun hc => hn addr word (hc ▸ hp)
    rw [space_writeWord_of_ne _ _ _ hc, ih]

end Calls

/-! ## Footprints of kernel operations -/

section Footprints

variable {p : Call → Prop} {k : Kernel}

theorem calls_callThread {cap : ThreadCap} {call : ThreadCall} (h : p (.thread cap call)) :
    Calls p k (k.callThread cap call).2 := Calls.refl.thread h

theorem calls_readRegisters {cap : ThreadCap} (h : p (.thread cap .readRegisters)) :
    Calls p k (k.readRegisters cap).2 := by
  have hc : (k.readRegisters cap).2 = (k.callThread cap .readRegisters).2 := by
    unfold readRegisters
    split <;> simp_all
  rw [hc]
  exact calls_callThread h

theorem calls_callEach {call : ThreadCall} {caps : List ThreadCap} (h : ∀ cap ∈ caps, p (.thread cap call)) :
    Calls p k (k.callEach call caps) := by
  induction caps generalizing k with
  | nil => exact .refl
  | cons cap caps ih =>
    exact (calls_callThread (h cap List.mem_cons_self)).trans (ih fun c hc => h c (List.mem_cons_of_mem _ hc))

/-- Making a call on threads in turn does the same whether or not the answers are looked at. -/
theorem callAll_snd (call : ThreadCall) (caps : List ThreadCap) (k : Kernel) :
    (k.callAll call caps).2 = k.callEach call caps := by
  induction caps generalizing k with
  | nil => rfl
  | cons cap caps ih => exact ih _

theorem calls_callAll {call : ThreadCall} {caps : List ThreadCap} (h : ∀ cap ∈ caps, p (.thread cap call)) :
    Calls p k (k.callAll call caps).2 := by
  rw [callAll_snd]
  exact calls_callEach h

theorem calls_setSlotOnAll {slot : Nat} {trigger : Cpu.Trigger} {done pending : List ThreadCap}
    (hs : ∀ cap ∈ pending, p (.thread cap (.setSlot slot trigger)))
    (hc : ∀ cap ∈ done ++ pending, p (.thread cap (.clearSlot slot))) :
    Calls p k (k.setSlotOnAll slot trigger done pending).2 := by
  induction pending generalizing k done with
  | nil => exact .refl
  | cons cap pending ih =>
    have hset : Calls p k (k.callThread cap (.setSlot slot trigger)).2 := calls_callThread (hs cap List.mem_cons_self)
    unfold setSlotOnAll
    split
    · rename_i k' heq
      rw [heq] at hset
      refine hset.trans (ih (fun c hc' => hs c (List.mem_cons_of_mem _ hc')) fun c hc' => hc c ?_)
      simpa using hc'
    · rename_i k' heq
      rw [heq] at hset
      exact hset.trans (calls_callEach fun c hc' => hc c (List.mem_append_left _ hc'))

theorem calls_clearSlots {cap : ThreadCap} {slots : List Nat}
    (h : ∀ slot ∈ slots, p (.thread cap (.clearSlot slot))) :
    Calls p k (clearSlots cap slots k) := by
  induction slots generalizing k with
  | nil => exact .refl
  | cons slot slots ih =>
    exact (calls_callThread (h slot List.mem_cons_self)).trans (ih fun s hs => h s (List.mem_cons_of_mem _ hs))

theorem calls_setSlots {cap : ThreadCap} {done : List Nat} {pending : List (Nat × Cpu.Trigger)}
    (hs : ∀ slot trigger, p (.thread cap (.setSlot slot trigger)))
    (hc : ∀ slot, p (.thread cap (.clearSlot slot))) :
    Calls p k (setSlots cap done pending k).2 := by
  induction pending generalizing k done with
  | nil => exact .refl
  | cons head pending ih =>
    obtain ⟨slot, trigger⟩ := head
    have hset : Calls p k (k.callThread cap (.setSlot slot trigger)).2 := calls_callThread (hs slot trigger)
    unfold setSlots
    split
    · rename_i k' heq
      rw [heq] at hset
      exact hset.trans ih
    · rename_i k' heq
      rw [heq] at hset
      exact hset.trans (calls_clearSlots fun slot _ => hc slot)

theorem calls_readSpan {space : SpaceCap} {addr stop : Nat} {words : List Nat}
    (h : ∀ i ∈ words, p (.space space (.read (UInt64.ofNat (8 * i))))) :
    Calls p k (readSpan space addr stop words k).2 := by
  induction words generalizing k with
  | nil => exact .refl
  | cons i words ih =>
    replace ih := fun k => @ih k fun j hj => h j (List.mem_cons_of_mem _ hj)
    have hread : Calls p k (k.readWord space (UInt64.ofNat (8 * i))).2 := Calls.refl.read (h i List.mem_cons_self)
    unfold readSpan
    split
    · rename_i k' heq
      rw [heq] at hread
      exact hread
    · rename_i word k' heq
      rw [heq] at hread
      have hrest := hread.trans (ih k')
      split <;> simp_all

theorem calls_readBytes {space : SpaceCap} {addr length : Nat} (h : ∀ a, p (.space space (.read a))) :
    Calls p k (k.readBytes space addr length).2 := calls_readSpan fun _ _ => h _

theorem calls_writeSpan {space : SpaceCap} {addr : Nat} {words : List Nat} {data : List UInt8}
    (hr : ∀ i ∈ words, p (.space space (.read (UInt64.ofNat (8 * i)))))
    (hw : ∀ i ∈ words, ∀ w, p (.space space (.write (UInt64.ofNat (8 * i)) w))) :
    Calls p k (writeSpan space addr words data k).2 := by
  induction words generalizing k data with
  | nil => exact .refl
  | cons i words ih =>
    replace ih := fun k data => @ih k data (fun j hj => hr j (List.mem_cons_of_mem _ hj)) fun j hj =>
      hw j (List.mem_cons_of_mem _ hj)
    unfold writeSpan
    dsimp only
    have hread : ∀ {word : Option UInt64} {k' : Kernel},
        (if (data.take (8 - (addr - 8 * i))).length = 8 then (some 0, k)
          else k.readWord space (UInt64.ofNat (8 * i))) = (word, k') → Calls p k k' := by
      intro word k' heq
      split at heq
      · cases heq
        exact .refl
      · have hk' : (k.readWord space (UInt64.ofNat (8 * i))).2 = k' := congrArg Prod.snd heq
        rw [← hk']
        exact Calls.refl.read (hr i List.mem_cons_self)
    split
    · rename_i k' heq
      exact hread heq
    · rename_i word k' heq
      have hk := hread heq
      have hwrite : Calls p k (k'.writeWord space (UInt64.ofNat (8 * i))
          (mergeWord word (addr - 8 * i) (data.take (8 - (addr - 8 * i))))).2 := hk.write (hw i List.mem_cons_self _)
      split
      · rename_i k'' heq'
        rw [heq'] at hwrite
        exact hwrite
      · rename_i k'' heq'
        rw [heq'] at hwrite
        exact hwrite.trans (ih k'' _)

theorem calls_writeBytes {space : SpaceCap} {addr : Nat} {data : List UInt8} (hr : ∀ a, p (.space space (.read a)))
    (hw : ∀ a w, p (.space space (.write a w))) : Calls p k (k.writeBytes space addr data).2 := by
  unfold writeBytes
  split
  · exact .refl
  · exact calls_writeSpan (fun _ _ => hr _) fun _ _ => hw _

end Footprints

/-! ## The calls on one thread -/

/-- Whether a recorded call is one on a thread. -/
def Record.isOn (cap : ThreadCap) (r : Record) : Bool :=
  match r.call with
  | .thread other _ => other = cap
  | .space _ _ => false

/-- A call on another object than a certain thread. -/
def Call.Avoids (cap : ThreadCap) (c : Call) : Prop := ∀ call, c ≠ .thread cap call

theorem Call.avoids_of_ne {cap other : ThreadCap} (h : other ≠ cap) (call : ThreadCall) :
    (Call.thread other call).Avoids cap := by
  intro call' heq
  simp only [Call.thread.injEq] at heq
  exact h heq.1

/-- The calls on a thread that were made between one state of the kernel and another. -/
def Adds (k k' : Kernel) (cap : ThreadCap) (records : List Record) : Prop :=
  ∃ new, k'.history.toList = k.history.toList ++ new ∧ new.filter (·.isOn cap) = records

section Adds

variable {k k' k'' : Kernel} {cap : ThreadCap} {records records' : List Record}

theorem Adds.refl (k : Kernel) (cap : ThreadCap) : k.Adds k cap [] := ⟨[], by simp, rfl⟩

theorem Adds.trans (h : k.Adds k' cap records) (h' : k'.Adds k'' cap records') :
    k.Adds k'' cap (records ++ records') := by
  obtain ⟨new, heq, hnew⟩ := h
  obtain ⟨new', heq', hnew'⟩ := h'
  refine ⟨new ++ new', by rw [heq', heq, List.append_assoc], ?_⟩
  rw [List.filter_append, hnew, hnew']

/-- Calls on other objects are none on this thread. -/
theorem Adds.of_avoids (calls : Calls (Call.Avoids cap) k k') : k.Adds k' cap [] := by
  obtain ⟨new, heq, hnew⟩ := calls.history
  refine ⟨new, heq, ?_⟩
  rw [List.filter_eq_nil_iff]
  intro r hr
  have avoids := hnew r hr
  unfold Record.isOn
  split
  · rename_i other call hcall
    rw [decide_eq_true_eq]
    rintro rfl
    exact avoids call hcall
  · exact Bool.false_ne_true

theorem adds_callThread (k : Kernel) (cap : ThreadCap) (call : ThreadCall) :
    k.Adds (k.callThread cap call).2 cap [⟨.thread cap call, k.accepts cap call⟩] := by
  refine ⟨[⟨.thread cap call, k.accepts cap call⟩], ?_, ?_⟩
  · rw [history_callThread, Array.toList_push]
  · simp [Record.isOn]

end Adds

end RemoteDebug.Kernel
