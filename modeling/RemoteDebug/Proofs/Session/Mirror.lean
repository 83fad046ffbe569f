import RemoteDebug.Proofs.Debuggee.Mirror
import RemoteDebug.Proofs.Session.Operations

/-!
# The debug state of threads

What is under debug can be changed behind a session's back, between any two of its inputs (`Session.Move`). However
that goes, and whatever calls are refused, every registered thread has the debug state that the registry books for it:
it steps if it is booked as stepping, and its debug slots are those of its inferior's table, unless the thread once
refused to clear one (`Session.debug_state_of_moves`).
-/

namespace RemoteDebug

/-! ## What the slots of a table hold -/

namespace BreakpointTable

variable {t : BreakpointTable} {n : Nat} {trigger : Cpu.Trigger}

/-- Instruction triggers are in the first six slots and data triggers in the other four. -/
theorem Laid.slot (h : t.Laid) (ht : t.trigger? n = some trigger) :
    (n < 6 ∧ trigger.condition = .fetch) ∨ (6 ≤ n ∧ n < Cpu.slotCount ∧ trigger.condition ≠ .fetch) := by
  have fits := h.fits n trigger ht
  cases hc : trigger.condition with
  | fetch =>
    rw [hc] at fits
    simp only [Cpu.Condition.slots, List.mem_cons, List.not_mem_nil, or_false] at fits
    refine .inl ⟨?_, rfl⟩
    omega
  | data access size =>
    rw [hc] at fits
    simp only [Cpu.Condition.slots, List.mem_cons, List.not_mem_nil, or_false] at fits
    refine .inr ⟨?_, ?_, nofun⟩
    · omega
    · simp only [Cpu.slotCount]
      omega

theorem watch?_eq_some_iff {addr size : UInt64} {access : Cpu.Access} :
    t.watch? n = some (addr, access, size) ↔ t.trigger? n = some ⟨addr, .data access size⟩ := by
  unfold watch?
  constructor
  · intro h
    split at h
    · rename_i heq
      cases h
      exact heq
    · cases h
  · intro h
    rw [h]

end BreakpointTable

namespace Session

/-! ## Moves -/

/-- An input of a session, or an operation on what it debugs. -/
inductive Move
  | input (i : Input)
  | operation (op : Operation)

/-- The thread that a move hands over. -/
def Move.tcb? : Move → Option Kernel.Tcb
  | .input i => i.tcb?
  | .operation op => op.tcb?

/-- Makes a move. -/
def move (s : Session) : Move → Session
  | .input i => s.step i
  | .operation op => s.perform op

/-- Makes moves in turn. -/
def moves (s : Session) (ms : List Move) : Session := ms.foldl move s

/-- The thread that a move is to register. -/
def Move.entrant? : Move → Option Kernel.Tcb
  | .input i => i.tcb?
  | .operation op => op.entrant?

theorem Move.tcb?_of_entrant? {m : Move} {tcb : Kernel.Tcb} (h : m.entrant? = some tcb) : m.tcb? = some tcb := by
  cases m with
  | input i => exact h
  | operation op => exact Operation.tcb?_of_entrant? h

variable {s : Session} {aspect : Kernel.Aspect}

/-- A move is a run of operations, and registers no other threads than its own. -/
theorem exists_performAll_move (s : Session) (m : Move) :
    ∃ ops : List Operation, (s.move m).debuggee = s.debuggee.performAll ops ∧
      ∀ op ∈ ops, ∀ tcb, op.entrant? = some tcb → m.entrant? = some tcb := by
  cases m with
  | input i =>
    obtain ⟨ops, hops, brings⟩ := s.performs_step i
    exact ⟨ops, hops, fun op hop tcb htcb => (brings op hop).handed tcb (Operation.tcb?_of_entrant? htcb)⟩
  | operation op =>
    refine ⟨[op], rfl, fun op' hop tcb htcb => ?_⟩
    rwa [List.mem_singleton.1 hop] at htcb

theorem apart_move (h : s.debuggee.Apart) (m : Move) : (s.move m).debuggee.Apart := by
  obtain ⟨ops, hops, -⟩ := s.exists_performAll_move m
  exact hops ▸ Debuggee.apart_performAll h ops

theorem mirrored_move (h : s.debuggee.Mirrored aspect) (apart : s.debuggee.Apart) (m : Move)
    (blank : ∀ tcb, m.entrant? = some tcb → tcb.BlankIn aspect) : (s.move m).debuggee.Mirrored aspect := by
  obtain ⟨ops, hops, enters⟩ := s.exists_performAll_move m
  rw [hops]
  exact Debuggee.mirrored_performAll h apart fun op hop tcb htcb => blank tcb (enters op hop tcb htcb)

theorem mirrored_moves (h : s.debuggee.Mirrored aspect) (apart : s.debuggee.Apart) {ms : List Move}
    (blank : ∀ m ∈ ms, ∀ tcb, m.entrant? = some tcb → tcb.BlankIn aspect) :
    (s.moves ms).debuggee.Mirrored aspect := by
  induction ms generalizing s with
  | nil => exact h
  | cons m ms ih =>
    exact ih (mirrored_move h apart m (blank m List.mem_cons_self)) (apart_move apart m)
      fun m' hm => blank m' (List.mem_cons_of_mem _ hm)

/-- However a debuggee with nothing registered is moved, threads are as they are booked in one aspect, if they come in
with nothing in that aspect. -/
theorem mirrored_of_start {c : Config} {wire : Wire} (hstart : start? c wire Kernel.empty = .ok s) {ms : List Move}
    (blank : ∀ m ∈ ms, ∀ tcb, m.entrant? = some tcb → tcb.BlankIn aspect) :
    (s.moves ms).debuggee.Mirrored aspect := by
  obtain ⟨size, rfl⟩ := eq_of_start? hstart
  exact mirrored_moves (Debuggee.mirrored_empty _ _ _ aspect) (Debuggee.apart_empty _ _ _) blank

/-- If threads come in blank, a registered thread steps if it is booked as stepping, and unless it has refused to
clear a slot its slots are those of the table: slot `i` stops at an instruction if the table says so, slot `6 + i` at
a data access if the table watches for it, and no other slot is set. -/
theorem debug_state_of_moves {c : Config} {wire : Wire} (hstart : start? c wire Kernel.empty = .ok s) {ms : List Move}
    (blank : ∀ m ∈ ms, ∀ tcb, m.tcb? = some tcb → tcb.Blank) {pid tid : Nat} {inf : Inferior} {t : Thread}
    (hinf : (s.moves ms).debuggee.registry.inferior? pid = some inf) (ht : inf.threads.get? tid = some t) :
    ∃ tcb, (s.moves ms).debuggee.kernel.threads[t.cap]? = some tcb ∧ tcb.stepping = t.stepping ∧
      (¬ (s.moves ms).debuggee.kernel.ClearFailed t.cap →
        (∀ i < 6, ∀ addr, tcb.slot? (0 + i) = some ⟨addr, .fetch⟩ ↔
          inf.breakpoints.trigger? i = some ⟨addr, .fetch⟩) ∧
        (∀ i < 4, ∀ addr access size, tcb.slot? (6 + i) = some ⟨addr, .data access size⟩ ↔
          inf.breakpoints.watch? (6 + i) = some (addr, access, size)) ∧
        ∀ n trigger, tcb.slot? n = some trigger →
          (n < 6 ∧ trigger.condition = .fetch) ∨
          (6 ≤ n ∧ n < Cpu.slotCount ∧ trigger.condition ≠ .fetch)) := by
  have mirrored (aspect : Kernel.Aspect) : inf.Mirrored (s.moves ms).debuggee.kernel aspect :=
    mirrored_of_start hstart (fun m hm tcb htcb => (blank m hm tcb (Move.tcb?_of_entrant? htcb)).blankIn aspect)
      (pid, inf) (Registry.inferior?_eq_some_iff.1 hinf)
  have held : inf.breakpoints.HeldBy inf.caps (s.moves ms).debuggee.kernel := mirrored .slots
  have hmem := SlotTable.mem_toList.2 ht
  obtain ⟨tcb, htcb, steps⟩ := mirrored .stepping (t.cap, t.stepping) (List.mem_map.2 ⟨_, hmem, rfl⟩)
  refine ⟨tcb, htcb, steps, fun calm => ?_⟩
  have hcap : t.cap ∈ inf.caps := Inferior.mem_caps.2 ⟨tid, t, hmem, rfl⟩
  obtain ⟨tcb', htcb', slots⟩ := (held.holds t.cap hcap).resolve_left calm
  obtain rfl : tcb = tcb' := Option.some.inj (htcb.symm.trans htcb')
  refine ⟨fun i _ addr => ?_, fun i _ addr access size => ?_, fun n trigger htrigger => ?_⟩
  · rw [slots, Nat.zero_add]
  · rw [slots, BreakpointTable.watch?_eq_some_iff]
  · rw [slots] at htrigger
    exact held.laid.slot htrigger

/-- Two triggers are set on a stepping thread, and a third is set and removed again. -/
theorem debug_state_of_two_triggers :
    ∃ s, start? {} Wire.fresh Kernel.empty = .ok s ∧ ∃ ms : List Move,
      (∀ m ∈ ms, ∀ tcb, m.tcb? = some tcb → tcb.Blank) ∧ ∃ inf t,
        (s.moves ms).debuggee.registry.inferior? 1 = some inf ∧ inf.threads.get? 1 = some t ∧
        ¬ (s.moves ms).debuggee.kernel.ClearFailed t.cap ∧
        ∃ tcb, (s.moves ms).debuggee.kernel.threads[t.cap]? = some tcb ∧ tcb.stepping = true ∧
          tcb.slot? 0 = some ⟨0x1000, .fetch⟩ ∧ tcb.slot? 6 = some ⟨0x2000, .data .write 8⟩ ∧
          ∀ n trigger, tcb.slot? n = some trigger →
            (n < 6 ∧ trigger.condition = .fetch) ∨
            (6 ≤ n ∧ n < Cpu.slotCount ∧ trigger.condition ≠ .fetch) := by
  let ms : List Move := [.input (.addInferior 7 .fresh), .operation (.insertTrigger 1 ⟨0x1000, .fetch⟩),
    .input (.addThread 1 8 .fresh), .operation (.insertTrigger 1 ⟨0x2000, .data .write 8⟩),
    .operation (.insertTrigger 1 ⟨0x1004, .fetch⟩), .operation (.removeTrigger 1 ⟨0x1004, .fetch⟩),
    .operation (.setStepping ⟨1, 1⟩ true)]
  have blank : ∀ m ∈ ms, ∀ tcb, m.tcb? = some tcb → tcb.Blank := by
    intro m hm tcb htcb
    simp only [ms, List.mem_cons, List.not_mem_nil, or_false] at hm
    rcases hm with rfl | rfl | rfl | rfl | rfl | rfl | rfl <;> cases htcb
    exact ⟨fun _ => rfl, rfl⟩
  have calm {k : Kernel} (done : ∀ r ∈ k.history.toList, r.done = true) (cap : Kernel.ThreadCap) :
      ¬ k.ClearFailed cap := by
    rintro ⟨slot, hmem⟩
    cases done _ hmem
  let s : Session := ⟨Debuggee.empty 64 256 32, Wire.fresh, 2048, .outside, true, none, [], []⟩
  have start : start? {} Wire.fresh Kernel.empty = .ok s := rfl
  -- what the registry books
  have books : ((s.moves ms).debuggee.registry.inferior? 1).map (fun inf =>
      (inf.threads.get? 1, inf.breakpoints.trigger? 0, inf.breakpoints.watch? 6)) =
      some (some ⟨8, 0, false, true⟩, some ⟨0x1000, .fetch⟩, some (0x2000, .write, 8)) := by decide +kernel
  obtain ⟨inf, hinf, heq⟩ := Option.map_eq_some_iff.1 books
  obtain ⟨ht, hfetch, hwatch⟩ : inf.threads.get? 1 = some ⟨8, 0, false, true⟩ ∧
      inf.breakpoints.trigger? 0 = some ⟨0x1000, .fetch⟩ ∧
      inf.breakpoints.watch? 6 = some (0x2000, .write, 8) := by
    simpa only [Prod.mk.injEq] using heq
  have never := calm (k := (s.moves ms).debuggee.kernel) (by decide +kernel) 0
  obtain ⟨tcb, htcb, steps, slots⟩ := debug_state_of_moves start blank hinf ht
  obtain ⟨fetch, watch, only⟩ := slots never
  exact ⟨s, start, ms, blank, inf, _, hinf, ht, never, tcb, htcb, steps, (fetch 0 (by decide) 0x1000).2 hfetch,
    (watch 0 (by decide) 0x2000 .write 8).2 hwatch, only⟩

end Session
end RemoteDebug
