import RemoteDebug.Proofs.Session.Mirror
import RemoteDebug.Proofs.Session.StopReply

/-!
# Faults are told as they are

A data breakpoint that a thread has met in one of its debug slots is told as a watchpoint exactly if this slot of this
thread watches for data, and with the access that it watches for; otherwise it is told as a plain trap
(`Kernel.Tcb.Decides`). The stop is made up from the table of the inferior and not from the thread, but they agree as
long as the thread has not refused to clear a slot (`Debuggee.Mirrored.slots`). Two different stops never have the same
reply (`StopReason.eq_of_render`).
-/

namespace RemoteDebug

/-! ## Replies of different stops differ -/

/-- The reply of a stop tells which stop it is. -/
theorem StopReason.eq_of_render {a b : StopReason} {capacity : Nat} {payload : List UInt8} (ha : a.Valid) (hb : b.Valid)
    (first : Reply.render capacity a.pieces = some payload) (second : Reply.render capacity b.pieces = some payload) :
    a = b := by
  have spelled {stop : StopReason} (h : Reply.render capacity stop.pieces = some payload) : stop.written = payload :=
    Option.some.inj (stop.encoding?_pieces.symm.trans (Reply.render_eq_some_iff.1 h).1)
  have same : StopReason.parse? a.written = StopReason.parse? b.written := by rw [spelled first, spelled second]
  rwa [parse?_written ha, parse?_written hb, Option.some.injEq] at same

/-! ## The slot of the thread decides -/

/-- A debug slot of a thread watches for data accesses of a kind. -/
def Kernel.Tcb.Watches (tcb : Kernel.Tcb) (slot : Nat) (access : Cpu.Access) : Prop :=
  ∃ addr size, tcb.slot? slot = some ⟨addr, .data access size⟩

/-- The slots of a thread decide how a data breakpoint of the thread is told: as a watchpoint of the access that its
slot watches for, and as a plain trap if the slot watches for nothing. No other fault is told as a watchpoint. -/
structure Kernel.Tcb.Decides (tcb : Kernel.Tcb) (r : Registry) (t : Ptid) : Prop where
  watched : ∀ slot addr access,
    StopReason.ofFault r t (.dataBreakpoint slot addr) = .watch t access addr ↔ tcb.Watches slot access
  plain : ∀ slot addr,
    StopReason.ofFault r t (.dataBreakpoint slot addr) = .signal t .trap ↔ ∀ access, ¬ tcb.Watches slot access
  watch_of_fault : ∀ fault name access addr, StopReason.ofFault r t fault = .watch name access addr →
    name = t ∧ ∃ slot, fault = .dataBreakpoint slot addr

/-- A thread that has the slots of its inferior's table decides. -/
theorem Kernel.Tcb.decides_of_slots {tcb : Kernel.Tcb} {r : Registry} {t : Ptid} {inf : Inferior}
    (hinf : r.inferior? t.pid = some inf) (same : tcb.slot? = inf.breakpoints.trigger?) : tcb.Decides r t := by
  have watches (slot : Nat) (access : Cpu.Access) : tcb.Watches slot access ↔
      ∃ addr size, inf.breakpoints.watch? slot = some (addr, access, size) := by
    simp only [Watches, same, BreakpointTable.watch?_eq_some_iff]
  constructor
  case watched =>
    intro slot addr access
    simp only [watches, StopReason.ofFault, hinf, Option.bind_some]
    rcases inf.breakpoints.watch? slot with - | ⟨place, access', size⟩ <;> simp
  case plain =>
    intro slot addr
    simp only [watches, StopReason.ofFault, hinf, Option.bind_some]
    rcases inf.breakpoints.watch? slot with - | ⟨place, access', size⟩ <;> simp
  case watch_of_fault =>
    intro fault name access addr h
    cases fault with
    | dataBreakpoint slot addr' =>
      simp only [StopReason.ofFault, hinf, Option.bind_some] at h
      split at h
      · cases h
        exact ⟨rfl, slot, rfl⟩
      · cases h
    | instructionBreakpoint | singleStep | softwareBreak | other => cases h

/-- A registered thread that has never refused to clear a slot has the slots of its inferior's table. -/
theorem Debuggee.Mirrored.slots {d : Debuggee} (h : d.Mirrored .slots) {pid tid : Nat} {inf : Inferior} {t : Thread}
    (hinf : d.registry.inferior? pid = some inf) (ht : inf.threads.get? tid = some t)
    (calm : ¬ d.kernel.ClearFailed t.cap) :
    ∃ tcb, d.kernel.threads[t.cap]? = some tcb ∧ tcb.slot? = inf.breakpoints.trigger? := by
  have held : inf.breakpoints.HeldBy inf.caps d.kernel := h (pid, inf) (Registry.inferior?_eq_some_iff.1 hinf)
  have hcap : t.cap ∈ inf.caps := Inferior.mem_caps.2 ⟨tid, t, SlotTable.mem_toList.2 ht, rfl⟩
  exact (held.holds t.cap hcap).resolve_left calm

namespace Session

/-- Whatever has happened to a debuggee whose threads came in with empty slots, the slots of a registered thread that
has never refused to clear one decide how its data breakpoints are told. Stops that differ in anything have different
replies, and there is a reply as soon as there is room for 86 bytes. -/
theorem faults_told_faithfully {s : Session} {c : Config} {wire : Wire} (hstart : start? c wire Kernel.empty = .ok s)
    {ms : List Move} (clear : ∀ m ∈ ms, ∀ tcb, m.entrant? = some tcb → tcb.Clear) :
    (∀ pid inf tid t, (s.moves ms).debuggee.registry.inferior? pid = some inf → inf.threads.get? tid = some t →
      ¬ (s.moves ms).debuggee.kernel.ClearFailed t.cap →
        ∃ tcb, (s.moves ms).debuggee.kernel.threads[t.cap]? = some tcb ∧
          tcb.Decides (s.moves ms).debuggee.registry ⟨pid, tid⟩) ∧
      (∀ capacity a b payload, a.Valid → b.Valid → Reply.render capacity (StopReason.pieces a) = some payload →
        Reply.render capacity (StopReason.pieces b) = some payload → a = b) ∧
      ∀ capacity a, 86 ≤ capacity → StopReason.Valid a → (Reply.render capacity a.pieces).isSome := by
  have mirrored : (s.moves ms).debuggee.Mirrored .slots := mirrored_of_start hstart clear
  refine ⟨fun pid inf tid t hinf ht calm => ?_, fun capacity a b payload => StopReason.eq_of_render,
    fun capacity a room valid => ?_⟩
  · obtain ⟨tcb, object, same⟩ := mirrored.slots hinf ht calm
    exact ⟨tcb, object, Kernel.Tcb.decides_of_slots hinf same⟩
  · rw [StopReason.render_pieces room valid]
    rfl

/-- A data breakpoint in a slot that watches for writes is told as a watchpoint with the address that was written to.
One in the next slot, which has been emptied again, and one beyond the last slot are plain traps. The thread comes in
stepping. -/
theorem fault_in_watching_slot :
    ∃ s, start? {} Wire.fresh Kernel.empty = .ok s ∧ ∃ ms : List Move,
      (∀ m ∈ ms, ∀ tcb, m.entrant? = some tcb → tcb.Clear) ∧
        let r := (s.moves ms).debuggee.registry
        StopReason.ofFault r ⟨1, 1⟩ (.dataBreakpoint 6 0x2004) = .watch ⟨1, 1⟩ .write 0x2004 ∧
          (∃ tcb, (s.moves ms).debuggee.kernel.threads[0]? = some tcb ∧ tcb.Watches 6 .write ∧
            ∀ access, ¬ tcb.Watches 7 access ∧ ¬ tcb.Watches 12 access) ∧
          ∃ written plain, Reply.render 86 (StopReason.watch ⟨1, 1⟩ .write 0x2004).pieces = some written ∧
            Reply.render 86 (StopReason.signal ⟨1, 1⟩ .trap).pieces = some plain ∧ written ≠ plain := by
  let ms : List Move := [.input (.addInferior 7 .fresh),
    .input (.addThread 1 8 { Kernel.Tcb.fresh with stepping := true }),
    .operation (.insertTrigger 1 ⟨0x2000, .data .write 8⟩),
    .operation (.insertTrigger 1 ⟨0x3000, .data .read 4⟩),
    .operation (.removeTrigger 1 ⟨0x3000, .data .read 4⟩)]
  have clear : ∀ m ∈ ms, ∀ tcb, m.entrant? = some tcb → tcb.Clear := by
    intro m hm tcb htcb
    simp only [ms, List.mem_cons, List.not_mem_nil, or_false] at hm
    rcases hm with rfl | rfl | rfl | rfl | rfl <;> cases htcb
    exact fun _ => rfl
  let s : Session := ⟨Debuggee.empty 64 256 32, Wire.fresh, 2048, .outside, true, none, [], []⟩
  have start : start? {} Wire.fresh Kernel.empty = .ok s := rfl
  have books : ((s.moves ms).debuggee.registry.inferior? 1).map (·.threads.get? 1) =
      some (some ⟨8, 0, false, false⟩) := by
    decide +kernel
  obtain ⟨inf, hinf, ht⟩ := Option.map_eq_some_iff.1 books
  have calm : ¬ (s.moves ms).debuggee.kernel.ClearFailed 0 := by
    rintro ⟨slot, hmem⟩
    have done : ∀ r ∈ (s.moves ms).debuggee.kernel.history.toList, r.done = true := by decide +kernel
    cases done _ hmem
  obtain ⟨decides, differ, fits⟩ := faults_told_faithfully start clear
  obtain ⟨tcb, object, decides⟩ := decides 1 inf 1 _ hinf ht calm
  have told : StopReason.ofFault (s.moves ms).debuggee.registry ⟨1, 1⟩ (.dataBreakpoint 6 0x2004) =
      .watch ⟨1, 1⟩ .write 0x2004 := by decide +kernel
  have emptied : StopReason.ofFault (s.moves ms).debuggee.registry ⟨1, 1⟩ (.dataBreakpoint 7 0x3000) =
      .signal ⟨1, 1⟩ .trap := by decide +kernel
  have beyond : StopReason.ofFault (s.moves ms).debuggee.registry ⟨1, 1⟩ (.dataBreakpoint 12 0x3000) =
      .signal ⟨1, 1⟩ .trap := by decide +kernel
  have valid (stop : StopReason) (h : stop.threads = [⟨1, 1⟩]) : stop.Valid := by
    intro t ht
    rw [h, List.mem_singleton] at ht
    subst ht
    exact ⟨by decide, by decide⟩
  have watchValid := valid (.watch ⟨1, 1⟩ .write 0x2004) rfl
  have trapValid := valid (.signal ⟨1, 1⟩ .trap) rfl
  obtain ⟨written, first⟩ := Option.isSome_iff_exists.1 (fits 86 _ (Nat.le_refl 86) watchValid)
  obtain ⟨plain, second⟩ := Option.isSome_iff_exists.1 (fits 86 _ (Nat.le_refl 86) trapValid)
  refine ⟨s, start, ms, clear, told,
    ⟨tcb, object, (decides.watched 6 0x2004 .write).1 told, fun access => ⟨?_, ?_⟩⟩,
    written, plain, first, second, ?_⟩
  · exact (decides.plain 7 0x3000).1 emptied access
  · exact (decides.plain 12 0x3000).1 beyond access
  · rintro rfl
    cases differ 86 _ _ written watchValid trapValid first second

end Session
end RemoteDebug
