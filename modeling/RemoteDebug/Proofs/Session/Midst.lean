import RemoteDebug.Proofs.Session.Hearing

/-!
# Something in the midst of a packet

Nothing disturbs a packet that has begun, as long as its remaining bytes go to the receiver. But the report of a stop
may put a reply between them and the receiver: then they are taken for acknowledgements, and the packet is lost. It is
heard exactly if nothing is outstanding when the rest of it comes (`Session.mem_heard_iff`).
-/

namespace RemoteDebug.Session

open Packet (IsFrame Sendable)

variable {s s' : Session} {i : Input} {body : List UInt8}

/-! ## A packet with something in its midst -/

section Midst

variable {before after : List UInt8} {between late : List Input}

/-- What comes in the middle of a packet, and is nothing for the receiver, could as well have come before the packet. -/
theorem run_midst (free : s.outstanding = none) (hopen : s.receiver.Open) (sendable : Sendable s.packetSize body)
    (framed : IsFrame body (before ++ after)) (rest : after ≠ []) (unfed : s.fed between = 0)
    (quiet : (s.run between).outstanding = none) :
    s.run (before.map .byte ++ between) = (s.run between).run (before.map .byte) ∧
      s.heard (before.map .byte ++ between) = [] ∧ (s.run between).heard (before.map .byte) = [] := by
  have size := s.packetSize_run between
  have receiver := receiver_of_unfed unfed
  have silent := Packet.Receiver.run_before hopen sendable framed rest 0
  obtain ⟨begun, nothing⟩ := run_of_silent free silent
  rw [← size, ← receiver] at silent
  obtain ⟨begun', nothing'⟩ := run_of_silent quiet silent
  rw [size, receiver] at begun'
  refine ⟨?_, ?_, nothing'⟩
  · rw [run_append, begun, run_withReceiver _ unfed, begun']
  · rw [heard_append, begun, nothing, heard_of_unfed (unfed_withReceiver _ unfed)]
    rfl

/-- A packet comes through what is nothing for the receiver if no reply is outstanding when the rest of it comes. -/
theorem heard_midst (free : s.outstanding = none) (hopen : s.receiver.Open) (sendable : Sendable s.packetSize body)
    (framed : IsFrame body (before ++ after)) (rest : after ≠ []) (unfed : s.fed between = 0)
    (quiet : (s.run between).outstanding = none) :
    s.heard (before.map .byte ++ between ++ after.map .byte) = [body] ∧
      s.run (before.map .byte ++ between ++ after.map .byte) = (s.run between).run ((before ++ after).map .byte) := by
  obtain ⟨run, nothing, nothing'⟩ := run_midst free hopen sendable framed rest unfed quiet
  have whole := (heard_frame quiet (receiver_of_unfed unfed ▸ hopen) (s.packetSize_run between ▸ sendable) framed).1
  rw [List.map_append, heard_append, nothing', List.nil_append] at whole
  refine ⟨?_, ?_⟩
  · rw [heard_append, nothing, run, whole, List.nil_append]
  · rw [run_append, run, List.map_append, run_append]

/-- If a reply is outstanding when the rest of a packet comes, the packet is lost. -/
theorem not_mem_heard_midst (free : s.outstanding = none) (framed : IsFrame body (before ++ after))
    (begun : before ≠ []) (rest : after ≠ []) (unfed : (s.run (before.map .byte)).fed between = 0)
    (unfed' : (s.run (before.map .byte ++ between ++ after.map .byte)).fed late = 0)
    (lost : s.receiver.Open → (s.run (before.map .byte ++ between)).outstanding ≠ none) :
    body ∉ s.heard (before.map .byte ++ between ++ after.map .byte ++ late) := by
  intro found
  obtain ⟨b, front, rfl⟩ := List.exists_cons_of_ne_nil begun
  obtain ⟨high, low, split, -⟩ := framed
  obtain ⟨rfl, split⟩ := List.cons.inj (split.trans (List.cons_append ..))
  have lengths := congrArg List.length split
  simp only [List.length_append, List.length_cons, List.length_nil] at lengths
  simp only [List.map_cons, List.cons_append, heard, run_cons, run_append] at found unfed unfed' lost
  -- the rest of the run falls short of the bytes that are missing after the opening mark
  have opening : s.packet? (.byte Packet.opening) ≠ some body := fun now =>
    Packet.Receiver.not_packet_of_opening s.receiver (packet?_eq_some_iff.1 now).2
  have later := (List.mem_append.1 found).resolve_left fun now => opening (Option.mem_toList.1 now)
  have needed := missing_le_fed later
  have before := (s.step (.byte Packet.opening)).fed_le_length (front.map .byte)
  simp only [fed_append, run_append, unfed', unfed, receiver_step_of_free free] at needed
  rw [List.length_map] at before
  by_cases hopen : s.receiver.Open
  · have swallowed := fed_lt_length (lost hopen) rest
    rw [Packet.Receiver.step_opening hopen, Packet.Receiver.missing_opened] at needed
    omega
  · have after := ((s.step (.byte Packet.opening)).run (front.map .byte ++ between)).fed_le_length (after.map .byte)
    rw [Packet.Receiver.missing_of_not_open hopen] at needed
    simp only [run_append, List.length_map] at after
    omega

/-- A packet with something in its midst that is nothing for the receiver is heard exactly if the receiver was not in
the middle of another packet's checksum, and no reply is outstanding when the rest of it comes. -/
theorem mem_heard_iff (free : s.outstanding = none) (sendable : Sendable s.packetSize body)
    (framed : IsFrame body (before ++ after)) (begun : before ≠ []) (rest : after ≠ [])
    (unfed : (s.run (before.map .byte)).fed between = 0)
    (unfed' : (s.run (before.map .byte ++ between ++ after.map .byte)).fed late = 0) :
    body ∈ s.heard (before.map .byte ++ between ++ after.map .byte ++ late) ↔
      s.receiver.Open ∧ (s.run between).outstanding = none := by
  -- what comes in the midst does the same before the packet
  have front (hopen : s.receiver.Open) :
      s.fed between = 0 ∧ (s.run (before.map .byte ++ between)).outstanding = (s.run between).outstanding := by
    have start := (run_of_silent free (Packet.Receiver.run_before hopen sendable framed rest 0)).1
    rw [start] at unfed
    have unfed := unfed_withReceiver s.receiver unfed
    change s.fed between = 0 at unfed
    refine ⟨unfed, ?_⟩
    rw [run_append, start, run_withReceiver _ unfed]
    rfl
  constructor
  · intro found
    by_contra other
    refine not_mem_heard_midst free framed begun rest unfed unfed' (fun hopen quiet => other ⟨hopen, ?_⟩) found
    rw [← (front hopen).2]
    exact quiet
  · rintro ⟨hopen, quiet⟩
    rw [heard_append, (heard_midst free hopen sendable framed rest (front hopen).1 quiet).1]
    exact List.mem_append_left _ (List.mem_singleton_self body)

end Midst

/-! ## Reports in the middle of a packet -/

section Report

/-- A report leaves a reply outstanding where none was exactly if it is accepted while threads run. -/
theorem outstanding_noted {accepted : Option StopReason} (h : Noted s i accepted s') (free : s.outstanding = none) :
    s'.outstanding = none ↔ (s.running = true → accepted = none) := by
  cases h with
  | ignored => simp [free]
  | reported _ _ _ _ _ report =>
    cases report with
    | told runs _ reply =>
      have runs : s.running = true := runs
      cases reply with
      | sent => simp [runs, Except.toOption]
      | failed => simp [halt, free, Except.toOption]
    | queued waits =>
      have halted : ¬ s.running = true := fun runs => waits runs free
      simp [free, halted]

/-- A report that leaves no reply outstanding has sent nothing. -/
theorem wire_noted {accepted : Option StopReason} (h : Noted s i accepted s') (order : s.wire.InOrder)
    (quiet : s'.outstanding = none) : s'.wire = s.wire := by
  cases h with
  | ignored => rfl
  | reported _ _ _ _ _ report =>
    cases report with
    | told _ _ reply =>
      cases reply with
      | sent => cases quiet
      | failed sends => exact (sends order).2
    | queued => rfl

/-- A report of the kernel in the middle of a packet, and the rest of the packet after it, and then only what is nothing
for the receiver, such as acknowledgements of what is outstanding. The packet is lost if threads run and the report is
accepted: the client is told of the stop at once, and the rest of the packet is taken for acknowledgements. Otherwise
the report disturbs nothing. Unless the receiver was in the middle of another packet's checksum, the packet is heard
once, it is acknowledged, and all is as if the report had come just before it. -/
theorem packet_heard_iff_not_told {before after : List UInt8} {late : List Input} (free : s.outstanding = none)
    (sendable : Sendable s.packetSize body) (framed : IsFrame body (before ++ after)) (begun : before ≠ [])
    (rest : after ≠ []) (reports : i.Reports)
    (unfed : (s.run (before.map .byte ++ [i] ++ after.map .byte)).fed late = 0) :
    (body ∈ s.heard (before.map .byte ++ [i] ++ after.map .byte ++ late) ↔
      s.receiver.Open ∧ (s.running = true → s.accepted? i = none)) ∧
    (s.receiver.Open → (s.running = true → s.accepted? i = none) →
      s.heard (before.map .byte ++ [i] ++ after.map .byte ++ late) = [body] ∧
        s.run (before.map .byte ++ [i] ++ after.map .byte) = s.run (i :: (before ++ after).map .byte) ∧
        (s.wire.InOrder → ∃ reply, (s.run (before.map .byte ++ [i] ++ after.map .byte)).wire =
          s.wire.append (acknowledgement body ++ frames reply))) := by
  have silent (t : Session) : t.fed [i] = 0 := by
    cases i <;> first | rfl | exact reports.elim
  have noted := noted_of_reports (s := s) reports
  have quiet : (s.run [i]).outstanding = none ↔ (s.running = true → s.accepted? i = none) :=
    outstanding_noted noted free
  refine ⟨?_, fun hopen untold => ?_⟩
  · rw [← quiet]
    exact mem_heard_iff free sendable framed begun rest (silent _) unfed
  · obtain ⟨heard, same⟩ := heard_midst free hopen sendable framed rest (silent s) (quiet.2 untold)
    refine ⟨?_, same, fun order => ?_⟩
    · rw [heard_append, heard, heard_of_unfed unfed]
      rfl
    · have unsent : (s.run [i]).wire = s.wire := wire_noted noted order (quiet.2 untold)
      have receiver := receiver_of_unfed (silent s)
      have size := s.packetSize_run [i]
      rw [same, ← unsent]
      exact (heard_frame (quiet.2 untold) (receiver ▸ hopen) (size ▸ sendable) framed).2 (unsent ▸ order)

/-- A fault in the middle of a question while threads are stopped. -/
theorem fault_amid_question_while_stopped :
    ∃ s, start? {} Wire.fresh Kernel.empty = .ok s ∧
      let stopped := s.run [.addInferior 7 .fresh, .addThread 1 8 .fresh, .byte Packet.interruption,
        .byte Packet.acceptance]
      let asks := (ascii "$qC#").map .byte ++ [.fault 7 8 .softwareBreak] ++ (ascii "b4").map .byte
      stopped.outstanding = none ∧ (stopped.accepted? (.fault 7 8 .softwareBreak)).isSome = true ∧
        stopped.heard (asks ++ [.byte Packet.acceptance]) = [ascii "qC"] ∧
        stopped.run asks = stopped.run (.fault 7 8 .softwareBreak :: (ascii "$qC#b4").map .byte) := by
  let s : Session := ⟨Debuggee.empty 64 256 32, Wire.fresh, 2048, .outside, true, none, [], []⟩
  refine ⟨s, rfl, ?_⟩
  intro stopped asks
  have framed : IsFrame (ascii "qC") (ascii "$qC#" ++ ascii "b4") :=
    ⟨'b'.toUInt8, '4'.toUInt8, by decide, by decide⟩
  have disturbs := (@packet_heard_iff_not_told stopped (.fault 7 8 .softwareBreak) (ascii "qC") (ascii "$qC#")
    (ascii "b4") [.byte Packet.acceptance] (by decide +kernel) (by decide +kernel) framed (by decide) (by decide)
    trivial (by decide +kernel)).2
  obtain ⟨heard, same, -⟩ := disturbs (by decide +kernel) (by decide +kernel)
  exact ⟨by decide +kernel, by decide +kernel, heard, same⟩

/-- A fault in the middle of a question while threads run. What is left of the question has the stop reply sent twice
more, the client acknowledges it, and nothing is outstanding any more; but the question has been neither acknowledged
nor heard. -/
theorem fault_amid_question_loses_it :
    ∃ s, start? {} Wire.fresh Kernel.empty = .ok s ∧
      let runs := s.run [.addInferior 7 .fresh, .addThread 1 8 .fresh]
      let asks := (ascii "$qC#").map .byte ++ [.fault 7 8 .softwareBreak] ++ (ascii "b4").map .byte
      let stop := Packet.frame (StopReason.softwareBreak ⟨1, 1⟩).written
      runs.outstanding = none ∧ IsFrame (ascii "qC") (ascii "$qC#" ++ ascii "b4") ∧
        Sendable runs.packetSize (ascii "qC") ∧ runs.receiver.Open ∧
        (runs.run asks).outstanding = some ⟨stop, false⟩ ∧
        ((runs.run asks).step (.byte Packet.acceptance)).outstanding = none ∧
        runs.heard (asks ++ [.byte Packet.acceptance]) = [] ∧
        (runs.run (asks ++ [.byte Packet.acceptance])).wire = Wire.fresh.append (stop ++ stop ++ stop) ∧
        Packet.acceptance ∉ stop := by
  let s : Session := ⟨Debuggee.empty 64 256 32, Wire.fresh, 2048, .outside, true, none, [], []⟩
  refine ⟨s, rfl, ?_⟩
  intro runs asks stop
  have framed : IsFrame (ascii "qC") (ascii "$qC#" ++ ascii "b4") :=
    ⟨'b'.toUInt8, '4'.toUInt8, by decide, by decide⟩
  exact ⟨by decide +kernel, framed, by decide +kernel,
    trivial, by decide +kernel, by decide +kernel, by decide +kernel, by decide +kernel, by decide +kernel⟩

end Report

end RemoteDebug.Session
