import RemoteDebug.Proofs.Debuggee.Release
import RemoteDebug.Proofs.Session.Mirror
import RemoteDebug.Proofs.Session.Resumption
import RemoteDebug.Proofs.Session.Traps

/-!
# When the client leaves

A client that leaves lets go of everything. Whatever calls are refused, nothing is recorded of any inferior afterwards
and every thread has been resumed once (`Session.LetsGo`). If no call was ever refused, then threads run freely, and the
memory of an inferior is what it came in with and what the client wrote (`Session.everything_let_go`).
-/

namespace RemoteDebug.Session

open Kernel

variable {s s₀ : Session} {b : UInt8} {i : Input} {inputs : List Input} {pid : Nat} {inf : Inferior}

/-! ## Where an inferior comes from -/

/-- An inferior that is there after an input was there before, or has come in by it with a bare table. -/
theorem registered_step {maxPatches : Nat} (sited : s.Sited maxPatches)
    (h : (s.step i).debuggee.registry.inferior? pid = some inf) :
    (i ≠ .disable pid ∧ ∃ inf', s.debuggee.registry.inferior? pid = some inf') ∨
      ∃ native space, i = .addInferior native space ∧
        (s.step i).image? pid = some (BreakpointTable.empty maxPatches, space.memory) := by
  by_cases keeps : i.KeepsPlaces
  · have place : (pid, inf.space) ∈ (s.step i).debuggee.registry.places := Registry.mem_places.2 ⟨inf, h, rfl⟩
    rw [(s.touched_step keeps).places_eq] at place
    obtain ⟨inf', hinf', -⟩ := Registry.mem_places.1 place
    refine .inl ⟨?_, inf', hinf'⟩
    rintro rfl
    exact keeps
  · cases i with
    | addInferior native space =>
      rcases Debuggee.inferior?_addInferior h with old | ⟨bare, mapped⟩
      · exact .inl ⟨nofun, inf, old⟩
      · exact .inr ⟨native, space, rfl, image?_eq_some_iff.2 ⟨inf, h, sited.tidy.places ▸ bare, mapped⟩⟩
    | disable pid' =>
      refine .inl ⟨?_, inf, Debuggee.inferior?_disable h⟩
      rintro ⟨⟩
      cases (s.debuggee.inferior?_disable_self pid).symm.trans h
    | _ => exact absurd trivial keeps

/-- A registered inferior has come in with a bare table, and has stayed since. -/
theorem exists_arrival {c : Config} {wire : Wire} (hstart : start? c wire Kernel.empty = .ok s₀)
    (h : (s₀.run inputs).debuggee.registry.inferior? pid = some inf) :
    ∃ before native space after, inputs = before ++ .addInferior native space :: after ∧ .disable pid ∉ after ∧
      (s₀.run (before ++ [.addInferior native space])).image? pid =
        some (BreakpointTable.empty c.maxPatches, space.memory) := by
  induction inputs using List.reverseRecOn generalizing inf with
  | nil =>
    obtain ⟨size, rfl⟩ := eq_of_start? hstart
    have listed := Registry.inferior?_eq_some_iff.1 h
    simp [Registry.empty] at listed
  | append_singleton inputs i ih =>
    have sited : (s₀.run inputs).Sited c.maxPatches := sited_run (sited_start hstart) inputs
    rw [run_append] at h
    rcases registered_step sited h with ⟨stays, inf', hinf'⟩ | ⟨native, space, rfl, image⟩
    · obtain ⟨before, native, space, after, rfl, stayed, image⟩ := ih hinf'
      refine ⟨before, native, space, after ++ [i], by simp, ?_, image⟩
      rintro hmem
      rcases List.mem_append.1 hmem with old | new
      · exact stayed old
      · exact stays (List.mem_singleton.1 new).symm
    · refine ⟨inputs, native, space, [], rfl, List.not_mem_nil, ?_⟩
      rw [run_append]
      exact image

/-! ## Letting go -/

/-- What a client that leaves leaves behind, whatever calls are refused. -/
structure LetsGo (s : Session) (b : UInt8) : Prop where
  left : (s.receive b).1 = .ok (some .detached)
  reply : ∃ acknowledgement, Packet.opening ∉ acknowledgement ∧
    s.sends (.byte b) = acknowledgement ++ Packet.frame (ascii "OK")
  running : (s.step (.byte b)).running = true
  queue : (s.step (.byte b)).queue = []
  roster : (s.step (.byte b)).debuggee.registry.roster = s.debuggee.registry.roster
  bare : ∀ pid inf, (s.step (.byte b)).debuggee.registry.inferior? pid = some inf → inf.breakpoints.breakpoints = []
  asleep : (s.step (.byte b)).debuggee.Asleep
  resumed : ∀ t thread, (s.step (.byte b)).debuggee.registry.thread? t = some thread →
    ∃ done, (s.calls (.byte b)).filter (·.call = .thread thread.cap .resume) =
    [⟨.thread thread.cap .resume, done⟩]

theorem receive_detach {target : Option Nat} (order : s.wire.InOrder) (clean : s.receiver.Clean)
    (room : 2 ≤ s.packetSize) (asks : s.command? b = some (.detach target)) :
    ∃ body, Packet.opening ∉ acknowledgement body ∧ s.receive b = (.ok (some .detached),
      { s.hear b body with
        debuggee := s.debuggee.release
        queue := []
        wire := s.wire.append (acknowledgement body ++ Packet.frame (ascii "OK"))
        outstanding := some ⟨Packet.frame (ascii "OK"), false⟩
        running := true }) := by
  obtain ⟨body, -, plain, parsed, carriedOut⟩ := receive_of_command order clean asks
  refine ⟨body, plain, ?_⟩
  let released : Session := { s.hear b body with debuggee := s.debuggee.release, queue := [] }
  have fits : released.render [.text (ascii "OK")] = some (ascii "OK") :=
    Reply.render_text (Nat.le_trans (by decide) room)
  have answered : (s.hear b body).handleBody (Packet.splitSequenceId body).2 =
      (released.sendReply? (released.render [.text (ascii "OK")])).andThen fun _ s =>
        (.ok (some .detached), { s with running := true }) := by
    simp only [handleBody, respond, parsed]
    rfl
  rw [carriedOut, answered, fits, sendReply?_of_order (s := released) (order.append _)]
  simp only [Outcome.andThen, ← Wire.append_append]
  rfl

theorem letsGo_detach {maxPatches : Nat} {target : Option Nat} (hs : s.Legible) (tidy : s.debuggee.Tidy maxPatches)
    (distinct : s.debuggee.registry.Distinct) (room : 2 ≤ s.packetSize)
    (asks : s.command? b = some (.detach target)) : s.LetsGo b := by
  obtain ⟨body, plain, received⟩ := receive_detach hs.order hs.clean room asks
  have after : (s.step (.byte b)).debuggee = s.debuggee.release := congrArg (·.2.debuggee) received
  constructor
  case left => rw [received]
  case reply => exact ⟨acknowledgement body, plain, sends_eq (congrArg (·.2.wire) received)⟩
  case running => exact congrArg (·.2.running) received
  case queue => exact congrArg (·.2.queue) received
  case roster =>
    rw [after, Debuggee.release_eq]
    exact Registry.roster_of_outline_eq (Debuggee.outline_resumeWoken.trans Debuggee.outline_cleared)
  case bare =>
    rw [after]
    exact fun pid inf hinf => Debuggee.bare_release tidy hinf
  case asleep =>
    rw [after]
    exact Debuggee.asleep_release _
  case resumed =>
    rw [calls, after]
    exact fun t thread ht => Debuggee.resumed_release distinct ht

theorem mirrored_run {c : Config} {wire : Wire} (hstart : start? c wire Kernel.empty = .ok s₀)
    (blank : ∀ i ∈ inputs, ∀ tcb, i.tcb? = some tcb → tcb.Blank) (aspect : Kernel.Aspect) :
    (s₀.run inputs).debuggee.Mirrored aspect := by
  have moved : s₀.moves (inputs.map .input) = s₀.run inputs := List.foldl_map
  rw [← moved]
  refine mirrored_of_start hstart fun m hm tcb htcb => ?_
  obtain ⟨i, hi, rfl⟩ := List.mem_map.1 hm
  exact (blank i hi tcb htcb).blankIn aspect

/-- The memory of an inferior of which nothing is recorded any more is what it came in with and what the client wrote,
if instructions are aligned and no trap is written over. -/
theorem memory_of_bare {maxPatches size : Nat} {clean : Memory} (spares : s.Spares pid inputs)
    (sited : s.Sited maxPatches) (arrived : s.image? pid = some (BreakpointTable.empty size, clean))
    (aligned : ∀ p ∈ s.takenOff pid inputs, p.addr.toNat % 4 = 0) (beside : ∀ w ∈ s.writes pid inputs, w.Beside)
    (hinf : (s.run inputs).debuggee.registry.inferior? pid = some inf) (bare : inf.breakpoints.breakpoints = []) :
    (s.run inputs).debuggee.kernel.memory? inf.space = some (clean.overwrite (s.writes pid inputs)) := by
  have none_yet : (BreakpointTable.empty size).patchList = [] := by
    simp [BreakpointTable.empty, BreakpointTable.patchList]
  have none_left : inf.breakpoints.patchList = [] := by
    rw [BreakpointTable.breakpoints, List.append_eq_nil_iff, List.map_eq_nil_iff] at bare
    exact bare.1
  have image_of {t : BreakpointTable} {m : Memory} (h : (s.run inputs).image? pid = some (t, m)) :
      t = inf.breakpoints ∧ (s.run inputs).debuggee.kernel.memory? inf.space = some m := by
    obtain ⟨inf', hinf', rfl, hm⟩ := image?_eq_some_iff.1 h
    obtain rfl := Option.some.inj (hinf.symm.trans hinf')
    exact ⟨rfl, hm⟩
  -- the inferior is there at the end, with some memory
  obtain ⟨t, m, image⟩ : ∃ t m, (s.run inputs).image? pid = some (t, m) := spares.image sited arrived
  have left : (s.run inputs).traps pid = [] := by rw [traps_eq image, (image_of image).1, none_left]
  obtain ⟨t', m', image', lies⟩ := overlays_run spares sited arrived beside aligned left (.refl none_yet clean)
  obtain ⟨rfl, hm'⟩ := image_of image'
  rw [hm', lies.eq_of_patchList_eq_nil none_left]

/-! ## Everything is let go of -/

/-- A client that leaves lets go of everything, whatever calls are refused. If none ever was, then threads that came in
blank are blank again and run; and an inferior that came in with some memory has that memory, with what the client has
written since, as long as instructions are aligned and no trap was written over. -/
theorem everything_let_go {c : Config} {wire : Wire} {target : Option Nat}
    (hstart : start? c wire Kernel.empty = .ok s₀) (order : wire.InOrder) (room : 2 ≤ s₀.packetSize)
    (keeps : ∀ i ∈ inputs, i.KeepsOrder) (hs : s₀.run inputs = s) (asks : s.command? b = some (.detach target)) :
    s.LetsGo b ∧ ((s.step (.byte b)).debuggee.kernel.Obeyed →
      ((∀ i ∈ inputs, ∀ tcb, i.tcb? = some tcb → tcb.Blank) →
        ∀ t thread, (s.step (.byte b)).debuggee.registry.thread? t = some thread →
          ∃ tcb, (s.step (.byte b)).debuggee.kernel.threads[thread.cap]? = some tcb ∧ tcb.Blank ∧
            tcb.suspended = false) ∧
      ∀ pid inf, (s.step (.byte b)).debuggee.registry.inferior? pid = some inf → ∃ before native space since,
        inputs = before ++ .addInferior native space :: since ∧ .disable pid ∉ since ∧
        let arrived := s₀.run (before ++ [.addInferior native space])
        let rest := since ++ [.byte b]
        arrived.image? pid = some (BreakpointTable.empty c.maxPatches, space.memory) ∧
          ((∀ p ∈ arrived.takenOff pid rest, p.addr.toNat % 4 = 0) →
          (∀ w ∈ arrived.writes pid rest, w.Beside) →
            ∃ m, (s.step (.byte b)).debuggee.kernel.memory? inf.space = some m ∧
              m = space.memory.overwrite (arrived.writes pid rest) ∧
              ∀ a, (∀ w ∈ arrived.writes pid rest, ¬ w.Reaches a) → m.byte? a = space.memory.byte? a)) := by
  have legible : s.Legible := hs ▸ legible_run (legible_start hstart order) keeps
  have sited : s.Sited c.maxPatches := hs ▸ sited_run (sited_start hstart) inputs
  have distinct : s.debuggee.registry.Distinct := hs ▸ (apart_run hstart inputs).distinct
  have room' : 2 ≤ s.packetSize := by rwa [← hs, packetSize_run]
  have lets : s.LetsGo b := letsGo_detach legible sited.tidy distinct room' asks
  refine ⟨lets, fun obeyed => ⟨fun blank t thread ht => ?_, fun pid inf hinf => ?_⟩⟩
  · obtain ⟨body, -, received⟩ := receive_detach legible.order legible.clean room' asks
    have after : (s.step (.byte b)).debuggee = s.debuggee.release := congrArg (·.2.debuggee) received
    have mirrored (aspect : Kernel.Aspect) : s.debuggee.Mirrored aspect := hs ▸ mirrored_run hstart blank aspect
    rw [after] at obeyed ht ⊢
    obtain ⟨tcb, htcb, slots, steps, runs⟩ := Debuggee.free_release mirrored sited.tidy distinct obeyed ht
    exact ⟨tcb, htcb, ⟨slots, steps⟩, runs⟩
  · obtain ⟨-, inf', hinf'⟩ := (registered_step sited hinf).resolve_right nofun
    obtain ⟨before, native, space, since, rfl, stays, image⟩ := exists_arrival hstart (hs.symm ▸ hinf')
    refine ⟨before, native, space, since, rfl, stays, ?_⟩
    intro arrived rest
    refine ⟨image, fun aligned beside => ?_⟩
    have reached : arrived.run rest = s.step (.byte b) := by simp [arrived, rest, ← hs, run_append]
    have spares : arrived.Spares pid rest := by
      have arriving : ∀ i ∈ before ++ [Input.addInferior native space], i.KeepsOrder := fun i hi =>
        keeps i (by simp only [List.mem_append, List.mem_cons, List.not_mem_nil, or_false] at hi ⊢; tauto)
      have resting : ∀ i ∈ rest, i.KeepsOrder := fun i hi => by
        rcases List.mem_append.1 hi with old | new
        · exact keeps i (List.mem_append_right _ (List.mem_cons_of_mem _ old))
        · rw [List.mem_singleton.1 new]
          trivial
      refine ⟨by simp [rest, stays], ?_, .inl ⟨legible_run (legible_start hstart order) arriving, resting⟩⟩
      exact Obeyed.memoryDone (reached ▸ obeyed) (arrived.history_run rest)
    have memory := memory_of_bare spares (sited_run (sited_start hstart) _) image aligned beside
      (reached ▸ hinf) (lets.bare pid inf hinf)
    rw [reached] at memory
    exact ⟨_, memory, rfl, fun a => Memory.byte?_overwrite⟩

/-- The client leaves a stepping thread with a breakpoint of every kind: nothing of it is left. -/
theorem step_and_three_breakpoints_let_go :
    ∃ s₀, start? {} Wire.fresh Kernel.empty = .ok s₀ ∧
      let memory := Memory.empty.mapWords 0x1000 2 0x1122334455667788
      let asked := ["Z0,1000,4", "Z1,2000,4", "Z2,3000,8", "vCont;s:p1.1"].flatMap fun text =>
        Packet.frame (ascii text) ++ [Packet.acceptance]
      let s := s₀.run (.addInferior 7 ⟨memory, fun _ _ => false⟩ :: .addThread 1 8 .fresh ::
        (asked ++ ascii "$D#4").map .byte)
      (s.debuggee.registry.inferior? 1).map (·.breakpoints.breakpoints) =
          some [.patch 0x1000, .trigger ⟨0x2000, .fetch⟩, .trigger ⟨0x3000, .data .write 8⟩] ∧
        s.LetsGo '4'.toUInt8 ∧
        (∃ tcb, (s.step (.byte '4'.toUInt8)).debuggee.kernel.threads[0]? = some tcb ∧ tcb.Blank ∧
          tcb.suspended = false) ∧
        ∃ inf, (s.step (.byte '4'.toUInt8)).debuggee.registry.inferior? 1 = some inf ∧
          (s.step (.byte '4'.toUInt8)).debuggee.kernel.memory? inf.space = some memory := by
  let s₀ : Session := ⟨Debuggee.empty 64 256 32, Wire.fresh, 2048, .outside, true, none, [], []⟩
  have start : start? {} Wire.fresh Kernel.empty = .ok s₀ := rfl
  refine ⟨s₀, start, ?_⟩
  intro memory asked s
  let bytes : List UInt8 := asked ++ ascii "$D#4"
  let inputs : List Input := .addInferior 7 ⟨memory, fun _ _ => false⟩ :: .addThread 1 8 .fresh :: bytes.map .byte
  have keeps : ∀ i ∈ inputs, i.KeepsOrder := by
    intro i hi
    rcases List.mem_cons.1 hi with rfl | hi
    · trivial
    · rcases List.mem_cons.1 hi with rfl | hi
      · trivial
      · obtain ⟨b, -, rfl⟩ := List.mem_map.1 hi
        trivial
  have blank : ∀ i ∈ inputs, ∀ tcb, i.tcb? = some tcb → tcb.Blank := by
    intro i hi tcb htcb
    rcases List.mem_cons.1 hi with rfl | hi
    · cases htcb
    · rcases List.mem_cons.1 hi with rfl | hi
      · cases htcb
        exact ⟨fun _ => rfl, rfl⟩
      · obtain ⟨b, -, rfl⟩ := List.mem_map.1 hi
        cases htcb
  have reached : s₀.run inputs = s := rfl
  have asks : s.command? '4'.toUInt8 = some (.detach none) := by decide +kernel
  obtain ⟨obeyed, thread, inferior⟩ : (s.step (.byte '4'.toUInt8)).debuggee.kernel.Obeyed ∧
      (s.step (.byte '4'.toUInt8)).debuggee.registry.thread? ⟨1, 1⟩ = some ⟨8, 0, false, false⟩ ∧
      ((s.step (.byte '4'.toUInt8)).debuggee.registry.inferior? 1).isSome = true := by decide +kernel
  obtain ⟨inf, hinf⟩ := Option.isSome_iff_exists.1 inferior
  obtain ⟨lets, unrefused⟩ := everything_let_go start ⟨rfl, rfl⟩ (by decide) keeps reached asks
  obtain ⟨threads, inferiors⟩ := unrefused obeyed
  obtain ⟨before, native, space, since, heq, -, -, memory_of⟩ := inferiors 1 inf hinf
  -- the inferior came in first
  obtain ⟨rfl, rfl, rfl, rfl⟩ : before = [] ∧ native = 7 ∧ space = ⟨memory, fun _ _ => false⟩ ∧
      since = .addThread 1 8 .fresh :: bytes.map .byte := by
    cases before with
    | nil =>
      obtain ⟨first, rest⟩ := List.cons.inj heq
      cases first
      exact ⟨rfl, rfl, rfl, rest.symm⟩
    | cons first before =>
      have again : Input.addInferior native space ∈ .addThread 1 8 .fresh :: bytes.map Input.byte := by
        rw [(List.cons.inj heq).2]
        exact List.mem_append_right _ List.mem_cons_self
      simp at again
  let arrived : Session := s₀.run ([] ++ [.addInferior 7 ⟨memory, fun _ _ => false⟩])
  let rest : List Input := (.addThread 1 8 .fresh :: bytes.map .byte) ++ [.byte '4'.toUInt8]
  have aligned : ∀ p ∈ arrived.takenOff 1 rest, p.addr.toNat % 4 = 0 := by decide +kernel
  have unwritten : arrived.writes 1 rest = [] := List.isEmpty_iff.1 (by decide +kernel)
  have beside : ∀ w ∈ arrived.writes 1 rest, w.Beside := by simp [unwritten]
  obtain ⟨m, hm, heq, -⟩ := memory_of aligned beside
  have free := threads blank ⟨1, 1⟩ ⟨8, 0, false, false⟩ thread
  refine ⟨by decide +kernel, lets, free, inf, hinf, ?_⟩
  rw [hm, heq, unwritten]
  rfl

end RemoteDebug.Session
