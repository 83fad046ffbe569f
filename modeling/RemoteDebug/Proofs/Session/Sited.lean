import RemoteDebug.Proofs.Session.Touching

/-!
# Inferiors that stay

In every run an inferior has an address space of its own and a proper table (`Session.Sited`). So what an input does to
an inferior that stays is something that can happen to traps and memory (`Session.treats_step`), if all calls on memory
are done.
-/

namespace RemoteDebug

open Kernel

namespace Session

variable {s : Session} {i : Input} {pid maxPatches : Nat}

/-- Every inferior has an address space of its own and a proper table. -/
structure Sited (maxPatches : Nat) (s : Session) : Prop where
  housed : s.debuggee.Housed
  tidy : s.debuggee.Tidy maxPatches

theorem sited_start {c : Config} {wire : Wire} (h : start? c wire Kernel.empty = .ok s) : s.Sited c.maxPatches := by
  obtain ⟨size, rfl⟩ := eq_of_start? h
  exact ⟨Debuggee.housed_empty .., Debuggee.tidy_empty ..⟩

theorem sited_step (h : s.Sited maxPatches) (i : Input) : (s.step i).Sited maxPatches := by
  obtain ⟨ops, hops, -⟩ := s.performs_step i
  refine ⟨?_, ?_⟩
  · rw [hops]
    exact Debuggee.housed_performAll h.housed ops
  · rw [hops]
    exact Debuggee.tidy_performAll h.tidy ops

theorem sited_run (h : s.Sited maxPatches) (inputs : List Input) : (s.run inputs).Sited maxPatches :=
  run_induction (P := Sited maxPatches) (fun _ i _ hs => sited_step hs i) h

/-- What goes to the address space of an inferior is what is asked to be written to its memory. -/
theorem writtenTo_write? (housed : s.debuggee.Housed) {inf : Inferior}
    (hinf : s.debuggee.registry.inferior? pid = some inf) (i : Input) :
    Debuggee.writtenTo inf.space ((s.write? i).map Prod.snd) = s.written? pid i := by
  unfold Debuggee.writtenTo written?
  cases hwrite : s.write? i with
  | none => rfl
  | some w =>
    obtain ⟨pid', space, addr, data⟩ := w
    obtain ⟨⟨inf', hinf', hspace⟩, -⟩ := write?_eq_some hwrite
    have same : space = inf.space ↔ pid' = pid := by
      constructor
      · rintro rfl
        exact housed.apart pid' pid inf.space (Registry.mem_places.2 ⟨inf', hinf', hspace⟩)
          (Registry.mem_places.2 ⟨inf, hinf, rfl⟩)
      · rintro rfl
        obtain rfl := Option.some.inj (hinf.symm.trans hinf')
        exact hspace.symm
    simp only [Option.map_some, Option.bind_some, same]

theorem Touched.treated {d : Debuggee} (h : Touched s (s.write? i) d) (sited : s.Sited maxPatches)
    (done : MemoryDone s.debuggee.kernel d.kernel) (order : s.wire.InOrder ∨ s.written? pid i = none) :
    ∃ wrote, s.debuggee.Treated d pid wrote ∧ ∀ inf, s.debuggee.registry.inferior? pid = some inf →
      Debuggee.writtenTo inf.space wrote = s.written? pid i := by
  cases h with
  | aside same lost =>
    refine ⟨none, same.treated pid, fun _ _ => ?_⟩
    rcases order with order | nothing
    · rw [written?, lost order]
      rfl
    · exact nothing.symm
  | performed op writes keeps rest =>
    have first := (done.split_of_grown (s.debuggee.replays_perform op).history rest.history).1
    have room (space : SpaceCap) (addr : Nat) (data : List UInt8) (hop : op.write? = some (space, addr, data)) :
        addr + data.length ≤ 2 ^ 64 := by
      rw [writes] at hop
      obtain ⟨⟨pid', w⟩, hwrite, rfl⟩ := Option.map_eq_some_iff.1 hop
      exact (write?_eq_some hwrite).2
    refine ⟨op.write?, (Debuggee.treated_perform sited.housed sited.tidy room first pid).aside rest,
      fun inf hinf => ?_⟩
    rw [writes]
    exact writtenTo_write? sited.housed hinf i

theorem Touched.places_eq {d : Debuggee} {wrote : Option (Nat × SpaceCap × Nat × List UInt8)}
    (h : Touched s wrote d) :
    d.registry.places = s.debuggee.registry.places := by
  cases h with
  | aside same => exact same.places_eq
  | performed op _ keeps rest => exact rest.places_eq.trans (Debuggee.places_perform keeps)

theorem image?_eq_some_iff {t : BreakpointTable} {m : Memory} :
    s.image? pid = some (t, m) ↔ ∃ inf, s.debuggee.registry.inferior? pid = some inf ∧ inf.breakpoints = t ∧
      s.debuggee.kernel.memory? inf.space = some m := by
  simp only [image?, Option.bind_eq_some_iff, Option.map_eq_some_iff, Prod.mk.injEq]
  constructor
  · rintro ⟨inf, hinf, m, hm, ht, rfl⟩
    exact ⟨inf, hinf, ht, hm⟩
  · rintro ⟨inf, hinf, ht, hm⟩
    exact ⟨inf, hinf, m, hm, ht, rfl⟩

/-- What happens to an inferior that stays is something that can happen to traps and memory. -/
theorem treats_step (sited : s.Sited maxPatches)
    (done : MemoryDone s.debuggee.kernel (s.step i).debuggee.kernel)
    (order : s.wire.InOrder ∨ s.written? pid i = none) (stays : i ≠ .disable pid) {t : BreakpointTable} {m : Memory}
    (himage : s.image? pid = some (t, m)) :
    ∃ t' m', (s.step i).image? pid = some (t', m') ∧ t.Treats m (s.written? pid i) t' m' := by
  obtain ⟨inf, hinf, rfl, hm⟩ := image?_eq_some_iff.1 himage
  have place := Registry.mem_places.2 ⟨inf, hinf, rfl⟩
  have outcome : (pid, inf.space) ∈ (s.step i).debuggee.registry.places ∧
      ∃ wrote, s.debuggee.Treated (s.step i).debuggee pid wrote ∧
        ∀ inf, s.debuggee.registry.inferior? pid = some inf →
          Debuggee.writtenTo inf.space wrote = s.written? pid i := by
    have performed (op : Operation) (writes : op.write? = none) (hop : op ≠ .disable pid)
        (after : (s.step i).debuggee = s.debuggee.perform op) (nothing : s.written? pid i = none) :
        (pid, inf.space) ∈ (s.step i).debuggee.registry.places ∧
          ∃ wrote, s.debuggee.Treated (s.step i).debuggee pid wrote ∧
            ∀ inf, s.debuggee.registry.inferior? pid = some inf →
              Debuggee.writtenTo inf.space wrote = s.written? pid i := by
      rw [after] at done ⊢
      have treated := Debuggee.treated_perform sited.housed sited.tidy (by simp [writes]) done pid
      rw [writes] at treated
      exact ⟨Debuggee.mem_places_perform place hop, none, treated, fun _ _ => nothing.symm⟩
    by_cases keeps : i.KeepsPlaces
    · have touched := s.touched_step keeps
      exact ⟨touched.places_eq ▸ place, touched.treated sited done order⟩
    · cases i with
      | addInferior native space => exact performed (.addInferior native space) rfl nofun rfl rfl
      | disable pid' => exact performed (.disable pid') rfl (fun heq => stays (by cases heq; rfl)) rfl rfl
      | _ => exact absurd trivial keeps
  obtain ⟨place', wrote, treated, wrote_eq⟩ := outcome
  obtain ⟨inf', hinf', hspace⟩ := Registry.mem_places.1 place'
  obtain ⟨m', hm', treats⟩ := (treated inf inf' hinf hinf').2 m hm
  rw [wrote_eq inf hinf] at treats
  exact ⟨inf'.breakpoints, m', image?_eq_some_iff.2 ⟨inf', hinf', rfl, hspace ▸ hm'⟩, treats⟩

end Session
end RemoteDebug
