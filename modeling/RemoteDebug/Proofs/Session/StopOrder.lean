import RemoteDebug.Proofs.Session.Balance

/-!
# Stops are told once and in order

A stop reply that was not acknowledged stays outstanding (`Session.waits_step`), and stopped threads stay stopped until
a packet lets them run (`Session.halted_step`). So between two stops the client acknowledges the former and lets threads
run (`Session.acknowledged_before_next`, `Session.letsRun_before_next`), and what it is told are the stops kept for it,
each once and in order (`Session.kept_eq_told_append_queue`).
-/

namespace RemoteDebug.Session

variable {s : Session} {inputs : List Input}

/-! ## One input -/

section Step

variable {s' : Session} {o : Outstanding} {b : UInt8} {r : Except SessionError (Option SessionEvent)} {i : Input}
  {accepted : Option StopReason}

theorem Took.waits (h : Took s b r s') (waits : s.outstanding = some o) (halted : s.running = false)
    (refuses : b ≠ Packet.acceptance) :
    s'.running = false ∧ ∃ o', s'.outstanding = some o' ∧ o'.frame = o.frame := by
  cases h with
  | again waits' => exact ⟨halted, _, rfl, by rw [Option.some.inj (waits.symm.trans waits')]⟩
  | acknowledged _ accepts | nextStop _ accepts | lateInterrupt _ accepts => exact absurd accepts refuses
  | incomplete free | interrupt free | refused free | unheard free | answered free | resumed free
  | stopInstead free | left free | stuck free => cases waits.symm.trans free

theorem Noted.waits (h : Noted s i accepted s') (waits : s.outstanding = some o) (halted : s.running = false) :
    s'.running = false ∧ ∃ o', s'.outstanding = some o' ∧ o'.frame = o.frame := by
  cases h with
  | ignored => exact ⟨halted, o, waits, rfl⟩
  | reported _ _ _ _ _ report =>
    cases report with
    | told runs => cases halted.symm.trans runs
    | queued => exact ⟨halted, o, waits, rfl⟩

/-- A stop reply that was not acknowledged stays outstanding, and threads stay stopped. -/
theorem waits_step (waits : s.outstanding = some o) (halted : s.running = false) (hi : i ≠ .byte Packet.acceptance) :
    (s.step i).running = false ∧ ∃ o', (s.step i).outstanding = some o' ∧ o'.frame = o.frame := by
  cases i with
  | byte b => exact (took_receive s b).waits waits halted fun h => hi (by rw [h])
  | fault | spawn | exit => exact Noted.waits (noted_of_reports trivial) waits halted
  | addInferior | addThread | disable | wire => exact ⟨halted, o, waits, rfl⟩

theorem Took.halted (h : Took s b r s') (halted : s.running = false) (hb : ¬ s.LetsRun (.byte b)) :
    s'.running = false := by
  cases h with
  | again | acknowledged | incomplete | refused | unheard => exact halted
  | nextStop _ _ _ _ _ reply | lateInterrupt _ _ _ reply | interrupt _ _ reply | stopInstead _ _ _ _ _ _ reply =>
    exact reply.running_eq
  | answered _ _ _ _ _ _ reply => exact reply.running_eq.trans halted
  | resumed _ _ _ asks parsed => exact absurd (.inl ⟨_, asks, parsed⟩) hb
  | left _ _ _ asks | stuck _ _ _ asks => exact absurd (.inr ⟨_, asks⟩) hb

theorem Noted.halted (h : Noted s i accepted s') (halted : s.running = false) : s'.running = false := by
  cases h with
  | ignored => exact halted
  | reported _ _ _ _ _ report =>
    cases report with
    | told runs => cases halted.symm.trans runs
    | queued => exact halted

/-- Stopped threads stay stopped until a packet lets them run. -/
theorem halted_step (halted : s.running = false) (hi : ¬ s.LetsRun i) : (s.step i).running = false := by
  cases i with
  | byte b => exact (took_receive s b).halted halted hi
  | fault | spawn | exit => exact Noted.halted (noted_of_reports trivial) halted
  | addInferior | addThread | disable | wire => exact halted

end Step

/-! ## Runs -/

/-- Before the client is told of another stop it acknowledges the stop reply that is outstanding. -/
theorem acknowledged_before_next (hs : s.Ready) (hi : ∀ i ∈ inputs, i.KeepsOrder) {o : Outstanding}
    (waits : s.outstanding = some o) (halted : s.running = false) {next : Input}
    (told : (s.run inputs).told? next ≠ none) :
    ∃ before after, inputs = before ++ .byte Packet.acceptance :: after ∧
      ∃ o', (s.run before).outstanding = some o' ∧ o'.frame = o.frame := by
  induction inputs generalizing s o with
  | nil =>
    obtain ⟨stop, hstop⟩ := Option.ne_none_iff_exists'.1 told
    cases occasion_of_told? hs hstop with
    | atOnce runs _ _ => cases halted.symm.trans runs
    | onAcknowledgement runs _ _ => cases halted.symm.trans runs
    | insteadOfResuming free _ _ _ _ => cases waits.symm.trans free
  | cons i inputs ih =>
    by_cases hacc : i = .byte Packet.acceptance
    · exact ⟨[], inputs, by rw [hacc]; rfl, o, waits, rfl⟩
    · obtain ⟨halted', o₁, waits', hframe⟩ := waits_step waits halted hacc
      obtain ⟨before, after, heq, o', ho', hframe'⟩ := ih (ready_step hs i (hi i List.mem_cons_self))
        (fun j hj => hi j (List.mem_cons_of_mem _ hj)) waits' halted' told
      exact ⟨i :: before, after, by rw [heq]; rfl, o', ho', hframe'.trans hframe⟩

/-- Before the client is told of another stop it lets threads run, or asks for it and is told instead. -/
theorem letsRun_before_next (hs : s.Ready) (hi : ∀ i ∈ inputs, i.KeepsOrder) (halted : s.running = false)
    {next : Input} (told : (s.run inputs).told? next ≠ none) :
    ∃ before i after, inputs ++ [next] = before ++ i :: after ∧ (s.run before).LetsRun i := by
  induction inputs generalizing s with
  | nil =>
    obtain ⟨stop, hstop⟩ := Option.ne_none_iff_exists'.1 told
    refine ⟨[], next, [], rfl, ?_⟩
    cases occasion_of_told? hs hstop with
    | atOnce runs _ _ => cases halted.symm.trans runs
    | onAcknowledgement runs _ _ => cases halted.symm.trans runs
    | insteadOfResuming _ asks parsed _ _ => exact .inl ⟨_, asks, parsed⟩
  | cons i inputs ih =>
    by_cases hlets : s.LetsRun i
    · exact ⟨[], i, inputs ++ [next], rfl, hlets⟩
    · obtain ⟨before, j, after, heq, hj⟩ := ih (ready_step hs i (hi i List.mem_cons_self))
        (fun j hj => hi j (List.mem_cons_of_mem _ hj)) (halted_step halted hlets) told
      exact ⟨i :: before, j, after, by rw [List.cons_append, heq]; rfl, hj⟩

/-- On a wire in order with room for every stop reply, the stops that are kept for the client are those it was told
of, each once and in order, and then those in the queue. It is told of a stop at once if threads run and no reply is
outstanding, or of the first in the queue when it acknowledges a reply while threads run or lets threads run. Between
two stops it acknowledges the reply about the former and lets threads run, or asks for that and is told of the latter.
-/
theorem kept_eq_told_append_queue {c : Config} {wire : Wire} (hstart : start? c wire Kernel.empty = .ok s)
    (order : wire.InOrder) (room : 86 ≤ s.packetSize) (hi : ∀ i ∈ inputs, i.KeepsOrder) :
    s.kept inputs = s.told inputs ++ (s.run inputs).queue ∧
      (∀ i stop, (s.run inputs).told? i = some stop → Occasion (s.run inputs) stop i) ∧
      ∀ before first between next stop, inputs = before ++ first :: between →
        (s.run before).told? first = some stop → (s.run inputs).told? next ≠ none →
        (∃ a c o, between = a ++ .byte Packet.acceptance :: c ∧
          (s.run (before ++ first :: a)).outstanding = some o ∧ o.frame = Packet.frame stop.written) ∧
        ∃ a i c, between ++ [next] = a ++ i :: c ∧ (s.run (before ++ first :: a)).LetsRun i := by
  have hs := ready_start hstart order room
  have empty : s.queue = [] := by
    unfold start? at hstart
    split at hstart
    · cases hstart
    · cases hstart
      rfl
  refine ⟨?_, fun i stop h => occasion_of_told? (ready_run hs hi) h, ?_⟩
  · have all := keptFrom_eq [] hs hi
    rw [empty, List.append_nil, List.nil_append] at all
    exact all
  · rintro before first between next stop rfl hfirst hnext
    have hbefore : ∀ i ∈ before, i.KeepsOrder := fun i hmem => hi i (List.mem_append_left _ hmem)
    have hfirst' : first.KeepsOrder := hi first (by simp)
    have hbetween : ∀ i ∈ between, i.KeepsOrder := fun i hmem => hi i (by simp [hmem])
    have hs₁ := ready_run hs hbefore
    have hs₂ := ready_step hs₁ first hfirst'
    obtain ⟨halted, waits⟩ := (balanced_step hs₁ first hfirst').halted stop hfirst
    have after (a : List Input) : s.run (before ++ first :: a) = ((s.run before).step first).run a := by
      rw [run_append, run_cons]
    rw [after] at hnext
    obtain ⟨a, c, heq, o, ho, hframe⟩ := acknowledged_before_next hs₂ hbetween waits halted hnext
    obtain ⟨a', i, c', heq', hlets⟩ := letsRun_before_next hs₂ hbetween halted hnext
    exact ⟨⟨a, c, o, heq, by rw [after]; exact ho, hframe⟩, a', i, c', heq', by rw [after]; exact hlets⟩

/-- A thread meets three faults: the client is told of the first at once, of the second when it lets threads run, and
the third is still queued. -/
theorem three_faults_told_and_queued :
    ∃ s, start? {} Wire.fresh Kernel.empty = .ok s ∧ 86 ≤ s.packetSize ∧
      ∃ inputs : List Input, (∀ i ∈ inputs, i.KeepsOrder) ∧
        s.kept inputs = s.told inputs ++ (s.run inputs).queue ∧
        s.told inputs = [.softwareBreak ⟨1, 1⟩, .hardwareBreak ⟨1, 1⟩] ∧
        (s.run inputs).queue = [.signal ⟨1, 1⟩ .abort] := by
  have keeps : ∀ i ∈ [Input.addInferior 7 .fresh, .addThread 1 8 .fresh, .fault 7 8 .softwareBreak,
      .fault 7 8 .singleStep, .fault 7 8 (.other 0), .byte Packet.acceptance] ++
        (Packet.frame (ascii "vCont;c")).map .byte, i.KeepsOrder := by
    intro i hi
    rcases List.mem_append.1 hi with hi | hi
    · simp only [List.mem_cons, List.not_mem_nil, or_false] at hi
      rcases hi with rfl | rfl | rfl | rfl | rfl | rfl <;> trivial
    · obtain ⟨b, -, rfl⟩ := List.mem_map.1 hi
      trivial
  exact ⟨_, rfl, by decide, _, keeps,
    (@kept_eq_told_append_queue _ _ {} Wire.fresh rfl ⟨rfl, rfl⟩ (by decide) keeps).1,
    by decide +kernel, by decide +kernel⟩

end RemoteDebug.Session
