import RemoteDebug.Proofs.Session.Run

/-!
# Reports of the kernel

What a fault, a new thread or the exit of a thread can come to (`Session.Noted`): either the report is about nothing
that is known, or every thread is asked to stop and the stop is reported. What runs keep is proved of reports by cases
over this relation.
-/

namespace RemoteDebug.Session

/-- The thread that an input hands over. -/
def Input.tcb? : Input → Option Kernel.Tcb
  | .spawn _ _ _ tcb | .addThread _ _ tcb => some tcb
  | _ => none

/-- An operation by which the thread that an input hands over comes in. -/
def Input.Enters (i : Input) (op : Operation) : Prop :=
  ∃ tcb, i.tcb? = some tcb ∧ (op = .makeThread tcb ∨ ∃ pid native, op = .addThread pid native tcb)

/-- Whether the kernel reports something by an input. -/
def Input.Reports : Input → Prop
  | .fault _ _ _ | .spawn _ _ _ _ | .exit _ _ => True
  | _ => False

/-- The stop that an input reports, if the report is accepted. -/
def accepted? (s : Session) : Input → Option StopReason
  | .fault inferior thread fault =>
    match s.debuggee.registry.findThread? inferior thread, (s.fault inferior thread fault).1 with
    | some t, .ok () => some (.ofFault s.debuggee.registry t fault)
    | _, _ => none
  | .spawn inferior parent child tcb =>
    match s.debuggee.registry.findThread? inferior parent, (s.spawnNew inferior parent child tcb).1 with
    | some parent, .ok child => some (.cloned parent child)
    | _, _ => none
  | .exit inferior thread =>
    match s.debuggee.registry.findThread? inferior thread, (s.exit inferior thread).1 with
    | some t, .ok () => some (.exited t)
    | _, _ => none
  | _ => none

/-- What a report of the kernel can come to. Every thread is asked to stop before the stop is reported or queued. -/
inductive Noted (s : Session) (i : Input) : Option StopReason → Session → Prop
  | ignored (ops : List Operation) (enters : ∀ op ∈ ops, i.Enters op)
      (unchanged : (s.debuggee.performAll ops).registry = s.debuggee.registry) :
      Noted s i none { s with debuggee := s.debuggee.performAll ops }
  | reported (before after : List Operation) {stop : StopReason} {r : Except SessionError Unit} {s' : Session}
      (enters : ∀ op ∈ before, i.Enters op) (leaves : ∀ op ∈ after, ∃ t, op = .exit t)
      (registered : ∀ t ∈ stop.threads, t ∈ (s.debuggee.performAll before).registry.threads)
      (report : Reported
        { s with debuggee := ((s.debuggee.performAll before).perform .suspendAll).performAll after } stop r s')
      (lives : ∀ t, stop.thread? = some t →
        t ∈ (((s.debuggee.performAll before).perform .suspendAll).performAll after).registry.threads) :
      Noted s i (r.toOption.map fun _ => stop) s'

@[simp] theorem threads_ofFault (registry : Registry) (t : Ptid) (fault : Fault) :
    (StopReason.ofFault registry t fault).threads = [t] := by
  cases fault <;> simp only [StopReason.ofFault] <;> (try split) <;> rfl

section Spawn

variable {s : Session} {inferior parent child : UInt64} {tcb : Kernel.Tcb} {t : Ptid} {d : Debuggee}

theorem spawnNew_of_error {e : RegistryError} (ht : s.debuggee.registry.findThread? inferior parent = some t)
    (hd : (s.debuggee.makeThread tcb).2.addThread t.pid child (s.debuggee.makeThread tcb).1 = (.error e, d)) :
    s.spawnNew inferior parent child tcb = (.error (.registry e), { s with debuggee := d }) := by
  have hpid := (Registry.findThread?_eq_some ht).1
  simp only [Debuggee.makeThread] at hd
  simp only [spawnNew, spawn, Debuggee.makeThread, hpid, ht, hd]

theorem spawnNew_of_ok {name : Ptid} (ht : s.debuggee.registry.findThread? inferior parent = some t)
    (hd : (s.debuggee.makeThread tcb).2.addThread t.pid child (s.debuggee.makeThread tcb).1 = (.ok name, d)) :
    s.spawnNew inferior parent child tcb =
      (({ s with debuggee := d }.suspendAll.reportStop (.cloned t name)).1.map fun _ => name,
        ({ s with debuggee := d }.suspendAll.reportStop (.cloned t name)).2) := by
  have hpid := (Registry.findThread?_eq_some ht).1
  simp only [Debuggee.makeThread] at hd
  simp only [spawnNew, spawn, Debuggee.makeThread, hpid, ht, hd, andThen_eq]

/-- Both ends of a clone report are registered. -/
theorem cloned_registered {name : Ptid} (ht : s.debuggee.registry.findThread? inferior parent = some t)
    (hd : (s.debuggee.makeThread tcb).2.addThread t.pid child (s.debuggee.makeThread tcb).1 = (.ok name, d)) :
    ∀ u ∈ (StopReason.cloned t name).threads, u ∈ d.registry.threads := by
  have hadded := Debuggee.added_addThread (s.debuggee.makeThread tcb).2 t.pid child (s.debuggee.makeThread tcb).1
  rw [hd] at hadded
  intro u hu
  rcases List.mem_cons.1 hu with rfl | hu
  · exact hadded.mem_threads (Registry.mem_threads.2 (Registry.findThread?_eq_some ht).2)
  · rw [List.mem_singleton.1 hu]
    exact hadded.name_mem

end Spawn

section Noted

variable (s : Session)

theorem noted_fault (inferior thread : UInt64) (fault : Fault) :
    Noted s (.fault inferior thread fault) (s.accepted? (.fault inferior thread fault))
      (s.step (.fault inferior thread fault)) := by
  simp only [accepted?, step]
  cases ht : s.debuggee.registry.findThread? inferior thread with
  | none =>
    have hf : (s.fault inferior thread fault).2 = s := by simp only [Session.fault, ht]
    rw [hf]
    exact .ignored [] (by simp) rfl
  | some t =>
    have hf : s.fault inferior thread fault =
        s.suspendAll.reportStop (.ofFault s.debuggee.registry t fault) := by
      simp only [Session.fault, ht]
      rfl
    have hreport := reported_reportStop s.suspendAll (.ofFault s.debuggee.registry t fault)
    rw [hf]
    have registered :
        ∀ u ∈ (StopReason.ofFault s.debuggee.registry t fault).threads, u ∈ s.debuggee.registry.threads := by
      intro u hu
      rw [threads_ofFault, List.mem_singleton] at hu
      rw [hu]
      exact Registry.mem_threads.2 (Registry.findThread?_eq_some ht).2
    have noted := Noted.reported (i := .fault inferior thread fault) [] [] (by simp) (by simp) registered hreport
      fun u hu => registered u (StopReason.mem_threads_of_thread? hu)
    cases hr : (s.suspendAll.reportStop (.ofFault s.debuggee.registry t fault)).1 <;>
      simpa [hr, Except.toOption] using noted

theorem noted_spawn (inferior parent child : UInt64) (tcb : Kernel.Tcb) :
    Noted s (.spawn inferior parent child tcb) (s.accepted? (.spawn inferior parent child tcb))
      (s.step (.spawn inferior parent child tcb)) := by
  have made (op : Operation) (h : op = .makeThread tcb ∨ ∃ pid native, op = .addThread pid native tcb) :
      ∀ op' ∈ [op], Input.Enters (.spawn inferior parent child tcb) op' := by
    intro op' hop
    rw [List.mem_singleton.1 hop]
    exact ⟨tcb, rfl, h⟩
  simp only [accepted?, step]
  cases ht : s.debuggee.registry.findThread? inferior parent with
  | none =>
    have hs : (s.spawnNew inferior parent child tcb).2 =
        { s with debuggee := s.debuggee.performAll [.makeThread tcb] } := by
      simp only [spawnNew, spawn, Debuggee.makeThread, ht]
      split <;> rfl
    rw [hs]
    exact .ignored [.makeThread tcb] (made (.makeThread tcb) (.inl rfl)) rfl
  | some t =>
    have enters := made (.addThread t.pid child tcb) (.inr ⟨t.pid, child, rfl⟩)
    -- the kernel object is made before anything is looked up
    have hadd : s.debuggee.performAll [.addThread t.pid child tcb] =
        ((s.debuggee.makeThread tcb).2.addThread t.pid child (s.debuggee.makeThread tcb).1).2 := rfl
    have hadded := Debuggee.added_addThread (s.debuggee.makeThread tcb).2 t.pid child (s.debuggee.makeThread tcb).1
    rcases hd : (s.debuggee.makeThread tcb).2.addThread t.pid child (s.debuggee.makeThread tcb).1 with ⟨result, d⟩
    rw [hd] at hadd hadded
    cases result with
    | error e =>
      have unchanged : d.registry = s.debuggee.registry := by
        cases hadded
        rfl
      rw [spawnNew_of_error ht hd]
      dsimp only
      rw [show d = s.debuggee.performAll [.addThread t.pid child tcb] from hadd.symm] at unchanged ⊢
      exact .ignored _ enters unchanged
    | ok name =>
      have registered : ∀ u ∈ (StopReason.cloned t name).threads,
          u ∈ (s.debuggee.performAll [.addThread t.pid child tcb]).registry.threads := by
        rw [hadd]
        exact cloned_registered ht hd
      have noted := Noted.reported (i := .spawn inferior parent child tcb) [.addThread t.pid child tcb] [] enters
        (by simp) registered
        (by rw [hadd]; exact reported_reportStop { s with debuggee := d }.suspendAll (.cloned t name))
        fun u hu => registered u (StopReason.mem_threads_of_thread? hu)
      rw [spawnNew_of_ok ht hd]
      cases hr : ({ s with debuggee := d }.suspendAll.reportStop (.cloned t name)).1 <;>
        simpa [hr, Except.map, Except.toOption] using noted

theorem noted_exit (inferior thread : UInt64) :
    Noted s (.exit inferior thread) (s.accepted? (.exit inferior thread)) (s.step (.exit inferior thread)) := by
  simp only [accepted?, step]
  cases ht : s.debuggee.registry.findThread? inferior thread with
  | none =>
    have hs : (s.exit inferior thread).2 = s := by simp only [Session.exit, ht]
    rw [hs]
    exact .ignored [] (by simp) rfl
  | some t =>
    obtain ⟨-, known, hknown⟩ := Registry.findThread?_eq_some ht
    obtain ⟨inf, hinf, hget⟩ := Option.bind_eq_some_iff.1 (show (s.debuggee.registry.inferior? t.pid).bind
      (·.threads.get? t.tid) = some known from hknown)
    have leaves : ∃ d, s.suspendAll.debuggee.exit t = (.ok (), d) := by
      simp only [Debuggee.exit, Registry.exit, suspendAll, Debuggee.suspendAll, hinf, hget]
      exact ⟨_, rfl⟩
    obtain ⟨d, hd⟩ := leaves
    have hexit : s.exit inferior thread = { s with debuggee := d }.reportStop (.exited t) := by
      simp only [Session.exit, ht, hd]
      rfl
    have hreport := reported_reportStop { s with debuggee := d } (.exited t)
    have hperform : (s.debuggee.perform .suspendAll).performAll [.exit t] = d := congrArg Prod.snd hd
    have registered : ∀ u ∈ (StopReason.exited t).threads, u ∈ s.debuggee.registry.threads := by
      intro u hu
      rw [List.mem_singleton.1 hu]
      exact Registry.mem_threads.2 ⟨known, hknown⟩
    have noted := Noted.reported (i := .exit inferior thread) [] [.exit t] (by simp) (by simp) registered
      (by rw [Debuggee.performAll_nil, hperform]; exact hreport) nofun
    rw [hexit]
    cases hr : ({ s with debuggee := d }.reportStop (.exited t)).1 <;> simpa [hr, Except.toOption] using noted

end Noted

theorem noted_of_reports {s : Session} {i : Input} (h : i.Reports) : Noted s i (s.accepted? i) (s.step i) := by
  cases i with
  | fault inferior thread fault => exact noted_fault s inferior thread fault
  | spawn inferior parent child tcb => exact noted_spawn s inferior parent child tcb
  | exit inferior thread => exact noted_exit s inferior thread
  | _ => exact h.elim

end RemoteDebug.Session
