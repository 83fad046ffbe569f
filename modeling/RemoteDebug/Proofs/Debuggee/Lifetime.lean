import RemoteDebug.Proofs.Registry.Ledger
import RemoteDebug.Proofs.Reply.Encoding

/-!
# How long a name lasts

A thread keeps its name until an operation lets go of it or of its inferior (`mem_threads_perform`). From then on the
name is no thread's: it was given, so no registration gives it again (`not_mem_threads_perform`). A client holds on to
the written form of a name, and that form refers to the thread of this name or to none, whatever is selected
(`resolve?_name_eq_some_iff`). Which of both it is, `name_lasts_with_thread` says for every name that a run ever gave.
-/

namespace RemoteDebug

/-- The operations that let go of a thread, by itself or with its inferior. -/
def Operation.LetsGo (t : Ptid) : Operation → Prop
  | .exit u => u = t
  | .disable pid => pid = t.pid
  | _ => False

/-- A thread id that names a thread by both of its ids refers to that thread, if it is registered. -/
theorem Registry.resolve?_name_eq_some_iff {r : Registry} {t u : Ptid} :
    r.resolve? ⟨some (.only t.pid), .only t.tid⟩ = some u ↔ u = t ∧ t ∈ r.threads := by
  rw [mem_threads]
  unfold resolve? thread?
  simp only [processOf?]
  cases r.inferior? t.pid with
  | none => simp
  | some inf =>
    simp only [Option.map_eq_some_iff, Option.bind_some]
    constructor
    · rintro ⟨thread, ht, rfl⟩
      exact ⟨rfl, thread, ht⟩
    · rintro ⟨rfl, thread, ht⟩
      exact ⟨thread, ht, rfl⟩

namespace Debuggee

variable {d : Debuggee} {t : Ptid}

/-- The name under which an operation registers a thread. -/
def registered? (d : Debuggee) : Operation → Option Ptid
  | .addThread pid native tcb =>
    let (cap, d) := d.makeThread tcb
    (d.addThread pid native cap).1.toOption
  | _ => none

/-! ## One operation -/

/-- A thread is there once it is registered. -/
theorem mem_threads_of_registered {op : Operation} (h : d.registered? op = some t) :
    t ∈ (d.perform op).registry.threads := by
  cases op with
  | addThread pid native tcb =>
    have outcome := added_addThread (d.makeThread tcb).2 pid native (d.makeThread tcb).1
    simp only [registered?] at h
    cases hr : ((d.makeThread tcb).2.addThread pid native (d.makeThread tcb).1).1 with
    | error e => simp [hr, Except.toOption] at h
    | ok u =>
      obtain rfl : u = t := by simpa [hr, Except.toOption] using h
      rw [hr] at outcome
      exact outcome.name_mem
  | _ => simp [registered?] at h

/-- A thread stays until it or its inferior is let go. -/
theorem mem_threads_perform {op : Operation} (ht : t ∈ d.registry.threads) (h : ¬ op.LetsGo t) :
    t ∈ (d.perform op).registry.threads := by
  by_cases hkeeps : op.KeepsRoster
  · rw [threads_perform hkeeps]
    exact ht
  · cases op with
    | addInferior native space =>
      exact (addedInferior_addInferior (d.makeSpace space).2 native (d.makeSpace space).1).mem_threads ht
    | addThread pid native tcb =>
      exact (added_addThread (d.makeThread tcb).2 pid native (d.makeThread tcb).1).mem_threads ht
    | disable pid =>
      rw [Registry.mem_threads] at ht ⊢
      rw [perform, thread?_disable, if_neg (show ¬ pid = t.pid from h)]
      exact ht
    | exit u =>
      rw [Registry.mem_threads] at ht ⊢
      rw [perform, thread?_exit, if_neg (show ¬ u = t from h)]
      exact ht
    | _ => exact absurd trivial hkeeps

/-- A thread is gone once it or its inferior is let go, or was gone already. -/
theorem not_mem_threads_of_letsGo {op : Operation} (h : op.LetsGo t) : t ∉ (d.perform op).registry.threads := by
  rw [Registry.mem_threads]
  rintro ⟨thread, ht⟩
  cases op with
  | disable pid =>
    rw [perform, thread?_disable, if_pos (show pid = t.pid from h)] at ht
    cases ht
  | exit u =>
    rw [perform, thread?_exit, if_pos (show u = t from h)] at ht
    cases ht
  | _ => exact h.elim

/-- A thread that is there after an operation was there before, or the operation registered it. -/
theorem of_mem_threads_perform {op : Operation} (h : t ∈ (d.perform op).registry.threads) :
    t ∈ d.registry.threads ∨ d.registered? op = some t := by
  by_cases hkeeps : op.KeepsRoster
  · rw [threads_perform hkeeps] at h
    exact .inl h
  · obtain ⟨thread, hthread⟩ := Registry.mem_threads.1 h
    simp only [Registry.mem_threads]
    cases op with
    | addInferior native space =>
      have outcome := addedInferior_addInferior (d.makeSpace space).2 native (d.makeSpace space).1
      exact .inl ⟨thread, outcome.thread? hthread⟩
    | addThread pid native tcb =>
      have outcome := added_addThread (d.makeThread tcb).2 pid native (d.makeThread tcb).1
      rcases outcome.thread? hthread with old | ⟨new, -⟩
      · exact .inl ⟨thread, old⟩
      · exact .inr (congrArg Except.toOption new)
    | disable pid => exact .inl ⟨thread, (within_disable d pid).thread? hthread⟩
    | exit u => exact .inl ⟨thread, (within_exit d u).thread? hthread⟩
    | _ => exact absurd trivial hkeeps

theorem not_given_of_registered {op : Operation} (h : d.registered? op = some t) : ¬ d.registry.Given t := by
  cases op with
  | addThread pid native tcb =>
    cases hr : ((d.makeThread tcb).2.addThread pid native (d.makeThread tcb).1).1 with
    | error e => simp [registered?, hr, Except.toOption] at h
    | ok u =>
      obtain rfl : u = t := by simpa [registered?, hr, Except.toOption] using h
      exact not_given_of_added (d := (d.makeThread tcb).2) hr
  | _ => simp [registered?] at h

/-- A name that was given and is no thread's does not come back. -/
theorem not_mem_threads_perform (op : Operation) (given : d.registry.Given t) (ht : t ∉ d.registry.threads) :
    t ∉ (d.perform op).registry.threads := by
  intro hmem
  rcases of_mem_threads_perform hmem with old | new
  · exact ht old
  · exact not_given_of_registered new given

/-! ## Runs -/

theorem mem_threads_performAll {ops : List Operation} (ht : t ∈ d.registry.threads)
    (h : ∀ op ∈ ops, ¬ op.LetsGo t) : t ∈ (d.performAll ops).registry.threads := by
  induction ops generalizing d with
  | nil => exact ht
  | cons op ops ih =>
    have still := mem_threads_perform ht (h op List.mem_cons_self)
    exact ih still fun o ho => h o (List.mem_cons_of_mem _ ho)

theorem given_performAll (ops : List Operation) (given : d.registry.Given t) : (d.performAll ops).registry.Given t := by
  induction ops generalizing d with
  | nil => exact given
  | cons op ops ih => exact ih (given_perform op given)

theorem not_mem_threads_performAll (ops : List Operation) (given : d.registry.Given t) (ht : t ∉ d.registry.threads) :
    t ∉ (d.performAll ops).registry.threads := by
  induction ops generalizing d with
  | nil => exact ht
  | cons op ops ih => exact ih (given_perform op given) (not_mem_threads_perform op given ht)

/-- A thread that was let go at some point of a run is not there at the end. -/
theorem not_mem_threads_of_exists_letsGo {ops : List Operation} (given : d.registry.Given t)
    (h : ∃ op ∈ ops, op.LetsGo t) : t ∉ (d.performAll ops).registry.threads := by
  obtain ⟨op, hop, letsGo⟩ := h
  obtain ⟨a, b, rfl⟩ := List.append_of_mem hop
  rw [performAll_append, performAll_cons]
  have given' := given_perform op (given_performAll a given)
  exact not_mem_threads_performAll b given' (not_mem_threads_of_letsGo letsGo)

/-- The written name of a thread, from its registration on, however the run goes on and whatever is selected: as long as
the thread and its inferior are not let go, the name leads to the thread, and afterwards it leads to none. -/
theorem name_lasts_with_thread {maxInferiors maxThreads maxPatches : Nat} {before after : List Operation}
    {op : Operation} {t : Ptid}
    (registered : ((empty maxInferiors maxThreads maxPatches).performAll before).registered? op = some t)
    (current : Option Ptid) :
    let r : Registry :=
      { ((empty maxInferiors maxThreads maxPatches).performAll (before ++ op :: after)).registry with current }
    (t.render = ascii t.display ∧ ∀ capacity, 34 ≤ capacity →
      Reply.render capacity [.ptid t] = some t.render) ∧
      ((∀ o ∈ after, ¬ o.LetsGo t) → t ∈ r.threads ∧ (ThreadId.parse? t.render).bind r.resolve? = some t) ∧
      ((∃ o ∈ after, o.LetsGo t) → t ∉ r.threads ∧ (ThreadId.parse? t.render).bind r.resolve? = none) := by
  intro r
  have there := mem_threads_of_registered registered
  have valid : t.Valid := by
    have named : ((empty maxInferiors maxThreads maxPatches).performAll before).registry.Named :=
      named_performAll before (Registry.named_empty maxInferiors maxThreads maxPatches)
    exact (named_perform op named).valid there
  have run : r.threads = ((((empty maxInferiors maxThreads maxPatches).performAll before).perform op).performAll
      after).registry.threads := by
    simp only [r, performAll_append, performAll_cons]
    rfl
  rw [ThreadId.parse?_render valid, Option.bind_some]
  refine ⟨⟨t.render_eq_display, fun capacity hcapacity => ?_⟩, fun kept => ?_, fun letGo => ?_⟩
  · refine Reply.render_eq_some_iff.2 ⟨by simp [Reply.encoding?, Reply.Piece.bytes?], ?_⟩
    exact Nat.le_trans (Ptid.length_render_le valid) hcapacity
  · have still : t ∈ r.threads := run ▸ mem_threads_performAll there kept
    exact ⟨still, Registry.resolve?_name_eq_some_iff.2 ⟨rfl, still⟩⟩
  · have gone : t ∉ r.threads := run ▸ not_mem_threads_of_exists_letsGo (Registry.given_of_mem there) letGo
    refine ⟨gone, Option.eq_none_iff_forall_ne_some.2 fun u hu => ?_⟩
    exact gone (Registry.resolve?_name_eq_some_iff.1 hu).2

/-- With one slot for a thread and one for an inferior, the first thread is let go and both slots are claimed again
under the same native ids. The three threads have three names, and the first two lead nowhere in the end. -/
theorem name_of_reused_slots :
    let register : Operation := .addInferior 7 .fresh
    let spawn (pid : Nat) : Operation := .addThread pid 8 .fresh
    let d := (empty 1 1 0).performAll [register, spawn 1, .exit ⟨1, 1⟩, spawn 1, .disable 1, register, spawn 2]
    d.registry.threads = [⟨2, 1⟩] ∧
      [⟨1, 1⟩, ⟨1, 2⟩, ⟨2, 1⟩].map Ptid.render = ["p1.1", "p1.2", "p2.1"].map ascii ∧
      ∀ current, let refers (t : Ptid) := (ThreadId.parse? t.render).bind { d.registry with current }.resolve?
        refers ⟨1, 1⟩ = none ∧ refers ⟨1, 2⟩ = none ∧ refers ⟨2, 1⟩ = some ⟨2, 1⟩ := by
  intro register spawn d
  refine ⟨by decide +kernel, by decide, ?_⟩
  intro current refers
  simp only [refers, d]
  refine ⟨?_, ?_, ?_⟩
  · have registered : ((empty 1 1 0).performAll [register]).registered? (spawn 1) = some ⟨1, 1⟩ := by
      decide +kernel
    have lasts := @name_lasts_with_thread 1 1 0 [register] [.exit ⟨1, 1⟩, spawn 1, .disable 1, register, spawn 2]
      (spawn 1) ⟨1, 1⟩ registered current
    simp only [List.cons_append, List.nil_append] at lasts
    exact (lasts.2.2 ⟨.exit ⟨1, 1⟩, List.mem_cons_self, rfl⟩).2
  · have registered : ((empty 1 1 0).performAll [register, spawn 1, .exit ⟨1, 1⟩]).registered? (spawn 1) =
        some ⟨1, 2⟩ := by decide +kernel
    have lasts := @name_lasts_with_thread 1 1 0 [register, spawn 1, .exit ⟨1, 1⟩] [.disable 1, register, spawn 2]
      (spawn 1) ⟨1, 2⟩ registered current
    simp only [List.cons_append, List.nil_append] at lasts
    exact (lasts.2.2 ⟨.disable 1, List.mem_cons_self, rfl⟩).2
  · have registered : ((empty 1 1 0).performAll
        [register, spawn 1, .exit ⟨1, 1⟩, spawn 1, .disable 1, register]).registered? (spawn 2) =
        some ⟨2, 1⟩ := by
      decide +kernel
    have lasts := @name_lasts_with_thread 1 1 0 [register, spawn 1, .exit ⟨1, 1⟩, spawn 1, .disable 1, register] []
      (spawn 2) ⟨2, 1⟩ registered current
    simp only [List.cons_append, List.nil_append] at lasts
    exact (lasts.2.1 nofun).2

end Debuggee
end RemoteDebug
