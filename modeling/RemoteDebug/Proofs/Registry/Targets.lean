import RemoteDebug.Proofs.Registry.Outline

/-!
# The threads that an action covers

Whether an action of a resumption is for a thread (`Registry.covers`) is a question about who is registered and which
thread is selected, and about nothing else (`covers_of_outline_eq`): so it has the same answer all through a resumption,
whatever the actions before it have done to the threads.
-/

namespace RemoteDebug

namespace Inferior

theorem ids_eq (inf : Inferior) : inf.threads.ids = inf.roster.map Prod.fst := by
  simp [roster, SlotTable.ids, Function.comp_def]

theorem get?_isSome_iff {inf : Inferior} {tid : Nat} :
    (inf.threads.get? tid).isSome ↔ tid ∈ inf.roster.map Prod.fst := by
  rw [← ids_eq, Option.isSome_iff_exists]
  simp [SlotTable.ids, SlotTable.mem_toList]

end Inferior

namespace Registry

variable {r r' : Registry} {t : Ptid}

/-! ## Resolving -/

theorem ids_eq (r : Registry) : r.inferiors.ids = r.roster.map Prod.fst := by
  simp [roster, SlotTable.ids, Function.comp_def]

theorem mem_roster {pid : Nat} {threads : List (Nat × Kernel.ThreadCap)} :
    (pid, threads) ∈ r.roster ↔ (r.inferior? pid).map Inferior.roster = some threads := by
  rw [Option.map_eq_some_iff]
  constructor
  · intro h
    obtain ⟨⟨pid', inf⟩, hinf, heq⟩ := List.mem_map.1 h
    simp only [Prod.mk.injEq] at heq
    obtain ⟨rfl, rfl⟩ := heq
    exact ⟨inf, inferior?_eq_some_iff.2 hinf, rfl⟩
  · rintro ⟨inf, hinf, rfl⟩
    exact List.mem_map.2 ⟨(pid, inf), inferior?_eq_some_iff.1 hinf, rfl⟩

/-- The thread of an inferior that a thread id refers to, by the threads that the inferior has. -/
def pick? (pid : Nat) (thread : Selector) (threads : List (Nat × Kernel.ThreadCap)) : Option Ptid :=
  match thread with
  | .only tid => if tid ∈ threads.map Prod.fst then some ⟨pid, tid⟩ else none
  | .any | .all => (threads.map Prod.fst).head?.map fun tid => ⟨pid, tid⟩

theorem resolve?_eq (r : Registry) (id : ThreadId) :
    r.resolve? id = (r.processOf? id).bind fun pid =>
      ((r.inferior? pid).map Inferior.roster).bind (pick? pid id.thread) := by
  unfold resolve?
  cases r.processOf? id with
  | none => rfl
  | some pid =>
    cases hinf : r.inferior? pid with
    | none => simp [hinf]
    | some inf =>
      simp only [Option.bind_some, Option.map_some, hinf]
      cases id.thread with
      | only tid =>
        simp only [pick?, ← Inferior.get?_isSome_iff]
        cases inf.threads.get? tid <;> rfl
      | any => simp only [pick?, Inferior.ids_eq]
      | all => simp only [pick?, Inferior.ids_eq]

/-- A thread that a thread id refers to is registered. -/
theorem mem_threads_of_resolve? {id : ThreadId} (h : r.resolve? id = some t) : t ∈ r.threads := by
  rw [resolve?_eq, Option.bind_eq_some_iff] at h
  obtain ⟨pid, -, h⟩ := h
  obtain ⟨threads, hthreads, hpick⟩ := Option.bind_eq_some_iff.1 h
  have found : ∃ tid ∈ threads.map Prod.fst, t = ⟨pid, tid⟩ := by
    cases hthread : id.thread with
    | only tid =>
      simp only [hthread, pick?, Option.ite_none_right_eq_some, Option.some.injEq] at hpick
      exact ⟨tid, hpick.1, hpick.2.symm⟩
    | any | all =>
      simp only [hthread, pick?] at hpick
      obtain ⟨tid, htid, rfl⟩ := Option.map_eq_some_iff.1 hpick
      exact ⟨tid, List.mem_of_head? htid, rfl⟩
  obtain ⟨tid, htid, rfl⟩ := found
  rw [threads_eq]
  refine List.mem_flatMap.2 ⟨(pid, threads), mem_roster.2 hthreads, ?_⟩
  obtain ⟨q, hq, rfl⟩ := List.mem_map.1 htid
  exact List.mem_map.2 ⟨q, hq, rfl⟩

theorem resolve?_of_outline_eq (h : r'.outline = r.outline) (id : ThreadId) : r'.resolve? id = r.resolve? id := by
  have roster := roster_of_outline_eq h
  have process : r'.processOf? id = r.processOf? id := by
    unfold processOf?
    rw [current_eq_of_outline_eq h, ids_eq, ids_eq, roster]
  have inferior (pid : Nat) : (r'.inferior? pid).map Inferior.roster = (r.inferior? pid).map Inferior.roster := by
    apply Option.ext
    intro threads
    rw [← mem_roster, ← mem_roster, roster]
  rw [resolve?_eq, resolve?_eq, process]
  simp only [inferior]

/-! ## Covering -/

/-- Whether the thread id of an action covers a registered thread: all of them if there is no id, or one for all; those
of one inferior if the id is for all of that; and otherwise the thread that the id refers to. -/
def covers (r : Registry) (id : Option ThreadId) (t : Ptid) : Bool :=
  match id with
  | none | some ⟨some .all, _⟩ | some ⟨none, .all⟩ => true
  | some ⟨some (.only pid), .all⟩ => t.pid = pid
  | some id => r.resolve? id = some t

theorem mem_targets {id : Option ThreadId} : t ∈ r.targets id ↔ t ∈ r.threads ∧ r.covers id t = true := by
  have only (id : ThreadId) : t ∈ (r.resolve? id).toList ↔
      t ∈ r.threads ∧ decide (r.resolve? id = some t) = true := by
    rw [Option.mem_toList, decide_eq_true_eq]
    exact ⟨fun h => ⟨mem_threads_of_resolve? h, h⟩, fun h => h.2⟩
  match id with
  | none | some ⟨some .all, _⟩ | some ⟨none, .all⟩ => simp [targets, covers]
  | some ⟨some (.only pid), .all⟩ => simp [targets, covers, List.mem_filter]
  | some ⟨some .any, _⟩ | some ⟨none, .any⟩ | some ⟨none, .only _⟩ | some ⟨some (.only _), .any⟩
  | some ⟨some (.only _), .only _⟩ => exact only _

theorem covers_of_outline_eq (h : r'.outline = r.outline) (id : Option ThreadId) (t : Ptid) :
    r'.covers id t = r.covers id t := by
  unfold covers
  split
  · rfl
  · rfl
  · rfl
  · rfl
  · rw [resolve?_of_outline_eq h]

end Registry
end RemoteDebug
