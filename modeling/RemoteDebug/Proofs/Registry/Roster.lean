import RemoteDebug.Proofs.SlotTable
import RemoteDebug.Registry.Actions

/-!
# Who is registered

The roster of a registry lists its inferiors and their threads by id, each thread with its capability. The listing of
the threads and their capabilities can be read off it (`Registry.threads_eq`, `Registry.caps_eq`).
-/

namespace RemoteDebug

/-- The threads of an inferior by id, with their capabilities. -/
def Inferior.roster (inf : Inferior) : List (Nat × Kernel.ThreadCap) := inf.threads.toList.map fun p => (p.1, p.2.cap)

theorem Inferior.caps_eq (inf : Inferior) : inf.caps = inf.roster.map Prod.snd := by
  simp [Inferior.caps, Inferior.roster, Function.comp_def]

theorem Inferior.mem_caps {inf : Inferior} {cap : Kernel.ThreadCap} :
    cap ∈ inf.caps ↔ ∃ tid t, (tid, t) ∈ inf.threads.toList ∧ t.cap = cap := by
  simp [Inferior.caps]

namespace Registry

variable {r : Registry}

/-- The inferiors by id, each with its threads. -/
def roster (r : Registry) : List (Nat × List (Nat × Kernel.ThreadCap)) :=
  r.inferiors.toList.map fun p => (p.1, p.2.roster)

/-! ## Reading the roster -/

theorem inferior?_eq_some_iff {pid : Nat} {inf : Inferior} :
    r.inferior? pid = some inf ↔ (pid, inf) ∈ r.inferiors.toList := SlotTable.mem_toList.symm

theorem thread?_eq_some_iff {t : Ptid} {thread : Thread} :
    r.thread? t = some thread ↔
      ∃ inf, (t.pid, inf) ∈ r.inferiors.toList ∧ (t.tid, thread) ∈ inf.threads.toList := by
  simp only [thread?, Option.bind_eq_some_iff, inferior?_eq_some_iff, SlotTable.mem_toList]

theorem caps_eq (r : Registry) : r.caps = r.roster.flatMap fun p => p.2.map Prod.snd := by
  simp [caps, roster, Inferior.caps_eq, List.flatMap_map]

theorem threads_eq (r : Registry) : r.threads = r.roster.flatMap fun p => p.2.map fun q => ⟨p.1, q.1⟩ := by
  simp [threads, roster, Inferior.roster, SlotTable.ids, List.flatMap_map, Function.comp_def]

theorem threads_of_roster_eq {r' : Registry} (h : r'.roster = r.roster) : r'.threads = r.threads := by
  rw [threads_eq, h, ← threads_eq]

theorem mem_caps {cap : Kernel.ThreadCap} :
    cap ∈ r.caps ↔ ∃ pid inf, (pid, inf) ∈ r.inferiors.toList ∧ cap ∈ inf.caps := by
  simp [caps]

/-- The capability of a thread is among those of the registry. -/
theorem cap_mem_caps {t : Ptid} {thread : Thread} (h : r.thread? t = some thread) : thread.cap ∈ r.caps := by
  obtain ⟨inf, hinf, ht⟩ := thread?_eq_some_iff.1 h
  exact mem_caps.2 ⟨t.pid, inf, hinf, Inferior.mem_caps.2 ⟨t.tid, thread, ht, rfl⟩⟩

/-- A capability of the registry is that of a thread. -/
theorem exists_of_mem_caps {cap : Kernel.ThreadCap} (h : cap ∈ r.caps) :
    ∃ t thread, r.thread? t = some thread ∧ thread.cap = cap := by
  obtain ⟨pid, inf, hinf, hcap⟩ := mem_caps.1 h
  obtain ⟨tid, thread, ht, rfl⟩ := Inferior.mem_caps.1 hcap
  exact ⟨⟨pid, tid⟩, thread, thread?_eq_some_iff.2 ⟨inf, hinf, ht⟩, rfl⟩

theorem mem_threads {t : Ptid} : t ∈ r.threads ↔ ∃ thread, r.thread? t = some thread := by
  simp only [threads, List.mem_flatMap, Prod.exists, SlotTable.ids, List.map_map, List.mem_map, Function.comp_apply,
    thread?_eq_some_iff]
  constructor
  · rintro ⟨pid, inf, hinf, tid, thread, ht, rfl⟩
    exact ⟨thread, inf, hinf, ht⟩
  · rintro ⟨thread, inf, hinf, ht⟩
    exact ⟨t.pid, inf, hinf, t.tid, thread, ht, rfl⟩

/-- A thread that is found by native ids is registered, in the inferior that is found by its own. -/
theorem findThread?_eq_some {inferior native : UInt64} {t : Ptid} (h : r.findThread? inferior native = some t) :
    r.findInferior? inferior = some t.pid ∧ ∃ thread, r.thread? t = some thread := by
  unfold findThread? at h
  split at h
  · cases h
  · rename_i pid hpid
    split at h
    · cases h
    · rename_i inf hinf
      obtain ⟨⟨tid, thread⟩, hfind, rfl⟩ := Option.map_eq_some_iff.1 h
      exact ⟨hpid, thread, thread?_eq_some_iff.2
        ⟨inf, inferior?_eq_some_iff.1 hinf, List.mem_of_find?_eq_some hfind⟩⟩

end Registry
end RemoteDebug
