import RemoteDebug.Proofs.SlotTable.Issue

/-!
# The account of a slot table

However a table is used that was empty at first, by insertions, retirements and writes, the records of its client say
what it holds: the ids are new, the lookups are exact, and a claim takes the slot and gives the id that the records
foretell (`Account`). Main statement: `account_run`.
-/

namespace RemoteDebug.SlotTable

variable {α : Type} {t u : SlotTable α} {v w : α} {id n : Nat} {log : List (Record α)}

/-- The id that slot number `i` gives next, by the ids that were given: its first, or the last one and `n`. -/
def following (n i : Nat) (ids : List Nat) : Nat :=
  match (ids.filter fun id => indexOf n id = i).getLast? with
  | none => i + 1
  | some id => id + n

/-- What holds of a table of `n` slots by the records of what was done with it. -/
structure Account (n : Nat) (t : SlotTable α) (log : List (Record α)) : Prop where
  /-- No id is given twice, and the ids of one slot, which are those of one remainder, rise. -/
  fresh : (issued log).Pairwise fun a b => a ≠ b ∧ (a % n = b % n → a < b)
  /-- If nothing was retired, the first `n` insertions gave the ids from 1 on. -/
  dense : (∀ id, .retired id true ∉ log) → ∀ k < n, ∀ a, (answers log)[k]? = some a → a = some (k + 1)
  /-- Live is what was inserted and not retired since, with what was last stored. -/
  get? : ∀ id v, t.get? id = some v ↔ ∃ before w after, log = before ++ .inserted w id :: after ∧
    (∀ done, .retired id done ∉ after) ∧ v = lastStored id w after
  /-- Still there is what was inserted if no id of its slot was given since. -/
  entries : ∀ id v, entry? t id = some v ↔ ∃ before w after, log = before ++ .inserted w id :: after ∧
    (∀ w id', .inserted w id' ∈ after → id' % n ≠ id % n) ∧ v = lastStored id w after
  retire : ∀ id, (t.step (.retire id)).2 = .retired id true ↔ ∃ v, t.get? id = some v
  toList : ∀ id v, (id, v) ∈ t.toList ↔ t.get? id = some v
  slotOrder : t.ids.Pairwise fun a b => indexOf n a < indexOf n b
  /-- A claim takes the first slot without a live value behind the one claimed last, and gives its next id. -/
  claim : ∀ v id u, t.insert? v = some (id, u) → ∃ i, t.FirstFree (searchStart n (issued log)) i ∧
    indexOf n id = i ∧ id = following n i (issued log)
  /-- A claim fails, and leaves the table as it is, if there is no such slot or its next id has more than 64 bits. -/
  refuse : ∀ v, t.step (.insert v) = (t, .refused v) ↔ n = 0 ∨ (∀ i < n, t.IsLiveAt i) ∨
    ∃ i, t.FirstFree (searchStart n (issued log)) i ∧ 2 ^ 64 ≤ following n i (issued log)
  /-- No count of claims needs more than 64 bits, nor does the search for a slot. -/
  generations : ∀ i, t.claims i < 2 ^ 64
  search : ∀ i < n, t.cursor + i < 2 ^ 64

theorem Tracks.nextId_eq (h : Tracks n t log) {i : Nat} (hi : i < n) : t.nextId i = following n i (issued log) := by
  rw [following, h.slots i hi, nextId, h.capacity]
  cases t.claims i with
  | zero => simp [idAt]
  | succ g =>
    rw [List.range_succ, List.map_append, List.map_singleton, List.getLast?_concat]
    simp only [idAt, Nat.succ_mul]
    omega

theorem Tracks.claims_lt (h : Tracks n t log) (i : Nat) : t.claims i < 2 ^ 64 := by
  cases count : t.claims i with
  | zero => exact Nat.two_pow_pos 64
  | succ g =>
    have hi : i < n := by
      by_contra outside
      have none : t.generations[i]? = none := by
        rw [List.getElem?_eq_none_iff, length_generations, h.capacity]
        exact Nat.not_lt.1 outside
      simp [claims, List.getD_eq_getElem?_getD, none] at count
    -- the last id that the slot gave had no more than 64 bits
    have given : idAt n i g ∈ issued log := by
      have hmem : idAt n i g ∈ (List.range (t.claims i)).map (idAt n i) :=
        List.mem_map_of_mem (List.mem_range.2 (by omega))
      rw [← h.slots i hi] at hmem
      exact (List.mem_filter.1 hmem).1
    have small := (h.bounds _ given).2
    have grows : g ≤ g * n := Nat.le_mul_of_pos_right g (by omega)
    simp only [idAt] at small
    omega

theorem step_insert_eq_refused_iff : t.step (.insert v) = (t, .refused v) ↔ t.insert? v = none := by
  cases h : t.insert? v <;> simp [step, h]

section Runs

variable (n : Nat) (uses : List (Use α))

theorem standing?_run_empty (id : Nat) :
    ((empty n).run uses).1.standing? id = ((empty n).run uses).2.foldl (turn n id) none := by
  have nothing : (empty n : SlotTable α).standing? id = none := by
    unfold standing?
    simp only [empty, List.getElem?_replicate]
    split <;> rfl
  have capacity : (empty n : SlotTable α).capacity = n := List.length_replicate
  rw [standing?_run, nothing, capacity]

theorem get?_run_empty (id : Nat) (v : α) : ((empty n).run uses).1.get? id = some v ↔
    ∃ before w after, ((empty n).run uses).2 = before ++ .inserted w id :: after ∧
      (∀ done, .retired id done ∉ after) ∧ v = lastStored id w after := by
  constructor
  · intro h
    rw [get?_eq_some_iff_standing?, standing?_run_empty, foldl_turn_eq_some] at h
    obtain ⟨before, w, after, split, -, stored, live⟩ := h
    exact ⟨before, w, after, split, live.1 rfl, stored⟩
  · rintro ⟨before, w, after, split, kept, rfl⟩
    have split' : ((empty n).run uses).2 = (before ++ [.inserted w id]) ++ after := by simpa using split
    obtain ⟨a, b, -, first, rfl, last⟩ := run_split split'
    -- behind its insertion the value is live, and it stays
    have live : ((empty n).run a).1.get? id = some w := by
      rw [get?_eq_some_iff_standing?, standing?_run_empty, first, List.foldl_append]
      simp [turn]
    rw [← last]
    exact get?_run b live kept

theorem entry?_run_empty (id : Nat) (v : α) : entry? ((empty n).run uses).1 id = some v ↔
    ∃ before w after, ((empty n).run uses).2 = before ++ .inserted w id :: after ∧
      (∀ w id', .inserted w id' ∈ after → id' % n ≠ id % n) ∧ v = lastStored id w after := by
  rw [entry?_eq, standing?_run_empty, Option.map_eq_some_iff]
  constructor
  · rintro ⟨⟨live, v⟩, h, rfl⟩
    obtain ⟨before, w, after, split, kept, stored, -⟩ := foldl_turn_eq_some.1 h
    exact ⟨before, w, after, split, kept, stored⟩
  · rintro ⟨before, w, after, split, kept, rfl⟩
    obtain ⟨live, -, hlive⟩ := foldl_turn_live kept w
    exact ⟨(live, _), foldl_turn_eq_some.2 ⟨before, w, after, split, kept, rfl, hlive⟩, rfl⟩

end Runs

theorem Tracks.insert?_some (h : Tracks n t log) (claim : t.insert? w = some (id, u)) :
    ∃ i, t.FirstFree (searchStart n (issued log)) i ∧ indexOf n id = i ∧ id = following n i (issued log) := by
  obtain ⟨i, first, rfl, -, -⟩ := insert?_eq_some_iff.1 claim
  have hi := first.lt
  refine ⟨i, h.cursor ▸ first, ?_, h.nextId_eq (h.capacity ▸ hi)⟩
  rw [nextId, h.capacity]
  exact indexOf_idAt (h.capacity ▸ hi) _

theorem Tracks.insert?_none (h : Tracks n t log) (v : α) :
    t.insert? v = none ↔ n = 0 ∨ (∀ i < n, t.IsLiveAt i) ∨
    ∃ i, t.FirstFree (searchStart n (issued log)) i ∧ 2 ^ 64 ≤ following n i (issued log) := by
  rw [insert?_eq_none_iff, h.capacity, h.cursor]
  have large : (∃ i, t.FirstFree (searchStart n (issued log)) i ∧ 2 ^ 64 ≤ t.nextId i) ↔
      ∃ i, t.FirstFree (searchStart n (issued log)) i ∧ 2 ^ 64 ≤ following n i (issued log) := by
    refine exists_congr fun i => and_congr_right fun first => ?_
    rw [h.nextId_eq (h.capacity ▸ first.lt)]
  rw [large]
  constructor
  · exact Or.inr
  · rintro (rfl | rest)
    · exact Or.inl fun i hi => absurd hi (Nat.not_lt_zero i)
    · exact rest

theorem Tracks.search (h : Tracks n t log) (room : n ≤ 2 ^ 63) {i : Nat} (hi : i < n) : t.cursor + i < 2 ^ 64 := by
  have inside : t.cursor < n := by
    rw [h.cursor, searchStart]
    split
    · omega
    · exact Nat.mod_lt _ (by omega)
  omega

/-- A table that was empty at first and has no more than 2^63 slots is what the records say, however it was used. Its
ids are new and its lookups exact. -/
theorem account_run (room : n ≤ 2 ^ 63) (uses : List (Use α)) :
    Account n ((empty n).run uses).1 ((empty n).run uses).2 := by
  have tracks : Tracks n ((empty n).run uses).1 ((empty n).run uses).2 := tracks_run (tracks_empty n) uses
  exact {
    fresh := tracks.rising
    dense := fun kept => (dense_run (dense_empty n) room uses kept).inOrder
    get? := get?_run_empty n uses
    entries := entry?_run_empty n uses
    retire := fun id => by simp [step, retire?_eq, Option.isSome_iff_exists]
    toList := fun id v => mem_toList
    slotOrder := by
      have order := pairwise_ids ((empty n).run uses).1
      rwa [tracks.capacity] at order
    claim := fun v id u claim => tracks.insert?_some claim
    refuse := fun v => step_insert_eq_refused_iff.trans (tracks.insert?_none v)
    generations := tracks.claims_lt
    search := fun i hi => tracks.search room hi }

/-- A table of two slots that is filled, loses its first value and takes another in its place. -/
theorem account_of_reuse : ∃ uses : List (Use Nat),
    uses = [.insert 10, .insert 20, .retire 1, .insert 30, .write 3 (· + 1), .insert 40] ∧ 2 ≤ 2 ^ 63 ∧
      issued ((empty 2).run uses).2 = [1, 2, 3] ∧ ((empty 2).run uses).1.toList = [(3, 31), (2, 20)] ∧
      entry? ((empty 2).run uses).1 1 = none ∧ Account 2 ((empty 2).run uses).1 ((empty 2).run uses).2 :=
  ⟨_, rfl, by decide, by decide, by decide, by decide, account_run (by decide) _⟩

end RemoteDebug.SlotTable
