import RemoteDebug.Proofs.SlotTable.Turn

/-!
# The ids that a table gives

The ids that a slot has given are its own, in their order, and the search for the next slot begins behind the one
claimed last (`Tracks`). If nothing is retired the slots are claimed from the first on, and the ids count from 1
(`Dense`). Both hold at the end of every run on an empty table (`tracks_run`, `dense_run`).
-/

namespace RemoteDebug.SlotTable

variable {α : Type} {t u : SlotTable α} {v w : α} {id n : Nat} {log : List (Record α)}

/-! ## The ids -/

/-- The ids that a client was given, oldest first. -/
def issued (log : List (Record α)) : List Nat :=
  log.filterMap fun
    | .inserted _ id => some id
    | _ => none

/-- The answers to the insertions, oldest first. -/
def answers (log : List (Record α)) : List (Option Nat) :=
  log.filterMap fun
    | .inserted _ id => some (some id)
    | .refused _ => some none
    | _ => none

/-- Where the search for a slot begins: behind the slot that was claimed last. -/
def searchStart (n : Nat) (ids : List Nat) : Nat :=
  match ids.getLast? with
  | none => 0
  | some id => (indexOf n id + 1) % n

theorem issued_append (a b : List (Record α)) : issued (a ++ b) = issued a ++ issued b := List.filterMap_append

/-- What the records say about the counts and the cursor of a table of `n` slots. -/
structure Tracks (n : Nat) (t : SlotTable α) (log : List (Record α)) : Prop where
  capacity : t.capacity = n
  /-- Each slot gave its own ids, in their order, and no others. -/
  slots : ∀ i < n, (issued log).filter (fun id => indexOf n id = i) = (List.range (t.claims i)).map (idAt n i)
  bounds : ∀ id ∈ issued log, 0 < id ∧ id < 2 ^ 64
  rising : (issued log).Pairwise fun a b => a ≠ b ∧ (a % n = b % n → a < b)
  cursor : t.cursor = searchStart n (issued log)

theorem tracks_empty (n : Nat) : Tracks n (empty n : SlotTable α) [] where
  capacity := List.length_replicate
  slots i hi := by
    have fresh : (empty n : SlotTable α).slots[i]? = some .fresh := by simp [empty, hi]
    rw [claims_of_slot fresh]
    rfl
  bounds := nofun
  rising := List.Pairwise.nil
  cursor := rfl

/-- A use that gives no id and moves neither the counts nor the cursor. -/
theorem Tracks.quiet {r : Record α} (h : Tracks n t log) (generations : u.generations = t.generations)
    (cursor : u.cursor = t.cursor) (none : issued [r] = []) : Tracks n u (log ++ [r]) := by
  have same : issued (log ++ [r]) = issued log := by rw [issued_append, none, List.append_nil]
  have size : u.capacity = t.capacity := by rw [← length_generations, generations, length_generations]
  refine ⟨size.trans h.capacity, fun i hi => ?_, ?_, ?_, ?_⟩
  · rw [same, h.slots i hi, claims, claims, generations]
  · rw [same]
    exact h.bounds
  · rw [same]
    exact h.rising
  · rw [same, cursor, h.cursor]

theorem claims_insert {i g : Nat} (hi : i < t.capacity) (cursor j : Nat) :
    (⟨t.slots.set i (.live g w), cursor⟩ : SlotTable α).claims j = if i = j then g + 1 else t.claims j := by
  unfold claims generations
  rw [List.getD_eq_getElem?_getD, List.getD_eq_getElem?_getD, List.getElem?_map, List.getElem?_map, List.getElem?_set]
  by_cases hij : i = j
  · subst hij
    have inside : i < t.slots.length := hi
    rw [if_pos rfl, if_pos rfl, if_pos inside]
    rfl
  · rw [if_neg hij, if_neg hij]

/-- An insertion that gives an id gives the next one of its slot. -/
theorem Tracks.insert (h : Tracks n t log) (claim : t.insert? w = some (id, u)) :
    Tracks n u (log ++ [.inserted w id]) := by
  obtain ⟨i, first, rfl, small, rfl⟩ := insert?_eq_some_iff.1 claim
  have hi := first.lt
  have own : indexOf n (t.nextId i) = i := by
    rw [← h.capacity]
    exact indexOf_idAt hi _
  have pos : 0 < t.nextId i := idAt_pos _ _ _
  have grown : issued (log ++ [.inserted w (t.nextId i)]) = issued log ++ [t.nextId i] := issued_append _ _
  refine ⟨(capacity_insert? claim).trans h.capacity, fun j hj => ?_, fun id hid => ?_, ?_, ?_⟩
  · rw [grown, List.filter_append, h.slots j hj, claims_insert hi]
    by_cases hij : i = j
    · subst hij
      have next : t.nextId i = idAt n i (t.claims i) := by rw [nextId, h.capacity]
      rw [if_pos rfl, List.range_succ, List.map_append, List.map_singleton, ← next]
      simp [own]
    · simp [own, hij]
  · rcases List.mem_append.1 (grown ▸ hid) with hid | hid
    · exact h.bounds id hid
    · rw [List.mem_singleton.1 hid]
      exact ⟨pos, small⟩
  · rw [grown]
    refine List.pairwise_append.2 ⟨h.rising, List.pairwise_singleton _ _, fun a ha b hb => ?_⟩
    rw [List.mem_singleton.1 hb]
    -- the ids of that slot so far are of earlier generations
    have below : a % n = t.nextId i % n → a < t.nextId i := by
      intro same
      have slot : indexOf n a = i := ((indexOf_eq_iff (h.bounds a ha).1 pos).2 same).trans own
      have hmem : a ∈ (issued log).filter fun id => indexOf n id = i :=
        List.mem_filter.2 ⟨ha, by simpa using slot⟩
      rw [h.slots i (h.capacity ▸ hi)] at hmem
      obtain ⟨g, hg, rfl⟩ := List.mem_map.1 hmem
      have earlier : g * n < t.claims i * n :=
        Nat.mul_lt_mul_of_pos_right (List.mem_range.1 hg) (h.capacity ▸ by omega)
      simp only [nextId, idAt, h.capacity]
      omega
    exact ⟨fun same => absurd (below (by rw [same])) (by omega), below⟩
  · rw [grown, searchStart, List.getLast?_concat]
    simp only [own, h.capacity]

theorem tracks_step (h : Tracks n t log) (use : Use α) : Tracks n (t.step use).1 (log ++ [(t.step use).2]) := by
  cases use with
  | insert w =>
    cases claim : t.insert? w with
    | none =>
      simp only [step, claim]
      exact h.quiet rfl rfl rfl
    | some p =>
      simp only [step, claim]
      exact h.insert claim
  | retire id =>
    simp only [step, retire?_eq]
    refine h.quiet (generations_retire t id) ?_ rfl
    unfold retire
    split <;> rfl
  | write id f =>
    refine h.quiet (generations_modify t id f) ?_ rfl
    simp only [step, modify]
    split <;> rfl
  | writeAll f => exact h.quiet (generations_mapLive t f) rfl rfl

theorem tracks_run (h : Tracks n t log) (uses : List (Use α)) : Tracks n (t.run uses).1 (log ++ (t.run uses).2) := by
  induction uses generalizing t log with
  | nil => simpa [run] using h
  | cons use uses ih => simpa [run] using ih (tracks_step h use)

/-! ## Without retirements -/

/-- A slot without its value. -/
def bare : Slot α → Slot Unit
  | .fresh => .fresh
  | .live g _ => .live g ()
  | .retired g _ => .retired g ()

/-- The outline of `n` slots the first `m` of which are live in their first generation. -/
def firstLive (n m : Nat) : List (Slot Unit) := (List.range n).map fun i => if i < m then .live 0 () else .fresh

/-- The slots were claimed from the first on, one for each value that was brought in, until all were claimed. -/
structure Dense (n : Nat) (t : SlotTable α) (log : List (Record α)) : Prop where
  slots : t.slots.map bare = firstLive n (answers log).length
  cursor : t.cursor = min (answers log).length n % n
  inOrder : ∀ k < n, ∀ a, (answers log)[k]? = some a → a = some (k + 1)

theorem getElem?_firstLive {n m i : Nat} (hi : i < n) :
    (firstLive n m)[i]? = some (if i < m then .live 0 () else .fresh) := by
  simp [firstLive, hi]

theorem firstLive_succ {m : Nat} (hm : m < n) : (firstLive n m).set m (.live 0 ()) = firstLive n (m + 1) := by
  apply List.ext_getElem?
  intro i
  rw [List.getElem?_set']
  by_cases hi : i < n
  · rw [getElem?_firstLive hi, getElem?_firstLive hi]
    by_cases him : m = i
    · simp [him]
    · have same : i < m + 1 ↔ i < m := by omega
      simp [him, same]
  · have past : m ≠ i := by omega
    simp [firstLive, past, hi]

theorem firstLive_of_le {m : Nat} (hm : n ≤ m) : firstLive n (m + 1) = firstLive n m := by
  apply List.map_congr_left
  intro i hi
  have := List.mem_range.1 hi
  rw [if_pos (by omega), if_pos (by omega)]

theorem dense_empty (n : Nat) : Dense n (empty n : SlotTable α) [] where
  slots := by
    apply List.ext_getElem?
    intro i
    by_cases hi : i < n
    · rw [getElem?_firstLive hi]
      simp [empty, answers, bare, hi]
    · simp [empty, firstLive, hi]
  cursor := by simp [empty, answers]
  inOrder := nofun

theorem answers_append (a b : List (Record α)) : answers (a ++ b) = answers a ++ answers b := List.filterMap_append

/-- A use that brings no value in and leaves the outline of the slots. -/
theorem Dense.quiet {r : Record α} (h : Dense n t log) (slots : u.slots.map bare = t.slots.map bare)
    (cursor : u.cursor = t.cursor) (none : answers [r] = []) : Dense n u (log ++ [r]) := by
  have same : answers (log ++ [r]) = answers log := by rw [answers_append, none, List.append_nil]
  refine ⟨?_, ?_, ?_⟩
  · rw [same, slots, h.slots]
  · rw [same, cursor, h.cursor]
  · rw [same]
    exact h.inOrder

theorem Dense.capacity (h : Dense n t log) : t.capacity = n := by
  have length := congrArg List.length h.slots
  simpa [SlotTable.capacity, firstLive] using length

theorem Dense.slot (h : Dense n t log) {i : Nat} (hi : i < n) :
    ∃ s, t.slots[i]? = some s ∧ bare s = if i < (answers log).length then .live 0 () else .fresh := by
  have outlined := congrArg (·[i]?) h.slots
  simpa only [List.getElem?_map, getElem?_firstLive hi, Option.map_eq_some_iff] using outlined

/-- As long as there are slots that were never claimed, the next one is claimed. -/
theorem Dense.insert?_eq (h : Dense n t log) (room : n ≤ 2 ^ 63) (v : α) (more : (answers log).length < n) :
    t.insert? v = some ((answers log).length + 1,
      ⟨t.slots.set (answers log).length (.live 0 v), ((answers log).length + 1) % n⟩) := by
  obtain ⟨s, hs, outline⟩ := h.slot more
  obtain rfl : s = .fresh := by
    rw [if_neg (Nat.lt_irrefl _)] at outline
    cases s <;> first | rfl | cases outline
  have cursor : t.cursor = (answers log).length := by
    rw [h.cursor, Nat.min_eq_left (Nat.le_of_lt more), Nat.mod_eq_of_lt more]
  have free : ¬ t.IsLiveAt (answers log).length := by
    rintro ⟨g, v, live⟩
    rw [hs] at live
    cases live
  have first : t.FirstFree t.cursor (answers log).length := by
    refine ⟨0, by rw [h.capacity]; omega, ?_, free, fun j hj => absurd hj (Nat.not_lt_zero j)⟩
    rw [cursor, h.capacity, Nat.add_zero, Nat.mod_eq_of_lt more]
  have claims : t.claims (answers log).length = 0 := claims_of_slot hs
  have next : t.nextId (answers log).length = (answers log).length + 1 := by simp [nextId, idAt, claims]
  exact insert?_eq_some_iff.2 ⟨_, first, next.symm, by omega, by rw [claims, h.capacity]⟩

/-- When all slots are claimed, nothing is brought in. -/
theorem Dense.insert?_eq_none (h : Dense n t log) (v : α) (full : n ≤ (answers log).length) :
    t.insert? v = none := by
  refine insert?_eq_none_iff.2 (Or.inl fun i hi => ?_)
  rw [h.capacity] at hi
  obtain ⟨s, hs, outline⟩ := h.slot hi
  rw [if_pos (by omega)] at outline
  cases s with
  | live g v => exact ⟨g, v, hs⟩
  | fresh | retired => cases outline

theorem Dense.insert (h : Dense n t log) (room : n ≤ 2 ^ 63) (v : α) :
    Dense n (t.step (.insert v)).1 (log ++ [(t.step (.insert v)).2]) := by
  by_cases more : (answers log).length < n
  · have grown : answers (log ++ [.inserted v ((answers log).length + 1)]) =
        answers log ++ [some ((answers log).length + 1)] := answers_append _ _
    simp only [step, h.insert?_eq room v more]
    refine ⟨?_, ?_, fun k hk a ha => ?_⟩
    · rw [grown, List.map_set, h.slots, List.length_append]
      exact firstLive_succ more
    · rw [grown, List.length_append, List.length_singleton, Nat.min_eq_left more]
    · rw [grown] at ha
      rcases Nat.lt_trichotomy k (answers log).length with hlt | rfl | hgt
      · exact h.inOrder k hk a (by rwa [List.getElem?_append_left hlt] at ha)
      · simpa using ha.symm
      · rw [List.getElem?_eq_none (by simp; omega)] at ha
        cases ha
  · have full := Nat.not_lt.1 more
    have grown : answers (log ++ [.refused v]) = answers log ++ [none] := answers_append _ _
    simp only [step, h.insert?_eq_none v full]
    refine ⟨?_, ?_, fun k hk a ha => ?_⟩
    · rw [grown, List.length_append, h.slots]
      exact (firstLive_of_le full).symm
    · rw [grown, List.length_append, h.cursor, Nat.min_eq_right full, Nat.min_eq_right (by omega)]
    · rw [grown, List.getElem?_append_left (by omega)] at ha
      exact h.inOrder k hk a ha

theorem dense_step (h : Dense n t log) (room : n ≤ 2 ^ 63) (use : Use α)
    (kept : ∀ id, (t.step use).2 ≠ .retired id true) : Dense n (t.step use).1 (log ++ [(t.step use).2]) := by
  cases use with
  | insert v => exact h.insert room v
  | retire id =>
    have none : (t.get? id).isSome = false := by
      by_contra some
      refine kept id ?_
      simp only [step, retire?_eq, Bool.eq_true_of_not_eq_false some]
    have same : t.retire id = t := by simp [retire, none]
    simp only [step, retire?_eq, same]
    exact h.quiet rfl rfl rfl
  | write id f =>
    refine h.quiet ?_ ?_ rfl
    · simp only [step, modify]
      split
      · exact map_modify_of_eq (fun s => by cases s <;> rfl) _ _
      · rfl
    · simp only [step, modify]
      split <;> rfl
  | writeAll f =>
    refine h.quiet ?_ rfl rfl
    apply List.ext_getElem?
    intro i
    simp only [step, mapLive, List.getElem?_map, List.getElem?_mapIdx, Option.map_map]
    congr 1
    funext s
    cases s <;> rfl

theorem dense_run (h : Dense n t log) (room : n ≤ 2 ^ 63) (uses : List (Use α))
    (kept : ∀ id, .retired id true ∉ (t.run uses).2) : Dense n (t.run uses).1 (log ++ (t.run uses).2) := by
  induction uses generalizing t log with
  | nil => simpa [run] using h
  | cons use uses ih =>
    have first : ∀ id, (t.step use).2 ≠ .retired id true := fun id heq => kept id (heq ▸ List.mem_cons_self)
    have next := ih (dense_step h room use first) fun id hmem => kept id (List.mem_cons_of_mem _ hmem)
    simpa [run] using next

end RemoteDebug.SlotTable
