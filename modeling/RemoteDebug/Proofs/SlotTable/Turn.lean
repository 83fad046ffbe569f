import Mathlib.Data.List.Induction
import RemoteDebug.Proofs.SlotTable.Standing

/-!
# What records say of an id

Every use of a table changes what stands under an id as its record says (`standing?_step`, by `turn`). So there stands
what was inserted if no id of its slot was given since (`foldl_turn_eq_some`), and a live value stays until it is
retired (`get?_run`).
-/

namespace RemoteDebug.SlotTable

variable {α : Type} {t u : SlotTable α} {v w : α} {id id' n : Nat} {log : List (Record α)}

/-- What a record makes of what stands under an id, in a table of `n` slots. -/
def turn (n id : Nat) (s : Option (Bool × α)) : Record α → Option (Bool × α)
  | .inserted v id' => if id = id' then some (true, v) else if id % n = id' % n then none else s
  | .refused _ => s
  | .retired id' _ => if id = id' then s.map fun s => (false, s.2) else s
  | .wrote id' f => if id = id' then s.map (changed f) else s
  | .wroteAll f => s.map (changed (f id))

/-- A use changes what stands under an id as its record says. -/
theorem standing?_step (t : SlotTable α) (use : Use α) (id : Nat) :
    (t.step use).1.standing? id = turn t.capacity id (t.standing? id) (t.step use).2 := by
  cases use with
  | insert v =>
    cases h : t.insert? v with
    | none => simp only [step, h, turn]
    | some claim =>
      obtain ⟨id', u⟩ := claim
      simp only [step, h, turn]
      exact standing?_insert? h id
  | retire id' =>
    simp only [step, retire?_eq, turn]
    exact standing?_retire t id' id
  | write id' f => exact standing?_modify t id' f id
  | writeAll f => exact standing?_mapLive t f id

@[simp] theorem capacity_step (t : SlotTable α) (use : Use α) : (t.step use).1.capacity = t.capacity := by
  cases use with
  | insert v =>
    cases h : t.insert? v with
    | none => simp only [step, h]
    | some claim =>
      simp only [step, h]
      exact capacity_insert? h
  | retire id => simp only [step, retire?_eq, capacity_retire]
  | write id f => exact capacity_modify t id f
  | writeAll f => exact List.length_mapIdx

/-- What stands under an id after a run is what the records make of what stood there. -/
theorem standing?_run (t : SlotTable α) (uses : List (Use α)) (id : Nat) :
    (t.run uses).1.standing? id = (t.run uses).2.foldl (turn t.capacity id) (t.standing? id) := by
  induction uses generalizing t with
  | nil => rfl
  | cons use uses ih =>
    simp only [run, List.foldl_cons, ← standing?_step]
    rw [ih, capacity_step]

/-- A retired value stays until an id of its slot is given. -/
theorem foldl_turn_retired {after : List (Record α)}
    (kept : ∀ w id', .inserted w id' ∈ after → id' % n ≠ id % n)
    (v : α) : after.foldl (turn n id) (some (false, v)) = some (false, v) := by
  induction after with
  | nil => rfl
  | cons r after ih =>
    have same : turn n id (some (false, v)) r = some (false, v) := by
      cases r with
      | inserted w id' =>
        have other := kept w id' List.mem_cons_self
        have ne : id ≠ id' := by
          rintro rfl
          exact other rfl
        simp [turn, ne, Ne.symm other]
      | refused | retired | wrote | wroteAll => simp [turn, changed]
    rw [List.foldl_cons, same]
    exact ih fun w id' h => kept w id' (List.mem_cons_of_mem _ h)

/-- A live value stays until an id of its slot is given, and changes until it is retired. -/
theorem foldl_turn_live {after : List (Record α)} (kept : ∀ w id', .inserted w id' ∈ after → id' % n ≠ id % n)
    (v : α) : ∃ live, after.foldl (turn n id) (some (true, v)) = some (live, lastStored id v after) ∧
      (live = true ↔ ∀ done, .retired id done ∉ after) := by
  induction after generalizing v with
  | nil => exact ⟨true, rfl, by simp⟩
  | cons r after ih =>
    have rest : ∀ w id', .inserted w id' ∈ after → id' % n ≠ id % n :=
      fun w id' h => kept w id' (List.mem_cons_of_mem _ h)
    rw [List.foldl_cons]
    cases r with
    | inserted w id' =>
      have other := kept w id' List.mem_cons_self
      have ne : id ≠ id' := by
        rintro rfl
        exact other rfl
      simpa [turn, lastStored, ne, Ne.symm other] using ih rest v
    | refused w => simpa [turn, lastStored] using ih rest v
    | wroteAll f => simpa [turn, lastStored, changed] using ih rest (f id v)
    | wrote id' f =>
      by_cases hid : id = id'
      · simpa [turn, lastStored, changed, hid] using ih rest (f v)
      · simpa [turn, lastStored, hid] using ih rest v
    | retired id' done =>
      by_cases hid : id = id'
      · subst hid
        refine ⟨false, by simpa [turn, lastStored] using foldl_turn_retired rest v, ?_⟩
        simp only [Bool.false_eq_true, false_iff, not_forall, not_not]
        exact ⟨done, List.mem_cons_self⟩
      · simpa [turn, lastStored, hid] using ih rest v

/-- What stands under an id behind a record was inserted by it, or stood there before. -/
theorem turn_eq_some {s : Option (Bool × α)} {r : Record α} {live : Bool} (h : turn n id s r = some (live, v)) :
    (r = .inserted v id ∧ live = true) ∨ s.isSome ∧ ∀ w id', r = .inserted w id' → id' % n ≠ id % n := by
  cases r with
  | inserted w id' =>
    simp only [turn] at h
    split at h
    · rename_i hid
      cases h
      exact Or.inl ⟨by rw [hid], rfl⟩
    · split at h
      · cases h
      · rename_i other
        refine Or.inr ⟨by simp [h], fun w' id'' heq => ?_⟩
        cases heq
        exact Ne.symm other
  | refused | retired | wrote | wroteAll =>
    refine Or.inr ⟨?_, nofun⟩
    cases s with
    | none => simp [turn] at h
    | some s => rfl

/-- What stands under an id was inserted under it, and no id of its slot was given since. -/
theorem foldl_turn_eq_some {live : Bool} : log.foldl (turn n id) none = some (live, v) ↔
    ∃ before w after, log = before ++ .inserted w id :: after ∧
      (∀ w id', .inserted w id' ∈ after → id' % n ≠ id % n) ∧ v = lastStored id w after ∧
      (live = true ↔ ∀ done, .retired id done ∉ after) := by
  constructor
  · intro h
    induction log using List.reverseRecOn generalizing live v with
    | nil => cases h
    | append_singleton log r ih =>
      rw [List.foldl_append, List.foldl_cons, List.foldl_nil] at h
      rcases turn_eq_some h with ⟨rfl, rfl⟩ | ⟨there, other⟩
      · exact ⟨log, v, [], rfl, nofun, rfl, by simp⟩
      · obtain ⟨⟨live', v'⟩, stood⟩ := Option.isSome_iff_exists.1 there
        obtain ⟨before, w, after, rfl, kept, -, -⟩ := ih stood
        have kept' : ∀ w id', .inserted w id' ∈ after ++ [r] → id' % n ≠ id % n := by
          intro w id' hmem
          rcases List.mem_append.1 hmem with hmem | hmem
          · exact kept w id' hmem
          · exact other w id' (List.mem_singleton.1 hmem).symm
        -- the records since the insertion lead to one value only
        obtain ⟨live'', fold, hlive⟩ := foldl_turn_live kept' w
        have reached : some (live, v) = some (live'', lastStored id w (after ++ [r])) := by
          rw [← h, ← fold]
          simp [turn]
        cases reached
        exact ⟨before, w, after ++ [r], by simp, kept', rfl, hlive⟩
  · rintro ⟨before, w, after, rfl, kept, rfl, hlive⟩
    obtain ⟨live', fold, hlive'⟩ := foldl_turn_live (n := n) kept w
    have same : live = live' := Bool.eq_iff_iff.2 (hlive.trans hlive'.symm)
    rw [List.foldl_append, List.foldl_cons, same, ← fold]
    simp [turn]

/-! ## A live value stays -/

/-- No claim takes the slot of a live value. -/
theorem mod_ne_of_insert? (hv : t.get? id = some v) (h : t.insert? w = some (id', u)) :
    id ≠ id' ∧ id % t.capacity ≠ id' % t.capacity := by
  obtain ⟨i, g, hs, rfl⟩ := get?_eq_some_iff.1 hv
  obtain ⟨j, first, rfl, -, -⟩ := insert?_eq_some_iff.1 h
  have hi : i < t.capacity := (List.getElem?_eq_some_iff.1 hs).1
  have other : i ≠ j := by
    rintro rfl
    obtain ⟨k, -, -, notLive, -⟩ := first
    exact notLive ⟨g, v, hs⟩
  have differ : idAt t.capacity i g % t.capacity ≠ t.nextId j % t.capacity := by
    intro same
    have slots := (indexOf_eq_iff (idAt_pos _ i g) (idAt_pos _ j (t.claims j))).2 same
    rw [indexOf_idAt hi, indexOf_idAt first.lt] at slots
    exact other slots
  exact ⟨fun same => differ (by rw [same]), differ⟩

/-- A value that is not retired stays, and takes what is stored. -/
theorem get?_run (uses : List (Use α)) (hv : t.get? id = some v)
    (stays : ∀ done, .retired id done ∉ (t.run uses).2) :
    (t.run uses).1.get? id = some (lastStored id v (t.run uses).2) := by
  induction uses generalizing t v with
  | nil => exact hv
  | cons use uses ih =>
    have rest : ∀ done, .retired id done ∉ ((t.step use).1.run uses).2 :=
      fun done h => stays done (List.mem_cons_of_mem _ h)
    have first : ∀ done, (t.step use).2 ≠ .retired id done := by
      intro done h
      exact stays done (h ▸ List.mem_cons_self)
    have turned := standing?_step t use id
    rw [get?_eq_some_iff_standing?.1 hv] at turned
    simp only [run]
    cases use with
    | insert w =>
      cases h : t.insert? w with
      | none =>
        simp only [step, h] at turned rest ⊢
        exact ih hv rest
      | some claim =>
        obtain ⟨id', u⟩ := claim
        obtain ⟨ne, differ⟩ := mod_ne_of_insert? hv h
        simp only [step, h, turn, if_neg ne, if_neg differ] at turned rest ⊢
        exact ih (get?_eq_some_iff_standing?.2 turned) rest
    | retire id' =>
      have ne : id ≠ id' := by
        rintro rfl
        exact first _ rfl
      simp only [step, turn, if_neg ne] at turned rest ⊢
      simp only [lastStored, if_neg ne]
      exact ih (get?_eq_some_iff_standing?.2 turned) rest
    | write id' f =>
      simp only [step, turn] at turned rest ⊢
      simp only [lastStored]
      by_cases hid : id = id'
      · simp only [if_pos hid] at turned ⊢
        exact ih (get?_eq_some_iff_standing?.2 turned) rest
      · simp only [if_neg hid] at turned ⊢
        exact ih (get?_eq_some_iff_standing?.2 turned) rest
    | writeAll f => exact ih (get?_eq_some_iff_standing?.2 turned) rest

end RemoteDebug.SlotTable
