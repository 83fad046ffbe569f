import Mathlib.Data.List.Perm.Subperm
import RemoteDebug.Proofs.Breakpoint.Slots
import RemoteDebug.Proofs.Breakpoint.Traps

/-!
# The breakpoints of a table

A breakpoint is known by the address of its trap or by its trigger (`Breakpoint`). The breakpoints of a table
(`BreakpointTable.breakpoints`) are of three sorts, each with room for a fixed number of them; a place for one more is
found as long as there is room (`BreakpointTable.freePatch?_eq_none_iff`, `BreakpointTable.Laid.freeSlot?_eq_none_iff`).
A table is proper if none is there twice and each could be set (`BreakpointTable.Proper`).
-/

namespace RemoteDebug

/-- A breakpoint by what it is known by. -/
inductive Breakpoint
  | patch (addr : UInt64)
  | trigger (trigger : Cpu.Trigger)
  deriving DecidableEq, Repr

namespace Breakpoint

/-- The address is not zero, and what is watched are one, two, four or eight bytes. -/
def Valid : Breakpoint → Prop
  | .patch addr => addr ≠ 0
  | .trigger ⟨addr, .fetch⟩ => addr ≠ 0
  | .trigger ⟨addr, .data _ size⟩ => addr ≠ 0 ∧ (size = 1 ∨ size = 2 ∨ size = 4 ∨ size = 8)

/-- Whether two breakpoints are of one sort, so that they share the room for it. -/
def alike : Breakpoint → Breakpoint → Bool
  | .patch _, .patch _ => true
  | .trigger ⟨_, .fetch⟩, .trigger ⟨_, .fetch⟩ => true
  | .trigger ⟨_, .data _ _⟩, .trigger ⟨_, .data _ _⟩ => true
  | _, _ => false

/-- How many breakpoints of this sort there is room for. -/
def room (maxPatches : Nat) : Breakpoint → Nat
  | .patch _ => maxPatches
  | .trigger ⟨_, .fetch⟩ => 6
  | .trigger ⟨_, .data _ _⟩ => 4

theorem valid_trigger_iff {trigger : Cpu.Trigger} :
    (Breakpoint.trigger trigger).Valid ↔ trigger.addr ≠ 0 ∧ trigger.condition.supported = true := by
  obtain ⟨addr, condition⟩ := trigger
  cases condition <;> simp [Valid, Cpu.Condition.supported, or_assoc]

theorem alike_trigger {a b : Cpu.Trigger} :
    (Breakpoint.trigger a).alike (.trigger b) = true ↔ b.condition.slots = a.condition.slots := by
  obtain ⟨_, a⟩ := a
  obtain ⟨_, b⟩ := b
  cases a <;> cases b <;> simp [alike, Cpu.Condition.slots]

theorem room_trigger {maxPatches : Nat} {trigger : Cpu.Trigger} :
    (Breakpoint.trigger trigger).room maxPatches = trigger.condition.slots.length := by
  obtain ⟨_, condition⟩ := trigger
  cases condition <;> rfl

end Breakpoint

namespace BreakpointTable

variable {t t' : BreakpointTable} {addr : UInt64} {trigger : Cpu.Trigger} {n : Nat}

/-- The breakpoints in a table. -/
def breakpoints (t : BreakpointTable) : List Breakpoint :=
  t.patchList.map (Breakpoint.patch ·.addr) ++ t.triggers.map (Breakpoint.trigger ·.2)

theorem patch_mem_breakpoints : .patch addr ∈ t.breakpoints ↔ ∃ p ∈ t.patchList, p.addr = addr := by
  simp [breakpoints]

theorem trigger_mem_breakpoints : .trigger trigger ∈ t.breakpoints ↔ ∃ n, t.trigger? n = some trigger := by
  simp [breakpoints, mem_triggers]

theorem patchAt?_isSome_iff : (t.patchAt? addr).isSome = true ↔ .patch addr ∈ t.breakpoints := by
  rw [patch_mem_breakpoints, Option.isSome_iff_ne_none, Ne, patchAt?_eq_none_iff]
  simp

/-! ## Places -/

/-- Setting or emptying a slot changes the trigger there. -/
theorem triggers_setSlot {x : Option Cpu.Trigger} (h : t.slots[n]? = some x) (y : Option Cpu.Trigger) :
    ∃ before after, t.triggers = before ++ (x.map (n, ·)).toList ++ after ∧
      (t.setSlot n y).triggers = before ++ (y.map (n, ·)).toList ++ after := by
  obtain ⟨hlt, rfl⟩ := List.getElem?_eq_some_iff.1 h
  have split : t.slots = t.slots.take n ++ t.slots[n] :: t.slots.drop (n + 1) := by
    rw [← List.drop_eq_getElem_cons hlt, List.take_append_drop]
  have around (z : Option Cpu.Trigger) :
      triggers { t with slots := t.slots.take n ++ z :: t.slots.drop (n + 1) } =
        ((t.slots.take n).zipIdx.filterMap fun e => e.1.map (e.2, ·)) ++
          (z.map (n, ·)).toList ++
          (((t.slots.drop (n + 1)).zipIdx (n + 1)).filterMap fun e => e.1.map (e.2, ·)) := by
    have hlen : (t.slots.take n).length = n := by simp [Nat.le_of_lt hlt]
    simp only [triggers, List.zipIdx_append, List.zipIdx_cons, List.filterMap_append, hlen, Nat.zero_add]
    cases z <;> simp
  refine ⟨_, _, (congrArg triggers ?_).trans (around t.slots[n]), (congrArg triggers ?_).trans (around y)⟩
  · rw [← split]
  · rw [setSlot, List.set_eq_take_append_cons_drop, if_pos hlt]

/-- What stands between two parts of a list stands before both, up to order. -/
theorem perm_middle (before middle after : List Breakpoint) :
    (before ++ middle ++ after).Perm (middle ++ (before ++ after)) := by
  rw [← List.append_assoc]
  exact List.perm_append_comm.append_right after

/-- Setting or emptying a place for a trap leaves the other breakpoints alone. -/
theorem perm_setPatch {i : Nat} {x : Option Patch} (h : t.patches[i]? = some x) (y : Option Patch) :
    ∃ others, t.breakpoints.Perm ((x.map (Breakpoint.patch ·.addr)).toList ++ others) ∧
      (t.setPatch i y).breakpoints.Perm ((y.map (Breakpoint.patch ·.addr)).toList ++ others) := by
  obtain ⟨before, after, old, new⟩ := patchList_setPatch h y
  have list (u : BreakpointTable) (z : Option Patch) (hz : u.patchList = before ++ z.toList ++ after)
      (same : u.triggers = t.triggers) :
      u.breakpoints.Perm ((z.map (Breakpoint.patch ·.addr)).toList ++
        (before.map (Breakpoint.patch ·.addr) ++ (after.map (Breakpoint.patch ·.addr) ++
          t.triggers.map (Breakpoint.trigger ·.2)))) := by
    rw [breakpoints, hz, same, List.map_append, List.map_append, Option.toList_map, List.append_assoc]
    exact perm_middle _ _ _
  exact ⟨_, list t x old rfl, list (t.setPatch i y) y new rfl⟩

/-- Setting or emptying a slot leaves the other breakpoints alone. -/
theorem perm_setSlot {x : Option Cpu.Trigger} (h : t.slots[n]? = some x) (y : Option Cpu.Trigger) :
    ∃ others, t.breakpoints.Perm ((x.map Breakpoint.trigger).toList ++ others) ∧
      (t.setSlot n y).breakpoints.Perm ((y.map Breakpoint.trigger).toList ++ others) := by
  obtain ⟨before, after, old, new⟩ := triggers_setSlot h y
  have list (u : BreakpointTable) (z : Option Cpu.Trigger)
      (hz : u.triggers = before ++ (z.map (n, ·)).toList ++ after) (same : u.patchList = t.patchList) :
      u.breakpoints.Perm ((z.map Breakpoint.trigger).toList ++
        (t.patchList.map (Breakpoint.patch ·.addr) ++ before.map (Breakpoint.trigger ·.2) ++
          after.map (Breakpoint.trigger ·.2))) := by
    have one : (z.map (n, ·)).toList.map (Breakpoint.trigger ·.2) = (z.map Breakpoint.trigger).toList := by
      cases z <;> rfl
    rw [breakpoints, hz, same, List.map_append, List.map_append, one, ← List.append_assoc, ← List.append_assoc]
    exact perm_middle _ _ _
  exact ⟨_, list t x old rfl, list (t.setSlot n y) y new rfl⟩

/-! ## Room -/

/-- A table is full for breakpoints like this one. -/
def Full (t : BreakpointTable) (b : Breakpoint) : Prop :=
  (t.breakpoints.filter b.alike).length = b.room t.patches.length

theorem freePatch?_eq_none_iff : t.freePatch? = none ↔ t.Full (.patch addr) := by
  have all : t.breakpoints.filter (Breakpoint.alike (.patch addr)) = t.patchList.map (Breakpoint.patch ·.addr) := by
    simp [breakpoints, List.filter_append, List.filter_map, Function.comp_def, Breakpoint.alike]
  rw [Full, all, List.length_map, patchList, List.length_filterMap_eq_countP, Breakpoint.room, List.countP_eq_length,
    freePatch?, List.findIdx?_eq_none_iff]
  simp

theorem pairwise_triggers (t : BreakpointTable) : t.triggers.Pairwise fun a b => a.1 < b.1 := by
  have order : t.slots.zipIdx.Pairwise fun a b => a.2 < b.2 := by
    rw [← List.pairwise_map (f := Prod.snd), List.zipIdx_map_snd]
    exact List.pairwise_lt_range'
  rw [triggers, List.pairwise_filterMap]
  refine order.imp fun {a b} hlt x hx y hy => ?_
  obtain ⟨_, -, rfl⟩ := Option.map_eq_some_iff.1 hx
  obtain ⟨_, -, rfl⟩ := Option.map_eq_some_iff.1 hy
  exact hlt

/-- No slot can hold triggers of both sorts. -/
theorem slots_eq_of_mem {a b : Cpu.Condition} (ha : n ∈ a.slots) (hb : n ∈ b.slots) : b.slots = a.slots := by
  cases a <;> cases b <;> simp only [Cpu.Condition.slots, List.mem_cons, List.not_mem_nil, or_false] at ha hb ⊢ <;>
    omega

theorem Laid.freeSlot?_eq_none_iff (h : t.Laid) :
    t.freeSlot? trigger.condition = none ↔ t.Full (.trigger trigger) := by
  let used := (t.triggers.filter fun e => e.2.condition.slots = trigger.condition.slots).map Prod.fst
  have mem_used {n : Nat} : n ∈ used ↔ ∃ u, t.trigger? n = some u ∧
      u.condition.slots = trigger.condition.slots := by
    simp [used, mem_triggers]
  have length : (t.breakpoints.filter (Breakpoint.trigger trigger).alike).length = used.length := by
    have patches : (t.patchList.map (Breakpoint.patch ·.addr)).filter (Breakpoint.trigger trigger).alike = [] := by
      simp [List.filter_map, Function.comp_def, Breakpoint.alike]
    have triggers (e : Nat × Cpu.Trigger) : (Breakpoint.trigger trigger).alike (.trigger e.2) =
        decide (e.2.condition.slots = trigger.condition.slots) :=
      Bool.eq_iff_iff.2 (Breakpoint.alike_trigger.trans decide_eq_true_iff.symm)
    rw [breakpoints, List.filter_append, patches, List.nil_append, List.filter_map, List.length_map, List.length_map]
    simp only [Function.comp_def, triggers]
  have once : used.Nodup := by
    refine List.Nodup.of_map id ?_
    rw [List.map_id, List.nodup_iff_pairwise_ne, List.pairwise_map]
    exact (t.pairwise_triggers.filter _).imp Nat.ne_of_lt
  have fits : used ⊆ trigger.condition.slots := by
    intro n hn
    obtain ⟨u, hu, hslots⟩ := mem_used.1 hn
    exact hslots ▸ h.fits n u hu
  have distinct : trigger.condition.slots.Nodup := by
    cases trigger.condition <;> simp [Cpu.Condition.slots]
  have taken : t.freeSlot? trigger.condition = none ↔ trigger.condition.slots ⊆ used := by
    rw [freeSlot?, List.find?_eq_none]
    refine forall₂_congr fun n hn => ?_
    have inside : n < t.slots.length := by
      rw [h.length]
      cases hc : trigger.condition <;> rw [hc] at hn <;>
        simp only [Cpu.Condition.slots, Cpu.slotCount, List.mem_cons, List.not_mem_nil, or_false] at hn ⊢ <;> omega
    rw [mem_used, decide_eq_true_iff, List.getElem?_eq_getElem inside, Option.some.injEq]
    have place : t.trigger? n = t.slots[n] := trigger?_of_getElem? (List.getElem?_eq_getElem inside)
    rw [← place]
    constructor
    · intro hne
      obtain ⟨u, hu⟩ := Option.ne_none_iff_exists'.1 hne
      exact ⟨u, hu, slots_eq_of_mem hn (h.fits n u hu)⟩
    · rintro ⟨u, hu, -⟩
      rw [hu]
      exact nofun
  rw [taken, Full, length, Breakpoint.room_trigger]
  constructor
  · intro hsub
    exact Nat.le_antisymm (once.subperm fits).length_le (distinct.subperm hsub).length_le
  · intro heq
    exact ((once.subperm fits).perm_of_length_le (Nat.le_of_eq heq.symm)).symm.subset

/-! ## Proper tables -/

theorem Laid.slotOf?_isSome_iff (h : t.Laid) : (t.slotOf? trigger).isSome = true ↔
    .trigger trigger ∈ t.breakpoints := by
  rw [trigger_mem_breakpoints]
  constructor
  · intro hs
    obtain ⟨slot, hslot⟩ := Option.isSome_iff_exists.1 hs
    exact ⟨slot, (slotOf?_eq_some hslot).2⟩
  · rintro ⟨n, hn⟩
    rw [slotOf?, List.find?_isSome]
    refine ⟨n, h.fits n trigger hn, ?_⟩
    simpa [trigger?, Option.join_eq_some_iff] using hn

/-- A table with all its places, in which no breakpoint is twice and each could be set. -/
structure Proper (maxPatches : Nat) (t : BreakpointTable) : Prop where
  laid : t.Laid
  places : t.patches.length = maxPatches
  once : t.breakpoints.Nodup
  valid : ∀ b ∈ t.breakpoints, b.Valid

variable {maxPatches : Nat} {b : Breakpoint}

theorem proper_empty (maxPatches : Nat) : (empty maxPatches).Proper maxPatches := by
  have unset : (empty maxPatches).triggers = [] := rfl
  have none_yet : (empty maxPatches).breakpoints = [] := by
    rw [breakpoints, unset]
    simp [patchList, empty]
  refine ⟨laid_empty _, by simp [empty], ?_, ?_⟩ <;> simp [none_yet]

/-- A new breakpoint comes in that can be set. -/
theorem Proper.add (h : t.Proper maxPatches) (laid : t'.Laid) (places : t'.patches.length = t.patches.length)
    (new : b ∉ t.breakpoints) (valid : b.Valid) (adds : t'.breakpoints.Perm (b :: t.breakpoints)) :
    t'.Proper maxPatches := by
  refine ⟨laid, places.trans h.places, adds.nodup_iff.2 (List.nodup_cons.2 ⟨new, h.once⟩), fun b' hb' => ?_⟩
  rcases List.mem_cons.1 (adds.mem_iff.1 hb') with rfl | hb'
  · exact valid
  · exact h.valid b' hb'

/-- What becomes of a proper table when breakpoints are taken out, as far as they are there. -/
structure Without (maxPatches : Nat) (t : BreakpointTable) (gone : List Breakpoint) (t' : BreakpointTable) : Prop where
  proper : t'.Proper maxPatches
  mem : ∀ b, b ∈ t'.breakpoints ↔ b ∈ t.breakpoints ∧ b ∉ gone

theorem Proper.without (h : t.Proper maxPatches) {gone : List Breakpoint}
    (absent : ∀ b ∈ gone, b ∉ t.breakpoints) :
    t.Without maxPatches gone t :=
  ⟨h, fun b => ⟨fun hb => ⟨hb, fun hgone => absent b hgone hb⟩, And.left⟩⟩

theorem Without.trans {t'' : BreakpointTable} {gone gone' : List Breakpoint} (h : t.Without maxPatches gone t')
    (h' : t'.Without maxPatches gone' t'') : t.Without maxPatches (gone ++ gone') t'' := by
  refine ⟨h'.proper, fun b => ?_⟩
  rw [h'.mem, h.mem, List.mem_append, not_or, and_assoc]

/-- One breakpoint is taken out. -/
theorem Proper.drop (h : t.Proper maxPatches) (laid : t'.Laid) (places : t'.patches.length = t.patches.length)
    (drops : t.breakpoints.Perm (b :: t'.breakpoints)) : t.Without maxPatches [b] t' := by
  obtain ⟨absent, once⟩ := List.nodup_cons.1 (drops.nodup_iff.1 h.once)
  refine ⟨⟨laid, places.trans h.places, once, fun b' hb' => ?_⟩, fun b' => ?_⟩
  · exact h.valid b' (drops.mem_iff.2 (List.mem_cons_of_mem _ hb'))
  · rw [drops.mem_iff, List.mem_cons, List.mem_singleton]
    constructor
    · intro hb'
      exact ⟨.inr hb', fun heq => absent (heq ▸ hb')⟩
    · rintro ⟨heq | hb', hne⟩
      · exact absurd heq hne
      · exact hb'

theorem Proper.dropPatch (h : t.Proper maxPatches) {i : Nat} {p : Patch} (held : t.patches[i]? = some (some p)) :
    t.Without maxPatches [.patch p.addr] (t.setPatch i none) := by
  obtain ⟨others, old, new⟩ := perm_setPatch held none
  exact h.drop ⟨h.laid.length, h.laid.fits⟩ (by simp [setPatch]) (old.trans (new.symm.cons _))

theorem Proper.dropTrigger (h : t.Proper maxPatches) (held : t.slots[n]? = some (some trigger)) :
    t.Without maxPatches [.trigger trigger] (t.setSlot n none) := by
  obtain ⟨others, old, new⟩ := perm_setSlot held none
  exact h.drop (h.laid.setSlot (List.getElem?_eq_some_iff.1 held).1 nofun) rfl (old.trans (new.symm.cons _))

theorem Proper.forgetPatch (h : t.Proper maxPatches) (addr : UInt64) :
    t.Without maxPatches [.patch addr] (t.forgetPatch addr) := by
  unfold BreakpointTable.forgetPatch
  split
  · obtain ⟨held, rfl⟩ := patchAt?_eq_some ‹_›
    exact h.dropPatch held
  · rename_i absent
    refine h.without fun b hb held => ?_
    rw [List.mem_singleton.1 hb, ← patchAt?_isSome_iff, absent] at held
    cases held

end BreakpointTable
end RemoteDebug
