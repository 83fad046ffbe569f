import Mathlib.Data.List.Induction
import RemoteDebug.Proofs.Breakpoint.Traps

/-!
# What is left behind by traps

Traps may lie over one another, and what a trap that is taken off puts back is what was there when it went in: maybe
bytes of another trap. So memory without traps is what the traps taken off left behind, the last one over each byte
(`Memory.byte?_putBack`), and is what it was if that is what they covered (`Memory.putBack_eq_iff`).

What can happen to the traps of a table and to the memory beneath them is said once (`BreakpointTable.Treats`). Either
way, bytes beneath no trap are those of memory with all put back that was taken off and all written that was written
(`BreakpointTable.Treats.left`); and if instructions are aligned and nothing is written over a trap, what is taken off
is what should be there (`BreakpointTable.Treats.overlays`).
-/

namespace RemoteDebug

open Kernel

/-- The bytes of the instruction that a trap went over. -/
def Patch.instruction (p : Patch) : List UInt8 := (LittleEndian.ofWord p.covered).take 4

@[simp] theorem Patch.length_instruction (p : Patch) : p.instruction.length = 4 := by simp [instruction]

/-- Whether a byte of memory is beneath a trap. -/
def Patch.covers (p : Patch) (a : Nat) : Bool := p.addr.toNat ≤ a ∧ a < p.addr.toNat + 4

theorem Patch.covers_iff {p : Patch} {a : Nat} : p.covers a = true ↔ Cpu.InInstruction p.addr a := by
  simp [covers, Cpu.InInstruction]

/-! ## Putting back -/

namespace Kernel.Memory

variable {m m' : Memory} {ps : List Patch} {a : Nat}

/-- Puts back the instructions that traps went over, one after another. -/
def putBack (m : Memory) (ps : List Patch) : Memory :=
  ps.foldl (fun m p => m.store p.addr.toNat p.instruction) m

@[simp] theorem putBack_nil (m : Memory) : m.putBack [] = m := rfl

@[simp] theorem putBack_cons (m : Memory) (p : Patch) (ps : List Patch) :
    m.putBack (p :: ps) = (m.store p.addr.toNat p.instruction).putBack ps := rfl

theorem putBack_append (m : Memory) (ps qs : List Patch) : m.putBack (ps ++ qs) = (m.putBack ps).putBack qs :=
  List.foldl_append

/-- The last of the traps that were over a byte. -/
def lastOver? (ps : List Patch) (a : Nat) : Option Patch := ps.reverse.find? (·.covers a)

theorem lastOver?_eq_some {p : Patch} (h : lastOver? ps a = some p) : p ∈ ps ∧ Cpu.InInstruction p.addr a := by
  unfold lastOver? at h
  exact ⟨List.mem_reverse.1 (List.mem_of_find?_eq_some h), Patch.covers_iff.1 (by simpa using List.find?_some h)⟩

theorem lastOver?_eq_none (h : lastOver? ps a = none) : ∀ p ∈ ps, ¬ Cpu.InInstruction p.addr a := by
  intro p hp
  unfold lastOver? at h
  rw [← Patch.covers_iff]
  exact List.find?_eq_none.1 h p (List.mem_reverse.2 hp)

/-- A byte is what the last trap over it has put back. -/
theorem byte?_putBack (m : Memory) (ps : List Patch) (a : Nat) :
    (m.putBack ps).byte? a =
      match lastOver? ps a with
      | some p => p.instruction[a - p.addr.toNat]?
      | none => m.byte? a := by
  induction ps using List.reverseRecOn with
  | nil => rfl
  | append_singleton ps p ih =>
    rw [putBack_append, lastOver?, List.reverse_append, List.reverse_singleton, List.singleton_append, List.find?_cons,
      putBack_cons, putBack_nil, byte?_store, p.length_instruction]
    by_cases h : p.addr.toNat ≤ a ∧ a < p.addr.toNat + 4
    · rw [if_pos h, Patch.covers_iff.2 h]
    · rw [if_neg h, ih, Bool.eq_false_iff.2 fun hc => h (Patch.covers_iff.1 hc)]
      rfl

/-- Memories that agree beside the traps agree once all is put back. -/
theorem putBack_congr (h : (∀ p ∈ ps, ¬ Cpu.InInstruction p.addr a) → m.byte? a = m'.byte? a) :
    (m.putBack ps).byte? a = (m'.putBack ps).byte? a := by
  rw [byte?_putBack, byte?_putBack]
  cases hlast : lastOver? ps a with
  | some p => rfl
  | none => exact h (lastOver?_eq_none hlast)

/-- Memory is what it was exactly if the last trap over each byte has put back what was there. -/
theorem putBack_eq_iff :
    m.putBack ps = m ↔ ∀ a p, lastOver? ps a = some p → p.instruction[a - p.addr.toNat]? = m.byte? a := by
  constructor
  · intro heq a p hlast
    have byte := congrArg (fun m => m.byte? a) heq
    rwa [byte?_putBack, hlast] at byte
  · intro h
    ext1
    funext a
    rw [byte?_putBack]
    split
    · exact h a _ ‹_›
    · rfl

end Kernel.Memory

/-! ## Traps that are taken off -/

namespace BreakpointTable

variable {t t' : BreakpointTable} {clean m m' : Memory} {wrote : Option (Nat × List UInt8)}

/-- The traps of a table that another does not have. -/
def takenOff (t t' : BreakpointTable) : List Patch := t.patchList.filter (· ∉ t'.patchList)

/-- Memory with some bytes written, if there are any. -/
def written (m : Memory) : Option (Nat × List UInt8) → Memory
  | some (addr, data) => m.store addr data
  | none => m

/-- What can happen to the traps of a table and the memory they are in, with what else is written there. -/
inductive Treats (t : BreakpointTable) (m : Memory) :
    Option (Nat × List UInt8) → BreakpointTable → Memory → Prop
  | written {t' : BreakpointTable} (wrote : Option (Nat × List UInt8)) (same : t'.patches = t.patches) :
      Treats t m wrote t' (BreakpointTable.written m wrote)
  | planted {t' : BreakpointTable} {i : Nat} {addr covered : UInt64} (free : t.patches[i]? = some none)
      (new : t.patchAt? addr = none) (read : m.word? addr = some covered)
      (after : t'.patches = (t.setPatch i (some ⟨addr, covered⟩)).patches) :
      Treats t m none t' (m.store addr.toNat Cpu.trapBytes)
  | taken {t' : BreakpointTable} {i : Nat} {p : Patch} (held : t.patches[i]? = some (some p))
      (after : t'.patches = (t.setPatch i none).patches) : Treats t m none t' (m.store p.addr.toNat p.instruction)
  | cleared {t' : BreakpointTable} (empty : t'.patchList = []) : Treats t m none t' (m.putBack t.patchList)

namespace Treats

theorem covers_of_patches_eq (h : t'.patches = t.patches) (a : Nat) : t'.covers a = t.covers a := by
  rw [covers, patchList, h, ← patchList, ← covers]

/-- Only the traps of the table matter. -/
theorem of_patches_eq {t'' : BreakpointTable} (h : t.Treats m wrote t' m') (same : t''.patches = t'.patches) :
    t.Treats m wrote t'' m' := by
  cases h with
  | written wrote kept => exact .written wrote (same.trans kept)
  | planted free new read after => exact .planted free new read (same.trans after)
  | taken held after => exact .taken held (same.trans after)
  | cleared empty => exact .cleared ((congrArg (List.filterMap id) same).trans empty)

theorem takenOff_of_subset (h : t.patchList ⊆ t'.patchList) : takenOff t t' = [] := by
  rw [takenOff, List.filter_eq_nil_iff]
  intro p hp
  simpa using h hp

theorem takenOff_of_taken (distinct : (t.patchList.map (·.addr)).Nodup) {i : Nat} {p : Patch}
    (held : t.patches[i]? = some (some p)) (after : t'.patches = (t.setPatch i none).patches) :
    takenOff t t' = [p] := by
  obtain ⟨front, back, old, new⟩ := patchList_setPatch held none
  have list : t'.patchList = front ++ back := by
    rw [patchList, after, ← patchList, new, Option.toList_none, List.append_nil]
  have gone : p ∉ t'.patchList := by
    rw [list]
    rw [old, Option.toList_some, List.append_assoc, List.singleton_append] at distinct
    exact (List.nodup_cons.1 (List.nodup_middle.1 (List.Nodup.of_map _ distinct))).1
  have stays (l : List Patch) (h : l ⊆ t'.patchList) : l.filter (· ∉ t'.patchList) = [] := by
    rw [List.filter_eq_nil_iff]
    intro q hq
    simpa using h hq
  have front_stays : front ⊆ t'.patchList := fun q hq => list ▸ List.mem_append_left _ hq
  have back_stays : back ⊆ t'.patchList := fun q hq => list ▸ List.mem_append_right _ hq
  rw [takenOff, old, List.filter_append, List.filter_append, stays front front_stays, stays back back_stays,
    Option.toList_some]
  simp [gone]

/-- Bytes beneath no trap are those that were beneath no trap, with all put back that was taken off. -/
theorem left (h : t.Treats m wrote t' m') (distinct : (t.patchList.map (·.addr)).Nodup)
    (before : ∀ a, t.covers a = false → m.byte? a = clean.byte? a) {a : Nat} (ha : t'.covers a = false) :
    m'.byte? a = ((BreakpointTable.written clean wrote).putBack (takenOff t t')).byte? a := by
  cases h with
  | written wrote same =>
    have bare := before a (by rw [← covers_of_patches_eq same, ha])
    have list : t'.patchList = t.patchList := congrArg (List.filterMap id) same
    rw [takenOff_of_subset (list ▸ List.Subset.refl _), Memory.putBack_nil]
    cases wrote with
    | none => exact bare
    | some w => rw [BreakpointTable.written, BreakpointTable.written, Memory.byte?_store, Memory.byte?_store, bare]
  | @planted t' i addr covered free new read after =>
    have list : t'.patchList = (t.setPatch i (some ⟨addr, covered⟩)).patchList := congrArg (List.filterMap id) after
    have away := covers_eq_false_iff.1 ha
    rw [list] at away
    have more : t.patchList ⊆ t'.patchList := fun p hp => list ▸ (mem_patchList_insert free).2 (.inr hp)
    have own := away _ ((mem_patchList_insert free).2 (.inl rfl))
    rw [takenOff_of_subset more, Memory.putBack_nil, Memory.byte?_store_elsewhere Cpu.length_trapBytes own]
    exact before a (covers_eq_false_iff.2 fun p hp => away p ((mem_patchList_insert free).2 (.inr hp)))
  | @taken t' i p held after =>
    rw [takenOff_of_taken distinct held after, Memory.putBack_cons, Memory.putBack_nil, Memory.byte?_store,
      Memory.byte?_store, p.length_instruction]
    split
    · rfl
    · rename_i beside
      have list : t'.patchList = (t.setPatch i none).patchList := congrArg (List.filterMap id) after
      refine before a (covers_eq_false_iff.2 fun q hq hcov => ?_)
      by_cases heq : q.addr = p.addr
      · exact beside (heq ▸ hcov)
      · refine covers_eq_false_iff.1 ha q ?_ hcov
        rw [list]
        exact ((patchList_remove held distinct).2 q).2 ⟨hq, heq⟩
  | cleared empty =>
    have all : takenOff t t' = t.patchList := by
      rw [takenOff, empty]
      simp
    rw [all]
    exact Memory.putBack_congr fun away => before a (covers_eq_false_iff.2 away)

/-- Where traps lie apart, putting back all of them leaves the memory beneath. -/
theorem putBack_of_overlays (lies : t.Overlays clean m) : m.putBack t.patchList = clean := by
  ext1
  funext a
  rw [Memory.byte?_putBack]
  split
  · rename_i p hlast
    obtain ⟨hp, hcov⟩ := Memory.lastOver?_eq_some hlast
    unfold Cpu.InInstruction at hcov
    obtain ⟨j, hj, rfl⟩ : ∃ j < 4, a = p.addr.toNat + j := ⟨a - p.addr.toNat, by omega⟩
    rw [Nat.add_sub_cancel_left, Patch.instruction, List.getElem?_take_of_lt hj]
    exact lies.saved p hp j hj
  · rename_i hlast
    exact lies.rest a (covers_eq_false_iff.2 (Memory.lastOver?_eq_none hlast))

/-- Traps over aligned instructions lie over memory without traps, in which all is written that is written beside
them. -/
theorem overlays (h : t.Treats m wrote t' m') (lies : t.Overlays clean m)
    (aligned : ∀ p ∈ t'.patchList, p.addr.toNat % 4 = 0)
    (beside : ∀ addr data, wrote = some (addr, data) → ∀ a, t.covers a = true →
      ¬ (addr ≤ a ∧ a < addr + data.length)) :
    t'.Overlays (BreakpointTable.written clean wrote) m' := by
  cases h with
  | written wrote same =>
    cases wrote with
    | none => exact lies.of_patches_eq same
    | some w =>
      obtain ⟨addr, data⟩ := w
      have apart := beside addr data rfl
      have kept : ∀ a, t.covers a = true → (m.store addr data).byte? a = m.byte? a := fun a ha => by
        rw [Memory.byte?_store, if_neg (apart a ha)]
      have after := lies.beneath kept
      rw [lies.beneath_store apart] at after
      exact after.of_patches_eq same
  | @planted t' i addr covered free new read after =>
    have list : t'.patchList = (t.setPatch i (some ⟨addr, covered⟩)).patchList := congrArg (List.filterMap id) after
    rw [list] at aligned
    have own := aligned ⟨addr, covered⟩ ((mem_patchList_insert free).2 (.inl rfl))
    exact (lies.insert own free new read).of_patches_eq after
  | taken held after => exact (lies.remove held).of_patches_eq after
  | cleared empty =>
    rw [putBack_of_overlays lies]
    exact .refl empty clean

end Treats

end BreakpointTable
end RemoteDebug
