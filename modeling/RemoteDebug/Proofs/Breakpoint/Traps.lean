import Mathlib.Data.List.Nodup
import RemoteDebug.Proofs.Kernel.Calls
import RemoteDebug.Breakpoint.Patch

/-!
# Traps over memory

Memory with traps in it is some memory beneath with the trap laid over each recorded address
(`BreakpointTable.Overlays`). Setting a trap reads and writes a whole word, and so does removing one, but either
changes only the four bytes of its own instruction (`Memory.storeWord_overlay`): whatever else the word holds, a
neighbouring trap included, stays. What a removal puts back are the bytes beneath, even if the word that was saved
held a neighbouring trap (`Overlays.remove`).
-/

namespace RemoteDebug

/-! ## Words in memory -/

namespace Cpu

/-- The bytes of the trap in memory. -/
def trapBytes : List UInt8 := LittleEndian.encode 4 trap.toNat

@[simp] theorem length_trapBytes : trapBytes.length = 4 := LittleEndian.length_encode 4 _

/-- A byte of memory belongs to the instruction at an address. -/
def InInstruction (addr : UInt64) (a : Nat) : Prop := addr.toNat ≤ a ∧ a < addr.toNat + 4

theorem inInstruction_add (addr : UInt64) {j : Nat} (hj : j < 4) : InInstruction addr (addr.toNat + j) :=
  ⟨Nat.le_add_right _ _, Nat.add_lt_add_left hj _⟩

/-- Two aligned instructions that share a byte are one. -/
theorem InInstruction.addr_eq {x y : UInt64} {a : Nat} (hx : InInstruction x a) (hy : InInstruction y a)
    (alignedx : x.toNat % 4 = 0) (alignedy : y.toNat % 4 = 0) : x = y := by
  unfold InInstruction at hx hy
  apply UInt64.toNat_inj.1
  omega

end Cpu

namespace Kernel.Memory

variable {m : Memory} {addr w : UInt64}

theorem byte?_store_instruction {bytes : List UInt8} (h : bytes.length = 4) {j : Nat} (hj : j < 4) :
    (m.store addr.toNat bytes).byte? (addr.toNat + j) = bytes[j]? := by
  rw [byte?_store, if_pos (by omega), Nat.add_sub_cancel_left]

theorem byte?_store_elsewhere {bytes : List UInt8} (h : bytes.length = 4) {a : Nat} (ha : ¬ Cpu.InInstruction addr a) :
    (m.store addr.toNat bytes).byte? a = m.byte? a := by
  unfold Cpu.InInstruction at ha
  rw [byte?_store, if_neg (by omega)]

theorem byte?_of_word? (h : m.word? addr = some w) {i : Nat} (hi : i < 8) :
    m.byte? (addr.toNat + i) = (LittleEndian.ofWord w)[i]? := by
  unfold word? at h
  split at h
  · obtain ⟨bytes, hload, rfl⟩ := Option.map_eq_some_iff.1 h
    obtain ⟨hlength, hbytes⟩ := (load_eq_some_iff m).1 hload
    rw [LittleEndian.ofWord_toWord hlength]
    exact hbytes i hi
  · cases h

/-- Writing back a word that was read, with another instruction in it, changes that instruction alone. -/
theorem storeWord_overlay (h : m.word? addr = some w) {instruction : List UInt8} (hlength : instruction.length = 4) :
    m.storeWord addr (Cpu.overlay instruction w) = m.store addr.toNat instruction := by
  have hword : (instruction ++ (LittleEndian.ofWord w).drop 4).length = 8 := by simp [hlength]
  ext1
  funext a
  rw [storeWord, Cpu.overlay, LittleEndian.ofWord_toWord hword, byte?_store, byte?_store, hword, hlength]
  by_cases hfirst : addr.toNat ≤ a ∧ a < addr.toNat + 4
  · rw [if_pos (by omega), if_pos hfirst, List.getElem?_append_left (by omega)]
  · rw [if_neg hfirst]
    split
    · rename_i hsecond
      obtain ⟨i, rfl⟩ : ∃ i, a = addr.toNat + i := ⟨a - addr.toNat, by omega⟩
      rw [byte?_of_word? h (by omega), List.getElem?_append_right (by omega), List.getElem?_drop]
      congr 1
      omega
    · rfl

end Kernel.Memory

/-! ## The traps of a table -/

open Kernel

namespace BreakpointTable

variable {t t' : BreakpointTable} {addr : UInt64} {i : Nat} {p : Patch} {clean m : Memory}

/-- Whether a byte of memory is beneath a trap. -/
def covers (t : BreakpointTable) (a : Nat) : Bool :=
  t.patchList.any fun p => p.addr.toNat ≤ a ∧ a < p.addr.toNat + 4

theorem covers_iff {a : Nat} : t.covers a = true ↔ ∃ p ∈ t.patchList, Cpu.InInstruction p.addr a := by
  simp [covers, Cpu.InInstruction]

theorem covers_eq_false_iff {a : Nat} : t.covers a = false ↔
    ∀ p ∈ t.patchList, ¬ Cpu.InInstruction p.addr a := by
  rw [Bool.eq_false_iff, Ne, covers_iff]
  simp

theorem mem_patchList : p ∈ t.patchList ↔ ∃ i : Nat, t.patches[i]? = some (some p) := by
  rw [patchList, List.mem_filterMap, ← List.mem_iff_getElem?]
  simp

theorem patchAt?_eq_some (h : t.patchAt? addr = some (i, p)) : t.patches[i]? = some (some p) ∧ p.addr = addr := by
  obtain ⟨⟨x, j⟩, hmem, hx⟩ := List.exists_of_findSome?_eq_some h
  have hget := List.mem_zipIdx_iff_getElem?.1 hmem
  cases x with
  | none => cases hx
  | some q =>
    simp only [Option.ite_none_right_eq_some, Option.some.injEq, Prod.mk.injEq] at hx
    obtain ⟨hq, rfl, rfl⟩ := hx
    exact ⟨hget, hq⟩

theorem patchAt?_eq_none_iff : t.patchAt? addr = none ↔ ∀ p ∈ t.patchList, p.addr ≠ addr := by
  simp only [patchAt?, List.findSome?_eq_none_iff, Prod.forall, List.mem_zipIdx_iff_getElem?, mem_patchList]
  constructor
  · rintro h p ⟨i, hi⟩ heq
    have := h (some p) i hi
    simp [heq] at this
  · intro h x i hi
    cases x with
    | none => rfl
    | some p => simp [h p ⟨i, hi⟩]

theorem freePatch?_eq_some (h : t.freePatch? = some i) : t.patches[i]? = some none := by
  obtain ⟨hlt, hnone, -⟩ := List.findIdx?_eq_some_iff_getElem.1 h
  rw [List.getElem?_eq_getElem hlt, Option.isNone_iff_eq_none.1 hnone]

/-- Setting or emptying a place changes the traps there. -/
theorem patchList_setPatch {x : Option Patch} (h : t.patches[i]? = some x) (y : Option Patch) :
    ∃ before after, t.patchList = before ++ x.toList ++ after ∧
      (t.setPatch i y).patchList = before ++ y.toList ++ after := by
  obtain ⟨hlt, rfl⟩ := List.getElem?_eq_some_iff.1 h
  have split : t.patches = t.patches.take i ++ t.patches[i] :: t.patches.drop (i + 1) := by
    rw [← List.drop_eq_getElem_cons hlt, List.take_append_drop]
  have single (z : Option Patch) (rest : List (Option Patch)) :
      (z :: rest).filterMap id = z.toList ++ rest.filterMap id := by
    cases z <;> rfl
  refine ⟨(t.patches.take i).filterMap id, (t.patches.drop (i + 1)).filterMap id, ?_, ?_⟩
  · rw [patchList, List.append_assoc, ← single, ← List.filterMap_append, ← split]
  · rw [patchList, setPatch, List.set_eq_take_append_cons_drop, if_pos hlt, List.filterMap_append, single,
      List.append_assoc]

theorem mem_patchList_insert (free : t.patches[i]? = some none) {new : Patch} :
    p ∈ (t.setPatch i (some new)).patchList ↔ p = new ∨ p ∈ t.patchList := by
  obtain ⟨before, after, old, list⟩ := patchList_setPatch free (some new)
  rw [list, old]
  simp only [Option.toList_some, Option.toList_none, List.mem_append, List.mem_singleton, List.not_mem_nil, or_false]
  rw [or_assoc, or_left_comm]

theorem nodup_insert (free : t.patches[i]? = some none) {new : Patch}
    (others : ∀ p ∈ t.patchList, p.addr ≠ new.addr)
    (distinct : (t.patchList.map (·.addr)).Nodup) : ((t.setPatch i (some new)).patchList.map (·.addr)).Nodup := by
  obtain ⟨before, after, old, list⟩ := patchList_setPatch free (some new)
  rw [old] at distinct others
  rw [list]
  simp only [Option.toList_some, Option.toList_none, List.append_nil, List.append_assoc, List.singleton_append,
    List.map_append, List.map_cons] at distinct others ⊢
  refine List.nodup_middle.2 (List.nodup_cons.2 ⟨?_, distinct⟩)
  rw [← List.map_append]
  intro hmem
  obtain ⟨p, hp, heq⟩ := List.mem_map.1 hmem
  exact others p hp heq

theorem patchList_remove (held : t.patches[i]? = some (some p)) (distinct : (t.patchList.map (·.addr)).Nodup) :
    ((t.setPatch i none).patchList.map (·.addr)).Nodup ∧
      ∀ q, q ∈ (t.setPatch i none).patchList ↔ q ∈ t.patchList ∧ q.addr ≠ p.addr := by
  obtain ⟨before, after, old, list⟩ := patchList_setPatch held none
  rw [old] at distinct ⊢
  rw [list]
  simp only [Option.toList_some, Option.toList_none, List.append_nil, List.append_assoc, List.singleton_append,
    List.map_append, List.map_cons] at distinct ⊢
  obtain ⟨fresh, rest⟩ := List.nodup_cons.1 (List.nodup_middle.1 distinct)
  refine ⟨rest, fun q => ⟨fun hq => ⟨?_, fun heq => fresh ?_⟩, fun ⟨hq, hne⟩ => ?_⟩⟩
  · rcases List.mem_append.1 hq with hq | hq
    · exact List.mem_append_left _ hq
    · exact List.mem_append_right _ (List.mem_cons_of_mem _ hq)
  · rw [← List.map_append, ← heq]
    exact List.mem_map_of_mem hq
  · rcases List.mem_append.1 hq with hq | hq
    · exact List.mem_append_left _ hq
    · rcases List.mem_cons.1 hq with rfl | hq
      · exact absurd rfl hne
      · exact List.mem_append_right _ hq

/-! ## Memory beneath traps -/

/-- Memory is the memory beneath with the trap over every recorded address. The words that were saved have the bytes
beneath where their instructions were. -/
structure Overlays (t : BreakpointTable) (clean m : Memory) : Prop where
  aligned : ∀ p ∈ t.patchList, p.addr.toNat % 4 = 0
  distinct : (t.patchList.map (·.addr)).Nodup
  saved : ∀ p ∈ t.patchList, ∀ j < 4, (LittleEndian.ofWord p.covered)[j]? = clean.byte? (p.addr.toNat + j)
  traps : ∀ p ∈ t.patchList, ∀ j < 4, m.byte? (p.addr.toNat + j) = Cpu.trapBytes[j]?
  rest : ∀ a, t.covers a = false → m.byte? a = clean.byte? a

namespace Overlays

variable {covered : UInt64}

theorem of_patches_eq (h : t.Overlays clean m) (heq : t'.patches = t.patches) : t'.Overlays clean m := by
  have hlist : t'.patchList = t.patchList := congrArg (List.filterMap id) heq
  have hcovers (a : Nat) : t'.covers a = t.covers a := by rw [covers, covers, hlist]
  refine ⟨?_, ?_, ?_, ?_, fun a ha => h.rest a (by rw [← hcovers, ha])⟩ <;> rw [hlist]
  · exact h.aligned
  · exact h.distinct
  · exact h.saved
  · exact h.traps

/-- Without traps memory is as it is. -/
theorem eq_of_patchList_eq_nil (h : t.Overlays clean m) (none_left : t.patchList = []) : m = clean := by
  ext1
  funext a
  exact h.rest a (by rw [covers, none_left]; rfl)

theorem refl (none_yet : t.patchList = []) (m : Memory) : t.Overlays m m := by
  refine ⟨?_, ?_, ?_, ?_, fun _ _ => rfl⟩ <;> simp [none_yet]

/-- A trap goes in where there is none: it covers its own bytes, and all others stay. -/
theorem insert (h : t.Overlays clean m) (aligned : addr.toNat % 4 = 0) (free : t.patches[i]? = some none)
    (new : t.patchAt? addr = none) (read : m.word? addr = some covered) :
    (t.setPatch i (some ⟨addr, covered⟩)).Overlays clean (m.store addr.toNat Cpu.trapBytes) := by
  have others := patchAt?_eq_none_iff.1 new
  have apart {p : Patch} (hp : p ∈ t.patchList) {a : Nat} (ha : Cpu.InInstruction p.addr a) :
      ¬ Cpu.InInstruction addr a := fun ha' => others p hp (ha.addr_eq ha' (h.aligned p hp) aligned)
  refine ⟨fun p hp => ?_, nodup_insert free others h.distinct, fun p hp j hj => ?_, fun p hp j hj => ?_,
    fun a ha => ?_⟩
  · rcases (mem_patchList_insert free).1 hp with rfl | hp
    · exact aligned
    · exact h.aligned p hp
  · rcases (mem_patchList_insert free).1 hp with rfl | hp
    · -- the bytes that are read were beneath no trap
      rw [← h.rest _ (covers_eq_false_iff.2 fun q hq hcov => apart hq hcov (Cpu.inInstruction_add addr hj))]
      exact (Memory.byte?_of_word? read (by omega)).symm
    · exact h.saved p hp j hj
  · rcases (mem_patchList_insert free).1 hp with rfl | hp
    · exact Memory.byte?_store_instruction Cpu.length_trapBytes hj
    · rw [Memory.byte?_store_elsewhere Cpu.length_trapBytes (apart hp (Cpu.inInstruction_add _ hj))]
      exact h.traps p hp j hj
  · have away := covers_eq_false_iff.1 ha
    rw [Memory.byte?_store_elsewhere Cpu.length_trapBytes (away _ ((mem_patchList_insert free).2 (.inl rfl)))]
    exact h.rest a (covers_eq_false_iff.2 fun p hp => away p ((mem_patchList_insert free).2 (.inr hp)))

/-- A trap is taken away: the bytes beneath come back, and all others stay. -/
theorem remove (h : t.Overlays clean m) (held : t.patches[i]? = some (some p)) :
    (t.setPatch i none).Overlays clean (m.store p.addr.toNat ((LittleEndian.ofWord p.covered).take 4)) := by
  obtain ⟨distinct, mem⟩ := patchList_remove held h.distinct
  have hp : p ∈ t.patchList := mem_patchList.2 ⟨i, held⟩
  have hlength : ((LittleEndian.ofWord p.covered).take 4).length = 4 := by simp
  refine ⟨fun q hq => h.aligned q ((mem q).1 hq).1, distinct, fun q hq => h.saved q ((mem q).1 hq).1,
    fun q hq j hj => ?_, fun a ha => ?_⟩
  · obtain ⟨hq, hne⟩ := (mem q).1 hq
    have apart : ¬ Cpu.InInstruction p.addr (q.addr.toNat + j) := fun hcov =>
      hne ((Cpu.inInstruction_add _ hj).addr_eq hcov (h.aligned q hq) (h.aligned p hp))
    rw [Memory.byte?_store_elsewhere hlength apart]
    exact h.traps q hq j hj
  · by_cases hcov : Cpu.InInstruction p.addr a
    · obtain ⟨j, hj, rfl⟩ : ∃ j < 4, a = p.addr.toNat + j := ⟨a - p.addr.toNat, by
        unfold Cpu.InInstruction at hcov
        omega⟩
      rw [Memory.byte?_store_instruction hlength hj, List.getElem?_take_of_lt hj]
      exact h.saved p hp j hj
    · rw [Memory.byte?_store_elsewhere hlength hcov]
      refine h.rest a (covers_eq_false_iff.2 fun q hq hqa => ?_)
      by_cases heq : q.addr = p.addr
      · exact hcov (heq ▸ hqa)
      · exact covers_eq_false_iff.1 ha q ((mem q).2 ⟨hq, heq⟩) hqa

end Overlays

/-- The memory beneath once memory has become `m`: the bytes under traps are as before, and the others are those of
`m`. -/
def beneath (t : BreakpointTable) (clean m : Memory) : Memory :=
  ⟨fun a => if t.covers a then clean.byte? a else m.byte? a⟩

theorem byte?_beneath (t : BreakpointTable) (clean m : Memory) (a : Nat) :
    (t.beneath clean m).byte? a = if t.covers a then clean.byte? a else m.byte? a := rfl

/-- A change that leaves the bytes of every trap as they are changes the memory beneath. -/
theorem Overlays.beneath {m' : Memory} (h : t.Overlays clean m)
    (leaves : ∀ a, t.covers a = true → m'.byte? a = m.byte? a) : t.Overlays (t.beneath clean m') m' := by
  have covered {p : Patch} (hp : p ∈ t.patchList) {j : Nat} (hj : j < 4) : t.covers (p.addr.toNat + j) = true :=
    covers_iff.2 ⟨p, hp, Cpu.inInstruction_add p.addr hj⟩
  refine ⟨h.aligned, h.distinct, fun p hp j hj => ?_, fun p hp j hj => ?_, fun a ha => ?_⟩
  · rw [byte?_beneath, covered hp hj, if_pos rfl]
    exact h.saved p hp j hj
  · rw [leaves _ (covered hp hj)]
    exact h.traps p hp j hj
  · rw [byte?_beneath, ha]
    rfl

/-- Bytes that are written beside all traps are written to the memory beneath. -/
theorem Overlays.beneath_store (h : t.Overlays clean m) {place : Nat} {bytes : List UInt8}
    (beside : ∀ a, t.covers a = true → ¬ (place ≤ a ∧ a < place + bytes.length)) :
    t.beneath clean (m.store place bytes) = clean.store place bytes := by
  ext1
  funext a
  rw [byte?_beneath, Memory.byte?_store, Memory.byte?_store]
  cases hcov : t.covers a with
  | true => rw [if_pos rfl, if_neg (beside a hcov)]
  | false => rw [if_neg Bool.false_ne_true, h.rest a hcov]

end BreakpointTable
end RemoteDebug
