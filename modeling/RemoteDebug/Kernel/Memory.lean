import RemoteDebug.LittleEndian

/-!
# Memory of an address space

Memory is a partial map from byte addresses to bytes. Words are eight bytes, little-endian, at any address that leaves
room for them below `2 ^ 64`. Main statements: what a store leaves at each address (`byte?_store`), and that a stored
string is read back (`load_store`).
-/

namespace RemoteDebug.Kernel

/-- The mapped bytes of an address space. -/
@[ext] structure Memory where
  byte? : Nat → Option UInt8

namespace Memory

/-- Nothing is mapped. -/
def empty : Memory := ⟨fun _ => none⟩

/-- The bytes from `addr` on, if all `count` of them are mapped. -/
def load (m : Memory) : (addr count : Nat) → Option (List UInt8)
  | _, 0 => some []
  | addr, count + 1 =>
    match m.byte? addr, m.load (addr + 1) count with
    | some b, some bytes => some (b :: bytes)
    | _, _ => none

/-- Lays a byte string over memory from `addr` on. -/
def store (m : Memory) (addr : Nat) (bytes : List UInt8) : Memory :=
  ⟨fun a => if addr ≤ a ∧ a < addr + bytes.length then bytes[a - addr]? else m.byte? a⟩

/-- Maps `words` words of one value from `addr` on. -/
def mapWords (m : Memory) (addr words : Nat) (value : UInt64) : Memory :=
  ⟨fun a =>
    if addr ≤ a ∧ a < addr + 8 * words then (LittleEndian.ofWord value)[(a - addr) % 8]? else m.byte? a⟩

/-- The word at an address, if all of its bytes are mapped. -/
def word? (m : Memory) (addr : UInt64) : Option UInt64 :=
  if addr.toNat + 8 ≤ 2 ^ 64 then (m.load addr.toNat 8).map LittleEndian.toWord else none

/-- Lays a word over memory. -/
def storeWord (m : Memory) (addr word : UInt64) : Memory := m.store addr.toNat (LittleEndian.ofWord word)

/-! ## Small facts -/

theorem byte?_store (m : Memory) (addr : Nat) (bytes : List UInt8) (a : Nat) :
    (m.store addr bytes).byte? a =
      if addr ≤ a ∧ a < addr + bytes.length then bytes[a - addr]? else m.byte? a := rfl

theorem load_eq_some_iff (m : Memory) {addr count : Nat} {bytes : List UInt8} :
    m.load addr count = some bytes ↔
      bytes.length = count ∧ ∀ i, i < count → m.byte? (addr + i) = bytes[i]? := by
  induction count generalizing addr bytes with
  | zero =>
    simp only [load, Option.some.injEq]
    constructor
    · rintro rfl
      simp
    · rintro ⟨h, -⟩
      exact (List.eq_nil_of_length_eq_zero h).symm
  | succ count ih =>
    cases bytes with
    | nil =>
      simp only [load]
      split <;> simp
    | cons b bytes =>
      have step : m.load addr (count + 1) = some (b :: bytes) ↔
          m.byte? addr = some b ∧ m.load (addr + 1) count = some bytes := by
        cases h0 : m.byte? addr <;> cases h1 : m.load (addr + 1) count <;> simp [load, h0, h1]
      rw [step, ih]
      constructor
      · rintro ⟨h0, hl, h⟩
        refine ⟨by simp [hl], fun i hi => ?_⟩
        cases i with
        | zero => simpa using h0
        | succ i =>
          have := h i (by omega)
          rw [show addr + (i + 1) = addr + 1 + i by omega]
          simpa using this
      · rintro ⟨hl, h⟩
        refine ⟨by simpa using h 0 (by omega), by simpa using hl, fun i hi => ?_⟩
        have := h (i + 1) (by omega)
        rw [show addr + 1 + i = addr + (i + 1) by omega]
        simpa using this

theorem load_store (m : Memory) (addr : Nat) (bytes : List UInt8) :
    (m.store addr bytes).load addr bytes.length = some bytes := by
  rw [load_eq_some_iff]
  refine ⟨rfl, fun i hi => ?_⟩
  rw [byte?_store, if_pos (by omega), Nat.add_sub_cancel_left]

end Memory
end RemoteDebug.Kernel
