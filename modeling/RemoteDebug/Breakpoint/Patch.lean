import RemoteDebug.Breakpoint.Table
import RemoteDebug.Cpu.Trap
import RemoteDebug.Kernel.Basic

/-!
# Traps in memory

Setting a software breakpoint reads a word, puts the trap over its first instruction and writes it back; removing one
reads the word again, because the rest of it may have changed since, and puts back only that instruction. Either is
recorded only once memory has been written.
-/

namespace RemoteDebug.BreakpointTable

/-- Puts a trap at an address; one that is there already is left alone. -/
def insertPatch (t : BreakpointTable) (space : Kernel.SpaceCap) (addr : UInt64) (k : Kernel) :
    Except BreakpointError Unit × BreakpointTable × Kernel :=
  if addr = 0 then (.error .zeroAddress, t, k)
  else if (t.patchAt? addr).isSome then (.ok (), t, k)
  else
    match t.freePatch? with
    | none => (.error .noFreeSlot, t, k)
    | some i =>
      match k.readWord space addr with
      | (none, k) => (.error .memory, t, k)
      | (some covered, k) =>
        match k.writeWord space addr (Cpu.insertTrap covered) with
        | (false, k) => (.error .memory, t, k)
        | (true, k) => (.ok (), t.setPatch i (some ⟨addr, covered⟩), k)

/-- Takes the trap at an address away; that there is none is no failure. -/
def removePatch (t : BreakpointTable) (space : Kernel.SpaceCap) (addr : UInt64) (k : Kernel) :
    Except BreakpointError Unit × BreakpointTable × Kernel :=
  match t.patchAt? addr with
  | none => (.ok (), t, k)
  | some (i, patch) =>
    match k.readWord space addr with
    | (none, k) => (.error .memory, t, k)
    | (some current, k) =>
      match k.writeWord space addr (Cpu.removeTrap current patch.covered) with
      | (false, k) => (.error .memory, t, k)
      | (true, k) => (.ok (), t.setPatch i none, k)

/-- Takes away the traps at these addresses, and forgets those that memory does not let go. -/
def removePatches (space : Kernel.SpaceCap) : List UInt64 → BreakpointTable → Kernel → BreakpointTable × Kernel
  | [], t, k => (t, k)
  | addr :: rest, t, k =>
    match t.removePatch space addr k with
    | (.ok (), t, k) => removePatches space rest t k
    | (.error _, t, k) => removePatches space rest (t.forgetPatch addr) k

end RemoteDebug.BreakpointTable
