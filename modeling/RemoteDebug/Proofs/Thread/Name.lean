import RemoteDebug.Proofs.Hex.Compact
import RemoteDebug.Thread.Id
import RemoteDebug.Thread.Ptid

/-!
# Thread names read back

The written form of a thread name is a thread id that names exactly this thread (`ThreadId.parse?_render`), provided
that both ids are non-zero and fit 64 bits, as the ids that a registry gives do. It is also the form that the name is
printed in for people (`Ptid.render_eq_display`).
-/

namespace RemoteDebug

/-- A byte that is no digit does not stand in a number. -/
theorem not_mem_compact {n : Nat} {b : UInt8} (h : Hex.isDigit b = false) : b ∉ Hex.compact n := by
  intro hb
  rw [Hex.isDigit_of_mem_compact hb] at h
  cases h

theorem Selector.parse?_compact {n : Nat} (h0 : 0 < n) (h : n < 2 ^ 64) :
    Selector.parse? (Hex.compact n) = some (.only n) := by
  have all : Hex.compact n ≠ ascii "-1" := by
    intro heq
    have hm : '-'.toUInt8 ∈ Hex.compact n := by rw [heq]; decide
    exact not_mem_compact (by decide) hm
  have any : Hex.compact n ≠ ascii "0" := by
    intro heq
    have hn := Hex.number?_compact h
    rw [heq, show Hex.number? (ascii "0") = some 0 by decide, Option.some.injEq] at hn
    omega
  simp only [Selector.parse?, all, any, if_false, Hex.number?_compact h]
  obtain ⟨m, rfl⟩ := Nat.exists_eq_succ_of_ne_zero (Nat.ne_of_gt h0)
  rfl

namespace Ptid

/-- Both ids are ids that a registry can give. -/
def Valid (t : Ptid) : Prop := (0 < t.pid ∧ t.pid < 2 ^ 64) ∧ 0 < t.tid ∧ t.tid < 2 ^ 64

theorem render_eq (t : Ptid) :
    t.render = 'p'.toUInt8 :: (Hex.compact t.pid ++ '.'.toUInt8 :: Hex.compact t.tid) := by
  simp [render, ascii]

theorem length_render_le {t : Ptid} (h : t.Valid) : t.render.length ≤ 34 := by
  have hp := Hex.length_compact_le h.1.2
  have ht := Hex.length_compact_le h.2.2
  rw [render_eq]
  simp only [List.length_cons, List.length_append]
  omega

/-- A byte of a written name is a digit, the letter in front or the dot. -/
theorem of_mem_render {t : Ptid} {b : UInt8} (h : b ∈ t.render) :
    Hex.isDigit b = true ∨ b = 'p'.toUInt8 ∨ b = '.'.toUInt8 := by
  rw [render_eq] at h
  rcases List.mem_cons.1 h with rfl | h
  · exact Or.inr (Or.inl rfl)
  · rcases List.mem_append.1 h with h | h
    · exact Or.inl (Hex.isDigit_of_mem_compact h)
    · rcases List.mem_cons.1 h with rfl | h
      · exact Or.inr (Or.inr rfl)
      · exact Or.inl (Hex.isDigit_of_mem_compact h)

end Ptid

theorem ThreadId.parse?_render {t : Ptid} (h : t.Valid) :
    ThreadId.parse? t.render = some ⟨some (.only t.pid), .only t.tid⟩ := by
  have hcut : cut (· == '.'.toUInt8) (Hex.compact t.pid ++ '.'.toUInt8 :: Hex.compact t.tid) =
      (Hex.compact t.pid, some (Hex.compact t.tid)) := by
    refine cut_append (fun b hb => ?_) (by decide) _
    rw [beq_eq_false_iff_ne]
    rintro rfl
    exact not_mem_compact (by decide) hb
  rw [Ptid.render_eq, ThreadId.parse?, if_pos rfl, hcut]
  simp only [Selector.parse?_compact h.1.1 h.1.2, Selector.parse?_compact h.2.1 h.2.2]

/-- The thread that a field names by both of its ids. -/
def Ptid.parse? (field : List UInt8) : Option Ptid :=
  match ThreadId.parse? field with
  | some ⟨some (.only pid), .only tid⟩ => some ⟨pid, tid⟩
  | _ => none

theorem Ptid.parse?_render {t : Ptid} (h : t.Valid) : Ptid.parse? t.render = some t := by
  rw [Ptid.parse?, ThreadId.parse?_render h]

/-- A thread name as it is printed for people. -/
def Ptid.display (t : Ptid) : String :=
  "p" ++ String.ofList (Nat.toDigits 16 t.pid) ++ "." ++ String.ofList (Nat.toDigits 16 t.tid)

theorem Ptid.render_eq_display (t : Ptid) : t.render = ascii t.display := by
  simp [Ptid.render, Ptid.display, ascii, Hex.compact_eq_toDigits, String.toList_append]

end RemoteDebug
