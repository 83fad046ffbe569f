import RemoteDebug.Proofs.Session.Memory
import RemoteDebug.Proofs.Session.Serving

/-!
# Which words are touched

A command to write memory makes calls on just those words that hold a byte of its range, and so does a question for
memory unless the range is empty (`Kernel.Call.InRange`). For an empty range that begins inside a word, a question for
memory reads this word all the same, and fails with it (`Session.AsksWords.needless`); a command to write nothing makes
no call.
-/

namespace RemoteDebug

/-! ## Calls on words of a range -/

namespace Kernel

variable {k : Kernel} {cap : SpaceCap} {addr length : Nat}

/-- A call on an aligned word of an address space that holds a byte of a range. -/
def Call.InRange (cap : SpaceCap) (addr length : Nat) (c : Call) : Prop :=
  ∃ call : SpaceCall, c = .space cap call ∧ ∃ i, call.place.toNat = 8 * i ∧ WordHolds addr length i

/-- No word holds a byte of an empty range. -/
theorem Call.not_inRange_zero (c : Call) : ¬ c.InRange cap addr 0 := by
  rintro ⟨-, -, i, -, holds⟩
  exact not_wordHolds_zero addr i holds

/-- Word `i` of a range that ends below `2 ^ 64` has the address `8 * i`. -/
theorem toNat_ofNat_of_wordHolds {i : Nat} (h : WordHolds addr length i) (bounded : addr + length ≤ 2 ^ 64) :
    (UInt64.ofNat (8 * i)).toNat = 8 * i := by
  obtain ⟨a, low, high, rfl⟩ := h
  exact UInt64.toNat_ofNat_of_lt' (by rw [UInt64.size]; omega)

/-- The words of an empty range are none, or the one that it lies in. -/
theorem wordSpan_zero (addr : Nat) : wordSpan addr 0 = if 8 ∣ addr then [] else [addr / 8] := by
  unfold wordSpan
  split
  · rw [show (addr + 0 + 7) / 8 - addr / 8 = 0 by omega, List.range'_zero]
  · rw [show (addr + 0 + 7) / 8 - addr / 8 = 1 by omega, List.range'_one]

theorem calls_readBytes_inRange (bounded : addr + length ≤ 2 ^ 64) (needed : 0 < length ∨ 8 ∣ addr) :
    Calls (Call.InRange cap addr length) k (k.readBytes cap addr length).2 := by
  refine calls_readSpan fun i hi => ?_
  have holds : WordHolds addr length i := by
    rcases Nat.eq_zero_or_pos length with rfl | filled
    · rw [wordSpan_zero, if_pos (needed.resolve_left (Nat.lt_irrefl 0))] at hi
      cases hi
    · exact (mem_wordSpan filled).1 hi
  exact ⟨_, rfl, i, toNat_ofNat_of_wordHolds holds bounded, holds⟩

theorem calls_writeBytes_inRange {data : List UInt8} (bounded : addr + data.length ≤ 2 ^ 64) :
    Calls (Call.InRange cap addr data.length) k (k.writeBytes cap addr data).2 := by
  unfold writeBytes
  split
  · exact .refl
  · rename_i notEmpty
    have filled : 0 < data.length := List.length_pos_iff.2 fun empty => notEmpty (List.isEmpty_iff.2 empty)
    have holds {i : Nat} (hi : i ∈ wordSpan addr data.length) : WordHolds addr data.length i :=
      (mem_wordSpan filled).1 hi
    exact calls_writeSpan (fun i hi => ⟨_, rfl, i, toNat_ofNat_of_wordHolds (holds hi) bounded, holds hi⟩)
      fun i hi w => ⟨_, rfl, i, toNat_ofNat_of_wordHolds (holds hi) bounded, holds hi⟩

theorem readBytes_zero_of_dvd (aligned : 8 ∣ addr) : k.readBytes cap addr 0 = (some [], k) := by
  rw [readBytes, wordSpan_zero, if_pos aligned, readSpan]

/-- The word around an empty range is asked for, and nothing is kept of it. -/
theorem readBytes_zero_of_not_dvd (inside : ¬ 8 ∣ addr) :
    k.readBytes cap addr 0 =
      ((k.readWord cap (UInt64.ofNat (8 * (addr / 8)))).1.map fun _ => [],
        (k.readWord cap (UInt64.ofNat (8 * (addr / 8)))).2) := by
  rw [readBytes, wordSpan_zero, if_neg inside]
  rcases answer : k.readWord cap (UInt64.ofNat (8 * (addr / 8))) with ⟨_ | word, k'⟩
  · simp only [readSpan, answer, Option.map]
  · have nothing : ((LittleEndian.ofWord word).take (addr + 0 - 8 * (addr / 8))).drop (addr - 8 * (addr / 8)) = [] :=
      List.drop_eq_nil_of_le (List.length_take_le _ _)
    simp only [readSpan, answer, nothing, Option.map, List.append_nil]

end Kernel

namespace Session

open Kernel
open Packet (frame)

variable {s s₀ : Session} {b : UInt8} {pid length : Nat} {inf : Inferior} {addr : UInt64} {digits : List UInt8}

/-- The calls for a question for memory: only on words that hold a byte of the range, unless the range is empty and
begins inside a word. For an empty range at the start of a word there is no call and an empty reply; for one inside a
word, this word is read, and there is an empty reply if it is served and an error if not. -/
structure AsksWords (s : Session) (b : UInt8) (cap : SpaceCap) (addr length : Nat) : Prop where
  touched : 0 < length ∨ 8 ∣ addr → ∀ r ∈ s.calls (.byte b), r.call.InRange cap addr length
  nothing : length = 0 → 8 ∣ addr → s.wire.InOrder → s.calls (.byte b) = [] ∧ s.RepliesWith b []
  needless : length = 0 → ¬ 8 ∣ addr → s.wire.InOrder →
    ∃ done, s.calls (.byte b) = [wordRead cap done (addr / 8)] ∧
    s.RepliesWith b (if done then [] else ascii "E04")

/-- The calls for a command to write memory: only on words that hold a byte of the range, and so none to write nothing,
which is always done. -/
structure WritesWords (s : Session) (b : UInt8) (cap : SpaceCap) (addr length : Nat) : Prop where
  touched : ∀ r ∈ s.calls (.byte b), r.call.InRange cap addr length
  nothing : length = 0 → s.wire.InOrder → s.calls (.byte b) = [] ∧ s.RepliesWith b (ascii "OK")

section Run

variable {c : Config} {wire : Wire} {inputs : List Input}

theorem asksWords (fits : s.receiver.Fits s.packetSize)
    (current : s.debuggee.registry.currentInferior? = some (pid, inf))
    (asks : s.command? b = some (.readMemory addr length)) : s.AsksWords b inf.space addr.toNat length := by
  have room : 3 ≤ s.packetSize := by
    obtain ⟨body, parsed, short⟩ := length_le_of_command fits asks
    have long := Command.four_le_of_readMemory parsed
    omega
  by_cases served : 2 * length ≤ s.packetSize ∧ addr.toNat + length < 2 ^ 64
  · have ends := (yields_readMemory served.1 served.2 current).concludes asks
    refine ⟨fun needed r hr => ?_, fun empty aligned order => ?_, fun empty inside order => ?_⟩
    · exact ends.of_mem_calls (calls_readBytes_inRange (by omega) needed) hr
    · subst empty
      rw [readBytes_zero_of_dvd aligned] at ends
      exact ⟨ends.calls_eq_nil, ends.repliesWith (Reply.render_hexBytes (Nat.zero_le _)) order⟩
    · subst empty
      rw [readBytes_zero_of_not_dvd inside] at ends
      have history := history_readWord s.debuggee.kernel inf.space (UInt64.ofNat (8 * (addr.toNat / 8)))
      have shows (answer : Option UInt64) : s.render [shown (answer.map fun _ => [])] =
          some (if answer.isSome then [] else ascii "E04") := by
        cases answer with
        | none => exact Reply.render_text (Nat.le_trans (by decide) room)
        | some word => exact Reply.render_hexBytes (Nat.zero_le _)
      refine ⟨_, ?_, ends.repliesWith (shows _) order⟩
      rw [calls, ends.debuggee_eq order, withKernel, history, Array.toList_push, ← Array.length_toList,
        List.drop_left]
      rfl
  · have refused : s.packetSize < 2 * length ∨ 2 ^ 64 ≤ addr.toNat + length ∨
        s.debuggee.registry.currentInferior? = none := by omega
    have ends := (yields_readMemory_refused refused).concludes asks
    have filled : length ≠ 0 := by
      have := addr.toNat_lt
      omega
    refine ⟨fun _ r hr => ?_, fun empty => absurd empty filled, fun empty => absurd empty filled⟩
    rw [ends.calls_eq_nil] at hr
    cases hr

theorem writesWords (fits : s.receiver.Fits s.packetSize)
    (current : s.debuggee.registry.currentInferior? = some (pid, inf))
    (asks : s.command? b = some (.writeMemory addr length digits)) : s.WritesWords b inf.space addr.toNat length := by
  obtain ⟨body, parsed, short⟩ := length_le_of_command fits asks
  have room : 3 ≤ s.packetSize := by
    have long := Command.four_le_of_writeMemory parsed
    omega
  obtain ⟨count, digital⟩ := Command.digits_of_parse parsed
  obtain ⟨data, decoded⟩ := Hex.exists_decode? digital count
  obtain rfl : length = data.length := by
    have twice := Hex.length_of_decode? decoded
    omega
  by_cases bounded : addr.toNat + data.length < 2 ^ 64
  · have ends := (yields_writeMemory decoded bounded current).concludes asks
    refine ⟨fun r hr => ends.of_mem_calls (calls_writeBytes_inRange (by omega)) hr, fun empty order => ?_⟩
    obtain rfl := List.length_eq_zero_iff.1 empty
    have nothing : s.debuggee.kernel.writeBytes inf.space addr.toNat [] = (true, s.debuggee.kernel) := rfl
    have confirms : s.render [confirmed true] = some (ascii "OK") :=
      Reply.render_text (Nat.le_trans (by decide) room)
    rw [nothing] at ends
    exact ⟨ends.calls_eq_nil, ends.repliesWith confirms order⟩
  · have ends := (yields_writeMemory_refused (.inr (.inl (by omega)))).concludes asks
    refine ⟨fun r hr => ?_, fun empty => ?_⟩
    · rw [ends.calls_eq_nil] at hr
      cases hr
    · have below := addr.toNat_lt
      omega

/-- In every run, what the client asks for of the memory of the selected inferior is read by calls on words of the range
alone, save for an empty range inside a word, for which this word is read; and what the client writes is written by
calls on words of the range alone. -/
theorem memory_words_touched (hstart : start? c wire Kernel.empty = .ok s₀) (hs : s₀.run inputs = s)
    (current : s.debuggee.registry.currentInferior? = some (pid, inf)) :
    (∀ b addr length, s.command? b = some (.readMemory addr length) → s.AsksWords b inf.space addr.toNat length) ∧
      ∀ b addr length digits, s.command? b = some (.writeMemory addr length digits) →
        s.WritesWords b inf.space addr.toNat length := by
  have fits : s.receiver.Fits s.packetSize := hs ▸ fits_run hstart inputs
  exact ⟨fun _ _ _ => asksWords fits current, fun _ _ _ _ => writesWords fits current⟩

/-- Four bytes across two words are asked for, and nothing is written inside a word. -/
theorem words_touched_across_boundary :
    ∃ s, start? {} Wire.fresh Kernel.empty = .ok s ∧
      let amid (packet : String) := s.run
        ([.addInferior 7 .fresh, .addThread 1 8 .fresh] ++ (ascii packet).map .byte)
      (amid "$m1006,4#9").command? '4'.toUInt8 = some (.readMemory 0x1006 4) ∧
        (amid "$m1006,4#9").AsksWords '4'.toUInt8 0 0x1006 4 ∧
        (amid "$M1003,0:#a").command? '7'.toUInt8 = some (.writeMemory 0x1003 0 []) ∧
        (amid "$M1003,0:#a").WritesWords '7'.toUInt8 0 0x1003 0 := by
  let s : Session := ⟨Debuggee.empty 64 256 32, Wire.fresh, 2048, .outside, true, none, [], []⟩
  have start : start? {} Wire.fresh Kernel.empty = .ok s := rfl
  refine ⟨s, start, ?_⟩
  intro amid
  have ran (packet : String) : s.run
      ([.addInferior 7 .fresh, .addThread 1 8 .fresh] ++ (ascii packet).map .byte) = amid packet := rfl
  have asks : (amid "$m1006,4#9").command? '4'.toUInt8 = some (.readMemory 0x1006 4) := by decide +kernel
  have writes : (amid "$M1003,0:#a").command? '7'.toUInt8 = some (.writeMemory 0x1003 0 []) := by decide +kernel
  have asker : (amid "$m1006,4#9").debuggee.registry.currentInferior?.map (·.2.space) = some 0 := by decide +kernel
  have writer : (amid "$M1003,0:#a").debuggee.registry.currentInferior?.map (·.2.space) = some 0 := by decide +kernel
  obtain ⟨⟨pid, inf⟩, current, home⟩ := Option.map_eq_some_iff.1 asker
  obtain ⟨⟨pid', inf'⟩, current', home'⟩ := Option.map_eq_some_iff.1 writer
  have touched := (memory_words_touched start (ran _) current).1 _ _ _ asks
  have touched' := (memory_words_touched start (ran _) current').2 _ _ _ _ writes
  rw [home] at touched
  rw [home'] at touched'
  exact ⟨asks, touched, writes, touched'⟩

/-- Nothing is asked for inside a word that is not mapped: the word is read all the same, and the client is told of a
failure. -/
theorem empty_question_reads_word :
    ∃ s, start? {} Wire.fresh Kernel.empty = .ok s ∧
      let here := s.run ([.addInferior 7 .fresh, .addThread 1 8 .fresh] ++ (ascii "$m1001,0#8").map .byte)
      here.debuggee.registry.currentInferior?.map (·.2.space) = some 0 ∧
        here.command? 'b'.toUInt8 = some (.readMemory 0x1001 0) ∧
        here.calls (.byte 'b'.toUInt8) = [wordRead 0 false 0x200] ∧
        (∀ r ∈ here.calls (.byte 'b'.toUInt8), ¬ r.call.InRange 0 0x1001 0) ∧
        here.sends (.byte 'b'.toUInt8) = ascii "+" ++ frame (ascii "E04") := by
  let s : Session := ⟨Debuggee.empty 64 256 32, Wire.fresh, 2048, .outside, true, none, [], []⟩
  refine ⟨s, rfl, by decide +kernel, by decide +kernel, by decide +kernel, fun r _ => r.call.not_inRange_zero, ?_⟩
  decide +kernel

end Run

end Session
end RemoteDebug
