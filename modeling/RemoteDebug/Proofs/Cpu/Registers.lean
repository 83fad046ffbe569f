import Mathlib.Data.List.OfFn
import RemoteDebug.Cpu.Registers

/-!
# Register files as bytes

A register file is thirty-three words and half a one. As bytes it is read back (`deserialize?_serialize`), and bytes
that are read are what is written again (`serialize_of_deserialize?`), so that the two forms are in one-to-one
correspondence. Reading fails for nothing but a wrong length.

Registers may also be overwritten where they are, one after another as the bytes come (`load`). That a transfer stops
half-way, with some registers overwritten and others not, is ruled out by the length, which is looked at first
(`load_eq`).
-/

namespace RemoteDebug.Cpu.Registers

open LittleEndian

/-! ## Words -/

/-- The first words of a byte string. -/
def words : (count : Nat) → List UInt8 → List UInt64
  | 0, _ => []
  | count + 1, bytes => toWord (bytes.take 8) :: words count (bytes.drop 8)

theorem wordAt_drop (bytes : List UInt8) (i j : Nat) : wordAt (bytes.drop (8 * i)) j = wordAt bytes (i + j) := by
  rw [wordAt, wordAt, List.drop_drop, Nat.mul_add]

theorem wordAt_take (bytes : List UInt8) {i count : Nat} (h : i < count) :
    wordAt (bytes.take (8 * count)) i = wordAt bytes i := by
  rw [wordAt, wordAt, List.drop_take, List.take_take, Nat.min_eq_left (by omega)]

theorem words_eq_ofFn (count : Nat) (bytes : List UInt8) :
    words count bytes = List.ofFn fun i : Fin count => wordAt bytes i := by
  induction count generalizing bytes with
  | zero => simp [words]
  | succ count ih =>
    have next (i : Nat) : wordAt (bytes.drop 8) i = wordAt bytes (i + 1) := by
      rw [Nat.add_comm]
      exact wordAt_drop bytes 1 i
    simp only [words, ih, List.ofFn_succ, next, Fin.val_succ]
    rfl

theorem words_add (a b : Nat) (bytes : List UInt8) :
    words (a + b) bytes = words a bytes ++ words b (bytes.drop (8 * a)) := by
  induction a generalizing bytes with
  | zero => simp [words]
  | succ a ih =>
    have rest : (bytes.drop 8).drop (8 * a) = bytes.drop (8 * (a + 1)) := by
      rw [List.drop_drop]
      congr 1
      omega
    rw [Nat.add_right_comm, words, words, ih, rest, List.cons_append]

theorem words_flatMap (ws : List UInt64) (rest : List UInt8) :
    words ws.length (ws.flatMap ofWord ++ rest) = ws := by
  induction ws with
  | nil => rfl
  | cons w ws ih =>
    have width := length_ofWord w
    rw [List.length_cons, words, List.flatMap_cons, List.append_assoc, List.take_left' width, List.drop_left' width,
      toWord_ofWord, ih]

theorem flatMap_words {count : Nat} {bytes : List UInt8} (h : 8 * count ≤ bytes.length) :
    (words count bytes).flatMap ofWord = bytes.take (8 * count) := by
  induction count generalizing bytes with
  | zero => simp [words]
  | succ count ih =>
    have first : (bytes.take 8).length = 8 := by
      rw [List.length_take]
      omega
    have others : 8 * count ≤ (bytes.drop 8).length := by
      rw [List.length_drop]
      omega
    rw [words, List.flatMap_cons, ofWord_toWord first, ih others, ← List.take_add]
    congr 1
    omega

theorem length_flatMap_ofWord (ws : List UInt64) : (ws.flatMap ofWord).length = 8 * ws.length := by
  induction ws with
  | nil => rfl
  | cons w ws ih =>
    rw [List.flatMap_cons, List.length_append, ih, length_ofWord, List.length_cons]
    omega

/-! ## Register files -/

/-- The words of a register file, as they are written. -/
def wordList (r : Registers) : List UInt64 := r.x.toList ++ [r.sp, r.pc]

@[simp] theorem length_wordList (r : Registers) : r.wordList.length = 33 := by simp [wordList]

theorem serialize_eq (r : Registers) : r.serialize = r.wordList.flatMap ofWord ++ encode 4 r.cpsr.toNat := rfl

theorem length_serialize (r : Registers) : r.serialize.length = size := by
  rw [serialize_eq, List.length_append, length_flatMap_ofWord, length_wordList, length_encode]
  rfl

/-- A register file is its words and the processor state. -/
theorem eq_of_wordList_eq {r r' : Registers} (words : r.wordList = r'.wordList) (state : r.cpsr = r'.cpsr) :
    r = r' := by
  obtain ⟨x, sp, pc, cpsr⟩ := r
  obtain ⟨x', sp', pc', cpsr'⟩ := r'
  obtain ⟨general, special⟩ := List.append_inj words (by simp)
  simp only [List.cons.injEq, and_true] at special
  obtain rfl : x = x' := Vector.toList_inj.1 general
  obtain ⟨rfl, rfl⟩ := special
  obtain rfl : cpsr = cpsr' := state
  rfl

/-- The register file that a byte string stands for: its words in turn, and the processor state behind them. -/
def ofBytes (bytes : List UInt8) : Registers :=
  ⟨Vector.ofFn fun i => wordAt bytes i, wordAt bytes 31, wordAt bytes 32, UInt32.ofNat (decode (bytes.drop 264))⟩

theorem wordList_ofBytes (bytes : List UInt8) : (ofBytes bytes).wordList = words 33 bytes := by
  have special : words 2 (bytes.drop (8 * 31)) = [wordAt bytes 31, wordAt bytes 32] := by
    simp [words_eq_ofFn 2, wordAt_drop bytes 31]
  rw [words_add 31 2, words_eq_ofFn 31, special, wordList, ofBytes, Vector.toList_ofFn]

theorem deserialize?_eq_some_iff {bytes : List UInt8} {r : Registers} :
    deserialize? bytes = some r ↔ bytes.length = size ∧ r = ofBytes bytes := by
  unfold deserialize?
  split
  · rename_i whole
    rw [Option.some.injEq]
    exact ⟨fun h => ⟨whole, h.symm⟩, fun h => h.2.symm⟩
  · rename_i other
    exact ⟨nofun, fun h => absurd h.1 other⟩

/-- What is written is read back. -/
theorem deserialize?_serialize (r : Registers) : deserialize? r.serialize = some r := by
  refine deserialize?_eq_some_iff.2 ⟨length_serialize r, eq_of_wordList_eq ?_ ?_⟩
  · have written := words_flatMap r.wordList (encode 4 r.cpsr.toNat)
    rw [length_wordList] at written
    rw [wordList_ofBytes, serialize_eq, written]
  · have front : (r.wordList.flatMap ofWord).length = 264 := by rw [length_flatMap_ofWord, length_wordList]
    have small : r.cpsr.toNat % 256 ^ 4 = r.cpsr.toNat := Nat.mod_eq_of_lt r.cpsr.toNat_lt
    rw [ofBytes, serialize_eq, List.drop_left' front, decode_encode, small, UInt32.ofNat_toNat]

/-- What is read is what is written again. -/
theorem serialize_of_deserialize? {bytes : List UInt8} {r : Registers} (h : deserialize? bytes = some r) :
    r.serialize = bytes := by
  obtain ⟨whole, rfl⟩ := deserialize?_eq_some_iff.1 h
  have whole : bytes.length = 268 := whole
  have four : (bytes.drop 264).length = 4 := by rw [List.length_drop, whole]
  have small : decode (bytes.drop 264) < 2 ^ 32 := by
    have bound := decode_lt (bytes.drop 264)
    rw [four] at bound
    exact bound
  have last : encode 4 (ofBytes bytes).cpsr.toNat = bytes.drop 264 := by
    rw [ofBytes, UInt32.toNat_ofNat', Nat.mod_eq_of_lt small, ← four]
    exact encode_decode _
  have front : (words 33 bytes).flatMap ofWord = bytes.take 264 := flatMap_words (by omega)
  rw [serialize_eq, wordList_ofBytes, front, last]
  exact List.take_append_drop 264 bytes

/-- Reading fails for nothing but a wrong length. -/
theorem deserialize?_eq_none_iff {bytes : List UInt8} : deserialize? bytes = none ↔ bytes.length ≠ size := by
  rw [← Option.not_isSome_iff_eq_none, deserialize?_isSome]

/-! ## Overwriting registers -/

/-- Takes a word off a byte string, if there are eight bytes left. -/
def nextWord? (bytes : List UInt8) : Option (UInt64 × List UInt8) :=
  if 8 ≤ bytes.length then some (toWord (bytes.take 8), bytes.drop 8) else none

/-- Overwrites the general registers from number `i` on, as long as there are words; what is left of the bytes if there
are enough. -/
def loadFrom (i : Nat) (r : Registers) (bytes : List UInt8) : Option (List UInt8) × Registers :=
  if h : i < 31 then
    match nextWord? bytes with
    | none => (none, r)
    | some (w, rest) => loadFrom (i + 1) { r with x := r.x.set i w } rest
  else (some bytes, r)

/-- Overwrites registers with the bytes of a register file, one after another; true if all were overwritten. -/
def load (r : Registers) (bytes : List UInt8) : Bool × Registers :=
  if bytes.length ≠ size then (false, r)
  else
    match loadFrom 0 r (bytes.take 264) with
    | (none, r) => (false, r)
    | (some rest, r) =>
      match nextWord? rest with
      | none => (false, r)
      | some (sp, rest) =>
        match nextWord? rest with
        | none => (false, { r with sp })
        | some (pc, _) =>
          if (bytes.drop 264).length = 4 then
            (true, { r with sp, pc, cpsr := UInt32.ofNat (decode (bytes.drop 264)) })
          else (false, { r with sp, pc })

theorem nextWord?_of_le {bytes : List UInt8} (h : 8 ≤ bytes.length) :
    nextWord? bytes = some (toWord (bytes.take 8), bytes.drop 8) := if_pos h

/-- The words of a byte string are taken off in turn. -/
theorem nextWord?_drop {bytes : List UInt8} {i : Nat} (h : 8 * (i + 1) ≤ bytes.length) :
    nextWord? (bytes.drop (8 * i)) = some (wordAt bytes i, bytes.drop (8 * (i + 1))) := by
  have left : 8 ≤ (bytes.drop (8 * i)).length := by
    rw [List.length_drop]
    omega
  rw [nextWord?_of_le left, List.drop_drop]
  rfl

/-- The registers before number `i` stay, and the others come from the words in turn. -/
theorem exists_loadFrom {i : Nat} {r : Registers} {bytes : List UInt8} (h : 8 * (31 - i) ≤ bytes.length) :
    ∃ x, loadFrom i r bytes = (some (bytes.drop (8 * (31 - i))), { r with x }) ∧
      ∀ j (hj : j < 31), x[j] = if j < i then r.x[j] else wordAt bytes (j - i) := by
  fun_induction loadFrom i r bytes with
  | case1 i r bytes hi short =>
    rw [nextWord?_of_le (by omega)] at short
    cases short
  | case2 i r bytes hi w rest next ih =>
    rw [nextWord?_of_le (by omega), Option.some.injEq, Prod.mk.injEq] at next
    obtain ⟨rfl, rfl⟩ := next
    have left : 8 * (31 - (i + 1)) ≤ (bytes.drop 8).length := by
      rw [List.length_drop]
      omega
    have count : 8 + 8 * (31 - (i + 1)) = 8 * (31 - i) := by omega
    obtain ⟨x, loaded, given⟩ := ih left
    refine ⟨x, by rw [loaded, List.drop_drop, count], fun j hj => ?_⟩
    rw [given j hj, Vector.getElem_set]
    rcases Nat.lt_trichotomy j i with before | rfl | behind
    · rw [if_pos (by omega), if_neg (by omega), if_pos before]
    · rw [if_pos (by omega), if_pos rfl, if_neg (by omega), Nat.sub_self]
      rfl
    · have shift : 1 + (j - (i + 1)) = j - i := by omega
      rw [if_neg (by omega), if_neg (by omega), ← shift]
      exact wordAt_drop bytes 1 _
  | case3 i r bytes hi =>
    have done : 31 - i = 0 := by omega
    refine ⟨r.x, by rw [done, Nat.mul_zero, List.drop_zero], fun j hj => ?_⟩
    rw [if_pos (by omega)]

/-- Registers are overwritten all together or not at all. -/
theorem load_eq (r : Registers) (bytes : List UInt8) :
    r.load bytes = ((deserialize? bytes).isSome, (deserialize? bytes).getD r) := by
  by_cases whole : bytes.length = size
  · have read : deserialize? bytes = some (ofBytes bytes) := deserialize?_eq_some_iff.2 ⟨whole, rfl⟩
    have whole : bytes.length = 268 := whole
    have front : (bytes.take (8 * 33)).length = 264 := by
      rw [List.length_take, whole]
      rfl
    have state : (bytes.drop 264).length = 4 := by rw [List.length_drop, whole]
    have words : 8 * (31 - 0) ≤ (bytes.take (8 * 33)).length := by omega
    obtain ⟨x, loaded, given⟩ := exists_loadFrom (r := r) words
    have general : x = Vector.ofFn fun j => wordAt bytes j := by
      ext j hj
      rw [given j hj, if_neg (Nat.not_lt_zero j), Nat.sub_zero, wordAt_take bytes (by omega), Vector.getElem_ofFn]
    have sp := nextWord?_drop (show 8 * (31 + 1) ≤ (bytes.take (8 * 33)).length by omega)
    have pc := nextWord?_drop (show 8 * (32 + 1) ≤ (bytes.take (8 * 33)).length by omega)
    rw [wordAt_take bytes (by decide)] at sp pc
    simp only [Nat.reduceMul, Nat.reduceAdd, Nat.sub_zero] at loaded sp pc
    have sized : ¬ bytes.length ≠ size := not_not.2 whole
    rw [load, if_neg sized, loaded, read]
    simp only [sp, pc, state, if_true, general]
    rfl
  · have failed := deserialize?_eq_none_iff.2 whole
    rw [load, if_pos whole, failed]
    rfl

end RemoteDebug.Cpu.Registers
