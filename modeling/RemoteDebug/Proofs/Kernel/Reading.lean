import RemoteDebug.Proofs.Registry.Overlay

/-!
# Reading through words

A byte string is read word by word. The words are those that hold a byte of the range (`Kernel.mem_wordSpan`), in
ascending order, and what is kept of a word are the bytes between two places inside it (`Kernel.kept_eq_extract`). Words
are asked for up to the first that is not served (`Kernel.ReadsWords`). If all are served then what is read are the
bytes of the range (`Kernel.load_of_readBytes`).
-/

namespace RemoteDebug.Kernel

/-! ## The words of a range -/

section WordSpan

variable {addr length i : Nat}

/-- Word `i` holds a byte of a range. -/
def WordHolds (addr length i : Nat) : Prop := ∃ a, addr ≤ a ∧ a < addr + length ∧ a / 8 = i

/-- The words of a range that is not empty are those that hold a byte of it. -/
theorem mem_wordSpan (filled : 0 < length) : i ∈ wordSpan addr length ↔ WordHolds addr length i := by
  rw [wordSpan, List.mem_range'_1]
  constructor
  · rintro ⟨first, last⟩
    exact ⟨max addr (8 * i), by omega, by omega, by omega⟩
  · rintro ⟨a, low, high, rfl⟩
    omega

theorem pairwise_wordSpan (addr length : Nat) : (wordSpan addr length).Pairwise (· < ·) := List.pairwise_lt_range'

/-- Where the bytes of a range begin inside word `i`. -/
def lowPlace (addr i : Nat) : Nat := max addr (8 * i) - 8 * i

/-- Where the bytes of a range that ends at `stop` end inside word `i`. -/
def highPlace (stop i : Nat) : Nat := min (stop - 8 * i) 8

/-- What is kept of a word are the bytes between the two places. -/
theorem kept_eq_extract (addr stop i : Nat) (word : UInt64) :
    ((LittleEndian.ofWord word).take (stop - 8 * i)).drop (addr - 8 * i) =
      (LittleEndian.ofWord word).extract (lowPlace addr i) (highPlace stop i) := by
  have low : lowPlace addr i = addr - 8 * i := by
    unfold lowPlace
    omega
  rw [List.extract_eq_take_drop, ← List.drop_take, low]
  congr 1
  unfold highPlace
  by_cases inside : stop - 8 * i ≤ 8
  · rw [Nat.min_eq_left inside]
  · rw [Nat.min_eq_right (by omega), List.take_of_length_le (by rw [LittleEndian.length_ofWord]; omega),
      List.take_of_length_le (Nat.le_of_eq (LittleEndian.length_ofWord word))]

/-- Word `i` lies inside the addresses, and the two places inside the word; the bytes between them are kept. -/
structure Placed (addr stop i : Nat) : Prop where
  address : (UInt64.ofNat (8 * i)).toNat = 8 * i
  room : 8 * i + 8 ≤ 2 ^ 64
  begins : 8 * i ≤ stop
  ordered : lowPlace addr i ≤ highPlace stop i
  inside : highPlace stop i ≤ 8
  kept : ∀ word, ((LittleEndian.ofWord word).take (stop - 8 * i)).drop (addr - 8 * i) =
    (LittleEndian.ofWord word).extract (lowPlace addr i) (highPlace stop i)

theorem placed_of_mem (filled : 0 < length) (bounded : addr + length < 2 ^ 64) (h : i ∈ wordSpan addr length) :
    Placed addr (addr + length) i := by
  obtain ⟨a, low, high, rfl⟩ := (mem_wordSpan filled).1 h
  constructor
  case address => rw [UInt64.toNat_ofNat', Nat.mod_eq_of_lt (by omega)]
  case room => omega
  case begins => omega
  case ordered =>
    unfold lowPlace highPlace
    omega
  case inside => exact Nat.min_le_right _ _
  case kept => exact kept_eq_extract addr _ _

end WordSpan

/-! ## The calls -/

/-- Word `i` would be given if it were asked for after `calls` calls. -/
def Space.Serves (space : Space) (calls i : Nat) : Prop :=
  space.refuses calls (.read (UInt64.ofNat (8 * i))) = false ∧ (space.memory.word? (UInt64.ofNat (8 * i))).isSome

/-- The record of a question for word `i`. -/
def wordRead (cap : SpaceCap) (done : Bool) (i : Nat) : Record := ⟨.space cap (.read (UInt64.ofNat (8 * i))), done⟩

/-- Words are asked for one after another: those that are read, and the first of the others, which is not served.
Nothing else is done. -/
structure ReadsWords (k : Kernel) (cap : SpaceCap) (space : Space) (read unread : List Nat) (k' : Kernel) : Prop where
  history : k'.history.toList =
    k.history.toList ++ read.map (wordRead cap true) ++ unread.head?.toList.map (wordRead cap false)
  served : ∀ j i, read[j]? = some i → space.Serves (k.history.size + j) i
  stops : ∀ i, unread.head? = some i → ¬ space.Serves (k.history.size + read.length) i
  spaces : k'.spaces = k.spaces
  threads : k'.threads = k.threads

variable {k k' : Kernel} {cap : SpaceCap} {space : Space} {addr stop : Nat}

theorem readWord_isSome_iff (known : k.spaces[cap]? = some space) (i : Nat) :
    (k.readWord cap (UInt64.ofNat (8 * i))).1.isSome = true ↔ space.Serves k.history.size i := by
  simp only [readWord, peekWord, known, Space.Serves]
  cases space.refuses k.history.size (.read (UInt64.ofNat (8 * i))) <;> simp

/-- Whatever the words, they are read up to the first that is not served. -/
theorem readsWords_readSpan (addr stop : Nat) (words : List Nat) (known : k.spaces[cap]? = some space) :
    ∃ read unread, words = read ++ unread ∧
      ReadsWords k cap space read unread (readSpan cap addr stop words k).2 ∧
      ((readSpan cap addr stop words k).1.isSome = true ↔ unread = []) := by
  induction words generalizing k with
  | nil => exact ⟨[], [], rfl, ⟨by simp [readSpan], by simp, by simp, rfl, rfl⟩, by simp [readSpan]⟩
  | cons i words ih =>
    have serves := readWord_isSome_iff known i
    have history := history_readWord k cap (UInt64.ofNat (8 * i))
    have spaces := spaces_readWord k cap (UInt64.ofNat (8 * i))
    have threads : (k.readWord cap (UInt64.ofNat (8 * i))).2.threads = k.threads := rfl
    rcases answer : k.readWord cap (UInt64.ofNat (8 * i)) with ⟨word, k₁⟩
    rw [answer] at serves history spaces threads
    dsimp only at serves history spaces threads
    cases word with
    | none =>
      have ended : readSpan cap addr stop (i :: words) k = (none, k₁) := by simp only [readSpan, answer]
      have refused : ¬ space.Serves k.history.size i := fun here => Bool.false_ne_true (serves.2 here)
      rw [ended]
      refine ⟨[], i :: words, rfl, ⟨?_, nofun, ?_, spaces, threads⟩, by simp⟩
      · rw [history, Array.toList_push, List.map_nil, List.append_nil]
        rfl
      · rintro i' ⟨⟩
        exact refused
    | some word =>
      obtain ⟨read, unread, split, reads, whole⟩ := ih (spaces ▸ known)
      have size : k₁.history.size = k.history.size + 1 := by rw [history, Array.size_push]
      have after : (readSpan cap addr stop (i :: words) k).2 = (readSpan cap addr stop words k₁).2 ∧
          (readSpan cap addr stop (i :: words) k).1.isSome = (readSpan cap addr stop words k₁).1.isSome := by
        simp only [readSpan, answer]
        rcases readSpan cap addr stop words k₁ with ⟨- | bytes, k₂⟩ <;> exact ⟨rfl, rfl⟩
      rw [after.1, after.2]
      refine ⟨i :: read, unread, by rw [split, List.cons_append], ⟨?_, ?_, ?_, reads.spaces.trans spaces,
        reads.threads.trans threads⟩, whole⟩
      · rw [reads.history, history, Array.toList_push, List.map_cons, List.append_assoc _ [_]]
        rfl
      · rintro (_ | j) i' there
        · rw [← Option.some.inj there]
          exact serves.1 rfl
        · have later := reads.served j i' there
          rwa [size, Nat.add_assoc, Nat.add_comm 1 j] at later
      · intro i' first
        have later := reads.stops i' first
        rwa [size, Nat.add_assoc, Nat.add_comm 1] at later

/-! ## The bytes -/

namespace Memory

variable {m : Memory}

theorem load_append {addr first second : Nat} {front back : List UInt8} (hfront : m.load addr first = some front)
    (hback : m.load (addr + first) second = some back) : m.load addr (first + second) = some (front ++ back) := by
  obtain ⟨length, bytes⟩ := (m.load_eq_some_iff).1 hfront
  obtain ⟨length', bytes'⟩ := (m.load_eq_some_iff).1 hback
  refine (m.load_eq_some_iff).2 ⟨by rw [List.length_append, length, length'], fun i hi => ?_⟩
  by_cases early : i < first
  · rw [bytes i early, List.getElem?_append_left (length ▸ early)]
  · have late := bytes' (i - first) (by omega)
    rw [show addr + first + (i - first) = addr + i by omega] at late
    rw [late, List.getElem?_append_right (by omega), length]

/-- The bytes of a word between two places. -/
theorem load_of_word? {place word : UInt64} (h : m.word? place = some word) {low high : Nat} (ordered : low ≤ high)
    (inside : high ≤ 8) :
    m.load (place.toNat + low) (high - low) = some ((LittleEndian.ofWord word).extract low high) := by
  refine (m.load_eq_some_iff).2 ⟨?_, fun i hi => ?_⟩
  · simp only [List.extract_eq_take_drop, List.length_take, List.length_drop, LittleEndian.length_ofWord]
    omega
  · rw [List.extract_eq_take_drop, List.getElem?_take_of_lt hi, List.getElem?_drop, Nat.add_assoc,
      byte?_of_word? h (by omega)]

end Memory

/-- Words from number `i` on give the bytes from the address on or, past its word, from the start of the first of them.
-/
theorem load_of_readSpan {m : Memory} {count i : Nat} {bytes : List UInt8} (hm : k.memory? cap = some m)
    (near : addr < 8 * (i + 1)) (far : count ≠ 0 → 8 * (i + count) < stop + 8) (last : stop ≤ 8 * (i + count))
    (ordered : addr ≤ stop) (bounded : stop < 2 ^ 64)
    (h : (readSpan cap addr stop (List.range' i count) k).1 = some bytes) :
    m.load (max addr (8 * i)) (stop - max addr (8 * i)) = some bytes := by
  induction count generalizing i k bytes with
  | zero =>
    have empty : stop - max addr (8 * i) = 0 := by omega
    rw [empty]
    exact h
  | succ count ih =>
    rw [List.range'_succ] at h
    unfold readSpan at h
    split at h
    · cases h
    · rename_i word k₁ answer
      split at h
      · cases h
      · rename_i rest k₂ hrest
        obtain ⟨m', hm', hword⟩ := word?_of_peekWord (congrArg Prod.fst answer)
        obtain rfl := Option.some.inj (hm.symm.trans hm')
        have same : k₁.spaces = k.spaces := by rw [← spaces_readWord k cap (UInt64.ofNat (8 * i)), answer]
        have place : (UInt64.ofNat (8 * i)).toNat = 8 * i := by
          rw [UInt64.toNat_ofNat', Nat.mod_eq_of_lt (by omega)]
        have low : 8 * i + lowPlace addr i = max addr (8 * i) := by
          unfold lowPlace
          omega
        have places : lowPlace addr i ≤ highPlace stop i := by
          unfold lowPlace highPlace
          omega
        have first := Memory.load_of_word? hword places (Nat.min_le_right _ _)
        rw [place, low] at first
        have others := ih ((memory?_of_spaces_eq same cap).trans hm) (by omega) (by omega) (by omega)
          (congrArg Prod.fst hrest)
        cases h
        rw [kept_eq_extract]
        -- the next word begins where the bytes of this one end, unless there are no more bytes
        have parts : stop - max addr (8 * i) =
            highPlace stop i - lowPlace addr i + (stop - max addr (8 * (i + 1))) := by
          unfold lowPlace highPlace
          omega
        rw [parts]
        refine Memory.load_append first ?_
        by_cases more : 8 * (i + 1) ≤ stop
        · have next : max addr (8 * i) + (highPlace stop i - lowPlace addr i) = max addr (8 * (i + 1)) := by
            unfold lowPlace highPlace
            omega
          rwa [next]
        · have none_left : stop - max addr (8 * (i + 1)) = 0 := by omega
          rw [none_left] at others ⊢
          exact others

/-- The bytes that are read are those of the range. -/
theorem load_of_readBytes {m : Memory} {length : Nat} {bytes : List UInt8} (hm : k.memory? cap = some m)
    (filled : 0 < length) (bounded : addr + length < 2 ^ 64) (h : (k.readBytes cap addr length).1 = some bytes) :
    m.load addr length = some bytes := by
  have start : max addr (8 * (addr / 8)) = addr := by omega
  have read := load_of_readSpan hm (by omega) (by omega) (by omega) (by omega) bounded h
  rwa [start, Nat.add_sub_cancel_left] at read

end RemoteDebug.Kernel
