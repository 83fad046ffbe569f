import RemoteDebug.Proofs.Kernel.Reading

/-!
# Writing through words

A byte string is written word by word, and the words at its ends keep the bytes that lie outside the range. Writing
stops at the first call that fails, and memory afterwards is memory before with the bytes of the words so far laid over
it (`Kernel.Lays`, `Kernel.written_writeBytes`). What was written is read back (`Kernel.readBytes_of_stored`).
-/

namespace RemoteDebug.Kernel

namespace Memory

variable {m : Memory}

@[simp] theorem store_nil (m : Memory) (addr : Nat) : m.store addr [] = m := by
  ext1
  funext a
  rw [byte?_store, if_neg (by simp only [List.length_nil]; omega)]

/-- A byte string is laid over memory in two parts. -/
theorem store_append (m : Memory) (addr : Nat) (front back : List UInt8) :
    m.store addr (front ++ back) = (m.store addr front).store (addr + front.length) back := by
  ext1
  funext a
  simp only [byte?_store, List.length_append]
  by_cases hback : addr + front.length ≤ a ∧ a < addr + front.length + back.length
  · rw [if_pos (by omega), if_pos hback, List.getElem?_append_right (by omega)]
    congr 1
    omega
  · rw [if_neg hback]
    by_cases hfront : addr ≤ a ∧ a < addr + front.length
    · rw [if_pos (by omega), if_pos hfront, List.getElem?_append_left (by omega)]
    · rw [if_neg (by omega), if_neg hfront]

/-- Writing back a word that was read, with a part of it replaced, lays that part over memory. -/
theorem storeWord_mergeWord {place w : UInt64} (h : m.word? place = some w) {skip : Nat} {part : List UInt8}
    (fits : skip + part.length ≤ 8) :
    m.storeWord place (mergeWord w skip part) = m.store (place.toNat + skip) part := by
  have hword : ((LittleEndian.ofWord w).take skip ++ part ++ (LittleEndian.ofWord w).drop (skip + part.length)).length =
      8 := by
    simp only [List.length_append, List.length_take, List.length_drop, LittleEndian.length_ofWord]
    omega
  have hskip : ((LittleEndian.ofWord w).take skip).length = skip := by
    rw [List.length_take, LittleEndian.length_ofWord]
    omega
  ext1
  funext a
  rw [storeWord, mergeWord, LittleEndian.ofWord_toWord hword, byte?_store, byte?_store, hword]
  by_cases hpart : place.toNat + skip ≤ a ∧ a < place.toNat + skip + part.length
  · rw [if_pos (by omega), if_pos hpart, List.getElem?_append_left (by simp only [List.length_append, hskip]; omega),
      List.getElem?_append_right (by omega), hskip]
    congr 1
    omega
  · rw [if_neg hpart]
    split
    · rename_i hin
      obtain ⟨i, rfl⟩ : ∃ i, a = place.toNat + i := ⟨a - place.toNat, by omega⟩
      rw [byte?_of_word? h (by omega), Nat.add_sub_cancel_left]
      by_cases hfront : i < skip
      · rw [List.getElem?_append_left (by simp only [List.length_append, hskip]; omega),
          List.getElem?_append_left (by omega), List.getElem?_take_of_lt hfront]
      · rw [List.getElem?_append_right (by simp only [List.length_append, hskip]; omega), List.getElem?_drop,
          List.length_append, hskip]
        congr 1
        omega
    · rfl

/-- A word that is replaced as a whole need not be read. -/
theorem storeWord_mergeWord_whole (place : UInt64) {part : List UInt8} (whole : part.length = 8) :
    m.storeWord place (mergeWord 0 0 part) = m.store place.toNat part := by
  rw [storeWord, mergeWord, List.take_zero, List.nil_append, Nat.zero_add, List.drop_eq_nil_of_le
    (Nat.le_of_eq (by rw [LittleEndian.length_ofWord, whole])), List.append_nil, LittleEndian.ofWord_toWord whole]

theorem isSome_load_iff {addr count : Nat} :
    (m.load addr count).isSome = true ↔ ∀ i < count, (m.byte? (addr + i)).isSome = true := by
  induction count generalizing addr with
  | zero => simp [load]
  | succ count ih =>
    have step : (m.load addr (count + 1)).isSome = true ↔
        (m.byte? addr).isSome = true ∧ (m.load (addr + 1) count).isSome = true := by
      cases h0 : m.byte? addr <;> cases h1 : m.load (addr + 1) count <;> simp [load, h0, h1]
    rw [step, ih]
    constructor
    · rintro ⟨first, others⟩ (_ | i) hi
      · exact first
      · have later := others i (by omega)
        rwa [Nat.add_assoc, Nat.add_comm 1] at later
    · refine fun all => ⟨all 0 (by omega), fun i hi => ?_⟩
      have later := all (i + 1) (by omega)
      rwa [Nat.add_assoc, Nat.add_comm 1]

/-- A word stays mapped whatever is laid over memory. -/
theorem isSome_word?_store {place : UInt64} (h : (m.word? place).isSome = true) (addr : Nat) (bytes : List UInt8) :
    ((m.store addr bytes).word? place).isSome = true := by
  unfold word? at h ⊢
  split at h
  · rename_i room
    rw [if_pos room, Option.isSome_map, isSome_load_iff]
    rw [Option.isSome_map, isSome_load_iff] at h
    intro i hi
    rw [byte?_store]
    split
    · rw [List.getElem?_eq_getElem (by omega)]
      rfl
    · exact h i hi
  · cases h

end Memory

variable {k k' k'' : Kernel} {cap : SpaceCap} {addr start i : Nat} {m : Memory} {data bytes more : List UInt8}
  {last : List Record}

/-! ## One word -/

/-- Writing one word of a span: its part of the data is laid over memory, whether or not the word is read first. -/
theorem memory?_writeWord_mergeWord {place word : UInt64} {skip : Nat} {part : List UInt8}
    (hm : k.memory? cap = some m) (fits : skip + part.length ≤ 8)
    (read : (if part.length = 8 then (some 0, k) else k.readWord cap place) = (some word, k'))
    (wrote : k'.writeWord cap place (mergeWord word skip part) = (true, k'')) :
    k''.memory? cap = some (m.store (place.toNat + skip) part) := by
  have done : (k'.writeWord cap place (mergeWord word skip part)).1 = true := by rw [wrote]
  split at read
  · rename_i whole
    cases read
    obtain rfl : skip = 0 := by omega
    have after := memory?_writeWord done hm
    rw [wrote, Memory.storeWord_mergeWord_whole place whole] at after
    exact after
  · have same : k'.spaces = k.spaces := by rw [← spaces_readWord k cap place, read]
    obtain ⟨m', hm', hword⟩ := word?_of_peekWord (congrArg Prod.fst read)
    obtain rfl := Option.some.inj (hm.symm.trans hm')
    have after := memory?_writeWord done ((memory?_of_spaces_eq same cap).trans hm)
    rw [wrote, Memory.storeWord_mergeWord hword fits] at after
    exact after

theorem isSome_word?_of_writeWord {place word : UInt64} (hm : k.memory? cap = some m)
    (done : (k.writeWord cap place word).1 = true) : (m.word? place).isSome = true := by
  unfold writeWord at done
  dsimp only at done
  split at done
  · rename_i given
    obtain ⟨w, hw⟩ := Option.isSome_iff_exists.1 given
    obtain ⟨m', hm', hword⟩ := word?_of_peekWord hw
    obtain rfl := Option.some.inj (hm.symm.trans hm')
    rw [hword]
    rfl
  · cases done

/-- What is asked before a word is written: its old value if some of it is kept, and otherwise nothing. -/
theorem fetched {place : UInt64} {whole : Prop} [Decidable whole] {answer : Option UInt64}
    (read : (if whole then (some 0, k) else k.readWord cap place) = (answer, k')) :
    k'.spaces = k.spaces ∧ k'.threads = k.threads ∧
      ∃ asked : List Record, k'.history.toList = k.history.toList ++ asked ∧
        (answer.isSome = true → ∀ r ∈ asked, r = ⟨.space cap (.read place), true⟩) ∧
        (answer = none → asked = [⟨.space cap (.read place), false⟩]) := by
  split at read
  · cases read
    exact ⟨rfl, rfl, [], (List.append_nil _).symm, fun _ => nofun, nofun⟩
  · have history := history_readWord k cap place
    have spaces := spaces_readWord k cap place
    have threads : (k.readWord cap place).2.threads = k.threads := rfl
    rw [read] at history spaces threads
    refine ⟨spaces, threads, [⟨.space cap (.read place), answer.isSome⟩], by rw [history, Array.toList_push], ?_,
      ?_⟩
    · intro given r hr
      rw [List.mem_singleton.1 hr, given]
    · rintro rfl
      rfl

/-! ## Bytes laid over memory -/

/-- The address that a call is about. -/
def SpaceCall.place : SpaceCall → UInt64
  | .read addr => addr
  | .write addr _ => addr

/-- A call on word `i` of an address space. -/
def Record.OnWord (r : Record) (cap : SpaceCap) (i : Nat) : Prop :=
  ∃ call : SpaceCall, r.call = .space cap call ∧ call.place.toNat = 8 * i

/-- Bytes are laid over memory from `start` on, by calls that are done, each on a word that holds one of the bytes. The
calls in `last` come after them. Nothing else is done. -/
structure Lays (k : Kernel) (cap : SpaceCap) (start : Nat) (bytes : List UInt8) (last : List Record) (k' : Kernel) :
    Prop where
  memory : ∀ m, k.memory? cap = some m → k'.memory? cap = some (m.store start bytes)
  mapped : ∀ m, k.memory? cap = some m → ∀ j, WordHolds start bytes.length j →
    ((m.store start bytes).word? (UInt64.ofNat (8 * j))).isSome = true
  others : ∀ other, other ≠ cap → k'.spaces[other]? = k.spaces[other]?
  threads : k'.threads = k.threads
  history : ∃ before, k'.history.toList = k.history.toList ++ before ++ last ∧
    ∀ r ∈ before, r.done = true ∧ ∃ j, r.OnWord cap j ∧ WordHolds start bytes.length j

/-- Calls on word `i` of which the last fails and the others are done. -/
def StopsAt (last : List Record) (cap : SpaceCap) (i : Nat) : Prop :=
  ∃ earlier call, last = earlier ++ [⟨.space cap call, false⟩] ∧ call.place.toNat = 8 * i ∧
    ∀ r ∈ earlier, r.done = true ∧ r.OnWord cap i

theorem WordHolds.mono {start' length length' j : Nat} (h : WordHolds start length j) (low : start' ≤ start)
    (high : start + length ≤ start' + length') : WordHolds start' length' j := by
  obtain ⟨a, first, final, rfl⟩ := h
  exact ⟨a, by omega, by omega, rfl⟩

theorem not_wordHolds_zero (start j : Nat) : ¬ WordHolds start 0 j := by
  rintro ⟨a, low, high, -⟩
  omega

/-- Nothing is written, whatever calls are made. -/
theorem Lays.nothing (spaces : k'.spaces = k.spaces) (threads : k'.threads = k.threads)
    (history : k'.history.toList = k.history.toList ++ last) : Lays k cap start [] last k' := by
  refine ⟨fun m hm => ?_, fun m _ j hj => absurd hj (not_wordHolds_zero start j), fun other _ => by rw [spaces],
    threads, [], by rw [List.append_nil, history], nofun⟩
  rw [Memory.store_nil, memory?_of_spaces_eq spaces, hm]

theorem Lays.trans (h : Lays k cap start bytes [] k') (h' : Lays k' cap (start + bytes.length) more last k'') :
    Lays k cap start (bytes ++ more) last k'' := by
  obtain ⟨before, first, done⟩ := h.history
  obtain ⟨before', second, done'⟩ := h'.history
  have near : ∀ {j}, WordHolds start bytes.length j → WordHolds start (bytes ++ more).length j := fun hj =>
    hj.mono (Nat.le_refl _) (by rw [List.length_append]; omega)
  have far {j : Nat} (hj : WordHolds (start + bytes.length) more.length j) :
      WordHolds start (bytes ++ more).length j :=
    hj.mono (Nat.le_add_right _ _) (by rw [List.length_append]; omega)
  constructor
  case memory =>
    intro m hm
    rw [Memory.store_append]
    exact h'.memory _ (h.memory m hm)
  case mapped =>
    rintro m hm j ⟨a, low, high, rfl⟩
    rw [Memory.store_append]
    by_cases early : a < start + bytes.length
    · exact Memory.isSome_word?_store (h.mapped m hm _ ⟨a, low, early, rfl⟩) _ _
    · refine h'.mapped _ (h.memory m hm) _ ⟨a, by omega, ?_, rfl⟩
      rw [List.length_append] at high
      omega
  case others => exact fun other hother => (h'.others other hother).trans (h.others other hother)
  case threads => exact h'.threads.trans h.threads
  case history =>
    refine ⟨before ++ before', by rw [second, first, List.append_nil]; simp only [List.append_assoc],
      fun r hr => ?_⟩
    rcases List.mem_append.1 hr with hr | hr
    · obtain ⟨ok, j, on, hj⟩ := done r hr
      exact ⟨ok, j, on, near hj⟩
    · obtain ⟨ok, j, on, hj⟩ := done' r hr
      exact ⟨ok, j, on, far hj⟩

/-! ## Words in turn -/

section Word

variable {place word : UInt64} {skip : Nat} {part : List UInt8}

theorem earlier_onWord (number : place.toNat = 8 * i) {asked : List Record}
    (answered : ∀ r ∈ asked, r = ⟨.space cap (.read place), true⟩) :
    ∀ r ∈ asked, r.done = true ∧ r.OnWord cap i := by
  intro r hr
  rw [answered r hr]
  exact ⟨rfl, _, rfl, number⟩

theorem stopsAt_of_unread {whole : Prop} [Decidable whole] (number : place.toNat = 8 * i)
    (read : (if whole then (some 0, k) else k.readWord cap place) = (none, k')) (start : Nat) :
    ∃ last, StopsAt last cap i ∧ Lays k cap start [] last k' := by
  obtain ⟨spaces, threads, asked, history, -, refused⟩ := fetched read
  exact ⟨asked, ⟨[], .read place, refused rfl, number, nofun⟩, .nothing spaces threads history⟩

theorem stopsAt_of_unwritten {whole : Prop} [Decidable whole] {value : UInt64} (number : place.toNat = 8 * i)
    (read : (if whole then (some 0, k) else k.readWord cap place) = (some word, k'))
    (wrote : k'.writeWord cap place value = (false, k'')) (start : Nat) :
    ∃ last, StopsAt last cap i ∧ Lays k cap start [] last k'' := by
  obtain ⟨spaces, threads, asked, history, answered, -⟩ := fetched read
  have history' := history_writeWord k' cap place value
  have threads' := threads_writeWord k' cap place value
  have spaces' := @spaces_writeWord k' cap place value
  rw [wrote] at history' threads' spaces'
  refine ⟨asked ++ [⟨.space cap (.write place value), false⟩],
    ⟨asked, .write place value, rfl, number, earlier_onWord number (answered rfl)⟩,
    .nothing ((spaces' rfl).trans spaces) (threads'.trans threads) ?_⟩
  rw [history', Array.toList_push, history, List.append_assoc]

theorem lays_of_written (number : place.toNat = 8 * i) (fits : skip + part.length ≤ 8) (filled : 0 < part.length)
    (read : (if part.length = 8 then (some 0, k) else k.readWord cap place) = (some word, k'))
    (wrote : k'.writeWord cap place (mergeWord word skip part) = (true, k'')) :
    Lays k cap (8 * i + skip) part [] k'' := by
  obtain ⟨spaces, threads, asked, history, answered, -⟩ := fetched read
  constructor
  case memory =>
    intro m hm
    rw [← number]
    exact memory?_writeWord_mergeWord hm fits read wrote
  case mapped =>
    rintro m hm j ⟨a, low, high, rfl⟩
    have here : UInt64.ofNat (8 * (a / 8)) = place := by
      rw [show 8 * (a / 8) = place.toNat by omega, UInt64.ofNat_toNat]
    rw [here]
    have hm' : k'.memory? cap = some m := (memory?_of_spaces_eq spaces cap).trans hm
    exact Memory.isSome_word?_store (isSome_word?_of_writeWord hm' (congrArg Prod.fst wrote)) _ _
  case others =>
    intro other hother
    have kept := space_writeWord_of_ne k' place (mergeWord word skip part) hother
    rwa [wrote, spaces] at kept
  case threads =>
    have kept := threads_writeWord k' cap place (mergeWord word skip part)
    rwa [wrote, threads] at kept
  case history =>
    have added := history_writeWord k' cap place (mergeWord word skip part)
    rw [wrote] at added
    have holds : WordHolds (8 * i + skip) part.length i := ⟨8 * i + skip, Nat.le_refl _, by omega, by omega⟩
    refine ⟨asked ++ [⟨.space cap (.write place (mergeWord word skip part)), true⟩], ?_, fun r hr => ?_⟩
    · rw [added, Array.toList_push, history, List.append_nil, List.append_assoc]
    · rcases List.mem_append.1 hr with hr | hr
      · obtain ⟨ok, on⟩ := earlier_onWord number (answered rfl) r hr
        exact ⟨ok, i, on, holds⟩
      · rw [List.mem_singleton.1 hr]
        exact ⟨rfl, i, ⟨_, rfl, number⟩, holds⟩

end Word

/-- How writing ends: all of the data is laid over memory, or the first bytes of it, up to the start of the word at
which a call fails. -/
inductive Written (k : Kernel) (cap : SpaceCap) (start : Nat) (data : List UInt8) : Bool × Kernel → Prop
  | all {k' : Kernel} (lays : Lays k cap start data [] k') : Written k cap start data (true, k')
  | part {k' : Kernel} {n : Nat} {last : List Record} (short : n < data.length) (edge : n = 0 ∨ 8 ∣ start + n)
      (stops : StopsAt last cap ((start + n) / 8)) (lays : Lays k cap start (data.take n) last k') :
      Written k cap start data (false, k')

/-- What is written after some bytes goes on where these end. -/
theorem Written.cons {first rest : List UInt8} {result : Bool × Kernel} (h : Lays k cap start first [] k')
    (aligned : rest = [] ∨ 8 ∣ start + first.length) (h' : Written k' cap (start + first.length) rest result) :
    Written k cap start (first ++ rest) result := by
  cases h' with
  | all lays => exact .all (h.trans lays)
  | @part _ n last short edge stops lays =>
    have some_left : rest ≠ [] := List.ne_nil_of_length_pos (by omega)
    have short' : first.length + n < (first ++ rest).length := by
      rw [List.length_append]
      omega
    have stops' : StopsAt last cap ((start + (first.length + n)) / 8) := by rwa [← Nat.add_assoc]
    have lays' := h.trans lays
    rw [← List.take_length_add_append] at lays'
    refine .part short' (.inr ?_) stops' lays'
    obtain rfl | far := edge
    · exact aligned.resolve_left some_left
    · rwa [← Nat.add_assoc]

/-- Words from number `i` on are written with data that begins at the address or, past its word, at the start of the
first of them. -/
theorem written_writeSpan {count : Nat} (near : addr < 8 * (i + 1))
    (inside : max addr (8 * i) + data.length ≤ 8 * (i + count))
    (filled : count ≠ 0 → 0 < data.length ∧ 8 * (i + count) < max addr (8 * i) + data.length + 8)
    (room : 8 * (i + count) ≤ 2 ^ 64) :
    Written k cap (max addr (8 * i)) data (writeSpan cap addr (List.range' i count) data k) := by
  induction count generalizing i data k with
  | zero =>
    obtain rfl : data = [] := List.eq_nil_of_length_eq_zero (by omega)
    exact .all (.nothing rfl rfl (List.append_nil _).symm)
  | succ count ih =>
    obtain ⟨some_data, tight⟩ := filled (Nat.succ_ne_zero count)
    rw [List.range'_succ]
    unfold writeSpan
    dsimp only
    have number : (UInt64.ofNat (8 * i)).toNat = 8 * i := by rw [UInt64.toNat_ofNat', Nat.mod_eq_of_lt (by omega)]
    have place : 8 * i + (addr - 8 * i) = max addr (8 * i) := by omega
    have length : (data.take (8 - (addr - 8 * i))).length = min (8 - (addr - 8 * i)) data.length := List.length_take
    have none_written {last : List Record} {k' : Kernel} (stops : StopsAt last cap i)
        (lays : Lays k cap (max addr (8 * i)) [] last k') : Written k cap (max addr (8 * i)) data (false, k') := by
      refine .part (n := 0) some_data (.inl rfl) ?_ lays
      rwa [Nat.add_zero, show max addr (8 * i) / 8 = i by omega]
    split
    · rename_i k₁ read
      obtain ⟨last, stops, lays⟩ := stopsAt_of_unread number read (max addr (8 * i))
      exact none_written stops lays
    · rename_i word k₁ read
      split
      · rename_i k₂ wrote
        obtain ⟨last, stops, lays⟩ := stopsAt_of_unwritten number read wrote (max addr (8 * i))
        exact none_written stops lays
      · rename_i k₂ wrote
        have first := lays_of_written number (by omega) (by omega) read wrote
        rw [place] at first
        by_cases short : data.length ≤ 8 - (addr - 8 * i)
        · obtain rfl : count = 0 := by omega
          rw [List.take_of_length_le short] at first
          exact .all first
        · -- the rest of the data begins at the start of the next word
          have whole : (data.take (8 - (addr - 8 * i))).length = 8 - (addr - 8 * i) := by omega
          have next : max addr (8 * (i + 1)) = max addr (8 * i) + (data.take (8 - (addr - 8 * i))).length := by omega
          have rest : (data.drop (8 - (addr - 8 * i))).length = data.length - (8 - (addr - 8 * i)) := List.length_drop
          have others : Written k₂ cap (max addr (8 * (i + 1))) (data.drop (8 - (addr - 8 * i)))
              (writeSpan cap addr (List.range' (i + 1) count) (data.drop (8 - (addr - 8 * i))) k₂) :=
            ih (by omega) (by omega) (fun _ => by omega) (by omega)
          rw [next] at others
          have both := Written.cons first (.inr (by omega)) others
          rw [List.take_append_drop] at both
          rwa [whole]

/-- Writing lays the data over memory, or the first bytes of it, up to the start of the word at which a call fails. -/
theorem written_writeBytes (k : Kernel) (cap : SpaceCap) (room : addr + data.length ≤ 2 ^ 64) :
    Written k cap addr data (k.writeBytes cap addr data) := by
  unfold writeBytes
  split
  · rename_i empty
    obtain rfl := List.isEmpty_iff.1 empty
    exact .all (.nothing rfl rfl (List.append_nil _).symm)
  · rename_i filled
    have some_data : 0 < data.length := by
      rw [List.isEmpty_iff] at filled
      exact List.length_pos_iff.2 filled
    have start : max addr (8 * (addr / 8)) = addr := by omega
    have wrote : Written k cap (max addr (8 * (addr / 8))) data
        (writeSpan cap addr (wordSpan addr data.length) data k) :=
      written_writeSpan (by omega) (by rw [start]; omega) (fun _ => by omega) (by omega)
    rwa [start] at wrote

/-- Bytes are all written if all calls on memory are done, and lie over memory then. -/
theorem memory?_writeBytes (room : addr + data.length ≤ 2 ^ 64) (hm : k.memory? cap = some m)
    (done : MemoryDone k (k.writeBytes cap addr data).2) :
    (k.writeBytes cap addr data).2.memory? cap = some (m.store addr data) := by
  have written := written_writeBytes k cap room
  generalize k.writeBytes cap addr data = result at written done
  cases written with
  | all lays => exact lays.memory m hm
  | @part k' n last _ _ stops lays =>
    obtain ⟨earlier, call, rfl, -, -⟩ := stops
    obtain ⟨before, history, -⟩ := lays.history
    obtain ⟨new, same, ok⟩ := done
    rw [history, List.append_assoc] at same
    have failed : (⟨.space cap call, false⟩ : Record) ∈ new := by
      rw [← List.append_cancel_left same]
      simp
    cases ok _ failed cap call rfl

/-! ## Reading back -/

theorem isSome_readBytes {space : Space} {length : Nat} (known : k.spaces[cap]? = some space)
    (serves : ∀ j i, (wordSpan addr length)[j]? = some i → space.Serves (k.history.size + j) i) :
    (k.readBytes cap addr length).1.isSome = true := by
  obtain ⟨read, unread, split, reads, whole⟩ :=
    readsWords_readSpan addr (addr + length) (wordSpan addr length) known
  refine whole.2 ?_
  cases unread with
  | nil => rfl
  | cons i unread =>
    have here : (wordSpan addr length)[read.length]? = some i := by
      rw [split, List.getElem?_append_right (Nat.le_refl _), Nat.sub_self]
      rfl
    exact absurd (serves _ i here) (reads.stops i rfl)

/-- What was laid over memory is read, if no read of these words is refused. -/
theorem readBytes_of_stored {space : Space} (known : k.spaces[cap]? = some space)
    (stored : space.memory = m.store addr data) (filled : 0 < data.length) (bounded : addr + data.length < 2 ^ 64)
    (mapped : ∀ j, WordHolds addr data.length j → ((m.store addr data).word? (UInt64.ofNat (8 * j))).isSome = true)
    (granted : ∀ j i, (wordSpan addr data.length)[j]? = some i →
      space.refuses (k.history.size + j) (.read (UInt64.ofNat (8 * i))) = false) :
    (k.readBytes cap addr data.length).1 = some data := by
  have given := isSome_readBytes known fun j i there => ⟨granted j i there, by
    rw [stored]
    exact mapped i ((mem_wordSpan filled).1 (List.mem_of_getElem? there))⟩
  obtain ⟨bytes, hbytes⟩ := Option.isSome_iff_exists.1 given
  have hm : k.memory? cap = some (m.store addr data) := by rw [memory?, known, Option.map_some, stored]
  have loaded := load_of_readBytes hm filled bounded hbytes
  rw [Memory.load_store] at loaded
  rw [hbytes, Option.some.inj loaded]

end RemoteDebug.Kernel
