import RemoteDebug.Proofs.Reply.Calls
import RemoteDebug.Proofs.Thread.Name

/-!
# Replies in used storage

A reply may be built in cells that held other replies before, with the number of those in use. The others keep what they
held until they are written again. Here the room left is a checked difference, digits are written over zeros in the
cells that they are to fill, and a name is put together from its parts. Even so, every call has a result, and it is that
of a buffer that holds its bytes, whatever the cells held at first (`Reply.Storage.exists_run?`). The main statement
says what each of any calls comes to (`Reply.Storage.calls_within_capacity`).
-/

namespace RemoteDebug.Reply

/-- Where a reply is built: cells, of which the first `used` are in use. -/
structure Storage where
  capacity : Nat
  cells : List UInt8
  used : Nat
  deriving DecidableEq, Repr

/-- How a call on storage ends, and the storage afterwards. -/
abbrev Storage.Outcome := Except CapacityError Unit × Storage

namespace Storage

/-- Storage for a new reply, in cells of any contents. -/
def new (capacity : Nat) (old : List UInt8) : Storage := ⟨capacity, old, 0⟩

/-- The bytes in use. -/
def contents (s : Storage) : List UInt8 := s.cells.take s.used

/-- The number of bytes that still fit; nothing if more are in use than fit. -/
def room? (s : Storage) : Option Nat := if s.used ≤ s.capacity then some (s.capacity - s.used) else none

/-- Puts bytes into the cells behind those in use. -/
def extend (s : Storage) (bytes : List UInt8) : Storage :=
  { s with
    cells := s.cells.take s.used ++ bytes ++ s.cells.drop (s.used + bytes.length)
    used := s.used + bytes.length }

/-- Adds a byte. -/
def push (s : Storage) (b : UInt8) : Outcome :=
  if s.used = s.capacity then (.error .full, s) else (.ok (), s.extend [b])

/-- Goes on where there was no failure. -/
def Outcome.andThen (first : Outcome) (second : Storage → Outcome) : Outcome :=
  match first with
  | (.ok (), s) => second s
  | (.error e, s) => (.error e, s)

/-- Adds bytes one after the other. -/
def pushEach (s : Storage) : List UInt8 → Outcome
  | [] => (.ok (), s)
  | b :: rest => (s.push b).andThen (·.pushEach rest)

/-- Adds all of the bytes or none. -/
def pushWhole? (s : Storage) (bytes : List UInt8) : Option Outcome :=
  s.room?.map fun room => if room < bytes.length then (.error .full, s) else (.ok (), s.extend bytes)

/-- Adds the digits of all of the bytes or none: zeros first, and the digits over them. -/
def pushDigits? (s : Storage) (bytes : List UInt8) : Option Outcome :=
  s.room?.map fun room =>
    if room < 2 * bytes.length then (.error .full, s)
    else
      let grown := s.extend (List.replicate (2 * bytes.length) 0)
      let (result, digits) := Hex.encodeInto (grown.contents.drop s.used) bytes
      (result.map (fun _ => ()) |>.mapError fun _ => .full,
        { grown with cells := grown.cells.take s.used ++ digits ++ grown.cells.drop grown.used })

/-- Adds the name of a thread, part by part. -/
def pushName (s : Storage) (t : Ptid) : Outcome :=
  (((s.push 'p'.toUInt8).andThen (·.pushEach (Hex.compact t.pid))).andThen (·.push '.'.toUInt8)).andThen
    (·.pushEach (Hex.compact t.tid))

/-- Adds one piece; nothing if the room left cannot be told. -/
def write? (s : Storage) : Piece → Option Outcome
  | .byte b => some (s.push b)
  | .text bytes => s.pushWhole? bytes
  | .hexByte b => some (s.pushEach (Hex.ofByte b))
  | .hexBytes bytes => s.pushDigits? bytes
  | .number n =>
    match wordOf? n with
    | some word => some (s.pushEach (Hex.compact word.toNat))
    | none => some (.error .full, s)
  | .ptid t => some (s.pushName t)

/-- Makes a call. Cells that are no longer in use keep what they hold. -/
def call? (s : Storage) : Call → Option Outcome
  | .write p => s.write? p
  | .truncate length => some (.ok (), { s with used := min length s.used })
  | .clear => some (.ok (), { s with used := 0 })

/-- Makes calls one after the other, whether they fail or not. -/
def run? (s : Storage) : List Call → Option (List (Except CapacityError Unit) × Storage)
  | [] => some ([], s)
  | c :: rest =>
    match s.call? c with
    | none => none
    | some (result, next) => (next.run? rest).map fun (results, last) => (result :: results, last)

/-! ## Storage and buffers -/

variable {s : Storage}

/-- The buffer that holds the bytes in use. -/
def buffer (s : Storage) : Buffer := ⟨s.capacity, s.contents⟩

/-- No more cells are in use than there are, nor than there may be. -/
structure InRange (s : Storage) : Prop where
  cells : s.used ≤ s.cells.length
  capacity : s.used ≤ s.capacity

theorem InRange.length_contents (h : s.InRange) : s.contents.length = s.used := List.length_take_of_le h.cells

theorem InRange.fits (h : s.InRange) : s.buffer.bytes.length ≤ s.buffer.capacity :=
  Nat.le_trans (Nat.le_of_eq h.length_contents) h.capacity

theorem InRange.room?_eq (h : s.InRange) : s.room? = some s.buffer.room := by
  rw [room?, if_pos h.capacity, Buffer.room, buffer, h.length_contents]

/-- What a call on storage comes to is what it comes to on a buffer. -/
structure Matches (outcome : Outcome) (expected : Except CapacityError Unit × Buffer) : Prop where
  result : outcome.1 = expected.1
  buffer : outcome.2.buffer = expected.2
  inRange : outcome.2.InRange

theorem contents_extend (h : s.InRange) (bytes : List UInt8) : (s.extend bytes).contents = s.contents ++ bytes := by
  refine List.take_left' ?_
  simp [List.length_take_of_le h.cells, extend]

theorem matches_extend (h : s.InRange) {bytes : List UInt8} (room : s.used + bytes.length ≤ s.capacity) :
    Matches (.ok (), s.extend bytes) (.ok (), s.buffer.append bytes) := by
  refine ⟨rfl, ?_, ?_, room⟩
  · rw [buffer, contents_extend h]
    rfl
  · have inside := h.cells
    simp only [extend, List.length_append, List.length_take, List.length_drop]
    omega

theorem matches_refused (h : s.InRange) : Matches (.error .full, s) (.error .full, s.buffer) := ⟨rfl, rfl, h⟩

theorem matches_push (h : s.InRange) (b : UInt8) : Matches (s.push b) (s.buffer.pushEach [b]) := by
  have length := h.length_contents
  by_cases full : s.used = s.capacity
  · have refused : s.buffer.pushEach [b] = (.error .full, s.buffer) := by
      simp [Buffer.pushEach, buffer, length, full]
    rw [push, if_pos full, refused]
    exact matches_refused h
  · have room : s.used + 1 ≤ s.capacity := Nat.lt_of_le_of_ne h.capacity full
    rw [push, if_neg full, Buffer.pushEach_of_le (by simpa [buffer, length] using room)]
    exact matches_extend h room

theorem Matches.andThen {first : Outcome} {second : Storage → Outcome} {buf : Buffer} {front back : List UInt8}
    (h : Matches first (buf.pushEach front))
    (next : ∀ s : Storage, s.InRange → Matches (second s) (s.buffer.pushEach back)) :
    Matches (first.andThen second) (buf.pushEach (front ++ back)) := by
  obtain ⟨result, s⟩ := first
  obtain ⟨hresult, hbuffer, hrange⟩ := h
  rw [Buffer.pushEach_append]
  rcases hfront : buf.pushEach front with ⟨expected, after⟩
  rw [hfront] at hresult hbuffer
  obtain rfl : result = expected := hresult
  obtain rfl : s.buffer = after := hbuffer
  cases result with
  | ok => exact next s hrange
  | error e => exact ⟨rfl, rfl, hrange⟩

theorem matches_pushEach (h : s.InRange) (bytes : List UInt8) :
    Matches (s.pushEach bytes) (s.buffer.pushEach bytes) := by
  induction bytes generalizing s with
  | nil => exact ⟨rfl, rfl, h⟩
  | cons b rest ih => exact (matches_push h b).andThen fun _ hs => ih hs

theorem matches_pushName (h : s.InRange) (t : Ptid) : Matches (s.pushName t) (s.buffer.pushEach t.render) := by
  have parts : t.render = [('p'.toUInt8)] ++ Hex.compact t.pid ++ ['.'.toUInt8] ++ Hex.compact t.tid := by
    rw [Ptid.render_eq]
    simp
  rw [parts]
  refine (((matches_push h _).andThen fun _ hs => ?_).andThen fun _ hs => ?_).andThen fun _ hs => ?_
  · exact matches_pushEach hs _
  · exact matches_push hs _
  · exact matches_pushEach hs _

theorem exists_pushWhole? (h : s.InRange) (bytes : List UInt8) :
    ∃ outcome, s.pushWhole? bytes = some outcome ∧ Matches outcome (s.buffer.pushWhole bytes) := by
  refine ⟨_, by rw [pushWhole?, h.room?_eq, Option.map_some], ?_⟩
  have length : s.buffer.bytes.length = s.used := h.length_contents
  have inside := h.capacity
  by_cases room : s.used + bytes.length ≤ s.capacity
  · have fits : ¬ s.buffer.room < bytes.length := by
      rw [Buffer.room, length, show s.buffer.capacity = s.capacity from rfl]
      omega
    rw [if_neg fits, Buffer.pushWhole_of_le (by rw [length]; exact room)]
    exact matches_extend h room
  · have excess : s.buffer.room < bytes.length := by
      rw [Buffer.room, length, show s.buffer.capacity = s.capacity from rfl]
      omega
    rw [if_pos excess, Buffer.pushWhole, if_pos excess]
    exact matches_refused h

/-- What is written over bytes that have just been put in stands there as if it had been put in itself. -/
theorem overwrite_extend (h : s.InRange) {zeros digits : List UInt8} (same : zeros.length = digits.length) :
    { s.extend zeros with
      cells := (s.extend zeros).cells.take s.used ++ digits ++ (s.extend zeros).cells.drop (s.extend zeros).used } =
      s.extend digits := by
  have used : (s.cells.take s.used).length = s.used := h.length_contents
  have before : (s.extend zeros).cells.take s.used = s.cells.take s.used := by
    rw [extend, List.append_assoc, List.take_left' used]
  have behind : (s.extend zeros).cells.drop (s.extend zeros).used = s.cells.drop (s.used + zeros.length) :=
    List.drop_left' (by rw [List.length_append, used]; rfl)
  rw [before, behind]
  simp only [extend, same]

/-- Digits over zeros are as good as digits. -/
theorem pushDigits?_eq (h : s.InRange) (bytes : List UInt8) :
    s.pushDigits? bytes = s.pushWhole? (Hex.encode bytes) := by
  have length : (List.replicate (2 * bytes.length) (0 : UInt8)).length = (Hex.encode bytes).length := by simp
  have zeros (bytes : List UInt8) : (s.extend bytes).contents.drop s.used = bytes := by
    rw [contents_extend h, List.drop_left' h.length_contents]
  have encoded : Hex.encodeInto (List.replicate (2 * bytes.length) 0) bytes =
      (.ok (2 * bytes.length), Hex.encode bytes) := by
    simp [Hex.encodeInto]
  simp only [pushDigits?, pushWhole?, zeros, encoded, overwrite_extend h length, Hex.length_encode]
  rfl

theorem exists_write? (h : s.InRange) (p : Piece) :
    ∃ outcome, s.write? p = some outcome ∧ Matches outcome (s.buffer.write p) := by
  cases p with
  | byte b => exact ⟨_, rfl, matches_push h b⟩
  | text bytes => exact exists_pushWhole? h bytes
  | hexByte b => exact ⟨_, rfl, matches_pushEach h _⟩
  | hexBytes bytes =>
    rw [write?, pushDigits?_eq h]
    exact exists_pushWhole? h _
  | number n =>
    rw [write?, Buffer.write]
    cases wordOf? n with
    | some word => exact ⟨_, rfl, matches_pushEach h _⟩
    | none => exact ⟨_, rfl, matches_refused h⟩
  | ptid t => exact ⟨_, rfl, matches_pushName h t⟩

theorem exists_call? (h : s.InRange) (c : Call) :
    ∃ outcome, s.call? c = some outcome ∧ Matches outcome (s.buffer.call c) := by
  cases c with
  | write p => exact exists_write? h p
  | truncate length =>
    have fewer : min length s.used ≤ s.used := Nat.min_le_right _ _
    refine ⟨_, rfl, rfl, ?_, Nat.le_trans fewer h.cells, Nat.le_trans fewer h.capacity⟩
    simp only [buffer, contents, Buffer.call, Buffer.truncate, List.take_take]
  | clear => exact ⟨_, rfl, rfl, rfl, Nat.zero_le _, Nat.zero_le _⟩

/-- Calls on storage come to what they come to on a buffer. -/
theorem exists_run? (h : s.InRange) (calls : List Call) :
    ∃ last, s.run? calls = some ((s.buffer.run calls).1, last) ∧ last.buffer = (s.buffer.run calls).2 ∧
      last.InRange := by
  induction calls generalizing s with
  | nil => exact ⟨s, rfl, rfl, h⟩
  | cons c rest ih =>
    obtain ⟨⟨result, next⟩, called, same, after, inRange⟩ := exists_call? h c
    obtain ⟨last, ran, final, stays⟩ := ih inRange
    dsimp only at same after
    refine ⟨last, ?_, ?_, stays⟩
    · simp only [run?, called, ran, Option.map_some, Buffer.run, same, after]
    · rw [final, after]
      rfl

/-- Whatever calls have been made on a reply, and whatever its cells held at first, the reply is within its capacity, so
that the room left can be told, and the next call has a result. This result and the bytes afterwards are what the bytes
so far and the call alone decide: a piece goes in if its written form fits, and otherwise leaves the bytes as they are
or fills the reply, by its kind. A number that is negative or of more than 64 bits has no written form, and leaves the
bytes as they are. Nothing of what the cells held at first is seen. -/
theorem calls_within_capacity (capacity : Nat) (old : List UInt8) (earlier : List Call) (c : Call) :
    ∃ results before result after,
      (new capacity old).run? earlier = some (results, before) ∧ before.call? c = some (result, after) ∧
      before.contents.length ≤ capacity ∧ before.room? = some (capacity - before.contents.length) ∧
      after.contents.length ≤ capacity ∧ after.room? = some (capacity - after.contents.length) ∧
      Comes capacity before.contents c result after.contents ∧
      (Buffer.empty capacity).run earlier = (results, ⟨capacity, before.contents⟩) ∧
      (Buffer.mk capacity before.contents).call c = (result, ⟨capacity, after.contents⟩) := by
  have start : (new capacity old).InRange := ⟨Nat.zero_le _, Nat.zero_le _⟩
  obtain ⟨before, ran, same, inRange⟩ := exists_run? start earlier
  obtain ⟨⟨result, after⟩, called, rfl, next, stays⟩ := exists_call? inRange c
  have kept : before.capacity = capacity :=
    (congrArg Buffer.capacity same).trans (Buffer.capacity_run (Buffer.empty capacity) earlier)
  have keeps : after.capacity = capacity :=
    (congrArg Buffer.capacity next).trans ((before.buffer.capacity_call c).trans kept)
  have comes := Buffer.comes inRange.fits c
  rw [← next] at comes
  have here : before.buffer = ⟨capacity, before.contents⟩ := by rw [buffer, kept]
  have there : after.buffer = ⟨capacity, after.contents⟩ := by rw [buffer, keeps]
  have room := inRange.room?_eq
  have left := stays.room?_eq
  have fits := inRange.fits
  have stillFits := stays.fits
  rw [here] at same fits room comes next
  rw [there] at stillFits left comes next
  refine ⟨_, before, _, after, ran, called, fits, room, stillFits, left, ?_, Prod.ext rfl same.symm, ?_⟩
  · rw [here]
    exact comes
  · rw [here]
    exact Prod.ext rfl next.symm

/-- Of six pieces for four places, two fit. One of the others is a number of 65 bits. -/
example : ((new 4 (ascii "stale")).run? [.write (.hexBytes [1, 2, 3]), .write (.text (ascii "OK")),
    .write (.text (ascii "abc")), .write (.number 0x10000000000000000), .write (.hexByte 0xab),
    .write (.byte 'x'.toUInt8)]).map (·.2.contents) = some (ascii "OKab") := by
  decide

end Storage
end RemoteDebug.Reply
