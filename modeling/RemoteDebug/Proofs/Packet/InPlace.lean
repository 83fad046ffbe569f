import RemoteDebug.Packet.Receiver

/-!
# Receiving into a buffer

A receiver need not hold the bytes of a body itself: a buffer that outlives the packets will do, with the number of the
places in use. Places keep what earlier packets left there until they are written again. Here every access to a place
is checked (`InPlace.step?`), and none is ever out of range: such a receiver does what a receiver does that holds its
bytes, whatever the buffer held at first (`InPlace.exists_run?`).
-/

namespace RemoteDebug.Packet

open Receiver

/-- Where in a packet a receiver is, the bytes of the body left aside. -/
inductive Phase
  | outside
  | inside
  | checksumHigh
  | checksumLow (high : UInt8)
  deriving DecidableEq, Repr

/-- A receiver with its buffer, of which the first `length` places are in use. -/
structure InPlace where
  buffer : List UInt8
  length : Nat
  phase : Phase
  deriving DecidableEq, Repr

namespace InPlace

/-- A receiver that has taken nothing yet, with a buffer of any contents. -/
def new (buffer : List UInt8) : InPlace := ⟨buffer, 0, .outside⟩

/-- Writes a byte into the next place; nothing if there is no such place. -/
def put? (r : InPlace) (b : UInt8) : Option InPlace :=
  if r.length < r.buffer.length then some { r with buffer := r.buffer.set r.length b, length := r.length + 1 } else none

/-- The bytes in the places in use; nothing if there are not so many places. -/
def body? (r : InPlace) : Option (List UInt8) :=
  if r.length ≤ r.buffer.length then some (r.buffer.take r.length) else none

/-- Takes one byte; nothing if that would reach outside the buffer. -/
def step? (r : InPlace) (b : UInt8) : Option (InPlace × Option Event) :=
  match r.phase with
  | .outside =>
    if b = opening then some ({ r with length := 0, phase := .inside }, none)
    else if b = interruption then some (r, some .interrupt)
    else some (r, none)
  | .inside =>
    if b = opening then some ({ r with length := 0, phase := .inside }, none)
    else if b = closing then some ({ r with phase := .checksumHigh }, none)
    else if r.length = r.buffer.length then some ({ r with length := 0, phase := .outside }, none)
    else (r.put? b).map fun r => (r, none)
  | .checksumHigh => some ({ r with phase := .checksumLow b }, none)
  | .checksumLow high =>
    r.body?.map fun body => ({ r with phase := .outside }, some (verdict body (Hex.toByte? high b)))

/-- Takes a stream of bytes, the first of which has position `start`. -/
def run? : (r : InPlace) → (start : Nat) → List UInt8 → Option (InPlace × List (Nat × Event))
  | r, _, [] => some (r, [])
  | r, start, b :: rest =>
    match r.step? b with
    | none => none
    | some (next, event) => (next.run? (start + 1) rest).map fun (last, events) =>
        (last, (event.map (start, ·)).toList ++ events)

/-- The receiver that holds the bytes in the places in use. -/
def receiver (r : InPlace) : Receiver :=
  match r.phase with
  | .outside => .outside
  | .inside => .inside (r.buffer.take r.length).toArray
  | .checksumHigh => .checksumHigh (r.buffer.take r.length)
  | .checksumLow high => .checksumLow (r.buffer.take r.length) high

/-- No more places are in use than there are. -/
def InRange (r : InPlace) : Prop := r.length ≤ r.buffer.length

/-- What one byte comes to: no place outside the buffer is reached, and a receiver that holds its bytes does the same.
-/
structure Takes (r : InPlace) (b : UInt8) (next : InPlace) (event : Option Event) : Prop where
  taken : r.step? b = some (next, event)
  same : r.receiver.step r.buffer.length b = (next.receiver, event)
  size : next.buffer.length = r.buffer.length
  inRange : next.InRange

/-- A byte of a body goes into the next place, behind those in use. -/
theorem takes_put {buffer : List UInt8} {n : Nat} {b : UInt8} (h : n < buffer.length) (hopen : b ≠ opening)
    (hclose : b ≠ closing) : Takes ⟨buffer, n, .inside⟩ b ⟨buffer.set n b, n + 1, .inside⟩ none := by
  have notFull : n ≠ buffer.length := Nat.ne_of_lt h
  have used : (buffer.take n).length = n := by simp [Nat.le_of_lt h]
  have room : InRange ⟨buffer.set n b, n + 1, .inside⟩ := by
    simp only [InRange, List.length_set]
    omega
  refine ⟨by simp [step?, put?, hopen, hclose, notFull, h], ?_, by simp, room⟩
  have next : (buffer.set n b).take (n + 1) = buffer.take n ++ [b] := by
    rw [List.take_set, List.take_succ_eq_append_getElem h, List.set_append_right _ _ (by omega), used]
    simp
  simp [receiver, step, hopen, hclose, used, notFull, next]

theorem exists_takes {r : InPlace} (h : r.InRange) (b : UInt8) : ∃ next event, Takes r b next event := by
  obtain ⟨buffer, n, phase⟩ := r
  have hn : n ≤ buffer.length := h
  cases phase with
  | outside =>
    by_cases hopen : b = opening
    · subst hopen
      exact ⟨⟨buffer, 0, .inside⟩, none, rfl, rfl, rfl, Nat.zero_le _⟩
    · by_cases hint : b = interruption
      · subst hint
        exact ⟨⟨buffer, n, .outside⟩, some .interrupt, rfl, rfl, rfl, hn⟩
      · exact ⟨⟨buffer, n, .outside⟩, none, by simp [step?, hopen, hint],
          by simp [receiver, step, hopen, hint], rfl, hn⟩
  | inside =>
    by_cases hopen : b = opening
    · subst hopen
      exact ⟨⟨buffer, 0, .inside⟩, none, rfl, rfl, rfl, Nat.zero_le _⟩
    · by_cases hclose : b = closing
      · subst hclose
        exact ⟨⟨buffer, n, .checksumHigh⟩, none, rfl, rfl, rfl, hn⟩
      · by_cases full : n = buffer.length
        · exact ⟨⟨buffer, 0, .outside⟩, none, by simp [step?, hopen, hclose, full],
            by simp [receiver, step, hopen, hclose, full], rfl, Nat.zero_le _⟩
        · exact ⟨_, none, takes_put (Nat.lt_of_le_of_ne hn full) hopen hclose⟩
  | checksumHigh => exact ⟨⟨buffer, n, .checksumLow b⟩, none, rfl, rfl, rfl, hn⟩
  | checksumLow high =>
    exact ⟨⟨buffer, n, .outside⟩, some (verdict (buffer.take n) (Hex.toByte? high b)),
      by simp [step?, body?, hn], rfl, rfl, hn⟩

/-- A stream is taken without reaching outside the buffer, and with the same events. -/
theorem exists_run? {r : InPlace} (h : r.InRange) (start : Nat) (stream : List UInt8) :
    ∃ last, r.run? start stream = some (last, (Receiver.run r.buffer.length r.receiver start stream).2) := by
  induction stream generalizing r start with
  | nil => exact ⟨r, rfl⟩
  | cons b rest ih =>
    obtain ⟨next, event, takes⟩ := exists_takes h b
    obtain ⟨last, hlast⟩ := ih takes.inRange (start + 1)
    rw [takes.size] at hlast
    exact ⟨last, by simp [run?, Receiver.run, takes.taken, takes.same, hlast]⟩

/-- So is a stream that a new receiver takes, whatever its buffer held. -/
theorem run?_new (buffer : List UInt8) (stream : List UInt8) :
    ((new buffer).run? 0 stream).map Prod.snd = some (Receiver.run buffer.length .outside 0 stream).2 := by
  obtain ⟨last, hlast⟩ := exists_run? (r := new buffer) (Nat.zero_le _) 0 stream
  rw [hlast]
  rfl

end InPlace

end RemoteDebug.Packet
