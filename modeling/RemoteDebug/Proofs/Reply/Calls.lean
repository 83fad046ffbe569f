import RemoteDebug.Proofs.Reply.Encoding

/-!
# Calls on a buffer

A reply is made by calls on its buffer, each of which may come after others that failed. What a call comes to is told
from the bytes so far and the written form of its piece alone (`Reply.Comes`), and this holds of every call on a buffer
within its capacity (`Reply.Buffer.comes`).
-/

namespace RemoteDebug.Reply

/-- A call on a buffer. -/
inductive Call
  | write (p : Piece)
  | truncate (length : Nat)
  | clear
  deriving DecidableEq, Repr

namespace Buffer

/-- Makes a call. -/
def call (buf : Buffer) : Call → Except CapacityError Unit × Buffer
  | .write p => buf.write p
  | .truncate length => (.ok (), buf.truncate length)
  | .clear => (.ok (), buf.clear)

/-- Makes calls one after the other, whether they fail or not. -/
def run (buf : Buffer) : List Call → List (Except CapacityError Unit) × Buffer
  | [] => ([], buf)
  | c :: rest =>
    let (result, next) := buf.call c
    let (results, last) := next.run rest
    (result :: results, last)

end Buffer

/-! ## What a call comes to -/

/-- What writing a piece behind `before` comes to, where there may be `capacity` bytes in all: all of its written form,
if this fits; nothing, if it has none or goes in whole only; and otherwise as much of it from its beginning as fits. -/
structure WriteComes (capacity : Nat) (before : List UInt8) (p : Piece) (result : Except CapacityError Unit)
    (after : List UInt8) : Prop where
  ok_iff : result = .ok () ↔ ∃ form, p.bytes? = some form ∧ form.length ≤ capacity - before.length
  added : result = .ok () → ∀ form, p.bytes? = some form → after = before ++ form
  unchanged : result ≠ .ok () → p.isWhole = true ∨ p.bytes? = none → after = before
  filled : result ≠ .ok () → p.isWhole = false → ∀ form, p.bytes? = some form →
    after = before ++ form.take (capacity - before.length) ∧ after.length = capacity

/-- What a call comes to. -/
def Comes (capacity : Nat) (before : List UInt8) : Call → Except CapacityError Unit → List UInt8 → Prop
  | .write p, result, after => WriteComes capacity before p result after
  | .truncate length, result, after => result = .ok () ∧ after = before.take length
  | .clear, result, after => result = .ok () ∧ after = []

namespace Buffer

variable {buf : Buffer}

theorem writeComes (hf : buf.bytes.length ≤ buf.capacity) (p : Piece) :
    WriteComes buf.capacity buf.bytes p (buf.write p).1 (buf.write p).2.bytes := by
  cases hp : p.bytes? with
  | none =>
    rw [write_of_none hp]
    exact ⟨by simp [hp], by simp, fun _ _ => rfl, by simp [hp]⟩
  | some form =>
    by_cases room : buf.bytes.length + form.length ≤ buf.capacity
    · have fits : form.length ≤ buf.capacity - buf.bytes.length := by omega
      rw [write_of_le hp room]
      exact ⟨by simp [hp, fits], by simp [hp, append], by simp, by simp⟩
    · have excess : buf.capacity < buf.bytes.length + form.length := Nat.lt_of_not_le room
      have tooLong : ¬ form.length ≤ buf.capacity - buf.bytes.length := by omega
      cases hw : p.isWhole with
      | true =>
        rw [write_of_lt_of_isWhole hw hp hf excess]
        exact ⟨by simp [hp, tooLong], by simp, fun _ _ => rfl, by simp [hw]⟩
      | false =>
        rw [write_of_lt hw hp hf excess]
        refine ⟨by simp [hp, tooLong], by simp, by simp [hp, hw], fun _ _ same hsame => ?_⟩
        obtain rfl := Option.some.inj (hp.symm.trans hsame)
        refine ⟨rfl, ?_⟩
        simp only [length_append, List.length_take, Buffer.room]
        omega

theorem comes (hf : buf.bytes.length ≤ buf.capacity) (c : Call) :
    Comes buf.capacity buf.bytes c (buf.call c).1 (buf.call c).2.bytes := by
  cases c with
  | write p => exact writeComes hf p
  | truncate length => exact ⟨rfl, rfl⟩
  | clear => exact ⟨rfl, rfl⟩

theorem capacity_pushEach (buf : Buffer) (bytes : List UInt8) : (buf.pushEach bytes).2.capacity = buf.capacity := by
  induction bytes generalizing buf with
  | nil => rfl
  | cons b bytes ih =>
    unfold pushEach
    split
    · rfl
    · exact ih _

theorem capacity_pushWhole (buf : Buffer) (bytes : List UInt8) : (buf.pushWhole bytes).2.capacity = buf.capacity := by
  unfold pushWhole
  split <;> rfl

theorem capacity_write (buf : Buffer) (p : Piece) : (buf.write p).2.capacity = buf.capacity := by
  rw [write_eq]
  split
  · rfl
  · split
    · exact capacity_pushWhole buf _
    · exact capacity_pushEach buf _

theorem capacity_call (buf : Buffer) (c : Call) : (buf.call c).2.capacity = buf.capacity := by
  cases c with
  | write p => exact capacity_write buf p
  | truncate length => rfl
  | clear => rfl

theorem capacity_run (buf : Buffer) (calls : List Call) : (buf.run calls).2.capacity = buf.capacity := by
  induction calls generalizing buf with
  | nil => rfl
  | cons c rest ih => exact (ih _).trans (buf.capacity_call c)

end Buffer
end RemoteDebug.Reply
