/-!
# The wire to the client

A wire takes bytes one at a time and is flushed after each message. It may be out of order: it may take only so many
more bytes, fail to be flushed, or fail when a session starts. Bytes taken before a failure have been sent.
-/

namespace RemoteDebug

/-- What can go wrong with a wire. -/
inductive WireError
  | writeFailed
  | flushFailed
  | startFailed
  | closed
  deriving DecidableEq, Repr

/-- The wording of the failure. -/
def WireError.message : WireError → String
  | .writeFailed => "write failed"
  | .flushFailed => "flush failed"
  | .startFailed => "start failed"
  | .closed => "connection closed"

/-- A wire: what was sent on it, how many more bytes it takes if not all, and what fails. -/
structure Wire where
  sent : Array UInt8
  budget : Option Nat
  flushFails : Bool
  startFails : Bool
  starts : Nat
  deriving DecidableEq, Repr

namespace Wire

/-- A wire in order on which nothing was sent. -/
def fresh : Wire := ⟨#[], none, false, false, 0⟩

/-- Sends bytes, up to the first that the wire does not take. -/
def put (w : Wire) : List UInt8 → Except WireError Unit × Wire
  | [] => (.ok (), w)
  | b :: rest =>
    match w.budget with
    | none => { w with sent := w.sent.push b }.put rest
    | some 0 => (.error .writeFailed, w)
    | some (n + 1) => { w with sent := w.sent.push b, budget := some n }.put rest

/-- Sends bytes and flushes. -/
def transmit (w : Wire) (bytes : List UInt8) : Except WireError Unit × Wire :=
  match w.put bytes with
  | (.error e, w) => (.error e, w)
  | (.ok (), w) => if w.flushFails then (.error .flushFailed, w) else (.ok (), w)

/-- Begins a session. -/
def start (w : Wire) : Except WireError Unit × Wire :=
  (if w.startFails then .error .startFailed else .ok (), { w with starts := w.starts + 1 })

/-! ## Small facts -/

theorem put_of_unlimited {w : Wire} (h : w.budget = none) (bytes : List UInt8) :
    w.put bytes = (.ok (), { w with sent := w.sent ++ bytes.toArray }) := by
  induction bytes generalizing w with
  | nil => simp [put]
  | cons b rest ih =>
    have next := @ih { w with sent := w.sent.push b } h
    simp only [h] at next
    simp [put, h, next]

end Wire
end RemoteDebug
