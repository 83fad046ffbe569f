import RemoteDebug.Hex.Buffer
import RemoteDebug.Packet.Receiver

/-!
# Frames are received

A body without marks that fits into the buffer (`Sendable`) comes out of its frame at the other end: a receiver that is
not awaiting a checksum reports it as a packet at the last byte of the frame, and nothing before (`Receiver.run_frame`).
It takes all the bytes of the frame for that, whatever other bytes come (`Receiver.missing_step`).
-/

namespace RemoteDebug.Packet

/-- No mark of a packet stands among the bytes. -/
def Unmarked (bytes : List UInt8) : Prop := ∀ b ∈ bytes, b ≠ opening ∧ b ≠ closing

instance : DecidablePred Unmarked := List.decidableBAll fun b => b ≠ opening ∧ b ≠ closing

theorem unmarked_iff {bytes : List UInt8} : Unmarked bytes ↔ opening ∉ bytes ∧ closing ∉ bytes := by
  constructor
  · intro h
    exact ⟨fun hmem => (h _ hmem).1 rfl, fun hmem => (h _ hmem).2 rfl⟩
  · rintro ⟨ho, hc⟩ b hb
    exact ⟨fun heq => ho (heq ▸ hb), fun heq => hc (heq ▸ hb)⟩

@[simp] theorem unmarked_nil : Unmarked [] := nofun

@[simp] theorem unmarked_append {a b : List UInt8} : Unmarked (a ++ b) ↔ Unmarked a ∧ Unmarked b :=
  List.forall_mem_append

@[simp] theorem unmarked_cons {b : UInt8} {bytes : List UInt8} :
    Unmarked (b :: bytes) ↔ (b ≠ opening ∧ b ≠ closing) ∧ Unmarked bytes := List.forall_mem_cons

/-- A body that can be sent in one frame to a receiver with room for `capacity` bytes. -/
structure Sendable (capacity : Nat) (body : List UInt8) : Prop where
  fits : body.length ≤ capacity
  unmarked : Unmarked body

instance (capacity : Nat) (body : List UInt8) : Decidable (Sendable capacity body) :=
  decidable_of_iff (body.length ≤ capacity ∧ Unmarked body)
    ⟨fun h => ⟨h.1, h.2⟩, fun h => ⟨h.fits, h.unmarked⟩⟩

theorem Sendable.mono {capacity capacity' : Nat} {body : List UInt8} (h : Sendable capacity body)
    (hle : capacity ≤ capacity') : Sendable capacity' body := ⟨Nat.le_trans h.fits hle, h.unmarked⟩

/-- Bytes that are a packet with a body. The checksum may be in digits of either case. -/
def IsFrame (body bytes : List UInt8) : Prop :=
  ∃ high low, bytes = opening :: body ++ [closing, high, low] ∧ Hex.toByte? high low = some (checksum body)

theorem isFrame_frame (body : List UInt8) : IsFrame body (frame body) := by
  refine ⟨Hex.digit ((checksum body).toNat / 16), Hex.digit (checksum body).toNat, ?_, Hex.toByte?_ofByte _⟩
  simp [frame, Hex.ofByte_eq]

namespace Receiver

/-- Where an opening mark opens a packet: everywhere but in a checksum. -/
def Open : Receiver → Prop
  | .outside | .inside _ => True
  | .checksumHigh _ | .checksumLow _ _ => False

instance : DecidablePred Open
  | .outside | .inside _ => isTrue trivial
  | .checksumHigh _ | .checksumLow _ _ => isFalse id

variable {size : Nat} {body : List UInt8}

theorem step_opening {receiver : Receiver} (h : receiver.Open) : receiver.step size opening = (.inside #[], none) := by
  cases receiver with
  | outside | inside => simp [step]
  | checksumHigh | checksumLow => exact h.elim

/-- Whatever a byte completes, the receiver is outside any packet then. -/
theorem step_fst_of_event {receiver : Receiver} {b : UInt8} {event : Event}
    (h : (receiver.step size b).2 = some event) : (receiver.step size b).1 = .outside := by
  cases receiver with
  | outside | inside =>
    simp only [step] at h ⊢
    repeat' split at h
    all_goals simp_all
  | checksumHigh => simp [step] at h
  | checksumLow => rfl

/-- Bytes of a body that fits are kept. -/
theorem run_body (received : Array UInt8) (start : Nat) (unmarked : Unmarked body)
    (fits : received.size + body.length ≤ size) :
    run size (.inside received) start body = (.inside (received ++ body.toArray), []) := by
  induction body generalizing received start with
  | nil => simp [run]
  | cons b body ih =>
    obtain ⟨⟨ho, hc⟩, rest⟩ := unmarked_cons.1 unmarked
    rw [List.length_cons] at fits
    have room : received.size ≠ size := by omega
    have next := ih (received.push b) (start + 1) rest (by rw [Array.size_push]; omega)
    simp [run, step, ho, hc, room, next]

/-- Up to the last digit of its checksum a packet is received in silence. -/
theorem run_front {receiver : Receiver} (h : receiver.Open) (sendable : Sendable size body)
    (high : UInt8) (start : Nat) :
    run size receiver start (opening :: body ++ [closing, high]) = (.checksumLow body high, []) := by
  have kept := run_body #[] (start + 1) sendable.unmarked (by simpa using sendable.fits)
  have ne : closing ≠ opening := by decide
  rw [List.cons_append, run, step_opening h]
  simp [run_append, kept, run, step, ne]

/-- A body that is closed is judged at the second byte behind its closing mark. -/
theorem run_closing {receiver : Receiver} (h : receiver.Open) (sendable : Sendable size body) (high low : UInt8)
    (start : Nat) : run size receiver start (opening :: body ++ [closing, high, low]) =
      (.outside, [(start + body.length + 3, verdict body (Hex.toByte? high low))]) := by
  have front := run_front h sendable high start
  have split : opening :: body ++ [closing, high, low] = (opening :: body ++ [closing, high]) ++ [low] := by simp
  have position : start + (body.length + 1 + 2) = start + body.length + 3 := by omega
  rw [split, run_append, front]
  simp [run, step, position]

/-- A frame comes through to a receiver that is not awaiting a checksum, whatever it has received before. -/
theorem run_frame {receiver : Receiver} {bytes : List UInt8} (h : receiver.Open) (sendable : Sendable size body)
    (framed : IsFrame body bytes) (start : Nat) :
    run size receiver start bytes = (.outside, [(start + body.length + 3, .packet body)]) := by
  obtain ⟨high, low, rfl, sum⟩ := framed
  rw [run_closing h sendable, sum]
  simp [verdict]

/-- No part of a frame but the whole completes anything. -/
theorem run_before {receiver : Receiver} {before after : List UInt8} (h : receiver.Open) (sendable : Sendable size body)
    (framed : IsFrame body (before ++ after)) (rest : after ≠ []) (start : Nat) :
    (run size receiver start before).2 = [] := by
  obtain ⟨high, low, split, -⟩ := framed
  obtain ⟨after, last, rfl⟩ := (List.eq_nil_or_concat after).resolve_left rest
  have front : before ++ after = opening :: body ++ [closing, high] := by
    have ends : (before ++ after) ++ [last] = (opening :: body ++ [closing, high]) ++ [low] := by simpa using split
    exact (List.append_inj' ends rfl).1
  have silent := congrArg Prod.snd (run_front h sendable high start)
  rw [← front, run_append] at silent
  exact (List.append_eq_nil_iff.1 silent).1

/-! ## Bytes that are missing -/

/-- How many more bytes a receiver takes, at least, before it reports a packet with a body. -/
def missing (body : List UInt8) : Receiver → Nat
  | .outside => body.length + 4
  | .inside received => if received.toList <+: body then body.length - received.size + 3 else body.length + 4
  | .checksumHigh body' => if body' = body then 2 else body.length + 4
  | .checksumLow body' high => if body' = body ∧ Hex.isDigit high = true then 1 else body.length + 4

theorem missing_le (body : List UInt8) (receiver : Receiver) : receiver.missing body ≤ body.length + 4 := by
  cases receiver <;> simp only [missing] <;> (try split) <;> omega

theorem missing_opened (body : List UInt8) : (inside #[]).missing body = body.length + 3 := by simp [missing]

/-- A byte makes up for one that is missing at most. -/
theorem missing_step (size : Nat) (body : List UInt8) (receiver : Receiver) (b : UInt8) :
    receiver.missing body ≤ (receiver.step size b).1.missing body + 1 := by
  have all := missing_le body receiver
  cases receiver with
  | outside =>
    simp only [step]
    split
    · rw [missing_opened]
      exact all
    · split <;> exact Nat.le_succ _
  | inside received =>
    simp only [step]
    split
    · rw [missing_opened]
      exact all
    · split
      · by_cases hb : received.toList = body
        · simp [missing, ← hb]
        · simp only [missing, hb, if_false] at all ⊢
          omega
      · split
        · exact Nat.le_succ_of_le all
        · simp only [missing, Array.toList_push, Array.size_push] at all ⊢
          by_cases longer : received.toList ++ [b] <+: body
          · have shorter : received.toList <+: body := (List.prefix_append _ _).trans longer
            have fits := longer.length_le
            rw [List.length_append, Array.length_toList, List.length_singleton] at fits
            rw [if_pos shorter, if_pos longer]
            omega
          · rw [if_neg longer]
            omega
  | checksumHigh body' =>
    simp only [step, missing] at all ⊢
    by_cases hb : body' = body
    · simp only [hb, if_true, true_and]
      split <;> omega
    · simp only [hb, false_and, if_false]
      omega
  | checksumLow => exact Nat.le_succ_of_le all

/-- The byte that completes a packet is the last one missing. -/
theorem missing_of_packet {receiver : Receiver} {b : UInt8} (h : (receiver.step size b).2 = some (.packet body)) :
    receiver.missing body ≤ 1 := by
  cases receiver with
  | outside | inside =>
    simp only [step] at h
    repeat' split at h
    all_goals simp at h
  | checksumHigh => simp [step] at h
  | checksumLow body' high =>
    simp only [step, verdict, Option.some.injEq] at h
    split at h
    · rename_i sum
      obtain rfl := Event.packet.inj h
      have digit : Hex.isDigit high = true := by
        unfold Hex.toByte? at sum
        split at sum
        · rename_i high? _
          simp [Hex.isDigit, high?]
        · cases sum
      simp [missing, digit]
    · cases h

/-- In the middle of another packet's checksum the mark that opens a packet is lost. -/
theorem missing_of_not_open {receiver : Receiver} (h : ¬ receiver.Open) :
    (receiver.step size opening).1.missing body = body.length + 4 := by
  have mark : Hex.isDigit opening = false := by decide
  cases receiver with
  | outside | inside => exact absurd trivial h
  | checksumHigh => simp [step, missing, mark]
  | checksumLow => simp [step, missing]

/-- That mark completes no packet. -/
theorem not_packet_of_opening (receiver : Receiver) : (receiver.step size opening).2 ≠ some (.packet body) := by
  have mark : Hex.digit? opening = none := by decide
  cases receiver with
  | outside | inside => simp [step]
  | checksumHigh => simp [step]
  | checksumLow body' high =>
    have none : Hex.toByte? high opening = none := by simp only [Hex.toByte?, mark]; split <;> simp_all
    simp [step, verdict, none]

end Receiver
end RemoteDebug.Packet
