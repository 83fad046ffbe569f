import Mathlib.Data.List.DropRight
import Mathlib.Data.List.TakeWhile
import RemoteDebug.Proofs.Packet.InPlace

/-!
# A stream read as a whole

What a stream of bytes says when all of it lies before the reader (`reading`): behind an opening mark the reader looks
ahead to the closing mark, takes what stands since the last opening mark in between for the body (`sinceOpening`), and
takes the two bytes behind the closing mark for the checksum. The receiver, which has one byte at a time and keeps only
the body it is in, comes to the same events at the same positions, and so does one that keeps the body in a buffer of
fixed length (`received_eq_reading`).
-/

namespace RemoteDebug.Packet

open Receiver

/-! ## The reading -/

/-- The sum of the bytes of a body, as it is sent along. -/
def byteSum (body : List UInt8) : Nat := (body.map UInt8.toNat).foldr (· + ·) 0 % 256

/-- The number that two bytes denote as hexadecimal digits. -/
def pairValue? (high low : UInt8) : Option Nat :=
  match Hex.digit? high, Hex.digit? low with
  | some h, some l => some (16 * h + l)
  | _, _ => none

/-- What a body and the two bytes behind its closing mark come to. -/
def judgement (body : List UInt8) (high low : UInt8) : Event :=
  if pairValue? high low = some (byteSum body) then .packet body
  else .mismatch ((pairValue? high low).map UInt8.ofNat) (UInt8.ofNat (byteSum body))

/-- The bytes since the last opening mark, or all of them if there is none. -/
def sinceOpening (text : List UInt8) : List UInt8 := text.rtakeWhile (· ≠ opening)

/-- The number of bytes up to the first that makes the body longer than `size`. -/
def overrun? (size : Nat) (text : List UInt8) : Option Nat :=
  (List.range (text.length + 1)).find? fun n => size < (sinceOpening (text.take n)).length

/-- The events of a stream with the positions of the bytes that complete them; the first byte has position `start` and
stands outside any packet. -/
def reading (size : Nat) (start : Nat) (stream : List UInt8) : List (Nat × Event) :=
  match stream with
  | [] => []
  | b :: rest =>
    if b = interruption then (start, .interrupt) :: reading size (start + 1) rest
    else if b ≠ opening then reading size (start + 1) rest
    else
      let text := rest.takeWhile (· ≠ closing)
      match overrun? size text with
      | some n => reading size (start + 1 + n) (rest.drop n)
      | none =>
        -- the closing mark comes first
        match h : rest.dropWhile (· ≠ closing) with
        | _ :: high :: low :: after =>
          (start + text.length + 3, judgement (sinceOpening text) high low) ::
            reading size (start + text.length + 4) after
        | _ => []
termination_by stream.length
decreasing_by
  · simp
  · simp
  · rw [List.length_drop, List.length_cons]
    omega
  · have left := (List.dropWhile_suffix (l := rest) (· ≠ closing)).length_le
    rw [h] at left
    simp only [List.length_cons] at left ⊢
    omega

/-! ## Checksums -/

theorem toNat_foldl_add (body : List UInt8) (b : UInt8) :
    (body.foldl (· + ·) b).toNat = (b.toNat + (body.map UInt8.toNat).foldr (· + ·) 0) % 256 := by
  induction body generalizing b with
  | nil => simp [Nat.mod_eq_of_lt b.toNat_lt]
  | cons c body ih =>
    rw [List.foldl_cons, ih, UInt8.toNat_add, List.map_cons, List.foldr_cons]
    omega

theorem toNat_checksum (body : List UInt8) : (checksum body).toNat = byteSum body := by
  rw [checksum, toNat_foldl_add, byteSum]
  simp

theorem toByte?_eq (high low : UInt8) : Hex.toByte? high low = (pairValue? high low).map UInt8.ofNat := by
  unfold Hex.toByte? pairValue?
  cases Hex.digit? high <;> cases Hex.digit? low <;> rfl

theorem pairValue?_lt {high low : UInt8} {n : Nat} (h : pairValue? high low = some n) : n < 256 := by
  unfold pairValue? at h
  split at h
  · rename_i a b ha hb
    have := Hex.digit?_lt ha
    have := Hex.digit?_lt hb
    simp only [Option.some.injEq] at h
    omega
  · cases h

/-- The receiver judges a packet by the sum of its bytes. -/
theorem verdict_eq_judgement (body : List UInt8) (high low : UInt8) :
    verdict body (Hex.toByte? high low) = judgement body high low := by
  have sum : checksum body = UInt8.ofNat (byteSum body) := by rw [← toNat_checksum, UInt8.ofNat_toNat]
  have agree : Hex.toByte? high low = some (checksum body) ↔ pairValue? high low = some (byteSum body) := by
    rw [toByte?_eq, Option.map_eq_some_iff, ← toNat_checksum]
    constructor
    · rintro ⟨n, hn, heq⟩
      rw [hn, ← heq, UInt8.toNat_ofNat_of_lt' (pairValue?_lt hn)]
    · exact fun h => ⟨_, h, UInt8.ofNat_toNat⟩
  rw [verdict, judgement, ← toByte?_eq, ← sum]
  exact if_congr agree rfl rfl

/-! ## Inside a packet -/

theorem sinceOpening_concat (text : List UInt8) (b : UInt8) :
    sinceOpening (text ++ [b]) = if b = opening then [] else sinceOpening text ++ [b] := by
  simp [sinceOpening, List.rtakeWhile_concat]

theorem opening_not_mem_sinceOpening (text : List UInt8) : opening ∉ sinceOpening text := by
  intro h
  simpa using List.mem_rtakeWhile_imp h

theorem mem_of_mem_sinceOpening {text : List UInt8} {b : UInt8} (h : b ∈ sinceOpening text) : b ∈ text :=
  (List.rtakeWhile_suffix _ _).subset h

variable {size : Nat} {text : List UInt8}

theorem overrun?_eq_none (h : overrun? size text = none) : ∀ n, (sinceOpening (text.take n)).length ≤ size := by
  intro n
  have within : ∀ m ≤ text.length, (sinceOpening (text.take m)).length ≤ size := by
    intro m hm
    simpa using List.find?_eq_none.1 h m (List.mem_range.2 (by omega))
  by_cases hn : n ≤ text.length
  · exact within n hn
  · rw [List.take_of_length_le (by omega), ← List.take_length (l := text)]
    exact within _ (Nat.le_refl _)

theorem overrun?_eq_some {n : Nat} (h : overrun? size text = some n) :
    n ≤ text.length ∧ size < (sinceOpening (text.take n)).length ∧
      ∀ m < n, (sinceOpening (text.take m)).length ≤ size := by
  obtain ⟨past, hmem, first⟩ := List.find?_range_eq_some.1 h
  refine ⟨?_, by simpa using past, fun m hm => by simpa using first m hm⟩
  have := List.mem_range.1 hmem
  omega

/-- Inside a packet the receiver holds what stands since the last opening mark, as long as that fits. -/
theorem run_inside (start : Nat) (plain : closing ∉ text)
    (fits : ∀ n, (sinceOpening (text.take n)).length ≤ size) :
    run size (.inside #[]) start text = (.inside (sinceOpening text).toArray, []) := by
  induction text using List.reverseRecOn with
  | nil => rfl
  | append_singleton text b ih =>
    have hplain : closing ∉ text := fun h => plain (List.mem_append_left _ h)
    have hb : b ≠ closing := fun h => plain (by simp [h])
    have hfits : ∀ n, (sinceOpening (text.take n)).length ≤ size := by
      intro n
      have := fits (min n text.length)
      rwa [List.take_append_of_le_length (by omega), ← List.take_eq_take_min] at this
    have room := fits (text ++ [b]).length
    rw [List.take_length, sinceOpening_concat] at room
    rw [run_append, ih hplain hfits, sinceOpening_concat]
    by_cases hopen : b = opening
    · simp [run, step, hopen]
    · rw [if_neg hopen, List.length_append, List.length_singleton] at room
      have notFull : (sinceOpening text).length ≠ size := by omega
      simp [run, step, hopen, hb, notFull]

/-- At the first byte that does not fit the receiver gives the packet up. -/
theorem run_overlong {n : Nat} (start : Nat) (plain : closing ∉ text) (excess : overrun? size text = some n) :
    run size (.inside #[]) start (text.take n) = (.outside, []) := by
  obtain ⟨hn, hover, hbefore⟩ := overrun?_eq_some excess
  -- nothing overruns before the first byte
  obtain ⟨m, rfl⟩ : ∃ m, n = m + 1 := by
    cases n with
    | zero => simp [sinceOpening] at hover
    | succ m => exact ⟨m, rfl⟩
  have hm : m < text.length := by omega
  have last : text.take (m + 1) = text.take m ++ [text[m]] := List.take_succ_eq_append_getElem hm
  have hb : text[m] ≠ closing := fun h => plain (h ▸ List.getElem_mem hm)
  have fits : ∀ k, (sinceOpening ((text.take m).take k)).length ≤ size := by
    intro k
    rw [List.take_take]
    exact hbefore _ (by omega)
  have full := hbefore m (by omega)
  rw [last, sinceOpening_concat] at hover
  rw [last, run_append, run_inside start (fun h => plain (List.mem_of_mem_take h)) fits]
  by_cases hopen : text[m] = opening
  · simp [hopen] at hover
  · rw [if_neg hopen, List.length_append, List.length_singleton] at hover
    have isFull : (sinceOpening (text.take m)).length = size := by omega
    simp [run, step, hopen, hb, isFull]

/-! ## Whole streams -/

/-- A packet that fits, up to its closing mark. -/
theorem run_opened (start : Nat) (plain : closing ∉ text) (fits : overrun? size text = none) (tail : List UInt8) :
    run size .outside start (opening :: (text ++ tail)) =
      run size (.inside (sinceOpening text).toArray) (start + 1 + text.length) tail := by
  have opened : run size .outside start (opening :: (text ++ tail)) =
      run size (.inside #[]) (start + 1) (text ++ tail) := rfl
  rw [opened, run_append, run_inside (start + 1) plain (overrun?_eq_none fits)]
  rfl

/-- A packet that does not fit, up to the first byte too many. -/
theorem run_opened_overlong {n : Nat} (start : Nat) (plain : closing ∉ text) (excess : overrun? size text = some n)
    (tail : List UInt8) :
    run size .outside start (opening :: (text.take n ++ tail)) = run size .outside (start + 1 + n) tail := by
  have opened : run size .outside start (opening :: (text.take n ++ tail)) =
      run size (.inside #[]) (start + 1) (text.take n ++ tail) := rfl
  have length : (text.take n).length = n := by simp [(overrun?_eq_some excess).1]
  rw [opened, run_append, run_overlong (start + 1) plain excess, length]
  rfl

/-- The closing mark, and the two bytes behind it. -/
theorem run_closed (size start : Nat) (body : List UInt8) (high low : UInt8) (after : List UInt8) :
    (run size (.inside body.toArray) start (closing :: high :: low :: after)).2 =
      (start + 2, judgement body high low) :: (run size .outside (start + 3) after).2 := by
  have ne : closing ≠ opening := by decide
  simp [run, step, ne, verdict_eq_judgement]

/-- No closing mark stands in the text before the first. -/
theorem closing_not_mem_takeWhile (rest : List UInt8) : closing ∉ rest.takeWhile (· ≠ closing) := by
  intro h
  simpa using List.mem_takeWhile_imp h

/-- What is left behind that text begins with a closing mark. -/
theorem eq_closing_of_dropWhile {rest after : List UInt8} {b : UInt8}
    (h : rest.dropWhile (· ≠ closing) = b :: after) : b = closing := by
  have first := List.head?_dropWhile_not (fun b => decide (b ≠ closing)) rest
  rw [h] at first
  simpa using first

/-- Byte by byte or as a whole, a stream that begins outside any packet says the same. -/
theorem run_outside (size start : Nat) (stream : List UInt8) :
    (run size .outside start stream).2 = reading size start stream := by
  fun_induction reading size start stream with
  | case1 => rfl
  | case2 start rest ih => simp [run, step, ih, show interruption ≠ opening by decide]
  | case3 start b rest hint hopen ih => simp [run, step, ih, hint, hopen]
  | case4 start b rest hint hopen text n excess ih =>
    obtain rfl : b = opening := not_not.1 hopen
    have front : rest.take n = text.take n := by
      obtain ⟨tail, htail⟩ := List.takeWhile_prefix (l := rest) (· ≠ closing)
      rw [← htail, List.take_append_of_le_length (overrun?_eq_some excess).1]
    have split : rest = text.take n ++ rest.drop n := by rw [← front, List.take_append_drop]
    rw [← ih, split, run_opened_overlong start (closing_not_mem_takeWhile rest) excess, ← split]
  | case5 start b rest hint hopen text room c high low after h ih =>
    obtain rfl : b = opening := not_not.1 hopen
    obtain rfl : c = closing := eq_closing_of_dropWhile h
    have split : rest = text ++ closing :: high :: low :: after := by rw [← h, List.takeWhile_append_dropWhile]
    have position (k : Nat) : start + 1 + text.length + k = start + text.length + (k + 1) := by omega
    rw [← ih, split, run_opened start (closing_not_mem_takeWhile rest) room, run_closed, position, position]
  | case6 start b rest hint hopen text room unfinished =>
    obtain rfl : b = opening := not_not.1 hopen
    have split : rest = text ++ rest.dropWhile (· ≠ closing) := List.takeWhile_append_dropWhile.symm
    rw [split, run_opened start (closing_not_mem_takeWhile rest) room]
    -- what is left is too short to hold a checksum
    rcases h : rest.dropWhile (· ≠ closing) with _ | ⟨c, _ | ⟨high, _ | ⟨low, after⟩⟩⟩
    · rfl
    · obtain rfl : c = closing := eq_closing_of_dropWhile h
      rfl
    · obtain rfl : c = closing := eq_closing_of_dropWhile h
      rfl
    · exact absurd h (unfinished c high low after)

/-- A packet that is read has a body that fits, with no mark of a packet in it. -/
theorem body_of_mem_reading {size start position : Nat} {stream body : List UInt8}
    (h : (position, .packet body) ∈ reading size start stream) :
    body.length ≤ size ∧ opening ∉ body ∧ closing ∉ body := by
  fun_induction reading size start stream with
  | case1 => cases h
  | case2 start rest ih => exact ih (by simpa using h)
  | case3 start b rest hint hopen ih => exact ih h
  | case4 start b rest hint hopen text n excess ih => exact ih h
  | case5 start b rest hint hopen text room c high low after _ ih =>
    rcases List.mem_cons.1 h with h | h
    · have judged : judgement (sinceOpening text) high low = .packet body := (Prod.mk.inj h).2.symm
      unfold judgement at judged
      split at judged
      · obtain rfl : sinceOpening text = body := Event.packet.inj judged
        have fits := overrun?_eq_none room text.length
        rw [List.take_length] at fits
        exact ⟨fits, opening_not_mem_sinceOpening text,
          fun hmem => closing_not_mem_takeWhile rest (mem_of_mem_sinceOpening hmem)⟩
      · cases judged
    · exact ih h
  | case6 => cases h

/-- A new receiver that takes a stream byte by byte reports what the stream says as a whole, each event at the byte that
completes it. So every packet that it reports has a body that fits and holds no mark of a packet. Nor does a receiver
need more than a buffer of that size: whatever it held at first, no place outside it is reached, and the events are the
same. -/
theorem received_eq_reading (size : Nat) (stream : List UInt8) :
    (run size .outside 0 stream).2 = reading size 0 stream ∧
      (∀ position body, (position, .packet body) ∈ (run size .outside 0 stream).2 →
        body.length ≤ size ∧ opening ∉ body ∧ closing ∉ body) ∧
      ∀ buffer : List UInt8, buffer.length = size →
        ((InPlace.new buffer).run? 0 stream).map Prod.snd = some (reading size 0 stream) := by
  have same := run_outside size 0 stream
  refine ⟨same, fun position body h => ?_, fun buffer hsize => ?_⟩
  · rw [same] at h
    exact body_of_mem_reading h
  · rw [InPlace.run?_new, hsize, same]

/-- With room for two bytes: an interruption, a body that is too long, a packet that is started over, and one whose
checksum is made of marks. -/
theorem reading_of_mixed_stream :
    ∃ stream : List UInt8, stream = interruption :: ascii "$abc#00$x$qC#b4$qC#$" ++ [interruption] ∧
      reading 2 0 stream = [(0, .interrupt), (15, .packet (ascii "qC")), (21, .mismatch none 0xb4)] ∧
      (ascii "qC").length ≤ 2 ∧
      ((InPlace.new [7, 7]).run? 0 stream).map Prod.snd =
        some [(0, .interrupt), (15, .packet (ascii "qC")), (21, .mismatch none 0xb4)] := by
  let stream := interruption :: ascii "$abc#00$x$qC#b4$qC#$" ++ [interruption]
  obtain ⟨same, fits, inPlace⟩ := received_eq_reading 2 stream
  have events : (run 2 .outside 0 stream).2 =
      [(0, .interrupt), (15, .packet (ascii "qC")), (21, .mismatch none 0xb4)] := by decide
  have read := same.symm.trans events
  refine ⟨stream, rfl, read, (fits 15 (ascii "qC") ?_).1, ?_⟩
  · rw [events]
    decide
  · rw [inPlace [7, 7] rfl, read]

end RemoteDebug.Packet
