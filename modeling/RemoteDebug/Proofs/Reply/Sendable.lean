import RemoteDebug.Proofs.Packet.Delivery
import RemoteDebug.Proofs.Reply.Paging
import RemoteDebug.Proofs.Session.StopReply

/-!
# Replies that can be sent

No piece of a reply but a text can hold a mark of a packet: numbers, byte strings and names are written in digits, a
letter and a dot. So a reply is sendable if its texts are free of marks (`Reply.sendable_render`), and a page of a
listing always is (`Reply.sendable_page`). A stop reply is sendable (`StopReason.sendable_written`).
-/

namespace RemoteDebug

open Packet

/-! ## Digits -/

theorem Packet.unmarked_of_isDigit {bytes : List UInt8} (h : ∀ b ∈ bytes, Hex.isDigit b = true) :
    Unmarked bytes := by
  refine unmarked_iff.2 ⟨fun hmem => ?_, fun hmem => ?_⟩
  · exact absurd (h _ hmem) (by decide)
  · exact absurd (h _ hmem) (by decide)

@[simp] theorem Hex.unmarked_fixed (places n : Nat) : Unmarked (fixed places n) :=
  unmarked_of_isDigit fun _ => isDigit_of_mem_fixed

@[simp] theorem Hex.unmarked_compact (n : Nat) : Unmarked (compact n) := unmarked_fixed _ _

@[simp] theorem Hex.unmarked_ofByte (b : UInt8) : Unmarked (ofByte b) := unmarked_fixed _ _

@[simp] theorem Hex.unmarked_encode (bytes : List UInt8) : Unmarked (encode bytes) := by
  induction bytes with
  | nil => simp
  | cons b bytes ih => simp [ih]

@[simp] theorem Ptid.unmarked_render (t : Ptid) : Unmarked t.render := by
  have letters : ('p'.toUInt8 ≠ opening ∧ 'p'.toUInt8 ≠ closing) ∧ '.'.toUInt8 ≠ opening ∧
      '.'.toUInt8 ≠ closing := by
    decide
  rw [render_eq]
  simp [letters]

namespace Reply

/-- No mark of a packet stands in a byte or a text. -/
def Piece.Unmarked : Piece → Prop
  | .byte b => b ≠ opening ∧ b ≠ closing
  | .text bytes => Packet.Unmarked bytes
  | .hexByte _ | .hexBytes _ | .number _ | .ptid _ => True

theorem Piece.unmarked_bytes? {p : Piece} {bytes : List UInt8} (h : p.Unmarked) (hp : p.bytes? = some bytes) :
    Packet.Unmarked bytes := by
  cases p with
  | byte b =>
    cases hp
    exact List.forall_mem_singleton.2 h
  | text =>
    cases hp
    exact h
  | number n =>
    obtain ⟨word, -, rfl⟩ := exists_word hp
    exact Hex.unmarked_compact _
  | hexByte | hexBytes | ptid =>
    cases hp
    simp

theorem unmarked_encoding? {pieces : List Piece} {bytes : List UInt8} (h : ∀ p ∈ pieces, p.Unmarked)
    (he : encoding? pieces = some bytes) : Packet.Unmarked bytes := by
  induction pieces generalizing bytes with
  | nil =>
    cases he
    simp
  | cons p pieces ih =>
    cases hp : p.bytes? with
    | none => simp [encoding?, hp] at he
    | some first =>
      rw [encoding?_cons hp] at he
      obtain ⟨rest, hrest, rfl⟩ := Option.map_eq_some_iff.1 he
      refine unmarked_append.2 ⟨Piece.unmarked_bytes? (h p List.mem_cons_self) hp, ?_⟩
      exact ih (fun q hq => h q (List.mem_cons_of_mem _ hq)) hrest

theorem sendable_render {capacity : Nat} {pieces : List Piece} {payload : List UInt8} (h : ∀ p ∈ pieces, p.Unmarked)
    (hr : render capacity pieces = some payload) : Sendable capacity payload := by
  obtain ⟨written, fits⟩ := render_eq_some_iff.1 hr
  exact ⟨fits, unmarked_encoding? h written⟩

/-! ## Listings -/

theorem unmarked_listed (names : List Ptid) : Packet.Unmarked (listed names) := by
  have letters : ∀ text ∈ ["m", ","], Packet.Unmarked (ascii text) := by decide
  cases names with
  | nil => simp [listed, letters]
  | cons t names =>
    rw [listed_cons]
    refine unmarked_append.2 ⟨unmarked_append.2 ⟨letters _ (by simp), t.unmarked_render⟩, fun b hb => ?_⟩
    obtain ⟨u, -, hb⟩ := List.mem_flatMap.1 hb
    exact (unmarked_append.2 ⟨letters _ (by simp), u.unmarked_render⟩ : Packet.Unmarked (entry u)) b hb

theorem sendable_page {capacity : Nat} {names : List Ptid} {payload : List UInt8}
    (h : (page capacity names).1 = some payload) : Sendable capacity payload := by
  by_cases filled : names = []
  · have letter : Packet.Unmarked (ascii "l") := by decide
    rw [filled] at h
    exact sendable_render (by simp [Piece.Unmarked, letter]) h
  · rcases page_cases capacity filled with ⟨same, -⟩ | ⟨taken, left, takes, same⟩
    · rw [same] at h
      cases h
    · rw [same, Option.some.injEq] at h
      exact h ▸ ⟨takes.fits, unmarked_listed taken⟩

theorem page_isSome {capacity : Nat} {names : List Ptid} (h : ∀ t ∈ names, t.Valid) (room : 35 ≤ capacity) :
    (page capacity names).1.isSome := by
  by_cases filled : names = []
  · rw [filled, page_nil (Nat.le_trans (by decide) room)]
    rfl
  · obtain ⟨taken, left, -, same⟩ := page_takes filled h room
    rw [same]
    rfl

end Reply

/-! ## Stop replies -/

namespace StopReason

theorem unmarked_pieces (stop : StopReason) : ∀ p ∈ stop.pieces, p.Unmarked := by
  have letters : ∀ text ∈ ["T", "thread:", ";", "swbreak:;", "hwbreak:;", "watch:", "rwatch:", "awatch:", "clone:",
      ";thread:", "w00;"], Unmarked (ascii text) := by decide
  cases stop with
  | watch t access addr => cases access <;> simp [pieces, header, watchName, Reply.Piece.Unmarked, letters]
  | _ => simp [pieces, header, Reply.Piece.Unmarked, letters]

theorem unmarked_written (stop : StopReason) : Unmarked stop.written :=
  Reply.unmarked_encoding? stop.unmarked_pieces stop.encoding?_pieces

theorem sendable_written {stop : StopReason} (h : stop.Valid) {capacity : Nat} (room : 86 ≤ capacity) :
    Sendable capacity stop.written := ⟨Nat.le_trans (length_written_le h) room, unmarked_written stop⟩

end StopReason
end RemoteDebug
