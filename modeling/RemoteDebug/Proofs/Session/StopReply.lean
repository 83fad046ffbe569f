import Mathlib.Data.List.Basic
import Mathlib.Data.List.TakeWhile
import RemoteDebug.Command.Parser
import RemoteDebug.Packet.Frame
import RemoteDebug.Proofs.Reply.Encoding
import RemoteDebug.Proofs.Thread.Name
import RemoteDebug.Session.Stop

/-!
# How a client reads stop replies

A client takes the first frame out of what it receives (`Packet.unframe?`) and reads a stop reply from its body
(`StopReason.parse?`): the signal, and fields `name:value;` after it. Main statements: the stop reply of a reason
reads back as that reason (`StopReason.parse?_written`), it has at most 86 bytes (`StopReason.length_written_le`), and
it comes out of its frame again (`Packet.unframe?_frame`).
-/

namespace RemoteDebug

/-! ## Frames -/

namespace Packet

/-- The body of the first frame in what a client receives, if it is whole and nothing follows it. -/
def unframe? (received : List UInt8) : Option (List UInt8) :=
  let frames := received.dropWhile (· ≠ opening)
  let body := frames.tail.takeWhile (· ≠ closing)
  if frames = frame body then some body else none

theorem frame_inj {a b : List UInt8} (h : frame a = frame b) : a = b := by
  have hlen := congrArg List.length h
  simp only [frame, List.cons_append, List.length_cons, List.length_append, Hex.length_ofByte] at hlen
  simp only [frame, List.cons_append, List.cons.injEq, true_and] at h
  exact (List.append_inj h (by omega)).1

theorem dropWhile_append_frame {before : List UInt8} (h : opening ∉ before) (body : List UInt8) :
    (before ++ frame body).dropWhile (· ≠ opening) = frame body := by
  rw [List.dropWhile_append_of_pos]
  · rfl
  · intro b hb
    rw [decide_eq_true_eq]
    rintro rfl
    exact h hb

/-- No other body than the one that was framed comes out of a frame. -/
theorem eq_of_unframe? {before body body' : List UInt8} (h : opening ∉ before)
    (hu : unframe? (before ++ frame body) = some body') : body' = body := by
  simp only [unframe?, dropWhile_append_frame h, Option.ite_none_right_eq_some, Option.some.injEq] at hu
  obtain ⟨heq, rfl⟩ := hu
  exact (frame_inj heq).symm

/-- What was framed comes out of the frame, unless it holds the mark that ends a body. -/
theorem unframe?_frame {before body : List UInt8} (h : opening ∉ before) (hc : closing ∉ body) :
    unframe? (before ++ frame body) = some body := by
  have whole : (frame body).tail.takeWhile (· ≠ closing) = body := by
    have all : ∀ b ∈ body, decide (b ≠ closing) = true := by
      intro b hb
      rw [decide_eq_true_eq]
      rintro rfl
      exact hc hb
    rw [frame, List.cons_append, List.tail_cons, List.takeWhile_append_of_pos all]
    simp
  simp only [unframe?, dropWhile_append_frame h, whole, if_true]

theorem unframe?_of_not_mem {received : List UInt8} (h : opening ∉ received) : unframe? received = none := by
  have nothing : received.dropWhile (· ≠ opening) = [] := by
    rw [List.dropWhile_eq_nil_iff]
    intro b hb
    rw [decide_eq_true_eq]
    rintro rfl
    exact h hb
  simp only [unframe?, nothing, frame, List.cons_append, List.nil_eq, reduceCtorEq, if_false]

end Packet

/-! ## Fields -/

/-- A field of a stop reply. -/
def writeField (name : String) (value : List UInt8) : List UInt8 :=
  ascii name ++ ':'.toUInt8 :: (value ++ [';'.toUInt8])

/-- The name and the value of the field at the front of bytes, and what follows it. -/
def readField? (bytes : List UInt8) : Option (List UInt8 × List UInt8 × List UInt8) :=
  match cut (isChar ':') bytes with
  | (_, none) => none
  | (name, some rest) =>
    match cut (isChar ';') rest with
    | (_, none) => none
    | (value, some rest) => some (name, value, rest)

theorem readField?_writeField (name : String) {value : List UInt8} (hn : (ascii name).any (isChar ':') = false)
    (hv : ∀ b ∈ value, isChar ';' b = false) (rest : List UInt8) :
    readField? (writeField name value ++ rest) = some (ascii name, value, rest) := by
  have first : cut (isChar ':') (writeField name value ++ rest) =
      (ascii name, some (value ++ ';'.toUInt8 :: rest)) := by
    simp only [writeField, List.append_assoc, List.cons_append, List.nil_append]
    exact cut_append (fun b hb => Bool.eq_false_iff.2 (List.any_eq_false.1 hn b hb)) (by decide) _
  have second : cut (isChar ';') (value ++ ';'.toUInt8 :: rest) = (value, some rest) := cut_append hv (by decide) _
  simp only [readField?, first, second]

theorem Ptid.no_semicolon {t : Ptid} {b : UInt8} (h : b ∈ t.render) : isChar ';' b = false := by
  rw [isChar, beq_eq_false_iff_ne]
  rintro rfl
  rcases of_mem_render h with h | h | h <;> revert h <;> decide

/-! ## Stop replies -/

namespace StopReason

/-- The threads that a reason names. -/
def threads : StopReason → List Ptid
  | .softwareBreak t | .hardwareBreak t | .watch t _ _ | .signal t _ | .exited t => [t]
  | .cloned parent child => [parent, child]

theorem mem_threads_of_thread? {stop : StopReason} {t : Ptid} (h : stop.thread? = some t) : t ∈ stop.threads := by
  cases stop with
  | exited => cases h
  | _ =>
    cases h
    exact List.mem_cons_self

/-- Every thread is named by ids that a registry can give. -/
def Valid (stop : StopReason) : Prop := ∀ t ∈ stop.threads, t.Valid

/-- The front of a stop reply with a signal. -/
def opener (signal : Signal) : List UInt8 := 'T'.toUInt8 :: Hex.ofByte signal.number

/-- The stop reply of a reason, written out. -/
def written : StopReason → List UInt8
  | .softwareBreak t => opener .trap ++ (writeField "thread" t.render ++ writeField "swbreak" [])
  | .hardwareBreak t => opener .trap ++ (writeField "thread" t.render ++ writeField "hwbreak" [])
  | .watch t .write addr =>
    opener .trap ++ (writeField "thread" t.render ++ writeField "watch" (Hex.fixed 16 addr.toNat))
  | .watch t .read addr =>
    opener .trap ++ (writeField "thread" t.render ++ writeField "rwatch" (Hex.fixed 16 addr.toNat))
  | .watch t .readWrite addr =>
    opener .trap ++ (writeField "thread" t.render ++ writeField "awatch" (Hex.fixed 16 addr.toNat))
  | .signal t number => opener number ++ (writeField "thread" t.render ++ [])
  | .cloned parent child => opener .trap ++ (writeField "clone" child.render ++ writeField "thread" parent.render)
  | .exited t => ascii "w00;" ++ t.render

theorem encoding?_pieces (stop : StopReason) : Reply.encoding? stop.pieces = some stop.written := by
  have names : ascii "thread:" = ascii "thread" ++ [':'.toUInt8] ∧ ascii "clone:" = ascii "clone" ++ [':'.toUInt8] ∧
      ascii ";thread:" = ';'.toUInt8 :: (ascii "thread" ++ [':'.toUInt8]) := by decide
  obtain ⟨thread, clone, thread'⟩ := names
  cases stop with
  | watch t access addr =>
    cases access <;>
      simp [pieces, header, written, opener, Reply.encoding?, Reply.Piece.bytes?, writeField, watchName, ascii]
  | _ =>
    simp [pieces, header, written, opener, Reply.encoding?, Reply.Piece.bytes?, writeField, ascii]

/-- The longest stop reply has 86 bytes. -/
theorem length_written_le {stop : StopReason} (h : stop.Valid) : stop.written.length ≤ 86 := by
  have bound : ∀ t ∈ stop.threads, t.render.length ≤ 34 := fun t ht => Ptid.length_render_le (h t ht)
  cases stop with
  | cloned parent child =>
    have hp := bound parent (by simp [threads])
    have hc := bound child (by simp [threads])
    simp only [written, opener, writeField, ascii, List.length_append, List.length_cons, List.length_map,
      Hex.length_ofByte, List.length_nil, String.length_toList]
    have hlen : "clone".length = 5 ∧ "thread".length = 6 := by decide
    omega
  | watch t access addr =>
    have ht := bound t (by simp [threads])
    have hlen : "thread".length = 6 ∧ "watch".length = 5 ∧ "rwatch".length = 6 ∧ "awatch".length = 6 := by decide
    cases access <;>
      simp only [written, opener, writeField, ascii, List.length_append, List.length_cons, List.length_map,
        Hex.length_ofByte, List.length_nil, String.length_toList, Hex.length_fixed] <;>
      omega
  | _ =>
    rename_i t
    have ht := bound _ (List.mem_singleton.2 rfl)
    have hlen : "thread".length = 6 ∧ "swbreak".length = 7 ∧ "hwbreak".length = 7 ∧ "w00;".length = 4 := by decide
    simp only [written, opener, writeField, ascii, List.length_append, List.length_cons, List.length_map,
      Hex.length_ofByte, List.length_nil, String.length_toList]
    omega

/-- A stop reply fits into every packet that has room for 86 bytes. -/
theorem render_pieces {capacity : Nat} (hc : 86 ≤ capacity) {stop : StopReason} (h : stop.Valid) :
    Reply.render capacity stop.pieces = some stop.written :=
  Reply.render_eq_some_iff.2 ⟨stop.encoding?_pieces, Nat.le_trans (length_written_le h) hc⟩

/-! ## Reading them -/

/-- Reads what a stop reply says about a thread besides its name. -/
def parseDetail? (t : Ptid) (number : Signal) (fields : List UInt8) : Option StopReason :=
  if fields = [] then some (.signal t number)
  else
    match readField? fields with
    | some (name, value, []) =>
      if name = ascii "swbreak" then some (.softwareBreak t)
      else if name = ascii "hwbreak" then some (.hardwareBreak t)
      else if name = ascii "watch" then (Hex.word? value).map (.watch t .write)
      else if name = ascii "rwatch" then (Hex.word? value).map (.watch t .read)
      else if name = ascii "awatch" then (Hex.word? value).map (.watch t .readWrite)
      else none
    | _ => none

/-- Reads the fields of a stop reply with a signal. -/
def parseFields? (number : Signal) (fields : List UInt8) : Option StopReason :=
  match readField? fields with
  | none => none
  | some (name, value, rest) =>
    if name = ascii "thread" then (Ptid.parse? value).bind (parseDetail? · number rest)
    else if name = ascii "clone" then
      match Ptid.parse? value, readField? rest with
      | some child, some (name, value, []) =>
        if name = ascii "thread" then (Ptid.parse? value).map (.cloned · child) else none
      | _, _ => none
    else none

/-- Reads a stop reply. -/
def parse? (body : List UInt8) : Option StopReason :=
  match (ascii "w00;").isPrefixOf? body with
  | some name => (Ptid.parse? name).map .exited
  | none =>
    match body with
    | letter :: high :: low :: fields =>
      if isChar 'T' letter then (Hex.toByte? high low).bind fun number => parseFields? ⟨number⟩ fields else none
    | _ => none

theorem parse?_opener (signal : Signal) (fields : List UInt8) :
    parse? (opener signal ++ fields) = parseFields? signal fields := by
  have spelled : opener signal ++ fields =
      'T'.toUInt8 :: Hex.digit (signal.number.toNat / 16) :: Hex.digit signal.number.toNat :: fields := by
    simp [opener, Hex.ofByte_eq]
  have noExit (rest : List UInt8) : (ascii "w00;").isPrefixOf? ('T'.toUInt8 :: rest) = none := rfl
  have hletter : isChar 'T' 'T'.toUInt8 = true := by decide
  rw [spelled]
  simp [parse?, noExit, hletter, Hex.toByte?_ofByte]

section Fields

variable {t : Ptid}

theorem parseFields?_thread (ht : t.Valid) (signal : Signal) (rest : List UInt8) :
    parseFields? signal (writeField "thread" t.render ++ rest) = parseDetail? t signal rest := by
  have first := readField?_writeField "thread" (by decide) (fun b => Ptid.no_semicolon (t := t) (b := b)) rest
  simp [parseFields?, first, Ptid.parse?_render ht]

theorem parseFields?_clone {child : Ptid} (ht : t.Valid) (hc : child.Valid) (signal : Signal) :
    parseFields? signal (writeField "clone" child.render ++ writeField "thread" t.render) = some (.cloned t child) := by
  have first := readField?_writeField "clone" (by decide) (fun b => Ptid.no_semicolon (t := child) (b := b))
    (writeField "thread" t.render)
  have second := readField?_writeField "thread" (by decide) (fun b => Ptid.no_semicolon (t := t) (b := b)) []
  rw [List.append_nil] at second
  have other : ascii "clone" ≠ ascii "thread" := by decide
  simp [parseFields?, first, second, other, Ptid.parse?_render ht, Ptid.parse?_render hc]

end Fields

/-- A stop reply reads back as its reason. -/
theorem parse?_written {stop : StopReason} (h : stop.Valid) : parse? stop.written = some stop := by
  have digits (addr : UInt64) : ∀ b ∈ Hex.fixed 16 addr.toNat, isChar ';' b = false := by
    intro b hb
    rw [isChar, beq_eq_false_iff_ne]
    rintro rfl
    have hd := Hex.isDigit_of_mem_fixed hb
    revert hd
    decide
  have detail (name : String) (hn : (ascii name).any (isChar ':') = false) (value : List UInt8)
      (hv : ∀ b ∈ value, isChar ';' b = false) :
      readField? (writeField name value) = some (ascii name, value, []) := by
    have hf := readField?_writeField name hn hv []
    rwa [List.append_nil] at hf
  have nonempty (name : String) (value : List UInt8) : writeField name value ≠ [] := by simp [writeField]
  cases stop with
  | softwareBreak t =>
    rw [written, parse?_opener, parseFields?_thread (h t List.mem_cons_self)]
    simp [parseDetail?, nonempty, detail "swbreak" (by decide) []]
  | hardwareBreak t =>
    have ne : ascii "hwbreak" ≠ ascii "swbreak" := by decide
    rw [written, parse?_opener, parseFields?_thread (h t List.mem_cons_self)]
    simp [parseDetail?, nonempty, detail "hwbreak" (by decide) [], ne]
  | watch t access addr =>
    cases access with
    | write =>
      have ne : ascii "watch" ≠ ascii "swbreak" ∧ ascii "watch" ≠ ascii "hwbreak" := by decide
      rw [written, parse?_opener, parseFields?_thread (h t List.mem_cons_self)]
      simp [parseDetail?, nonempty, detail "watch" (by decide) _ (digits addr), ne, Hex.word?_fixed]
    | read =>
      have ne : ascii "rwatch" ≠ ascii "swbreak" ∧ ascii "rwatch" ≠ ascii "hwbreak" ∧
          ascii "rwatch" ≠ ascii "watch" := by
        decide
      rw [written, parse?_opener, parseFields?_thread (h t List.mem_cons_self)]
      simp [parseDetail?, nonempty, detail "rwatch" (by decide) _ (digits addr), ne, Hex.word?_fixed]
    | readWrite =>
      have ne : ascii "awatch" ≠ ascii "swbreak" ∧ ascii "awatch" ≠ ascii "hwbreak" ∧
          ascii "awatch" ≠ ascii "watch" ∧
          ascii "awatch" ≠ ascii "rwatch" := by
        decide
      rw [written, parse?_opener, parseFields?_thread (h t List.mem_cons_self)]
      simp [parseDetail?, nonempty, detail "awatch" (by decide) _ (digits addr), ne, Hex.word?_fixed]
  | signal t number =>
    rw [written, parse?_opener, parseFields?_thread (h t List.mem_cons_self)]
    simp [parseDetail?]
  | cloned parent child =>
    have hchild : child ∈ (StopReason.cloned parent child).threads := by simp [threads]
    rw [written, parse?_opener, parseFields?_clone (h parent List.mem_cons_self) (h child hchild)]
  | exited t =>
    have opens : (ascii "w00;").isPrefixOf? (written (.exited t)) = some t.render :=
      List.isPrefixOf?_eq_some_iff_append_eq.2 rfl
    simp [parse?, opens, Ptid.parse?_render (h t List.mem_cons_self)]

/-- What begins like no stop reply is none. -/
theorem parse?_of_head {body : List UInt8} (h : ∀ b ∈ body.head?, b ≠ 'T'.toUInt8 ∧ b ≠ 'w'.toUInt8) :
    parse? body = none := by
  cases body with
  | nil => rfl
  | cons b rest =>
    obtain ⟨hT, hw⟩ := h b rfl
    have noExit : (ascii "w00;").isPrefixOf? (b :: rest) = none := by
      refine Option.eq_none_iff_forall_ne_some.2 fun name found => hw ?_
      have spelled : 'w'.toUInt8 :: (ascii "00;" ++ name) = b :: rest := List.isPrefixOf?_eq_some_iff_append_eq.1 found
      exact (List.cons.inj spelled).1.symm
    have noStop : isChar 'T' b = false := beq_eq_false_iff_ne.2 hT
    unfold parse?
    rw [noExit]
    rcases rest with - | ⟨high, - | ⟨low, fields⟩⟩ <;> simp [noStop]

end StopReason
end RemoteDebug
