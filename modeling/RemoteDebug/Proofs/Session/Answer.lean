import RemoteDebug.Proofs.Cpu.Registers
import RemoteDebug.Proofs.Debuggee.Names
import RemoteDebug.Proofs.Registry.Targets
import RemoteDebug.Proofs.Reply.Sendable
import RemoteDebug.Session.Command

/-!
# What a command amounts to

A command is answered by a reply that is no stop reply, after operations that neither start nor stop a thread; or it
sets threads up to run; or it lets go of the debuggee (`Session.answered_respond`). Nothing else about the session
changes but the listing, and the queue when the client leaves. A reply can always be sent, if there is room for the
registers of a thread and every name can be written (`Session.Speaks`).
-/

namespace RemoteDebug

/-! ## Inferiors that stay as they are -/

theorem Debuggee.onInferior_self {α : Type} (d : Debuggee) (pid : Nat) (result : α) :
    (d.onInferior pid fun inf k => (result, inf, k)).2 = d := by
  unfold onInferior
  split
  · rfl
  · rename_i inf hinf
    simp only [Registry.modifyInferior, SlotTable.modify_self (show d.registry.inferiors.get? pid = some inf from hinf)]

namespace Session

/-! ## Replies that are no stop replies -/

/-- A reply that does not read as a stop reply. -/
def Plain (payload : Option (List UInt8)) : Prop := ∀ body ∈ payload, StopReason.parse? body = none

theorem plain_none : Plain none := by
  intro body h
  cases h

/-- A reply whose first letter is not that of a stop reply. -/
theorem plain_of_head {capacity : Nat} {pieces : List Reply.Piece}
    (h : ∀ body, Reply.encoding? pieces = some body →
      ∀ b ∈ body.head?, b ≠ 'T'.toUInt8 ∧ b ≠ 'w'.toUInt8) :
    Plain (Reply.render capacity pieces) := by
  intro body hb
  exact StopReason.parse?_of_head (h body (Reply.render_eq_some_iff.1 hb).1)

theorem plain_text {capacity : Nat} {text : String} (h : StopReason.parse? (ascii text) = none) :
    Plain (Reply.render capacity [.text (ascii text)]) := by
  intro body hb
  have hbody := (Reply.render_eq_some_iff.1 hb).1
  simp only [Reply.encoding?, Reply.Piece.bytes?, List.append_nil, Option.some.injEq] at hbody
  rw [← hbody]
  exact h

theorem plain_hexBytes {capacity : Nat} (bytes : List UInt8) : Plain (Reply.render capacity [.hexBytes bytes]) := by
  refine plain_of_head fun body hbody b hb => ?_
  simp only [Reply.encoding?, Reply.Piece.bytes?, List.append_nil, Option.some.injEq] at hbody
  subst hbody
  cases bytes with
  | nil => cases hb
  | cons first bytes =>
    rw [Hex.encode_cons, Hex.ofByte_eq] at hb
    have heq : Hex.digit (first.toNat / 16) = b := Option.some.inj hb
    have hd : Hex.isDigit b = true := heq ▸ Hex.isDigit_digit _
    constructor <;> rintro rfl <;> revert hd <;> decide

/-- A reply that begins with a text. -/
theorem plain_cons_text {capacity : Nat} {text : String} {pieces : List Reply.Piece} {b : UInt8}
    (hb : (ascii text).head? = some b) (hT : b ≠ 'T'.toUInt8) (hw : b ≠ 'w'.toUInt8) :
    Plain (Reply.render capacity (.text (ascii text) :: pieces)) := by
  refine plain_of_head fun body hbody c hc => ?_
  rw [Reply.encoding?_cons rfl] at hbody
  obtain ⟨rest, -, rfl⟩ := Option.map_eq_some_iff.1 hbody
  obtain ⟨front, hfront⟩ := List.head?_eq_some_iff.1 hb
  rw [hfront] at hc
  have heq : b = c := Option.some.inj hc
  exact heq ▸ ⟨hT, hw⟩

theorem plain_page (capacity : Nat) (names : List Ptid) : Plain (Reply.page capacity names).1 := by
  by_cases filled : names = []
  · rw [filled]
    exact plain_text (by decide)
  · rcases Reply.page_cases capacity filled with ⟨same, -⟩ | ⟨taken, left, -, same⟩
    · rw [same]
      exact plain_none
    · rw [same]
      intro body hbody
      cases hbody
      refine StopReason.parse?_of_head fun b hb => ?_
      have letter : 'm'.toUInt8 = b := Option.some.inj hb
      rw [← letter]
      decide

/-! ## Replies that can be sent -/

/-- There is room for the longest answer, the registers of a thread, and every name that may be asked for can be
written. -/
structure Speaks (s : Session) : Prop where
  room : 536 ≤ s.packetSize
  named : s.debuggee.registry.Named
  selected : ∀ t, s.debuggee.registry.current = some t → t.Valid
  listed : ∀ t ∈ s.listing, t.Valid

/-- A reply can be sent in a frame if there is one, and there is one if the session speaks. -/
structure Sound (s : Session) (payload : Option (List UInt8)) : Prop where
  sendable : ∀ body, payload = some body → Packet.Sendable s.packetSize body
  speaks : s.Speaks → payload.isSome

theorem sound_render {s : Session} {pieces : List Reply.Piece} (h : ∀ p ∈ pieces, p.Unmarked)
    (fits : s.Speaks → ∃ bytes, Reply.encoding? pieces = some bytes ∧ bytes.length ≤ s.packetSize) :
    Sound s (s.render pieces) := by
  refine ⟨fun body hb => Reply.sendable_render h hb, fun speaks => ?_⟩
  obtain ⟨bytes, written, room⟩ := fits speaks
  rw [render, Reply.render_eq_some_iff.2 ⟨written, room⟩]
  rfl

theorem sound_hexBytes {s : Session} {bytes : List UInt8} (h : s.Speaks → 2 * bytes.length ≤ s.packetSize) :
    Sound s (s.render [.hexBytes bytes]) := by
  refine sound_render (by simp [Reply.Piece.Unmarked]) fun speaks => ⟨Hex.encode bytes, ?_, ?_⟩
  · simp [Reply.encoding?, Reply.Piece.bytes?]
  · rw [Hex.length_encode]
    exact h speaks

theorem sound_page {s : Session} {names : List Ptid} (h : s.Speaks → ∀ t ∈ names, t.Valid) :
    Sound s (Reply.page s.packetSize names).1 :=
  ⟨fun _ hb => Reply.sendable_page hb, fun speaks =>
    Reply.page_isSome (h speaks) (Nat.le_trans (by decide) speaks.room)⟩

/-- A text that can be an answer wherever a session speaks: it does not read as a stop reply. -/
def Answers (text : String) : Prop := StopReason.parse? (ascii text) = none ∧ Packet.Sendable 536 (ascii text)

instance : DecidablePred Answers := fun text =>
  inferInstanceAs (Decidable (StopReason.parse? (ascii text) = none ∧ Packet.Sendable 536 (ascii text)))

theorem sound_text {s : Session} {text : String} (h : Answers text) : Sound s (s.render [.text (ascii text)]) := by
  refine sound_render ?_ fun speaks => ⟨ascii text, ?_, Nat.le_trans h.2.fits speaks.room⟩
  · simpa [Reply.Piece.Unmarked] using h.2.unmarked
  · simp [Reply.encoding?, Reply.Piece.bytes?]

/-! ## What is read -/

/-- A span of words gives as many bytes as its range has. -/
theorem length_readSpan {space : Kernel.SpaceCap} {addr stop : Nat} (h : addr ≤ stop) :
    ∀ {count i : Nat} {k k' : Kernel} {bytes : List UInt8},
      Kernel.readSpan space addr stop (List.range' i count) k = (some bytes, k') →
        bytes.length = min stop (8 * (i + count)) - max addr (8 * i) := by
  intro count
  induction count with
  | zero =>
    intro i k k' bytes hread
    cases hread
    simp only [List.length_nil]
    omega
  | succ count ih =>
    intro i k k' bytes hread
    rw [List.range'_succ] at hread
    unfold Kernel.readSpan at hread
    split at hread
    · cases hread
    · split at hread
      · cases hread
      · rename_i word k₁ _ _ rest k₂ hrest
        have others := ih hrest
        cases hread
        rw [List.length_append, List.length_drop, List.length_take, LittleEndian.length_ofWord, others]
        omega

theorem length_readBytes {k k' : Kernel} {space : Kernel.SpaceCap} {addr length : Nat} {bytes : List UInt8}
    (h : k.readBytes space addr length = (some bytes, k')) : bytes.length = length := by
  have read := length_readSpan (Nat.le_add_right addr length) h
  omega

/-! ## Commands -/

/-- What carrying out a command can come to. -/
inductive Answered (s : Session) : Except CommandError Command → Response × Session → Prop
  | reply {command : Except CommandError Command} {payload : Option (List UInt8)} {s' : Session}
      (ops : List Operation) (listing : List Ptid) (quiet : ∀ op ∈ ops, op.Quiet)
      (after : s' = { s with debuggee := s.debuggee.performAll ops, listing }) (plain : Plain payload)
      (sound : Sound s payload) (selects : ∀ t, .select t ∈ ops → t ∈ s.debuggee.registry.threads)
      (listed : ∀ t ∈ listing, t ∈ s.listing ∨ t ∈ s.debuggee.registry.threads) :
      Answered s command (.reply payload, s')
  | resume {actions : List (Option Action)} (parsed : actions.all Option.isSome = true) :
      Answered s (.ok (.resume actions))
        (.resume, { s with debuggee := s.debuggee.perform (.act (actions.filterMap id)) })
  | detach {pid : Option Nat} :
      Answered s (.ok (.detach pid))
        (.detach (s.render [.text (ascii "OK")]), { s with debuggee := s.debuggee.release, queue := [] })

section

variable {s : Session} {command : Except CommandError Command}

/-- An answer in letters after operations. -/
theorem answered_say {s' : Session} {text : String} (ops : List Operation) (quiet : ∀ op ∈ ops, op.Quiet)
    (after : s' = { s with debuggee := s.debuggee.performAll ops }) (h : Answers text)
    (selects : ∀ t, .select t ∈ ops → t ∈ s.debuggee.registry.threads) : Answered s command (s'.say text) := by
  have sound : Sound s (s'.render [.text (ascii text)]) := by
    rw [after]
    exact sound_text h
  exact .reply ops s.listing quiet (by rw [after]) (plain_text h.1) sound selects fun _ => .inl

/-- An answer in letters, and nothing else. -/
theorem answered_text {text : String} (h : Answers text) : Answered s command (s.say text) :=
  answered_say [] (by simp) rfl h (by simp)

theorem answered_readRegisters : Answered s command s.readRegisters := by
  unfold readRegisters
  split
  · exact answered_text (by decide)
  · rename_i t ht
    have after (r : Option Cpu.Registers) (k : Kernel) (h : s.debuggee.kernel.readRegisters t.cap = (r, k)) :
        s.withKernel k = { s with debuggee := s.debuggee.performAll [.readRegisters t.cap] } := by
      simp [withKernel, Debuggee.perform, h]
    split
    · exact answered_say [.readRegisters t.cap] (by simp [Operation.Quiet]) (after _ _ ‹_›) (by decide) (by simp)
    · rename_i r k _
      have fits : s.Speaks → 2 * r.serialize.length ≤ s.packetSize := by
        intro speaks
        rw [Cpu.Registers.length_serialize]
        exact speaks.room
      exact .reply [.readRegisters t.cap] s.listing (by simp [Operation.Quiet]) (after _ _ ‹_›) (plain_hexBytes _)
        (sound_hexBytes fits) (by simp) fun _ => .inl

theorem answered_writeRegisters (digits : List UInt8) : Answered s command (s.writeRegisters digits) := by
  unfold writeRegisters
  split
  · exact answered_text (by decide)
  · rename_i t ht
    split
    · exact answered_text (by decide)
    · rename_i r hr
      have after (done : Bool) (k : Kernel) (h : s.debuggee.kernel.callThread t.cap (.writeRegisters r) = (done, k)) :
          s.withKernel k = { s with debuggee := s.debuggee.performAll [.writeRegisters t.cap r] } := by
        simp [withKernel, Debuggee.perform, h]
      split
      · exact answered_say [.writeRegisters t.cap r] (by simp [Operation.Quiet]) (after _ _ ‹_›) (by decide)
          (by simp)
      · exact answered_say [.writeRegisters t.cap r] (by simp [Operation.Quiet]) (after _ _ ‹_›) (by decide)
          (by simp)

theorem answered_readMemory (addr : UInt64) (length : Nat) : Answered s command (s.readMemory addr length) := by
  unfold readMemory
  split
  · exact answered_text (by decide)
  · rename_i inRange
    split
    · exact answered_text (by decide)
    · rename_i pid inf hinf
      have after (bytes : Option (List UInt8)) (k : Kernel)
          (h : s.debuggee.kernel.readBytes inf.space addr.toNat length = (bytes, k)) :
          s.withKernel k = { s with debuggee := s.debuggee.performAll [.readMemory inf.space addr.toNat length] } := by
        simp [withKernel, Debuggee.perform, h]
      split
      · exact answered_say [.readMemory inf.space addr.toNat length] (by simp [Operation.Quiet]) (after _ _ ‹_›)
          (by decide) (by simp)
      · rename_i bytes k hread
        have fits : 2 * bytes.length ≤ s.packetSize := by
          rw [length_readBytes hread]
          omega
        exact .reply [.readMemory inf.space addr.toNat length] s.listing (by simp [Operation.Quiet]) (after _ _ hread)
          (plain_hexBytes _) (sound_hexBytes fun _ => fits) (by simp) fun _ => .inl

theorem answered_writeMemory (addr : UInt64) (length : Nat) (digits : List UInt8) :
    Answered s command (s.writeMemory addr length digits) := by
  unfold writeMemory
  split
  · exact answered_text (by decide)
  · rename_i data hdata
    split
    · exact answered_text (by decide)
    · split
      · exact answered_text (by decide)
      · rename_i pid inf hinf
        have after (done : Bool) (k : Kernel)
            (h : s.debuggee.kernel.writeBytes inf.space addr.toNat data = (done, k)) :
            s.withKernel k = { s with debuggee := s.debuggee.performAll [.writeMemory inf.space addr.toNat data] } := by
          simp [withKernel, Debuggee.perform, h]
        split
        · exact answered_say [.writeMemory inf.space addr.toNat data] (by simp [Operation.Quiet]) (after _ _ ‹_›)
            (by decide) (by simp)
        · exact answered_say [.writeMemory inf.space addr.toNat data] (by simp [Operation.Quiet]) (after _ _ ‹_›)
            (by decide) (by simp)

/-- The operation that changing a breakpoint comes to; there is none if the size is not that of an instruction. -/
def changeOperation? (pid : Nat) (insert : Bool) (spec : BreakpointSpec) : Option Operation :=
  match spec.kind.access? with
  | some access =>
    let trigger := ⟨spec.addr, .data access spec.size⟩
    some (if insert then .insertTrigger pid trigger else .removeTrigger pid trigger)
  | none =>
    if spec.size ≠ Cpu.instructionSize then none
    else if spec.kind = .software then some (if insert then .insertPatch pid spec.addr else .removePatch pid spec.addr)
    else
      let trigger := ⟨spec.addr, .fetch⟩
      some (if insert then .insertTrigger pid trigger else .removeTrigger pid trigger)

theorem onInferior_changeBreakpoint (d : Debuggee) (pid : Nat) (insert : Bool) (spec : BreakpointSpec) :
    (d.onInferior pid (changeBreakpoint insert spec)).2 = d.performAll (changeOperation? pid insert spec).toList := by
  unfold changeOperation?
  cases hkind : spec.kind.access? with
  | some access =>
    have same : changeBreakpoint insert spec = fun inf k =>
        if insert then inf.insertTrigger ⟨spec.addr, .data access spec.size⟩ k
        else inf.removeTrigger ⟨spec.addr, .data access spec.size⟩ k := by
      funext inf k
      simp [changeBreakpoint, hkind]
    rw [same]
    cases insert <;> rfl
  | none =>
    by_cases hsize : spec.size = Cpu.instructionSize
    · by_cases hsoft : spec.kind = .software
      · have same : changeBreakpoint insert spec = fun inf k =>
            if insert then inf.insertPatch spec.addr k else inf.removePatch spec.addr k := by
          funext inf k
          simp [changeBreakpoint, BreakpointKind.access?, hsize, hsoft]
        rw [same]
        simp only [hsize, hsoft, ne_eq, not_true_eq_false, if_false, if_true]
        cases insert <;> rfl
      · have same : changeBreakpoint insert spec = fun inf k =>
            if insert then inf.insertTrigger ⟨spec.addr, .fetch⟩ k
              else inf.removeTrigger ⟨spec.addr, .fetch⟩ k := by
          funext inf k
          simp [changeBreakpoint, hkind, hsize, hsoft]
        rw [same]
        simp only [hsize, hsoft, ne_eq, not_true_eq_false, if_false]
        cases insert <;> rfl
    · have same : changeBreakpoint insert spec = fun inf k => (.error .invalidSize, inf, k) := by
        funext inf k
        simp [changeBreakpoint, hkind, hsize]
      rw [same, Debuggee.onInferior_self]
      simp [hsize]

theorem quiet_of_changeOperation? {pid : Nat} {insert : Bool} {spec : BreakpointSpec} {op : Operation}
    (h : changeOperation? pid insert spec = some op) : op.Quiet ∧ ∀ t, op ≠ .select t := by
  unfold changeOperation? at h
  cases insert <;> grind [Operation.Quiet]

theorem answered_breakpoint (insert : Bool) (spec : BreakpointSpec) :
    Answered s command (s.breakpoint insert spec) := by
  unfold breakpoint
  split
  · exact answered_text (by decide)
  · rename_i t ht
    have after := onInferior_changeBreakpoint s.debuggee t.pid insert spec
    have quiet (op : Operation) (h : op ∈ (changeOperation? t.pid insert spec).toList) : op.Quiet :=
      (quiet_of_changeOperation? (Option.mem_toList.1 h)).1
    have selected (u : Ptid) (h : .select u ∈ (changeOperation? t.pid insert spec).toList) :
        u ∈ s.debuggee.registry.threads :=
      absurd rfl ((quiet_of_changeOperation? (Option.mem_toList.1 h)).2 u)
    dsimp only
    split
    · exact answered_say _ quiet (by rw [after]) (by decide) selected
    · exact answered_say _ quiet (by rw [after]) (by decide) selected
    · exact answered_say _ quiet (by rw [after]) (by decide) selected

theorem answered_selectThread (id : Option ThreadId) : Answered s command (s.selectThread id) := by
  unfold selectThread
  split
  · exact answered_text (by decide)
  · split
    all_goals first
      | exact answered_text (by decide)
      | split
        · rename_i t ht
          refine answered_say [.select t] (by simp [Operation.Quiet]) rfl (by decide) ?_
          simpa using Registry.mem_threads_of_resolve? ht
        · exact answered_text (by decide)

theorem answered_threadAlive (id : ThreadId) : Answered s command (s.threadAlive id) := by
  unfold threadAlive
  split
  · exact answered_text (by decide)
  · exact answered_text (by decide)

theorem sound_currentThread {t : Ptid} (ht : s.debuggee.registry.current = some t) :
    Sound s (s.render [.text (ascii "QC"), .ptid t]) := by
  have letters : Packet.Unmarked (ascii "QC") := by decide
  refine sound_render (by simp [Reply.Piece.Unmarked, letters]) fun speaks => ⟨ascii "QC" ++ t.render, ?_, ?_⟩
  · simp [Reply.encoding?, Reply.Piece.bytes?]
  · have length := Ptid.length_render_le (speaks.selected t ht)
    have two : (ascii "QC").length = 2 := by decide
    have room := speaks.room
    rw [List.length_append, two]
    omega

/-- The answer to a client that asks what is supported. -/
def supportedReply (digits : List UInt8) : List UInt8 :=
  ascii "PacketSize=" ++ digits ++ ascii ";QThreadEvents+;swbreak+;hwbreak+;vContSupported+;multiprocess+"

theorem encoding?_supported (size : UInt64) : Reply.encoding? [.text (ascii "PacketSize="), .number size.toNat,
    .text (ascii ";QThreadEvents+;swbreak+;hwbreak+;vContSupported+;multiprocess+")] =
      some (supportedReply (Hex.compact size.toNat)) := by
  simp [Reply.encoding?, supportedReply]

theorem length_supportedReply_le (size : UInt64) : (supportedReply (Hex.compact size.toNat)).length ≤ 90 := by
  have places := Hex.length_compact_le size.toNat_lt
  have texts : (ascii "PacketSize=").length = 11 ∧
      (ascii ";QThreadEvents+;swbreak+;hwbreak+;vContSupported+;multiprocess+").length = 63 := by decide
  rw [supportedReply, List.length_append, List.length_append, texts.1, texts.2]
  omega

theorem sound_supported (size : UInt64) : Sound s (s.render [.text (ascii "PacketSize="), .number size.toNat,
    .text (ascii ";QThreadEvents+;swbreak+;hwbreak+;vContSupported+;multiprocess+")]) := by
  have letters : ∀ text ∈ ["PacketSize=", ";QThreadEvents+;swbreak+;hwbreak+;vContSupported+;multiprocess+"],
      Packet.Unmarked (ascii text) := by decide
  refine sound_render (by simp [Reply.Piece.Unmarked, letters]) fun speaks => ⟨_, encoding?_supported size, ?_⟩
  exact Nat.le_trans (length_supportedReply_le size) (Nat.le_trans (by decide) speaks.room)

end

/-- Every command is answered in one of the three ways. -/
theorem answered_execute (s : Session) (c : Command) : Answered s (.ok c) (s.execute c) := by
  cases c with
  | haltReason | attached | symbols | traceStatus | resumptions | unknown =>
    exact answered_text (by decide)
  | detach pid => exact .detach
  | readRegisters => exact answered_readRegisters
  | writeRegisters digits => exact answered_writeRegisters digits
  | selectThread purpose id => exact answered_selectThread id
  | readMemory addr length => exact answered_readMemory addr length
  | writeMemory addr length digits => exact answered_writeMemory addr length digits
  | currentThread =>
    simp only [execute]
    split
    · rename_i t ht
      exact .reply [] s.listing (by simp) rfl (plain_cons_text rfl (by decide) (by decide)) (sound_currentThread ht)
        (by simp) fun _ => .inl
    · exact answered_text (by decide)
  | firstThreads =>
    exact .reply [] _ (by simp) rfl (plain_page _ _) (sound_page fun speaks _ => speaks.named.valid) (by simp)
      fun _ ht => .inr (Reply.mem_of_mem_page ht)
  | nextThreads =>
    exact .reply [] _ (by simp) rfl (plain_page _ _) (sound_page fun speaks => speaks.listed) (by simp)
      fun _ ht => .inl (Reply.mem_of_mem_page ht)
  | supported features =>
    exact .reply [] s.listing (by simp) rfl (plain_cons_text rfl (by decide) (by decide)) (sound_supported _) (by simp)
      fun _ => .inl
  | threadAlive id => exact answered_threadAlive id
  | removeBreakpoint spec => exact answered_breakpoint false spec
  | insertBreakpoint spec => exact answered_breakpoint true spec
  | resume actions =>
    simp only [execute, resumeActions]
    split
    · exact .resume ‹_›
    · exact answered_text (by decide)

/-- So is every body of a packet. -/
theorem answered_respond (s : Session) (body : List UInt8) : Answered s (Command.parse body) (s.respond body) := by
  unfold respond
  split
  · rename_i c hc
    rw [hc]
    exact answered_execute s c
  · rename_i e he
    refine answered_text ?_
    have letters : ∀ text ∈ ["", "E01", "E02", "E04"], Answers text := by decide
    apply letters
    cases e with
    | empty => simp [complaint]
    | malformed name => cases name <;> simp [complaint]

end Session
end RemoteDebug
