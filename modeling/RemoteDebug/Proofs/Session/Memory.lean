import RemoteDebug.Proofs.Kernel.Writing
import RemoteDebug.Proofs.Session.Liveness
import RemoteDebug.Proofs.Session.Sited

/-!
# Memory read and written by the client

A question for memory of the selected inferior is answered by the digits of just the bytes asked for, or by an error and
no digits at all. The words that hold these bytes are read in turn, up to the first that is not served, and nothing is
written (`Session.AnswersRead`). A command to write memory lays just its data over memory, or the first bytes of it up
to the word at which a call fails (`Session.AnswersWrite`), and what was written is read back (`Session.ReadsBack`).

What a command is answered in itself is also what the client is sent once a packet with the command is delivered
(`Session.CarriesOut`).
-/

namespace RemoteDebug.Session

open Kernel
open Packet (frame)

variable {s : Session} {command : Command} {payload : List UInt8} {k : Kernel} {cap : SpaceCap} {space : Space}
  {addr : UInt64} {length pid : Nat} {inf : Inferior} {digits data : List UInt8}

/-! ## Commands on the kernel -/

/-- The session once a packet with a body was answered by a payload, which has left kernel `k`. -/
def afterReply (s : Session) (k : Kernel) (body payload : List UInt8) : Session :=
  { s.withKernel k with
    receiver := .outside
    wire := s.wire.append (acknowledgement body ++ frame payload)
    outstanding := some ⟨frame payload, false⟩ }

/-- A request is answered by a payload and leaves kernel `k`, and so it is when a packet with the request is delivered,
whatever the receiver has taken before. -/
structure RepliesTo (s : Session) (request payload : List UInt8) (k : Kernel) : Prop where
  responds : s.respond request = (.reply (some payload), s.withKernel k)
  delivered : ∀ receiver b body, s.wire.InOrder → s.outstanding = none →
    (receiver.step s.packetSize b).2 = some (.packet body) → (Packet.splitSequenceId body).2 = request →
      (s.withReceiver receiver).receive b = (.ok none, s.afterReply k body payload)

/-- A request whose answer depends on nothing but the debuggee and the packet size is answered alike once it is heard.
-/
theorem repliesTo {request : List UInt8}
    (h : ∀ s' : Session, s'.debuggee = s.debuggee → s'.packetSize = s.packetSize →
    s'.respond request = (.reply (some payload), s'.withKernel k)) : s.RepliesTo request payload k := by
  refine ⟨h s rfl rfl, fun receiver b body order free heard asks => ?_⟩
  let listening := s.withReceiver receiver
  have responds : (listening.hear b body).respond (Packet.splitSequenceId body).2 =
      (.reply (some payload), (listening.hear b body).withKernel k) := by
    rw [asks]
    exact h (listening.hear b body) rfl rfl
  have heardOrder : ((listening.hear b body).withKernel k).wire.InOrder := order.append _
  have outside := Packet.Receiver.step_fst_of_event heard
  rw [step_of_respond (s := listening) order free heard responds, sendReply?_of_order heardOrder]
  simp only [afterReply, listening, hear, withKernel, withReceiver, outside, Except.map, Wire.append_append]

/-- A command is answered by a payload and leaves kernel `k`, and so it is when a packet with the command is delivered.
-/
structure CarriesOut (s : Session) (command : Command) (payload : List UInt8) (k : Kernel) : Prop where
  execute : s.execute command = (.reply (some payload), s.withKernel k)
  delivered : ∀ b body, s.wire.InOrder → s.outstanding = none →
    (s.receiver.step s.packetSize b).2 = some (.packet body) →
    Command.parse (Packet.splitSequenceId body).2 = .ok command →
      s.sends (.byte b) = acknowledgement body ++ frame payload ∧
        (s.step (.byte b)).debuggee = (s.withKernel k).debuggee

/-- A command whose answer depends on nothing but the debuggee and the packet size is carried out alike once it is
heard. -/
theorem carriesOut (h : ∀ s' : Session, s'.debuggee = s.debuggee → s'.packetSize = s.packetSize →
    s'.execute command = (.reply (some payload), s'.withKernel k)) : s.CarriesOut command payload k := by
  refine ⟨h s rfl rfl, fun b body order free heard asks => ?_⟩
  have replies : s.RepliesTo (Packet.splitSequenceId body).2 payload k := repliesTo fun s' same size => by
    simp only [respond, asks, h s' same size]
  have after : s.step (.byte b) = s.afterReply k body payload :=
    congrArg Prod.snd (replies.delivered s.receiver b body order free heard rfl)
  exact ⟨sends_eq (by rw [after]; rfl), by rw [after]; rfl⟩

theorem exists_current (s : Session) (cap : SpaceCap)
    (selected : s.debuggee.registry.currentInferior?.map (·.2.space) = some cap)
    (mapped : s.debuggee.kernel.spaces[cap]?.isSome = true) :
    ∃ pid inf space, s.debuggee.registry.currentInferior? = some (pid, inf) ∧
      s.debuggee.kernel.spaces[inf.space]? = some space := by
  obtain ⟨⟨pid, inf⟩, current, rfl⟩ := Option.map_eq_some_iff.1 selected
  obtain ⟨space, known⟩ := Option.isSome_iff_exists.1 mapped
  exact ⟨pid, inf, space, current, known⟩

theorem say_eq {text : String} (fits : (ascii text).length ≤ s.packetSize) :
    s.say text = (.reply (some (ascii text)), s) := by
  rw [say, answer, render, Reply.render_text fits]

/-! ## Reading -/

/-- What is answered to a question for memory, and which calls are made. -/
structure AnswersRead (s : Session) (cap : SpaceCap) (space : Space) (addr : UInt64) (length : Nat)
    (payload : List UInt8) (k : Kernel) : Prop where
  refused : s.packetSize < 2 * length ∨ 2 ^ 64 - 1 < addr.toNat + length →
    payload = ascii "E01" ∧ k = s.debuggee.kernel
  read : 2 * length ≤ s.packetSize → addr.toNat + length ≤ 2 ^ 64 - 1 →
    ∃ read unread, wordSpan addr.toNat length = read ++ unread ∧
      ReadsWords s.debuggee.kernel cap space read unread k ∧
      (unread = [] → ∃ bytes, space.memory.load addr.toNat length = some bytes ∧ payload = Hex.encode bytes ∧
        payload.length = 2 * length ∧ ∀ c ∈ payload, c ∈ Hex.lowercase) ∧
      (unread ≠ [] → payload = ascii "E04")
  unwritten : k.spaces = s.debuggee.kernel.spaces

theorem answersRead (addr : UInt64) (room : 3 ≤ s.packetSize)
    (current : s.debuggee.registry.currentInferior? = some (pid, inf))
    (known : s.debuggee.kernel.spaces[inf.space]? = some space) (filled : 1 ≤ length) :
    ∃ payload k, s.AnswersRead inf.space space addr length payload k ∧
      ∀ s' : Session, s'.debuggee = s.debuggee → s'.packetSize = s.packetSize →
        s'.execute (.readMemory addr length) = (.reply (some payload), s'.withKernel k) := by
  have texts : (ascii "E01").length = 3 ∧ (ascii "E04").length = 3 := by decide
  by_cases outside : s.packetSize < 2 * length ∨ 2 ^ 64 ≤ addr.toNat + length
  · refine ⟨ascii "E01", s.debuggee.kernel, ⟨fun _ => ⟨rfl, rfl⟩, fun _ _ => by omega, rfl⟩,
      fun s' same size => ?_⟩
    have told : s'.say "E01" = (.reply (some (ascii "E01")), s') := say_eq (by rw [texts.1, size]; exact room)
    rw [execute, readMemory, size, if_pos outside, told, withKernel, ← same]
  · obtain ⟨read, unread, split, reads, whole⟩ :=
      readsWords_readSpan addr.toNat (addr.toNat + length) (wordSpan addr.toNat length) known
    change ReadsWords _ _ _ _ _ (s.debuggee.kernel.readBytes inf.space addr.toNat length).2 at reads
    change (s.debuggee.kernel.readBytes inf.space addr.toNat length).1.isSome = true ↔ _ at whole
    have hm : s.debuggee.kernel.memory? inf.space = some space.memory := by rw [memory?, known, Option.map_some]
    have bytes_of (bytes : List UInt8) (h : (s.debuggee.kernel.readBytes inf.space addr.toNat length).1 = some bytes) :
        space.memory.load addr.toNat length = some bytes := load_of_readBytes hm filled (by omega) h
    rcases answer : s.debuggee.kernel.readBytes inf.space addr.toNat length with ⟨given, k⟩
    rw [answer] at reads whole bytes_of
    cases given with
    | none =>
      have some_left : unread ≠ [] := fun all => Bool.false_ne_true (whole.2 all)
      refine ⟨ascii "E04", k, ⟨fun out => by omega, fun _ _ => ?_, reads.spaces⟩, fun s' same size => ?_⟩
      · exact ⟨read, unread, split, reads, fun all => absurd all some_left, fun _ => rfl⟩
      · rw [execute, readMemory, size, if_neg outside, same, current]
        simp only [answer]
        exact say_eq (s := s'.withKernel k) (by rw [texts.2]; exact size ▸ room)
    | some bytes =>
      have loaded := bytes_of bytes rfl
      have count : bytes.length = length := (Memory.load_eq_some_iff _).1 loaded |>.1
      refine ⟨Hex.encode bytes, k, ⟨fun out => by omega, fun _ _ => ?_, reads.spaces⟩, fun s' same size => ?_⟩
      · refine ⟨read, unread, split, reads, fun _ => ⟨bytes, loaded, rfl, ?_, fun c => Hex.mem_encode⟩,
          fun left => ?_⟩
        · rw [Hex.length_encode, count]
        · exact absurd (whole.1 rfl) left
      · have fits : 2 * bytes.length ≤ (s'.withKernel k).packetSize := by
          show _ ≤ s'.packetSize
          omega
        rw [execute, readMemory, size, if_neg outside, same, current]
        simp only [answer, Session.answer, render, Reply.render_hexBytes fits]

/-- A question for memory of the selected inferior is answered by the bytes asked for, in order, or by an error alone.
The words that are read are those that hold a byte of the range, in ascending order, each once, up to the first that is
not served. What is kept of each lies between two places inside it, up to the top of the addresses. -/
theorem memory_read_exactly (addr : UInt64) (room : 3 ≤ s.packetSize)
    (current : s.debuggee.registry.currentInferior? = some (pid, inf))
    (known : s.debuggee.kernel.spaces[inf.space]? = some space) (filled : 1 ≤ length) :
    (∀ i, i ∈ wordSpan addr.toNat length ↔ ∃ a, addr.toNat ≤ a ∧ a < addr.toNat + length ∧ a / 8 = i) ∧
      (wordSpan addr.toNat length).Pairwise (· < ·) ∧
      (addr.toNat + length ≤ 2 ^ 64 - 1 → ∀ i ∈ wordSpan addr.toNat length,
        Placed addr.toNat (addr.toNat + length) i) ∧
      ∃ payload k, s.AnswersRead inf.space space addr length payload k ∧
        s.CarriesOut (.readMemory addr length) payload k := by
  obtain ⟨payload, k, answers, alike⟩ := answersRead addr room current known filled
  exact ⟨fun i => mem_wordSpan filled, pairwise_wordSpan _ _, fun bounded i => placed_of_mem filled (by omega),
    payload, k, answers, carriesOut alike⟩

/-- Nine bytes up to the top of the addresses are read from two words, and four bytes that begin in an unmapped word are
not read. -/
theorem top_of_memory_read :
    ∃ s, start? {} Wire.fresh Kernel.empty = .ok s ∧
      let here :=
        s.run [.addInferior 7 ⟨Memory.empty.mapWords 0xfffffffffffffff0 2 0x0706050403020100, fun _ _ => false⟩,
        .addThread 1 8 .fresh, .fault 7 8 .softwareBreak, .byte Packet.acceptance]
      ∃ pid inf space, here.debuggee.registry.currentInferior? = some (pid, inf) ∧
        here.debuggee.kernel.spaces[inf.space]? = some space ∧
        (∃ k, here.AnswersRead inf.space space 0xfffffffffffffff6 9 (ascii "060700010203040506") k ∧
          here.CarriesOut (.readMemory 0xfffffffffffffff6 9) (ascii "060700010203040506") k) ∧
        ∃ k, here.AnswersRead inf.space space 0xffffffffffffffee 4 (ascii "E04") k ∧
          here.CarriesOut (.readMemory 0xffffffffffffffee 4) (ascii "E04") k := by
  let s : Session := ⟨Debuggee.empty 64 256 32, Wire.fresh, 2048, .outside, true, none, [], []⟩
  refine ⟨s, rfl, ?_⟩
  intro here
  obtain ⟨pid, inf, space, current, known⟩ := here.exists_current 0 (by decide +kernel) (by decide +kernel)
  have room : 3 ≤ here.packetSize := by decide +kernel
  have whole : (here.execute (.readMemory 0xfffffffffffffff6 9)).1 = .reply (some (ascii "060700010203040506")) := by
    decide +kernel
  have failed : (here.execute (.readMemory 0xffffffffffffffee 4)).1 = .reply (some (ascii "E04")) := by decide +kernel
  refine ⟨pid, inf, space, current, known, ?_, ?_⟩
  · obtain ⟨-, -, -, payload, k, answers, carries⟩ :=
      memory_read_exactly 0xfffffffffffffff6 room current known (by decide : 1 ≤ 9)
    rw [carries.execute, Response.reply.injEq, Option.some.injEq] at whole
    exact ⟨k, whole ▸ answers, whole ▸ carries⟩
  · obtain ⟨-, -, -, payload, k, answers, carries⟩ :=
      memory_read_exactly 0xffffffffffffffee room current known (by decide : 1 ≤ 4)
    rw [carries.execute, Response.reply.injEq, Option.some.injEq] at failed
    exact ⟨k, failed ▸ answers, failed ▸ carries⟩

/-! ## Writing -/

/-- What is answered to a command to write memory, and what becomes of memory. -/
structure AnswersWrite (s : Session) (cap : SpaceCap) (memory : Memory) (addr : UInt64) (data payload : List UInt8)
    (k : Kernel) : Prop where
  refused : 2 ^ 64 - 1 < addr.toNat + data.length → payload = ascii "E02" ∧ k = s.debuggee.kernel
  written : addr.toNat + data.length ≤ 2 ^ 64 - 1 →
    (payload = ascii "OK" ∧ k.memory? cap = some (memory.store addr.toNat data) ∧
      Lays s.debuggee.kernel cap addr.toNat data [] k) ∨
    payload = ascii "E03" ∧ ∃ n last, n < data.length ∧ (n = 0 ∨ 8 ∣ addr.toNat + n) ∧
      k.memory? cap = some (memory.store addr.toNat (data.take n)) ∧
      Lays s.debuggee.kernel cap addr.toNat (data.take n) last k ∧ StopsAt last cap ((addr.toNat + n) / 8)

/-- A question for memory is answered by certain digits as long as memory is as given and no read of it is refused. -/
def ReadsBack (cap : SpaceCap) (memory : Memory) (addr : UInt64) (length : Nat) (digits : List UInt8) : Prop :=
  ∀ (later : Session) (pid : Nat) (inf : Inferior) (space : Space),
    later.debuggee.registry.currentInferior? = some (pid, inf) → inf.space = cap →
    later.debuggee.kernel.spaces[cap]? = some space → space.memory = memory → 2 * length ≤ later.packetSize →
    (∀ j i, (wordSpan addr.toNat length)[j]? = some i →
      space.refuses (later.debuggee.kernel.history.size + j) (.read (UInt64.ofNat (8 * i))) = false) →
    ∃ k, later.CarriesOut (.readMemory addr length) digits k

theorem answersWrite (addr : UInt64) (room : 3 ≤ s.packetSize)
    (current : s.debuggee.registry.currentInferior? = some (pid, inf))
    (known : s.debuggee.kernel.spaces[inf.space]? = some space) (decoded : Hex.decode? digits = some data) :
    ∃ payload k, s.AnswersWrite inf.space space.memory addr data payload k ∧
      ∀ s' : Session, s'.debuggee = s.debuggee → s'.packetSize = s.packetSize →
        s'.execute (.writeMemory addr data.length digits) = (.reply (some payload), s'.withKernel k) := by
  have texts : (ascii "E02").length = 3 ∧ (ascii "E03").length = 3 ∧ (ascii "OK").length = 2 := by decide
  have hm : s.debuggee.kernel.memory? inf.space = some space.memory := by rw [memory?, known, Option.map_some]
  by_cases outside : 2 ^ 64 ≤ addr.toNat + data.length
  · refine ⟨ascii "E02", s.debuggee.kernel, ⟨fun _ => ⟨rfl, rfl⟩, fun _ => by omega⟩,
      fun s' same size => ?_⟩
    have told : s'.say "E02" = (.reply (some (ascii "E02")), s') := say_eq (by rw [texts.1, size]; exact room)
    simp only [execute, writeMemory, decoded, if_pos outside]
    rw [told, withKernel, ← same]
  · have inside : addr.toNat + data.length ≤ 2 ^ 64 := by omega
    have written := written_writeBytes s.debuggee.kernel inf.space inside
    rcases result : s.debuggee.kernel.writeBytes inf.space addr.toNat data with ⟨done, k⟩
    rw [result] at written
    cases written with
    | all lays =>
      refine ⟨ascii "OK", k, ⟨fun out => by omega, fun _ => .inl ⟨rfl, lays.memory _ hm, lays⟩⟩,
        fun s' same size => ?_⟩
      simp only [execute, writeMemory, decoded, if_neg outside, same, current, result]
      exact say_eq (s := s'.withKernel k) (by rw [texts.2.2]; exact Nat.le_trans (by decide) (size ▸ room))
    | @part _ n last short edge stops lays =>
      refine ⟨ascii "E03", k,
        ⟨fun out => by omega, fun _ => .inr ⟨rfl, n, last, short, edge, lays.memory _ hm, lays,
        stops⟩⟩, fun s' same size => ?_⟩
      simp only [execute, writeMemory, decoded, if_neg outside, same, current, result]
      exact say_eq (s := s'.withKernel k) (by rw [texts.2.1]; exact size ▸ room)

/-- What was laid over memory is what a question for it is answered by. -/
theorem readsBack_of_lays {k' : Kernel} {memory : Memory} (hm : k.memory? cap = some memory)
    (lays : Lays k cap addr.toNat data [] k') (filled : 1 ≤ data.length)
    (bounded : addr.toNat + data.length < 2 ^ 64) :
    ReadsBack cap (memory.store addr.toNat data) addr data.length (Hex.encode data) := by
  rintro later pid inf space current rfl known stored fits granted
  have given := readBytes_of_stored known stored filled bounded (lays.mapped memory hm) granted
  rcases result : later.debuggee.kernel.readBytes inf.space addr.toNat data.length with ⟨answer, k₁⟩
  rw [result] at given
  obtain rfl : answer = some data := given
  have inside : ¬ (later.packetSize < 2 * data.length ∨ 2 ^ 64 ≤ addr.toNat + data.length) := by omega
  refine ⟨k₁, carriesOut fun s' same size => ?_⟩
  have written : Reply.render (s'.withKernel k₁).packetSize [.hexBytes data] = some (Hex.encode data) :=
    Reply.render_hexBytes (size ▸ fits : 2 * data.length ≤ s'.packetSize)
  simp only [execute, readMemory, size, if_neg inside, same, current, result, Session.answer, render, written]

/-- A command to write memory of the selected inferior has its data laid over memory and nothing else changed, or just
the first bytes of it, up to the start of a word, on which a call failed, and which was the last that was touched. What
is written is read back with the same digits in lowercase. -/
theorem memory_write_exactly {body : List UInt8} (room : 3 ≤ s.packetSize)
    (current : s.debuggee.registry.currentInferior? = some (pid, inf))
    (known : s.debuggee.kernel.spaces[inf.space]? = some space)
    (parsed : Command.parse body = .ok (.writeMemory addr length digits)) :
    ∃ data payload k, Hex.decode? digits = some data ∧ data.length = length ∧
      s.AnswersWrite inf.space space.memory addr data payload k ∧
      s.CarriesOut (.writeMemory addr length digits) payload k ∧
      (payload = ascii "OK" → 1 ≤ length →
        ReadsBack inf.space (space.memory.store addr.toNat data) addr length (digits.map Hex.lower)) := by
  obtain ⟨even, all_digits⟩ := Command.digits_of_parse parsed
  obtain ⟨data, decoded⟩ := Hex.exists_decode? all_digits even
  obtain rfl : data.length = length := by
    have twice := Hex.length_of_decode? decoded
    omega
  have hm : s.debuggee.kernel.memory? inf.space = some space.memory := by rw [memory?, known, Option.map_some]
  obtain ⟨payload, k, answers, alike⟩ := answersWrite addr room current known decoded
  refine ⟨data, payload, k, decoded, rfl, answers, carriesOut alike, fun ok filled => ?_⟩
  have differ : ascii "OK" ≠ ascii "E02" ∧ ascii "OK" ≠ ascii "E03" := by decide
  have bounded : addr.toNat + data.length ≤ 2 ^ 64 - 1 := by
    refine Nat.le_of_not_lt fun out => ?_
    exact differ.1 (ok.symm.trans (answers.refused out).1)
  rcases answers.written bounded with ⟨-, -, lays⟩ | ⟨failed, -⟩
  · rw [← Hex.encode_of_decode? decoded]
    exact readsBack_of_lays hm lays filled (by omega)
  · exact absurd (ok.symm.trans failed) differ.2

/-- Four bytes are written across two words and read back. Twelve bytes are written up to the end of what is mapped,
which is ten of them, and the failure is told. -/
theorem written_across_words :
    ∃ s, start? {} Wire.fresh Kernel.empty = .ok s ∧
      let here := s.run [.addInferior 7 ⟨Memory.empty.mapWords 0x1000 2 0x0706050403020100, fun _ _ => false⟩,
        .addThread 1 8 .fresh, .fault 7 8 .softwareBreak, .byte Packet.acceptance]
      ∃ pid inf space, here.debuggee.registry.currentInferior? = some (pid, inf) ∧
        here.debuggee.kernel.spaces[inf.space]? = some space ∧
        (∃ data k, Hex.decode? (ascii "AABBccdd") = some data ∧
          here.AnswersWrite inf.space space.memory 0x1006 data (ascii "OK") k ∧
          here.CarriesOut (.writeMemory 0x1006 4 (ascii "AABBccdd")) (ascii "OK") k ∧
          ReadsBack inf.space (space.memory.store 0x1006 data) 0x1006 4 (ascii "aabbccdd")) ∧
        ∃ data k, Hex.decode? (ascii "000102030405060708090a0b") = some data ∧
          here.AnswersWrite inf.space space.memory 0x1006 data (ascii "E03") k ∧
          here.CarriesOut (.writeMemory 0x1006 12 (ascii "000102030405060708090a0b")) (ascii "E03") k := by
  let s : Session := ⟨Debuggee.empty 64 256 32, Wire.fresh, 2048, .outside, true, none, [], []⟩
  refine ⟨s, rfl, ?_⟩
  intro here
  obtain ⟨pid, inf, space, current, known⟩ := here.exists_current 0 (by decide +kernel) (by decide +kernel)
  have room : 3 ≤ here.packetSize := by decide +kernel
  have whole : (here.execute (.writeMemory 0x1006 4 (ascii "AABBccdd"))).1 = .reply (some (ascii "OK")) := by
    decide +kernel
  have failed : (here.execute (.writeMemory 0x1006 12 (ascii "000102030405060708090a0b"))).1 =
      .reply (some (ascii "E03")) := by decide +kernel
  refine ⟨pid, inf, space, current, known, ?_, ?_⟩
  · have parsed : Command.parse (ascii "M1006,4:AABBccdd") = .ok (.writeMemory 0x1006 4 (ascii "AABBccdd")) := by
      decide +kernel
    obtain ⟨data, payload, k, decoded, -, answers, carries, back⟩ := memory_write_exactly room current known parsed
    rw [carries.execute, Response.reply.injEq, Option.some.injEq] at whole
    exact ⟨data, k, decoded, whole ▸ answers, whole ▸ carries, back whole (by decide)⟩
  · have parsed : Command.parse (ascii "M1006,c:000102030405060708090a0b") =
        .ok (.writeMemory 0x1006 12 (ascii "000102030405060708090a0b")) := by decide +kernel
    obtain ⟨data, payload, k, decoded, -, answers, carries, -⟩ := memory_write_exactly room current known parsed
    rw [carries.execute, Response.reply.injEq, Option.some.injEq] at failed
    exact ⟨data, k, decoded, failed ▸ answers, failed ▸ carries⟩

end RemoteDebug.Session
