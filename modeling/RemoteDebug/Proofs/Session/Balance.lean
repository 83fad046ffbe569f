import RemoteDebug.Proofs.Session.Telling

/-!
# One input and the stops kept for the client

One input moves stops from the front of the queue to the wire and from the kernel to its end (`Session.Balanced`,
`Session.balanced_step`), since a stop that is told at once finds the queue empty. Over a run, what is kept is what was
told and then what is queued (`Session.keptFrom_eq`).
-/

namespace RemoteDebug.Session

/-- What an input does to the stops that are kept for the client. -/
structure Balanced (s : Session) (i : Input) : Prop where
  queue : s.detaches i = false →
    s.queue ++ (s.accepted? i).toList = (s.told? i).toList ++ (s.step i).queue
  left : s.detaches i = true → s.accepted? i = none ∧ s.told? i = none ∧ (s.step i).queue = []
  occasion : ∀ stop, s.told? i = some stop → Occasion s stop i
  halted : ∀ stop, s.told? i = some stop →
    (s.step i).running = false ∧ (s.step i).outstanding = some ⟨Packet.frame stop.written, false⟩

namespace Balanced

variable {s : Session} {i : Input}

/-- An input that tells nothing and leaves the queue alone. -/
theorem of_quiet (stays : s.detaches i = false) (new : s.accepted? i = none) (quiet : s.told? i = none)
    (same : (s.step i).queue = s.queue) : s.Balanced i :=
  ⟨fun _ => by simp [new, quiet, same], fun h => (Bool.false_ne_true (stays.symm.trans h)).elim,
    fun stop h => by simp [quiet] at h, fun stop h => by simp [quiet] at h⟩

/-- An input with which the client leaves. -/
theorem of_left (left : s.detaches i = true) (new : s.accepted? i = none) (quiet : s.told? i = none)
    (empty : (s.step i).queue = []) : s.Balanced i :=
  ⟨fun h => (Bool.false_ne_true (h.symm.trans left)).elim, fun _ => ⟨new, quiet, empty⟩,
    fun stop h => by simp [quiet] at h, fun stop h => by simp [quiet] at h⟩

/-- An input that tells of a stop. -/
theorem of_told (stop : StopReason) (stays : s.detaches i = false) (told : s.told? i = some stop)
    (moved : s.queue ++ (s.accepted? i).toList = stop :: (s.step i).queue) (occasion : Occasion s stop i)
    (halted : (s.step i).running = false)
    (waits : (s.step i).outstanding = some ⟨Packet.frame stop.written, false⟩) : s.Balanced i := by
  have only : ∀ stop', s.told? i = some stop' → stop' = stop := fun stop' h => Option.some.inj (h.symm.trans told)
  refine ⟨fun _ => by simp [told, moved], fun h => (Bool.false_ne_true (stays.symm.trans h)).elim, ?_, ?_⟩
  · intro stop' h
    rw [only stop' h]
    exact occasion
  · intro stop' h
    rw [only stop' h]
    exact ⟨halted, waits⟩

end Balanced

/-! ## Bytes of the client -/

section Byte

variable {s s' : Session} {b : UInt8}

/-- What the client is told when it sends a byte: nothing, or of the first stop in the queue if the stop reply fits. -/
inductive Tells (s : Session) (b : UInt8) (s' : Session) : Prop
  | nothing (quiet : s.told? (.byte b) = none) (stays : s.detaches (.byte b) = false → s'.queue = s.queue)
      (leaves : s.detaches (.byte b) = true → s'.queue = []) : Tells s b s'
  | first {s₁ : Session} {before : List UInt8} {stop : StopReason} {queue : List StopReason}
      {r : Except SessionError Unit} (stays : s.detaches (.byte b) = false) (once : s.repeats (.byte b) = false)
      (queued : s.queue = stop :: queue) (reply : Replied (s₁.halt stop) (s.render stop.pieces) r s')
      (rest : s₁.queue = queue) (mark : Packet.opening ∉ before) (sends : s₁.wire = s.wire.append before)
      (occasion : r = .ok () → Occasion s stop (.byte b)) : Tells s b s'

theorem tells_took {r : Except SessionError (Option SessionEvent)} (h : Took s b r s') (hs : s.Legible)
    (hr : (s.receive b).1 = r) (hs' : s.step (.byte b) = s') : Tells s b s' := by
  have nothing : Packet.opening ∉ ([] : List UInt8) := List.not_mem_nil
  have noBytes (w : Wire) : w = w.append [] := by simp [Wire.append]
  have calm (stays : s.detaches (.byte b) = false) (quiet : s.told? (.byte b) = none) (same : s'.queue = s.queue) :
      Tells s b s' := .nothing quiet (fun _ => same) fun leaves => (Bool.false_ne_true (stays.symm.trans leaves)).elim
  have left (leaves : s.detaches (.byte b) = true) (quiet : s.told? (.byte b) = none) (empty : s'.queue = []) :
      Tells s b s' := .nothing quiet (fun stays => (Bool.false_ne_true (stays.symm.trans leaves)).elim) fun _ => empty
  cases h with
  | @again o r wire waits refuses sends =>
    exact calm (detaches_of_waits waits) (by simp [told?, repeats, waits, refuses]) rfl
  | @acknowledged o waits accepts calm' empty =>
    refine calm (detaches_of_waits waits) ?_ rfl
    rw [told?_eq [] (repeats_of_accepts accepts) (by rw [hs']; exact noBytes _)]
    rfl
  | @nextStop o stop queue r s' waits accepts calm' runs queued reply =>
    refine .first (detaches_of_waits waits) (repeats_of_accepts accepts) queued reply rfl nothing (noBytes _)
      fun _ => ?_
    rw [accepts]
    exact .onAcknowledgement runs (by rw [waits]; rfl) (by rw [queued]; rfl)
  | @lateInterrupt o r s' waits accepts asked reply =>
    refine calm (detaches_of_waits waits) ?_ reply.queue_eq
    exact told?_of_plain (repeats_of_accepts accepts) (by rw [hs']) reply hs.order (noBytes _) nothing
      s.plain_interruptReply
  | @incomplete receiver free heard =>
    refine calm (by simp [detaches, command?, heard]) ?_ rfl
    rw [told?_eq [] (repeats_of_free free) (by rw [hs']; exact noBytes _)]
    rfl
  | @interrupt receiver r s' free heard reply =>
    refine calm (by simp [detaches, command?, heard]) ?_ reply.queue_eq
    exact told?_of_plain (repeats_of_free free) (by rw [hs']) reply hs.order (noBytes _) nothing s.plain_interruptReply
  | @refused receiver claimed computed r wire free heard sends =>
    refine calm (by simp [detaches, command?, heard]) ?_ rfl
    rw [told?_eq _ (repeats_of_free free) (by rw [hs']; exact sends hs.order)]
    rfl
  | unheard _ _ broken => exact absurd hs.order broken
  | @answered receiver body wire ops listing payload r s' free heard sends stays quiet plain reply =>
    refine calm ?_ ?_ reply.queue_eq
    · cases hc : s.command? b with
      | none => simp [detaches, hc]
      | some command => exact detaches_of_asks hc fun pid h => stays pid (by rw [hc, h])
    · exact told?_of_plain (repeats_of_free free) (by rw [hs']) reply hs.order (sends hs.order)
        (opening_not_mem_acknowledgement hs.clean heard) plain
  | @resumed receiver body wire actions free heard sends asks parsed empty =>
    refine calm (detaches_of_asks asks fun pid => by simp) ?_ rfl
    rw [told?_eq _ (repeats_of_free free) (by rw [hs']; exact sends hs.order),
      Packet.unframe?_of_not_mem (opening_not_mem_acknowledgement hs.clean heard)]
    rfl
  | @stopInstead receiver body wire actions stop queue r s' free heard sends asks parsed queued reply =>
    refine .first (detaches_of_asks asks fun pid => by simp) (repeats_of_free free) queued reply rfl
      (opening_not_mem_acknowledgement hs.clean heard) (sends hs.order) fun hok => ?_
    exact .insteadOfResuming free asks parsed (by rw [hr, hok]; rfl) (by rw [queued]; rfl)
  | @left receiver body wire pid s₂ free heard sends asks reply =>
    refine left (by simp [detaches, asks]) ?_ reply.queue_eq
    exact told?_of_plain (repeats_of_free free) (by rw [hs']) reply hs.order (sends hs.order)
      (opening_not_mem_acknowledgement hs.clean heard) (plain_text (by decide))
  | @stuck receiver body wire pid e s' free heard sends asks reply =>
    refine left (by simp [detaches, asks]) ?_ reply.queue_eq
    exact told?_of_plain (repeats_of_free free) (by rw [hs']) reply hs.order (sends hs.order)
      (opening_not_mem_acknowledgement hs.clean heard) (plain_text (by decide))

/-- With room for every stop reply, the first stop in the queue is told of when it is taken out. -/
theorem balanced_of_tells (h : Tells s b s') (hs : s.Ready) (hs' : s.step (.byte b) = s') : s.Balanced (.byte b) := by
  cases h with
  | nothing quiet stays leaves =>
    cases hd : s.detaches (.byte b) with
    | true => exact .of_left hd rfl quiet (by rw [hs']; exact leaves hd)
    | false => exact .of_quiet hd rfl quiet (by rw [hs']; exact stays hd)
  | @first s₁ before stop queue r stays once queued reply rest mark sends occasion =>
    have valid : stop.Valid := hs.valid stop (by rw [queued]; exact List.mem_cons_self)
    have fits : s.render stop.pieces = some stop.written := StopReason.render_pieces hs.room valid
    have order : (s₁.halt stop).wire.InOrder := by
      show s₁.wire.InOrder
      rw [sends]
      exact hs.order.append _
    rw [fits] at reply
    obtain ⟨hr, hrun, hout⟩ := reply.of_some order
    have sent : (s.step (.byte b)).wire = s.wire.append (before ++ frames (some stop.written)) := by
      rw [hs', reply.wire_eq order, ← Wire.append_append, ← sends]
      rfl
    refine .of_told stop stays ?_ ?_ (occasion hr) ?_ ?_
    · rw [told?_eq _ once sent]
      exact read_stop mark valid
    · have hsame : (s.step (.byte b)).queue = queue := by
        rw [hs', reply.queue_eq, ← rest]
        rfl
      simp [hsame, queued, accepted?]
    · rw [hs', hrun]
      rfl
    · rw [hs', hout]

end Byte

/-! ## Reports of the kernel -/

section Report

variable {s s' : Session} {i : Input} {accepted : Option StopReason}

theorem balanced_noted (h : Noted s i accepted s') (hs : s.Ready) (ha : s.accepted? i = accepted)
    (hs' : s.step i = s') (once : s.repeats i = false) (stays : s.detaches i = false) : s.Balanced i := by
  have noBytes (w : Wire) : w = w.append [] := by simp [Wire.append]
  -- an input that leaves the wire alone tells of nothing
  have silent (hw : s'.wire = s.wire) : s.told? i = none := by
    rw [told?_eq [] once (by rw [hs', hw]; exact noBytes _)]
    rfl
  cases h with
  | ignored _ _ _ => exact .of_quiet stays ha (silent rfl) (by rw [hs'])
  | @reported before after stop r _ _ _ registered report =>
    have valid := registered_valid hs.toLegible registered
    cases report with
    | told runs free reply =>
      have fits : s.render stop.pieces = some stop.written := StopReason.render_pieces hs.room valid
      have sendsStop : Replied (halt { s with debuggee :=
          ((s.debuggee.performAll before).perform .suspendAll).performAll after } stop) (some stop.written) r s' := by
        rw [← fits]
        exact reply
      obtain ⟨hr, hrun, hout⟩ := sendsStop.of_some hs.order
      have new : s.accepted? i = some stop := by rw [ha, hr]; rfl
      have empty : s.queue = [] := hs.drained runs free
      have same : (s.step i).queue = [] := by
        rw [hs', sendsStop.queue_eq, ← empty]
        rfl
      refine .of_told stop stays ?_ (by simp [new, empty, same]) (.atOnce runs free new) ?_ ?_
      · have sent : (s.step i).wire = s.wire.append ([] ++ frames (some stop.written)) := by
          rw [hs', sendsStop.wire_eq hs.order]
          rfl
        rw [told?_eq _ once sent]
        exact read_stop List.not_mem_nil valid
      · rw [hs', hrun]
        rfl
      · rw [hs', hout]
    | queued waits =>
      have quiet := silent rfl
      have new : s.accepted? i = some stop := ha
      refine ⟨fun _ => by simp [new, quiet, hs'], fun h => (Bool.false_ne_true (stays.symm.trans h)).elim, ?_, ?_⟩
      · intro stop' h
        simp [quiet] at h
      · intro stop' h
        simp [quiet] at h

end Report

/-! ## Inputs and runs -/

section Run

variable {s : Session} {inputs : List Input}

/-- An input of which the client hears nothing. -/
theorem balanced_of_silent {i : Input} (once : s.repeats i = false) (stays : s.detaches i = false)
    (new : s.accepted? i = none) (hw : (s.step i).wire = s.wire) (hq : (s.step i).queue = s.queue) :
    s.Balanced i := by
  refine .of_quiet stays new ?_ hq
  rw [told?_eq [] once (by rw [hw]; simp [Wire.append])]
  rfl

theorem balanced_step (hs : s.Ready) (i : Input) (hi : i.KeepsOrder) : s.Balanced i := by
  cases i with
  | byte b => exact balanced_of_tells (tells_took (took_receive s b) hs.toLegible rfl rfl) hs rfl
  | fault | spawn | exit => exact balanced_noted (noted_of_reports trivial) hs rfl rfl rfl rfl
  | addInferior | addThread | disable => exact balanced_of_silent rfl rfl rfl rfl rfl
  | wire budget flushFails =>
    obtain ⟨hb, hf⟩ := hs.order
    obtain ⟨hb', hf'⟩ := hi
    refine balanced_of_silent rfl rfl rfl ?_ rfl
    simp only [step, hb', hf', ← hb, ← hf]

/-- On what occasions the client is told of a stop. -/
theorem occasion_of_told? (hs : s.Ready) {i : Input} {stop : StopReason} (h : s.told? i = some stop) :
    Occasion s stop i := by
  cases i with
  | wire budget flushFails =>
    have nothing : s.sends (.wire budget flushFails) = [] := by simp [sends, step]
    have quiet : s.told? (.wire budget flushFails) = none := by
      simp only [told?, nothing]
      rfl
    cases quiet.symm.trans h
  | byte | fault | spawn | exit | addInferior | addThread | disable =>
    refine (balanced_step hs _ ?_).occasion stop h
    trivial

/-- What is kept is told or queued, in the order of its acceptance. -/
theorem keptFrom_eq (before : List StopReason) (hs : s.Ready) (hi : ∀ i ∈ inputs, i.KeepsOrder) :
    s.keptFrom (before ++ s.queue) inputs = before ++ s.told inputs ++ (s.run inputs).queue := by
  induction inputs generalizing s before with
  | nil => simp [keptFrom, told]
  | cons i inputs ih =>
    have hi' := hi i List.mem_cons_self
    have balanced := balanced_step hs i hi'
    have next (before : List StopReason) :=
      ih before (ready_step hs i hi') fun j hj => hi j (List.mem_cons_of_mem _ hj)
    cases hd : s.detaches i with
    | true =>
      obtain ⟨new, quiet, empty⟩ := balanced.left hd
      have rest := next before
      rw [empty, List.append_nil] at rest
      simp [keptFrom, hd, new, told, quiet, rest]
    | false =>
      have moved : before ++ s.queue ++ (s.accepted? i).toList =
          before ++ (s.told? i).toList ++ (s.step i).queue := by
        rw [List.append_assoc, balanced.queue hd, List.append_assoc]
      simp only [keptFrom, hd, Bool.false_eq_true, if_false, moved, next]
      simp [told]

end Run

end RemoteDebug.Session
