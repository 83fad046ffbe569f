import RemoteDebug.Proofs.Session.Ready
import RemoteDebug.Proofs.Session.Sited

/-!
# Memory once no trap is left

A client may set traps anywhere, and take them off in any order. Once none is left, memory is what the traps left behind
(`Session.memory_without_traps`): if two traps have overlapped, the one that went in later may put back bytes of the
other (`Session.overlapping_traps_leave_bytes`). Where instructions are aligned this cannot happen: memory is then what
the client wrote (`Session.overlays_run`).
-/

namespace RemoteDebug

open Kernel

/-- A piece of memory that a client asks to be written, and the traps that lie in memory by then. -/
structure Write where
  addr : Nat
  data : List UInt8
  traps : List Patch

/-- An address is written to. -/
def Write.Reaches (w : Write) (a : Nat) : Prop := w.addr ≤ a ∧ a < w.addr + w.data.length

/-- No trap is written over. -/
def Write.Beside (w : Write) : Prop :=
  ∀ p ∈ w.traps, w.addr + w.data.length ≤ p.addr.toNat ∨ p.addr.toNat + 4 ≤ w.addr

/-- Writes in turn. -/
def Kernel.Memory.overwrite (m : Memory) (ws : List Write) : Memory := ws.foldl (fun m w => m.store w.addr w.data) m

theorem Kernel.Memory.byte?_overwrite {m : Memory} {ws : List Write} {a : Nat} (h : ∀ w ∈ ws, ¬ w.Reaches a) :
    (m.overwrite ws).byte? a = m.byte? a := by
  induction ws generalizing m with
  | nil => rfl
  | cons w ws ih =>
    have rest := @ih (m.store w.addr w.data) fun w' hw => h w' (List.mem_cons_of_mem _ hw)
    have away : ¬ (w.addr ≤ a ∧ a < w.addr + w.data.length) := h w List.mem_cons_self
    have first : (m.store w.addr w.data).byte? a = m.byte? a := by rw [byte?_store, if_neg away]
    exact rest.trans first

namespace Session

/-- The traps that are recorded of an inferior. -/
def traps (s : Session) (pid : Nat) : List Patch := ((s.image? pid).map fun image => image.1.patchList).getD []

/-- The traps that inputs take off an inferior, in turn. -/
def takenOff (s : Session) (pid : Nat) : List Input → List Patch
  | [] => []
  | i :: rest => (s.traps pid).filter (· ∉ (s.step i).traps pid) ++ (s.step i).takenOff pid rest

/-- What inputs ask to be written to the memory of an inferior. -/
def writes (s : Session) (pid : Nat) : List Input → List Write
  | [] => []
  | i :: rest => (s.written? pid i).toList.map (fun w => ⟨w.1, w.2, s.traps pid⟩) ++ (s.step i).writes pid rest

/-- Inputs through which an inferior stays and all calls on memory are done. What they ask to be written is written. -/
structure Spares (s : Session) (pid : Nat) (inputs : List Input) : Prop where
  stays : .disable pid ∉ inputs
  done : MemoryDone s.debuggee.kernel (s.run inputs).debuggee.kernel
  order : (s.Legible ∧ ∀ i ∈ inputs, i.KeepsOrder) ∨ s.writes pid inputs = []

variable {s : Session} {i : Input} {inputs rest : List Input} {pid maxPatches : Nat} {t : BreakpointTable}
  {clean m : Memory}

theorem traps_eq (h : s.image? pid = some (t, m)) : s.traps pid = t.patchList := by rw [traps, h]; rfl

theorem written?_of_writes (h : s.writes pid (i :: rest) = []) :
    s.written? pid i = none ∧ (s.step i).writes pid rest = [] := by
  obtain ⟨now, later⟩ := List.append_eq_nil_iff.1 h
  exact ⟨by simpa using now, later⟩

/-- A trap is taken off before none is left. -/
theorem mem_takenOff {p : Patch} (h : p ∈ s.traps pid) (left : (s.run inputs).traps pid = []) :
    p ∈ s.takenOff pid inputs := by
  induction inputs generalizing s with
  | nil =>
    rw [run_nil] at left
    rw [left] at h
    cases h
  | cons i rest ih =>
    by_cases stays : p ∈ (s.step i).traps pid
    · exact List.mem_append_right _ (ih stays left)
    · exact List.mem_append_left _ (List.mem_filter.2 ⟨h, by simpa using stays⟩)

theorem Spares.step (h : s.Spares pid (i :: rest)) (sited : s.Sited maxPatches) (himage : s.image? pid = some (t, m)) :
    (s.step i).Spares pid rest ∧ ∃ t' m', (s.step i).image? pid = some (t', m') ∧
      t.Treats m (s.written? pid i) t' m' := by
  obtain ⟨first, later⟩ := h.done.split_of_grown (s.history_step i) ((s.step i).history_run rest)
  have stays : i ≠ .disable pid := fun heq => h.stays (heq ▸ List.mem_cons_self)
  have orders : ((s.step i).Legible ∧ ∀ j ∈ rest, j.KeepsOrder) ∨ (s.step i).writes pid rest = [] := by
    rcases h.order with ⟨legible, keeps⟩ | nothing
    · exact .inl ⟨legible_step legible i (keeps i List.mem_cons_self),
        fun j hj => keeps j (List.mem_cons_of_mem _ hj)⟩
    · exact .inr (written?_of_writes nothing).2
  refine ⟨⟨fun hmem => h.stays (List.mem_cons_of_mem _ hmem), later, orders⟩,
    treats_step sited first ?_ stays himage⟩
  exact h.order.imp (fun order => order.1.order) fun nothing => (written?_of_writes nothing).1

/-- The inferior is there afterwards. -/
theorem Spares.image (h : s.Spares pid inputs) (sited : s.Sited maxPatches) (himage : s.image? pid = some (t, m)) :
    ∃ t' m', (s.run inputs).image? pid = some (t', m') := by
  induction inputs generalizing s t m with
  | nil => exact ⟨t, m, himage⟩
  | cons i rest ih =>
    obtain ⟨later, t', m', himage', -⟩ := h.step sited himage
    exact ih later (sited_step sited i) himage'

theorem distinct_of_image? (sited : s.Sited maxPatches) (himage : s.image? pid = some (t, m)) :
    (t.patchList.map (·.addr)).Nodup := by
  obtain ⟨inf, hinf, rfl, -⟩ := image?_eq_some_iff.1 himage
  exact (sited.tidy.proper pid inf hinf).distinct

/-- Bytes beneath no trap are what the traps taken off have left, if nothing else is written. -/
theorem left_run (h : s.Spares pid inputs) (sited : s.Sited maxPatches) (himage : s.image? pid = some (t, m))
    (alone : s.writes pid inputs = []) (bare : ∀ a, t.covers a = false → m.byte? a = clean.byte? a) :
    ∃ t' m', (s.run inputs).image? pid = some (t', m') ∧
      ∀ a, t'.covers a = false → m'.byte? a = (clean.putBack (s.takenOff pid inputs)).byte? a := by
  induction inputs generalizing s t m clean with
  | nil => exact ⟨t, m, himage, bare⟩
  | cons i rest ih =>
    obtain ⟨later, t', m', himage', treats⟩ := h.step sited himage
    obtain ⟨now, alone_later⟩ := written?_of_writes alone
    rw [now] at treats
    have bare' : ∀ a, t'.covers a = false →
        m'.byte? a = (clean.putBack (BreakpointTable.takenOff t t')).byte? a := fun a =>
      treats.left (distinct_of_image? sited himage) bare
    obtain ⟨t'', m'', himage'', rest_bare⟩ := ih later (sited_step sited i) himage' alone_later bare'
    refine ⟨t'', m'', himage'', ?_⟩
    rwa [takenOff, traps_eq himage, traps_eq himage', Memory.putBack_append]

/-- Traps over aligned instructions lie over what the client writes, as long as it writes over none of them. -/
theorem overlays_run (h : s.Spares pid inputs) (sited : s.Sited maxPatches) (himage : s.image? pid = some (t, m))
    (beside : ∀ w ∈ s.writes pid inputs, w.Beside) (aligned : ∀ p ∈ s.takenOff pid inputs, p.addr.toNat % 4 = 0)
    (left : (s.run inputs).traps pid = []) (lies : t.Overlays clean m) :
    ∃ t' m', (s.run inputs).image? pid = some (t', m') ∧
      t'.Overlays (clean.overwrite (s.writes pid inputs)) m' := by
  induction inputs generalizing s t m clean with
  | nil => exact ⟨t, m, himage, lies⟩
  | cons i rest ih =>
    obtain ⟨later, t', m', himage', treats⟩ := h.step sited himage
    have aligned_later : ∀ p ∈ (s.step i).takenOff pid rest, p.addr.toNat % 4 = 0 := fun p hp =>
      aligned p (List.mem_append_right _ hp)
    -- what is recorded now is taken off later
    have aligned_now : ∀ p ∈ t'.patchList, p.addr.toNat % 4 = 0 := fun p hp =>
      aligned_later p (mem_takenOff (by rwa [traps_eq himage']) left)
    have beside_now (addr : Nat) (data : List UInt8) (hwrote : s.written? pid i = some (addr, data)) (a : Nat)
        (ha : t.covers a = true) : ¬ (addr ≤ a ∧ a < addr + data.length) := by
      obtain ⟨p, hp, low, high⟩ := BreakpointTable.covers_iff.1 ha
      have asked : ⟨addr, data, s.traps pid⟩ ∈ s.writes pid (i :: rest) :=
        List.mem_append_left _ (by simp [hwrote])
      have away := beside _ asked p (by rwa [traps_eq himage])
      dsimp only at away
      omega
    have next := ih later (sited_step sited i) himage' (fun w hw => beside w (List.mem_append_right _ hw))
      aligned_later left (treats.overlays lies aligned_now beside_now)
    have split : clean.overwrite (s.writes pid (i :: rest)) =
        (BreakpointTable.written clean (s.written? pid i)).overwrite ((s.step i).writes pid rest) := by
      rw [writes, Memory.overwrite, List.foldl_append, ← Memory.overwrite]
      cases s.written? pid i <;> rfl
    rw [split]
    exact next

/-- A client sets traps wherever it likes and takes them off again, with all calls on memory done and nothing else
written to the inferior. Once none is left, memory is what it was with the instructions put back that the traps went
over, in the order in which they were taken off. It is what it was exactly if the last trap over each byte went in over
the byte that was there at first; and it is if instructions are aligned. -/
theorem memory_without_traps {c : Config} {wire : Wire} {s₀ : Session}
    (hstart : start? c wire Kernel.empty = .ok s₀)
    {before : List Input} (hs : s₀.run before = s) (start : s.image? pid = some (t, clean))
    (none_yet : t.patchList = [])
    (stays : .disable pid ∉ inputs) (done : MemoryDone s.debuggee.kernel (s.run inputs).debuggee.kernel)
    (alone : s.writes pid inputs = []) (left : (s.run inputs).traps pid = []) :
    ∃ t' m, (s.run inputs).image? pid = some (t', m) ∧ m = clean.putBack (s.takenOff pid inputs) ∧
      (m = clean ↔ ∀ a p, Memory.lastOver? (s.takenOff pid inputs) a = some p →
        p.instruction[a - p.addr.toNat]? = clean.byte? a) ∧
      ((∀ p ∈ s.takenOff pid inputs, p.addr.toNat % 4 = 0) → m = clean) := by
  have sited : s.Sited c.maxPatches := hs ▸ sited_run (sited_start hstart) before
  have spares : s.Spares pid inputs := ⟨stays, done, .inr alone⟩
  obtain ⟨t', m, image, bare⟩ := left_run spares sited start alone fun _ _ => rfl
  have none_left : t'.patchList = [] := by rwa [traps_eq image] at left
  have put : m = clean.putBack (s.takenOff pid inputs) := by
    ext1
    funext a
    exact bare a (BreakpointTable.covers_eq_false_iff.2 fun p hp => by rw [none_left] at hp; cases hp)
  refine ⟨t', m, image, put, ?_, fun aligned => ?_⟩
  · rw [put]
    exact Memory.putBack_eq_iff
  · have beside : ∀ w ∈ s.writes pid inputs, w.Beside := by simp [alone]
    obtain ⟨t'', m', image', lies⟩ := overlays_run spares sited start beside aligned left (.refl none_yet clean)
    obtain ⟨rfl, rfl⟩ := Prod.mk.inj (Option.some.inj (image.symm.trans image'))
    rw [lies.eq_of_patchList_eq_nil none_left, alone]
    rfl

/-- The packet with a body, and the acknowledgement of its reply. -/
def Input.ask (text : String) : List Input := (Packet.frame (ascii text) ++ [Packet.acceptance]).map .byte

/-- Two traps side by side, of which the client takes off one and leaves the other behind when it leaves. -/
theorem adjacent_traps_leave_nothing :
    ∃ s₀, start? {} Wire.fresh Kernel.empty = .ok s₀ ∧
      let s := s₀.run [.addInferior 7 ⟨Memory.empty.mapWords 0x1000 2 0x1122334455667788, fun _ _ => false⟩,
        .addThread 1 8 .fresh]
      let inputs := ["Z0,1000,4", "Z0,1004,4", "z0,1000,4", "D"].flatMap Input.ask
      (s.takenOff 1 inputs).map (·.addr) = [0x1000, 0x1004] ∧
        ∃ t clean t', s.image? 1 = some (t, clean) ∧ (s.run inputs).image? 1 = some (t', clean) := by
  let s₀ : Session := ⟨Debuggee.empty 64 256 32, Wire.fresh, 2048, .outside, true, none, [], []⟩
  have start : start? {} Wire.fresh Kernel.empty = .ok s₀ := rfl
  refine ⟨s₀, start, ?_⟩
  intro s inputs
  have reached : s₀.run [.addInferior 7 ⟨Memory.empty.mapWords 0x1000 2 0x1122334455667788, fun _ _ => false⟩,
    .addThread 1 8 .fresh] = s := rfl
  have taken : (s.takenOff 1 inputs).map (·.addr) = [0x1000, 0x1004] := by decide +kernel
  have bare : (s.image? 1).map (·.1.patchList) = some [] := by decide +kernel
  obtain ⟨⟨t, clean⟩, image, none_yet⟩ := Option.map_eq_some_iff.1 bare
  have obeyed : (s.run inputs).debuggee.kernel.Obeyed := by decide +kernel
  have done := obeyed.memoryDone (s.history_run inputs)
  have stays : .disable 1 ∉ inputs := by simp [inputs, Input.ask]
  have alone : s.writes 1 inputs = [] := List.isEmpty_iff.1 (by decide +kernel)
  have left : (s.run inputs).traps 1 = [] := by decide +kernel
  obtain ⟨t', m, image', -, -, aligned⟩ := memory_without_traps start reached
    image none_yet stays done alone left
  refine ⟨taken, t, clean, t', image, ?_⟩
  rw [image', aligned fun p hp => ?_]
  have addr := List.mem_map_of_mem (f := fun p : Patch => p.addr) hp
  rw [taken] at addr
  simp only [List.mem_cons, List.not_mem_nil, or_false] at addr
  rcases addr with addr | addr <;> rw [addr] <;> rfl

/-- Two traps overlap and are taken off in the order in which they went in. The second puts back half of the first, and
memory is left changed though no trap is recorded. -/
theorem overlapping_traps_leave_bytes :
    ∃ s₀, start? {} Wire.fresh Kernel.empty = .ok s₀ ∧
      let s := s₀.run [.addInferior 7 ⟨Memory.empty.mapWords 0x1000 2 0x1122334455667788, fun _ _ => false⟩,
        .addThread 1 8 .fresh]
      let inputs := ["Z0,1000,4", "Z0,1002,4", "z0,1000,4", "z0,1002,4"].flatMap Input.ask
      .disable 1 ∉ inputs ∧ MemoryDone s.debuggee.kernel (s.run inputs).debuggee.kernel ∧
        s.writes 1 inputs = [] ∧
        ∃ t clean t' m, s.image? 1 = some (t, clean) ∧ t.patchList = [] ∧
          (s.run inputs).image? 1 = some (t', m) ∧ t'.patchList = [] ∧
          clean.byte? 0x1002 = some 0x66 ∧ m.byte? 0x1002 = some 0x20 ∧ m ≠ clean := by
  let s₀ : Session := ⟨Debuggee.empty 64 256 32, Wire.fresh, 2048, .outside, true, none, [], []⟩
  refine ⟨s₀, rfl, ?_⟩
  intro s inputs
  have before : (s.image? 1).map (fun image => (image.1.patchList, image.2.byte? 0x1002)) = some ([], some 0x66) := by
    decide +kernel
  have after : ((s.run inputs).image? 1).map (fun image => (image.1.patchList, image.2.byte? 0x1002)) =
      some ([], some 0x20) := by decide +kernel
  obtain ⟨⟨t, clean⟩, image, heq⟩ := Option.map_eq_some_iff.1 before
  obtain ⟨⟨t', m⟩, image', heq'⟩ := Option.map_eq_some_iff.1 after
  obtain ⟨none_yet, old⟩ := Prod.mk.inj heq
  obtain ⟨none_left, new⟩ := Prod.mk.inj heq'
  have obeyed : (s.run inputs).debuggee.kernel.Obeyed := by decide +kernel
  refine ⟨by simp [inputs, Input.ask], obeyed.memoryDone (s.history_run inputs),
    List.isEmpty_iff.1 (by decide +kernel), t, clean, t', m, image, none_yet, image', none_left, old, new, ?_⟩
  rintro rfl
  cases old.symm.trans new

end Session
end RemoteDebug
