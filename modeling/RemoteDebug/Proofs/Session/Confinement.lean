import RemoteDebug.Proofs.Session.Serving
import RemoteDebug.Proofs.Session.Sited

/-!
# Commands reach no further than the selected inferior

The commands about memory, breakpoints and registers (`Command.Targeted`) are carried out on the selected inferior: each
calls only the objects that it may (`Command.MayCall`), and all of these belong to that inferior (`Inferior.Owns`). No
two inferiors share an address space and no two threads a capability, so every other inferior stays as it is, in the
registry and in the kernel (`Debuggee.OnlyWithin`). Where no inferior is selected, nothing is called and the client is
told of a failure (`Session.Declines`).
-/

namespace RemoteDebug

open Kernel

/-! ## What belongs to an inferior -/

/-- A call on the address space or on a thread of an inferior. -/
def Inferior.Owns (inf : Inferior) : Call → Prop
  | .space cap _ => cap = inf.space
  | .thread cap _ => cap ∈ inf.caps

namespace Debuggee

variable {d d' : Debuggee} {pid : Nat} {inf : Inferior}

/-- Nothing has changed but one inferior: the others have the same tables, threads and handles, their memory and their
threads are as before, and so is the selection. -/
structure OnlyWithin (d : Debuggee) (pid : Nat) (d' : Debuggee) : Prop where
  registered : ∀ other, other ≠ pid → d'.registry.inferior? other = d.registry.inferior? other
  memory : ∀ other inf, other ≠ pid → d.registry.inferior? other = some inf →
    d'.kernel.spaces[inf.space]? = d.kernel.spaces[inf.space]?
  threads : ∀ other inf, other ≠ pid → d.registry.inferior? other = some inf →
    ∀ cap ∈ inf.caps, d'.kernel.threads[cap]? = d.kernel.threads[cap]?
  current : d'.registry.current = d.registry.current

theorem OnlyWithin.refl (d : Debuggee) (pid : Nat) : d.OnlyWithin pid d :=
  ⟨fun _ _ => rfl, fun _ _ _ _ => rfl, fun _ _ _ _ _ _ => rfl, rfl⟩

/-- A capability of a thread is held by one inferior only. -/
theorem Apart.eq_of_mem_caps (h : d.Apart) {other : Nat} {inf' : Inferior} {cap : ThreadCap}
    (hinf : d.registry.inferior? pid = some inf) (hinf' : d.registry.inferior? other = some inf')
    (hcap : cap ∈ inf.caps) (hcap' : cap ∈ inf'.caps) : other = pid := by
  obtain ⟨tid, t, ht, rfl⟩ := Inferior.mem_caps.1 hcap
  obtain ⟨tid', t', ht', same⟩ := Inferior.mem_caps.1 hcap'
  have known : d.registry.thread? ⟨pid, tid⟩ = some t :=
    Registry.thread?_eq_some_iff.2 ⟨inf, Registry.inferior?_eq_some_iff.1 hinf, ht⟩
  have known' : d.registry.thread? ⟨other, tid'⟩ = some t' :=
    Registry.thread?_eq_some_iff.2 ⟨inf', Registry.inferior?_eq_some_iff.1 hinf', ht'⟩
  exact congrArg Ptid.pid (h.distinct _ _ _ _ known' known same)

/-- Calls on what belongs to an inferior change nothing of the others. -/
theorem onlyWithin_of_calls {p : Call → Prop} (apart : d.Apart) (housed : d.Housed)
    (hinf : d.registry.inferior? pid = some inf) (calls : Calls p d.kernel d'.kernel)
    (owned : ∀ c, p c → inf.Owns c)
    (registered : ∀ other, other ≠ pid → d'.registry.inferior? other = d.registry.inferior? other)
    (current : d'.registry.current = d.registry.current) : d.OnlyWithin pid d' := by
  refine ⟨registered, fun other inf' ne hinf' => ?_, fun other inf' ne hinf' cap hcap => ?_, current⟩
  · refine calls.space_eq fun addr word hp => ne ?_
    have same : inf'.space = inf.space := owned _ hp
    exact housed.apart other pid inf.space (Registry.mem_places.2 ⟨inf', hinf', same⟩)
      (Registry.mem_places.2 ⟨inf, hinf, rfl⟩)
  · refine calls.thread_eq fun call hp => ne ?_
    exact apart.eq_of_mem_caps hinf hinf' (owned _ hp) hcap

end Debuggee

/-! ## What a command may call -/

namespace Command

/-- A command about the memory, the breakpoints or the registers of the selected inferior. -/
def Targeted : Command → Prop
  | .readMemory _ _ | .writeMemory _ _ _ | .insertBreakpoint _ | .removeBreakpoint _ | .readRegisters
  | .writeRegisters _ => True
  | _ => False

/-- A command about the selected thread. -/
def OfThread : Command → Prop
  | .readRegisters | .writeRegisters _ => True
  | _ => False

/-- The answer to a command that finds nothing selected. -/
def refusal : Command → String
  | .writeMemory _ _ _ => "E02"
  | _ => "E01"

/-- The calls that a command may make while an inferior and a thread are selected. -/
def MayCall (inf : Inferior) (thread : Option Thread) : Command → Call → Prop
  | .readMemory _ _, .space cap (.read _) => cap = inf.space
  | .writeMemory _ _ _, .space cap _ => cap = inf.space
  | .insertBreakpoint spec, .space cap _ => spec.kind = .software ∧ cap = inf.space
  | .removeBreakpoint spec, .space cap _ => spec.kind = .software ∧ cap = inf.space
  | .insertBreakpoint spec, .thread cap (.setSlot _ _) => spec.kind ≠ .software ∧ cap ∈ inf.caps
  | .insertBreakpoint spec, .thread cap (.clearSlot _) => spec.kind ≠ .software ∧ cap ∈ inf.caps
  | .removeBreakpoint spec, .thread cap (.clearSlot _) => spec.kind ≠ .software ∧ cap ∈ inf.caps
  | .readRegisters, .thread cap .readRegisters => ∃ t, thread = some t ∧ t.cap = cap
  | .writeRegisters _, .thread cap (.writeRegisters _) => ∃ t, thread = some t ∧ t.cap = cap
  | _, _ => False

/-- A command calls what belongs to the inferior, if the thread does. -/
theorem MayCall.owned {inf : Inferior} {thread : Option Thread} {command : Command} {c : Call}
    (h : command.MayCall inf thread c) (member : ∀ t, thread = some t → t.cap ∈ inf.caps) : inf.Owns c := by
  unfold MayCall at h
  split at h
  · exact h
  · exact h
  · exact h.2
  · exact h.2
  · exact h.2
  · exact h.2
  · exact h.2
  · obtain ⟨t, selected, rfl⟩ := h
    exact member t selected
  · obtain ⟨t, selected, rfl⟩ := h
    exact member t selected
  · exact h.elim

end Command

namespace Session

variable {s s₀ : Session} {b : UInt8} {command : Command} {pid : Nat} {inf : Inferior}

/-- The selected thread is one of the selected inferior. -/
theorem cap_mem_caps_of_current {r : Registry} {t : Thread} (current : r.currentInferior? = some (pid, inf))
    (selected : r.currentThread? = some t) : t.cap ∈ inf.caps := by
  obtain ⟨name, named, rfl, hinf⟩ := Registry.currentInferior?_eq_some_iff.1 current
  simp only [Registry.currentThread?, Registry.thread?, named, Option.bind_some, hinf] at selected
  exact Inferior.mem_caps.2 ⟨name.tid, t, SlotTable.mem_toList.2 selected, rfl⟩

theorem calls_changeBreakpoint {p : Call → Prop} {k : Kernel} {insert : Bool} {spec : BreakpointSpec}
    (patch : spec.kind = .software → ∀ call, p (.space inf.space call))
    (set : insert = true → spec.kind ≠ .software →
      ∀ cap ∈ inf.caps, ∀ slot trigger, p (.thread cap (.setSlot slot trigger)))
    (clear : spec.kind ≠ .software → ∀ cap ∈ inf.caps, ∀ slot, p (.thread cap (.clearSlot slot))) :
    Calls p k (changeBreakpoint insert spec inf k).2.2 := by
  have trigger (hard : spec.kind ≠ .software) (trigger : Cpu.Trigger) :
      Calls p k (if insert then inf.insertTrigger trigger k else inf.removeTrigger trigger k).2.2 := by
    cases insert with
    | true =>
      exact BreakpointTable.calls_insertTrigger (fun cap hcap slot => set rfl hard cap hcap slot trigger) (clear hard)
    | false => exact BreakpointTable.calls_removeTrigger (clear hard)
  unfold changeBreakpoint
  split
  · rename_i access watches
    exact trigger (fun soft => by rw [soft] at watches; cases watches) _
  · split
    · exact .refl
    · split
      · rename_i soft
        cases insert with
        | true => exact BreakpointTable.calls_insertPatch (patch soft _) fun _ => patch soft _
        | false => exact BreakpointTable.calls_removePatch (patch soft _) fun _ => patch soft _
      · exact trigger ‹_› _

/-! ## Carrying out a command -/

/-- What a command for the selected inferior comes to: a debuggee in which the registry keeps the others and the
selection, after calls that the command may make. -/
structure Reaches (s : Session) (command : Command) (pid : Nat) (inf : Inferior) (d : Debuggee) : Prop where
  yields : ∃ payload, s.Yields command payload d
  calls : Calls (command.MayCall inf s.debuggee.registry.currentThread?) s.debuggee.kernel d.kernel
  registered : ∀ other, other ≠ pid → d.registry.inferior? other = s.debuggee.registry.inferior? other
  current : d.registry.current = s.debuggee.registry.current

theorem Reaches.of_kernel {payload : Option (List UInt8)} {k : Kernel}
    (yields : s.Yields command payload (s.withKernel k).debuggee)
    (calls : Calls (command.MayCall inf s.debuggee.registry.currentThread?) s.debuggee.kernel k) :
    s.Reaches command pid inf (s.withKernel k).debuggee := ⟨⟨payload, yields⟩, calls, fun _ _ => rfl, rfl⟩

theorem Reaches.of_refused {payload : Option (List UInt8)} (yields : s.Yields command payload s.debuggee) :
    s.Reaches command pid inf s.debuggee := ⟨⟨payload, yields⟩, .refl, fun _ _ => rfl, rfl⟩

theorem Reaches.of_breakpoint {insert : Bool} {spec : BreakpointSpec}
    (changes : ∀ s : Session, s.execute command = s.breakpoint insert spec)
    (current : s.debuggee.registry.currentInferior? = some (pid, inf))
    (calls : Calls (command.MayCall inf s.debuggee.registry.currentThread?) s.debuggee.kernel
      (changeBreakpoint insert spec inf s.debuggee.kernel).2.2) :
    s.Reaches command pid inf (s.debuggee.onInferior pid (changeBreakpoint insert spec)).2 := by
  obtain ⟨text, yields⟩ := yields_breakpoint changes current
  obtain ⟨-, -, -, hinf⟩ := Registry.currentInferior?_eq_some_iff.1 current
  refine ⟨⟨_, yields⟩, ?_, fun other ne => ?_, ?_⟩
  all_goals simp only [Debuggee.onInferior, hinf]
  · exact calls
  · exact Registry.inferior?_modifyInferior_of_ne (Ne.symm ne) _
  · rfl

theorem exists_reaches (targeted : command.Targeted)
    (current : s.debuggee.registry.currentInferior? = some (pid, inf)) : ∃ d, s.Reaches command pid inf d := by
  cases command with
  | readMemory addr length =>
    by_cases served : 2 * length ≤ s.packetSize ∧ addr.toNat + length < 2 ^ 64
    · exact ⟨_, .of_kernel (yields_readMemory served.1 served.2 current) (calls_readBytes fun _ => rfl)⟩
    · refine ⟨_, .of_refused (yields_readMemory_refused ?_)⟩
      omega
  | writeMemory addr length digits =>
    cases decoded : Hex.decode? digits with
    | none => exact ⟨_, .of_refused (yields_writeMemory_refused (.inl decoded))⟩
    | some data =>
      by_cases bounded : addr.toNat + length < 2 ^ 64
      · exact ⟨_, .of_kernel (yields_writeMemory decoded bounded current)
          (calls_writeBytes (fun _ => rfl) fun _ _ => rfl)⟩
      · exact ⟨_, .of_refused (yields_writeMemory_refused (.inr (.inl (Nat.le_of_not_lt bounded))))⟩
  | insertBreakpoint spec =>
    refine ⟨_, .of_breakpoint (fun _ => rfl) current
      (calls_changeBreakpoint (fun soft call => ⟨soft, rfl⟩) ?_ ?_)⟩
    · exact fun _ hard cap hcap slot trigger => ⟨hard, hcap⟩
    · exact fun hard cap hcap slot => ⟨hard, hcap⟩
  | removeBreakpoint spec =>
    refine ⟨_, .of_breakpoint (fun _ => rfl) current
      (calls_changeBreakpoint (fun soft call => ⟨soft, rfl⟩) ?_ ?_)⟩
    · exact nofun
    · exact fun hard cap hcap slot => ⟨hard, hcap⟩
  | readRegisters =>
    cases selected : s.debuggee.registry.currentThread? with
    | none => exact ⟨_, .of_refused (yields_readRegisters_refused selected)⟩
    | some t => exact ⟨_, .of_kernel (yields_readRegisters selected) (calls_readRegisters ⟨t, selected, rfl⟩)⟩
  | writeRegisters digits =>
    cases selected : s.debuggee.registry.currentThread? with
    | none => exact ⟨_, .of_refused (yields_writeRegisters_refused (.inl selected))⟩
    | some t =>
      cases read : (Hex.decode? digits).bind Cpu.Registers.deserialize? with
      | none => exact ⟨_, .of_refused (yields_writeRegisters_refused (.inr read))⟩
      | some r =>
        exact ⟨_, .of_kernel (yields_writeRegisters selected read) (calls_callThread ⟨t, selected, rfl⟩)⟩
  | _ => exact targeted.elim

/-- Where nothing is selected, a command is refused. -/
theorem yields_refused (targeted : command.Targeted) (nowhere : s.debuggee.registry.currentInferior? = none ∨
    command.OfThread ∧ s.debuggee.registry.currentThread? = none) :
    s.Yields command (s.render [.text (ascii command.refusal)]) s.debuggee := by
  have unselected : command.OfThread → s.debuggee.registry.currentThread? = none := fun ofThread =>
    nowhere.elim Registry.currentThread?_eq_none And.right
  have nobody (away : ¬ command.OfThread) : s.debuggee.registry.currentInferior? = none :=
    nowhere.resolve_right fun h => away h.1
  cases command with
  | readMemory => exact yields_readMemory_refused (.inr (.inr (nobody id)))
  | writeMemory => exact yields_writeMemory_refused (.inr (.inr (nobody id)))
  | insertBreakpoint | removeBreakpoint => exact yields_breakpoint_refused (fun _ => rfl) (nobody id)
  | readRegisters => exact yields_readRegisters_refused (unselected trivial)
  | writeRegisters => exact yields_writeRegisters_refused (.inl (unselected trivial))
  | _ => exact targeted.elim

/-! ## Packets -/

/-- A byte that completes a packet with a command reaches no further than one inferior, and there the command is carried
out unless the wire fails. -/
structure Confines (s : Session) (b : UInt8) (command : Command) (pid : Nat) (inf : Inferior) : Prop where
  carriedOut : s.wire.InOrder → (s.step (.byte b)).debuggee = (s.execute command).2.debuggee
  called : ∀ r ∈ s.calls (.byte b), command.MayCall inf s.debuggee.registry.currentThread? r.call
  within : s.debuggee.OnlyWithin pid (s.step (.byte b)).debuggee
  queue : (s.step (.byte b)).queue = s.queue
  running : (s.step (.byte b)).running = s.running

/-- A byte that completes a packet with a command changes nothing, and the client is told of a failure. -/
structure Declines (s : Session) (b : UInt8) (text : String) : Prop where
  called : s.calls (.byte b) = []
  debuggee : (s.step (.byte b)).debuggee = s.debuggee
  queue : (s.step (.byte b)).queue = s.queue
  running : (s.step (.byte b)).running = s.running
  reply : s.wire.InOrder → s.RepliesWith b (ascii text)

theorem Reaches.confines {d : Debuggee} (h : s.Reaches command pid inf d) (apart : s.debuggee.Apart)
    (housed : s.debuggee.Housed) (current : s.debuggee.registry.currentInferior? = some (pid, inf))
    (asks : s.command? b = some command) : s.Confines b command pid inf := by
  obtain ⟨payload, yields⟩ := h.yields
  obtain ⟨-, -, -, hinf⟩ := Registry.currentInferior?_eq_some_iff.1 current
  have ends := yields.concludes asks
  have within : s.debuggee.OnlyWithin pid d :=
    Debuggee.onlyWithin_of_calls apart housed hinf h.calls
      (fun _ may => may.owned fun _ => cap_mem_caps_of_current current) h.registered h.current
  have carriedOut : d = (s.execute command).2.debuggee := by rw [yields s rfl rfl]
  refine ⟨fun order => carriedOut ▸ ends.debuggee_eq order, fun r => ends.of_mem_calls h.calls, ?_, ends.queue,
    ends.running⟩
  rcases ends.debuggee with done | ⟨-, same⟩
  · exact done ▸ within
  · exact same ▸ .refl _ pid

theorem Yields.declines {text : String} (h : s.Yields command (s.render [.text (ascii text)]) s.debuggee)
    (fits : (ascii text).length ≤ s.packetSize) (asks : s.command? b = some command) : s.Declines b text := by
  have ends := h.concludes asks
  exact ⟨ends.calls_eq_nil, ends.debuggee_eq_self, ends.queue, ends.running,
    ends.repliesWith (Reply.render_text fits)⟩

/-- In every run, whatever calls fail, a packet about memory, breakpoints or registers is carried out and reaches no
further than the selected inferior: only calls that the command may make there are made, and the other inferiors, the
selection, the queue of stops and whether threads run stay as they are. Where no inferior is selected, or no thread for
registers, nothing is called and nothing changes, and the client is told of a failure. -/
theorem commands_confined {c : Config} {wire : Wire} {inputs : List Input}
    (hstart : start? c wire Kernel.empty = .ok s₀) (hs : s₀.run inputs = s) (room : 3 ≤ s.packetSize)
    (targeted : command.Targeted) (asks : s.command? b = some command) :
    (∀ pid inf, s.debuggee.registry.currentInferior? = some (pid, inf) → s.Confines b command pid inf) ∧
      (s.debuggee.registry.currentInferior? = none ∨
        command.OfThread ∧ s.debuggee.registry.currentThread? = none → s.Declines b command.refusal) := by
  have apart : s.debuggee.Apart := hs ▸ apart_run hstart inputs
  have housed : s.debuggee.Housed := hs ▸ (sited_run (sited_start hstart) inputs).housed
  refine ⟨fun pid inf current => ?_, fun nowhere => ?_⟩
  · obtain ⟨d, reaches⟩ := exists_reaches targeted current
    exact reaches.confines apart housed current asks
  · have short : (ascii command.refusal).length = 3 := by
      unfold Command.refusal
      split <;> decide
    exact (yields_refused targeted nowhere).declines (by rw [short]; exact room) asks

/-- A watchpoint is set on the one inferior while there is another, and memory is not written before there is any. -/
theorem watchpoint_beside_another :
    ∃ s, start? {} Wire.fresh Kernel.empty = .ok s ∧
      let both :=
        s.run ([.addInferior 7 .fresh, .addThread 1 8 .fresh, .addInferior 9 .fresh, .addThread 2 10 .fresh] ++
        (ascii "$Z2,2000,8#d").map .byte)
      let nobody := s.run ((ascii "$M1000,0:#a").map .byte)
      (∃ inf, both.debuggee.registry.currentInferior? = some (1, inf) ∧
        (both.debuggee.registry.inferior? 2).isSome = true ∧ (both.calls (.byte 'e'.toUInt8)).length = 1 ∧
        both.Confines 'e'.toUInt8 (.insertBreakpoint ⟨.write, 0x2000, 8⟩) 1 inf) ∧
      nobody.Declines '4'.toUInt8 "E02" := by
  let s : Session := ⟨Debuggee.empty 64 256 32, Wire.fresh, 2048, .outside, true, none, [], []⟩
  have start : start? {} Wire.fresh Kernel.empty = .ok s := rfl
  refine ⟨s, start, ?_⟩
  intro both nobody
  have room : 3 ≤ both.packetSize ∧ 3 ≤ nobody.packetSize := by decide +kernel
  have asks : both.command? 'e'.toUInt8 = some (.insertBreakpoint ⟨.write, 0x2000, 8⟩) := by decide +kernel
  have writes : nobody.command? '4'.toUInt8 = some (.writeMemory 0x1000 0 []) := by decide +kernel
  have targeted : (Command.insertBreakpoint ⟨.write, 0x2000, 8⟩).Targeted ∧
      (Command.writeMemory 0x1000 0 []).Targeted := ⟨trivial, trivial⟩
  have selected : both.debuggee.registry.currentInferior?.map Prod.fst = some 1 := by decide +kernel
  have unselected : nobody.debuggee.registry.currentInferior? = none := by decide +kernel
  obtain ⟨⟨_, inf⟩, current, rfl⟩ := Option.map_eq_some_iff.1 selected
  obtain ⟨confined, -⟩ := commands_confined start (show s.run _ = both from rfl) room.1 targeted.1 asks
  obtain ⟨-, declined⟩ := commands_confined start (show s.run _ = nobody from rfl) room.2 targeted.2 writes
  exact ⟨⟨inf, current, by decide +kernel, by decide +kernel, confined _ _ current⟩, declined (.inl unselected)⟩

end Session
end RemoteDebug
