import RemoteDebug.Proofs.Debuggee.Order
import RemoteDebug.Proofs.Reply.Paging
import RemoteDebug.Proofs.Session.Liveness
import RemoteDebug.Proofs.Session.Operations
import RemoteDebug.Proofs.Session.Sending

/-!
# The thread listing is complete

A client that asks for the thread listing is told of the threads that are registered then, page by page, each once and
in their order, whatever happens between its questions (`Session.thread_listing_complete`). For nothing but a question
for a page touches what is left of the listing (`Session.listing_step`), and such a question is answered by the next
page of it (`Session.answer_of_pages`).
-/

namespace RemoteDebug.Session

open Reply (listed Pages)

variable {s s' s₀ : Session} {i : Input} {b : UInt8} {inputs before : List Input} {names : List Ptid}
  {pages : List (List Ptid)}

/-! ## Questions for pages -/

/-- The command that an input completes. -/
def asks? (s : Session) : Input → Option Command
  | .byte b => s.command? b
  | _ => none

/-- The names that an input asks for a page of: those of all threads, or those that are left from before. -/
def pageOf? (s : Session) (i : Input) : Option (List Ptid) :=
  match s.asks? i with
  | some .firstThreads => some s.debuggee.registry.threads
  | some .nextThreads => some s.listing
  | _ => none

/-- What is answered to the questions for pages in a run, in order. -/
def pageAnswers (s : Session) : List Input → List (Option (List UInt8))
  | [] => []
  | i :: inputs =>
    match s.pageOf? i with
    | some _ => Packet.unframe? (s.sends i) :: (s.step i).pageAnswers inputs
    | none => (s.step i).pageAnswers inputs

/-- In a run the listing is not begun again. -/
def GoesOn (s : Session) : List Input → Prop
  | [] => True
  | i :: inputs => s.asks? i ≠ some .firstThreads ∧ (s.step i).GoesOn inputs

instance decidableGoesOn : (s : Session) → (inputs : List Input) → Decidable (s.GoesOn inputs)
  | _, [] => isTrue trivial
  | s, i :: inputs =>
    have := (s.step i).decidableGoesOn inputs
    inferInstanceAs (Decidable (s.asks? i ≠ some .firstThreads ∧ (s.step i).GoesOn inputs))

/-! ## What is left of the listing -/

theorem listing_execute {command : Command} (first : command ≠ .firstThreads) (next : command ≠ .nextThreads) :
    (s.execute command).2.listing = s.listing := by
  cases command with
  | firstThreads => exact absurd rfl first
  | nextThreads => exact absurd rfl next
  | haltReason | attached | symbols | traceStatus | resumptions | unknown | supported | detach => rfl
  | currentThread | readRegisters | writeRegisters | readMemory | writeMemory | selectThread | threadAlive
  | removeBreakpoint | insertBreakpoint | resume =>
    -- each of these ends in an answer, with nothing but the debuggee changed
    simp only [execute, readRegisters, writeRegisters, readMemory, writeMemory, selectThread.eq_def, threadAlive,
      breakpoint, resumeActions]
    repeat' split
    all_goals rfl

/-- Whatever a body asks for, what is left of the listing changes through its pages alone. -/
theorem listing_handleBody {body : List UInt8} (first : Command.parse body ≠ .ok .firstThreads)
    (next : Command.parse body ≠ .ok .nextThreads) : (s.handleBody body).2.listing = s.listing := by
  have kept : (s.respond body).2.listing = s.listing := by
    unfold respond
    cases parsed : Command.parse body with
    | error e => rfl
    | ok command =>
      rw [parsed] at first next
      exact listing_execute (fun h => first (by rw [h])) fun h => next (by rw [h])
  unfold handleBody
  rcases answer : s.respond body with ⟨payload | - | payload, s₁⟩
  all_goals
    rw [answer] at kept
    dsimp only at kept ⊢
  · rw [andThen_eq]
    exact (replied_sendReply? s₁ payload).listing_eq.trans kept
  · simp only [resume]
    split
    · rename_i stop queue _
      rw [andThen_eq]
      exact (replied_sendStop { s₁ with queue } stop).listing_eq.trans kept
    · exact kept
  · have after := (replied_sendReply? s₁ payload).listing_eq.trans kept
    rcases sent : s₁.sendReply? payload with ⟨_ | _, s₂⟩
    all_goals
      rw [sent] at after
      exact after

theorem listing_byte (order : s.wire.InOrder) (first : s.command? b ≠ some .firstThreads)
    (next : s.command? b ≠ some .nextThreads) : (s.receive b).2.listing = s.listing := by
  have took := took_receive s b
  generalize hs' : (s.receive b).2 = s' at took
  generalize (s.receive b).1 = r at took
  cases took with
  | again | acknowledged | incomplete | refused | unheard | resumed => rfl
  | nextStop _ _ _ _ _ reply | lateInterrupt _ _ _ reply | interrupt _ _ reply | stopInstead _ _ _ _ _ _ reply
  | stuck _ _ _ _ reply | left _ _ _ _ reply => exact reply.listing_eq
  | answered free heard =>
    rw [command?_eq free heard] at first next
    rw [← hs', receive_of_packet order free (congrArg Prod.snd heard)]
    exact listing_handleBody (fun h => first (by rw [h]; rfl)) fun h => next (by rw [h]; rfl)

/-- Nothing but a question for a page touches what is left of the listing. -/
theorem listing_step (order : s.wire.InOrder) (other : s.pageOf? i = none) : (s.step i).listing = s.listing := by
  cases i with
  | byte b =>
    refine listing_byte order (fun asks => ?_) fun asks => ?_
    · simp [pageOf?, asks?, asks] at other
    · simp [pageOf?, asks?, asks] at other
  | fault | spawn | exit => exact listing_noted (noted_of_reports trivial)
  | addInferior | addThread | disable | wire => rfl

/-- A question for a page is answered by the next page of the names it asks for; the others are left. -/
theorem page_of_pageOf? (order : s.wire.InOrder) (clean : s.receiver.Clean) (asks : s.pageOf? i = some names) :
    (s.step i).listing = (Reply.page s.packetSize names).2 ∧
      ∃ acknowledgement, Packet.opening ∉ acknowledgement ∧
        s.sends i = acknowledgement ++ frames (Reply.page s.packetSize names).1 := by
  cases i with
  | byte b =>
    obtain ⟨command, completes, answer⟩ : ∃ command, s.command? b = some command ∧ ∀ body,
        (s.hear b body).execute command = (.reply (Reply.page s.packetSize names).1,
          { s.hear b body with listing := (Reply.page s.packetSize names).2 }) := by
      unfold pageOf? asks? at asks
      split at asks
      · rename_i completes
        cases asks
        exact ⟨_, completes, fun _ => rfl⟩
      · rename_i completes
        cases asks
        exact ⟨_, completes, fun _ => rfl⟩
      · cases asks
    obtain ⟨body, heard, plain, parsed, -⟩ := receive_of_command order clean completes
    have free := outstanding_of_command completes
    have responds : (s.hear b body).respond (Packet.splitSequenceId body).2 = (.reply (Reply.page s.packetSize names).1,
        { s.hear b body with listing := (Reply.page s.packetSize names).2 }) := by
      simp only [respond, parsed, answer]
    refine ⟨?_, acknowledgement body, plain, sends_of_respond order free heard responds rfl⟩
    have carriedOut := congrArg Prod.snd (step_of_respond order free heard responds)
    exact (congrArg (·.listing) carriedOut).trans (replied_sendReply? _ _).listing_eq
  | fault | spawn | exit | addInferior | addThread | disable | wire => cases asks

/-- The answer can be read: it is the first of the pages that are left, or `l` if there is none. -/
theorem answer_of_pages (order : s.wire.InOrder) (clean : s.receiver.Clean) (room : 35 ≤ s.packetSize)
    (asks : s.pageOf? i = some names) (h : Pages s.packetSize names pages) :
    Packet.unframe? (s.sends i) = some ((pages.head?.map listed).getD (ascii "l")) ∧
      Pages s.packetSize (s.step i).listing pages.tail := by
  obtain ⟨left, acknowledgement, plain, sent⟩ := page_of_pageOf? order clean asks
  have read {payload : List UInt8} (given : (Reply.page s.packetSize names).1 = some payload) :
      Packet.unframe? (s.sends i) = some payload := by
    rw [sent, given]
    exact Packet.unframe?_frame plain (Packet.unmarked_iff.1 (Reply.sendable_page given).unmarked).2
  cases h with
  | done =>
    have last := Reply.page_nil (Nat.le_trans (by decide) room : 1 ≤ s.packetSize)
    exact ⟨read (congrArg Prod.fst last), by rw [left, last]; exact .done⟩
  | next takes page_eq rest => exact ⟨read (congrArg Prod.fst page_eq), by rw [left, page_eq]; exact rest⟩

/-! ## Runs -/

theorem Replied.order {payload : Option (List UInt8)} {r : Except SessionError Unit} (h : Replied s payload r s')
    (order : s.wire.InOrder) : s'.wire.InOrder := h.wire_eq order ▸ order.append _

theorem order_took {r : Except SessionError (Option SessionEvent)} (h : Took s b r s') (order : s.wire.InOrder) :
    s'.wire.InOrder := by
  -- a wire to which bytes are added is in order still
  have added {wire : Wire} {bytes : List UInt8} (sends : s.wire.InOrder → wire = s.wire.append bytes) :
      wire.InOrder :=
    sends order ▸ order.append bytes
  cases h with
  | again _ _ sends | refused _ _ sends | resumed _ _ sends => exact added sends
  | acknowledged | incomplete => exact order
  | unheard _ _ broken => exact absurd order broken
  | nextStop _ _ _ _ _ reply | lateInterrupt _ _ _ reply | interrupt _ _ reply => exact reply.order order
  | answered _ _ sends _ _ _ reply | stopInstead _ _ sends _ _ _ reply | stuck _ _ sends _ reply
  | left _ _ sends _ reply => exact reply.order (added sends)

theorem order_noted {accepted : Option StopReason} (h : Noted s i accepted s') (order : s.wire.InOrder) :
    s'.wire.InOrder := by
  cases h with
  | ignored => exact order
  | reported _ _ _ _ _ report =>
    cases report with
    | told _ _ reply => exact reply.order order
    | queued => exact order

theorem order_step (order : s.wire.InOrder) (keeps : i.KeepsOrder) : (s.step i).wire.InOrder := by
  cases i with
  | byte b => exact order_took (took_receive s b) order
  | fault | spawn | exit => exact order_noted (noted_of_reports trivial) order
  | addInferior | addThread | disable => exact order
  | wire => exact keeps

/-- The questions for pages that follow are answered by the pages that are left, and by `l` after the last. -/
theorem pageAnswers_of_pages (order : s.wire.InOrder) (clean : s.receiver.Clean) (room : 35 ≤ s.packetSize)
    (keeps : ∀ i ∈ inputs, i.KeepsOrder) (goes : s.GoesOn inputs) (h : Pages s.packetSize s.listing pages) {j : Nat}
    {answer : Option (List UInt8)} (hj : (s.pageAnswers inputs)[j]? = some answer) :
    answer = some ((pages[j]?.map listed).getD (ascii "l")) := by
  induction inputs generalizing s pages j with
  | nil => cases hj
  | cons i inputs ih =>
    obtain ⟨again, goes'⟩ := goes
    have keeps' : ∀ i ∈ inputs, i.KeepsOrder := fun i' hi' => keeps i' (List.mem_cons_of_mem _ hi')
    have order' := order_step order (keeps i List.mem_cons_self)
    have same := s.packetSize_step i
    unfold pageAnswers at hj
    split at hj
    · rename_i names asks
      obtain rfl : names = s.listing := by
        unfold pageOf? at asks
        split at asks
        · exact absurd ‹_› again
        · exact (Option.some.inj asks).symm
        · cases asks
      obtain ⟨read, rest⟩ := answer_of_pages order clean room asks h
      cases j with
      | zero =>
        rw [List.getElem?_cons_zero, Option.some.injEq] at hj
        rw [← hj, read, List.head?_eq_getElem?]
      | succ j =>
        rw [← same] at rest
        have later := ih order' (clean_step clean i) (same ▸ room) keeps' goes' rest hj
        rwa [List.getElem?_tail] at later
    · rename_i other
      rw [← same, ← listing_step order other] at h
      exact ih order' (clean_step clean i) (same ▸ room) keeps' goes' h hj

theorem named_run (h : s.debuggee.registry.Named) (inputs : List Input) : (s.run inputs).debuggee.registry.Named := by
  refine run_induction (P := fun s => s.debuggee.registry.Named) (fun s i _ named => ?_) h
  obtain ⟨ops, heq, -⟩ := s.performs_step i
  rw [heq]
  exact Debuggee.named_performAll ops named

/-- Wherever a session has come to, if its wire is in order from then on and the client asks for the threads from the
beginning and after that only goes on, then it is told page by page of the threads that are registered at the beginning.
All pages fit and have a name, none but the last has room for one more, and after the last every answer is `l`. -/
theorem thread_listing_complete {c : Config} {wire : Wire} (hstart : start? c wire Kernel.empty = .ok s₀)
    (reached : s₀.run before = s) (room : 35 ≤ s.packetSize) (order : s.wire.InOrder)
    (keeps : ∀ i ∈ inputs, i.KeepsOrder) (asks : s.command? b = some .firstThreads)
    (goes : (s.step (.byte b)).GoesOn inputs) :
    s.debuggee.registry.threads.Nodup ∧ ∃ pages : List (List Ptid),
      pages.flatten = s.debuggee.registry.threads ∧ pages.length ≤ s.debuggee.registry.threads.length ∧
      (∀ page ∈ pages, page ≠ [] ∧ (listed page).length ≤ s.packetSize) ∧
      (∀ (j : Nat) page later t, pages[j]? = some page → pages[j + 1]? = some later → later.head? = some t →
        s.packetSize < (listed (page ++ [t])).length) ∧
      ∀ (j : Nat) answer, (s.pageAnswers (.byte b :: inputs))[j]? = some answer →
        answer = some ((pages[j]?.map listed).getD (ascii "l")) := by
  have start : (s₀.Framed ∧ s₀.receiver.Clean) ∧ s₀.debuggee.registry.Named := by
    obtain ⟨_, rfl⟩ := eq_of_start? hstart
    exact ⟨⟨nofun, trivial⟩, Registry.named_empty _ _ _⟩
  have clean : s.receiver.Clean := reached ▸ (utterable_run start.1 before).2
  have named : s.debuggee.registry.Named := reached ▸ named_run start.2 before
  obtain ⟨pages, h⟩ := Reply.exists_pages (fun _ => named.valid) room
  refine ⟨Registry.nodup_threads _, pages, h.flatten, h.length_le, fun _ => h.of_mem, fun _ _ _ _ => h.full, ?_⟩
  intro j answer hj
  have begins : s.pageOf? (.byte b) = some s.debuggee.registry.threads := by simp only [pageOf?, asks?, asks]
  obtain ⟨read, rest⟩ := answer_of_pages order clean room begins h
  unfold pageAnswers at hj
  rw [begins] at hj
  dsimp only at hj
  cases j with
  | zero =>
    rw [List.getElem?_cons_zero, Option.some.injEq] at hj
    rw [← hj, read, List.head?_eq_getElem?]
  | succ j =>
    have same := s.packetSize_step (.byte b)
    rw [← same] at rest
    have order' : (s.step (.byte b)).wire.InOrder := order_step order trivial
    have later := pageAnswers_of_pages order' (clean_step clean _) (same ▸ room) keeps goes rest hj
    rwa [List.getElem?_tail] at later

/-- Nine threads are listed in a page of seven, which is full, and one of two. After the first page one of the threads
exits and another one comes in, which the listing does not show. -/
theorem nine_threads_listed :
    ∃ s₀, start? { requestedSize := some 35 } Wire.fresh Kernel.empty = .ok s₀ ∧
      let before : List Input :=
        .addInferior 7 .fresh :: (List.range 9).map (fun n => .addThread 1 (UInt64.ofNat n) .fresh) ++
          (ascii "$qfThreadInfo#b").map .byte
      let inputs : List Input := [.byte Packet.acceptance, .exit 7 8, .byte Packet.acceptance, .addThread 1 9 .fresh] ++
        (ascii "$qsThreadInfo#c8+$qsThreadInfo#c8+").map .byte
      let s := s₀.run before
      (∃ pages : List (List Ptid), pages.flatten = (List.range 9).map (fun n => ⟨1, n + 1⟩) ∧
        ∀ (j : Nat) answer, (s.pageAnswers (.byte 'b'.toUInt8 :: inputs))[j]? = some answer →
          answer = some ((pages[j]?.map listed).getD (ascii "l"))) ∧
      s.pageAnswers (.byte 'b'.toUInt8 :: inputs) =
        [some (ascii "mp1.1,p1.2,p1.3,p1.4,p1.5,p1.6,p1.7"), some (ascii "mp1.8,p1.9"), some (ascii "l")] := by
  let s₀ : Session := ⟨Debuggee.empty 64 256 32, Wire.fresh, 35, .outside, true, none, [], []⟩
  have start : start? { requestedSize := some 35 } Wire.fresh Kernel.empty = .ok s₀ := rfl
  refine ⟨s₀, start, ?_⟩
  intro before inputs s
  have room : 35 ≤ s.packetSize := Nat.le_of_eq (s₀.packetSize_run before).symm
  have order : s.wire.InOrder := ⟨by decide +kernel, by decide +kernel⟩
  have keeps : ∀ i ∈ inputs, i.KeepsOrder := by decide +kernel
  have asks : s.command? 'b'.toUInt8 = some .firstThreads := by decide +kernel
  have goes : (s.step (.byte 'b'.toUInt8)).GoesOn inputs := by decide +kernel
  have registered : s.debuggee.registry.threads = (List.range 9).map (fun n => ⟨1, n + 1⟩) := by decide +kernel
  have told : s.pageAnswers (.byte 'b'.toUInt8 :: inputs) =
      [some (ascii "mp1.1,p1.2,p1.3,p1.4,p1.5,p1.6,p1.7"), some (ascii "mp1.8,p1.9"), some (ascii "l")] := by
    decide +kernel
  obtain ⟨-, pages, flat, -, -, -, answers⟩ :=
    thread_listing_complete (s := s) start rfl room order keeps asks goes
  exact ⟨⟨pages, flat.trans registered, answers⟩, told⟩

end RemoteDebug.Session
