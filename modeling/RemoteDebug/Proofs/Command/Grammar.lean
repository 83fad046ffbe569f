import RemoteDebug.Proofs.Command.Parts

/-!
# The grammar of commands

A body is spelled as a command if it is the longest name that begins it and behind that an argument of the name
(`Command.Spells`, `Command.Argument`). Lists in an argument are the fields between semicolons, each for itself: a field
that is not spelled as anything is read as nothing. The parser accepts exactly this grammar
(`Command.parse_by_grammar`).
-/

namespace RemoteDebug

/-! ## Names -/

namespace CommandName

variable {name : CommandName} {argument body : List UInt8}

/-- A body begins with a name and with no longer one, and the argument is what follows. -/
structure Begins (name : CommandName) (argument body : List UInt8) : Prop where
  spelled : body = name.bytes ++ argument
  longest : ∀ other : CommandName, other.bytes <+: body → other.bytes.length ≤ name.bytes.length

theorem bytes_injective : ∀ first ∈ all, ∀ second ∈ all, first.bytes = second.bytes → first = second := by
  decide

theorem bytes_ne_nil : ∀ name ∈ all, name.bytes ≠ [] := by decide

theorem Begins.filled (h : name.Begins argument body) : body ≠ [] := by
  rw [h.spelled]
  exact List.append_ne_nil_of_left_ne_nil (bytes_ne_nil name (mem_all name)) _

/-- A body begins with one name at most. -/
theorem Begins.unique (h : name.Begins argument body) {name' : CommandName} {argument' : List UInt8}
    (h' : name'.Begins argument' body) : name = name' ∧ argument = argument' := by
  have first : name.bytes <+: body := ⟨argument, h.spelled.symm⟩
  have second : name'.bytes <+: body := ⟨argument', h'.spelled.symm⟩
  have same : name.bytes = name'.bytes :=
    (List.prefix_of_prefix_length_le first second (h'.longest name first)).eq_of_length_le (h.longest name' second)
  refine ⟨bytes_injective _ (mem_all name) _ (mem_all name') same, ?_⟩
  exact List.append_cancel_left (h.spelled.symm.trans (same ▸ h'.spelled))

end CommandName

namespace Command

variable {name : CommandName} {argument body : List UInt8} {command : Command}

/-- No name is found exactly if none begins the body. -/
theorem split?_eq_none_iff : split? body = none ↔ ∀ name : CommandName, ¬ name.bytes <+: body := by
  simp only [split?, List.findSome?_eq_none_iff, Option.map_eq_none_iff]
  constructor
  · rintro h name ⟨argument, rfl⟩
    have found := List.isPrefixOf?_eq_some_iff_append_eq.2 (rfl : name.bytes ++ argument = name.bytes ++ argument)
    cases (h name (CommandName.mem_all name)).symm.trans found
  · intro h name _
    refine Option.eq_none_iff_forall_ne_some.2 fun argument found => h name ⟨argument, ?_⟩
    exact List.isPrefixOf?_eq_some_iff_append_eq.1 found

/-- The name that is found is the longest that begins the body. Those before it do not, and no later one is longer. -/
theorem begins_of_split? (h : split? body = some (name, argument)) : name.Begins argument body := by
  obtain ⟨before, found, after, order, match_found, none_before⟩ := List.findSome?_eq_some_iff.1 h
  obtain ⟨rest, hrest, heq⟩ := Option.map_eq_some_iff.1 match_found
  cases heq
  have spelled := List.isPrefixOf?_eq_some_iff_append_eq.1 hrest
  refine ⟨spelled.symm, fun other begins => ?_⟩
  have somewhere : other ∈ before ++ name :: after := order ▸ CommandName.mem_all other
  rcases List.mem_append.1 somewhere with early | late
  · obtain ⟨rest', spelled'⟩ := begins
    have found' := List.isPrefixOf?_eq_some_iff_append_eq.2 spelled'
    cases (Option.map_eq_none_iff.1 (none_before other early)).symm.trans found'
  · rcases List.mem_cons.1 late with rfl | later
    · exact Nat.le_refl _
    · have pairs := CommandName.all_pairwise
      rw [order] at pairs
      have apart : ¬ name.bytes <+: other.bytes :=
        List.rel_of_pairwise_cons (List.pairwise_append.1 pairs).2.1 later
      refine Nat.le_of_not_lt fun longer => apart ?_
      exact List.prefix_of_prefix_length_le ⟨argument, spelled⟩ begins (Nat.le_of_lt longer)

theorem split?_eq_some_iff : split? body = some (name, argument) ↔ name.Begins argument body := by
  refine ⟨begins_of_split?, fun h => ?_⟩
  cases found : split? body with
  | none => exact absurd ⟨argument, h.spelled.symm⟩ (split?_eq_none_iff.1 found name)
  | some pair =>
    obtain ⟨rfl, rfl⟩ := h.unique (begins_of_split? found)
    rfl

/-! ## Arguments -/

/-- How the argument of each name is spelled. -/
inductive Argument : CommandName → List UInt8 → Command → Prop
  | haltReason {rest : List UInt8} : Argument .haltReason rest .haltReason
  | attached {rest : List UInt8} : Argument .attached rest .attached
  | symbols {rest : List UInt8} : Argument .symbols rest .symbols
  | readRegisters : Argument .readRegisters [] .readRegisters
  | currentThread : Argument .currentThread [] .currentThread
  | firstThreads : Argument .firstThreads [] .firstThreads
  | nextThreads : Argument .nextThreads [] .nextThreads
  | traceStatus : Argument .traceStatus [] .traceStatus
  | resumptions : Argument .resumptions [] .resumptions
  | detachAll : Argument .detach [] (.detach none)
  | detach {digits : List UInt8} {pid : Nat} (h : Hex.Denotes 64 digits pid) (nonzero : pid ≠ 0) :
      Argument .detach (';'.toUInt8 :: digits) (.detach (some pid))
  | writeRegisters {digits : List UInt8} (all : ∀ c ∈ digits, Hex.isDigit c = true) (even : digits.length % 2 = 0) :
      Argument .writeRegisters digits (.writeRegisters digits)
  | selectToInspect {field : List UInt8} {thread : Option ThreadId} (h : Reads ThreadId.Spells field thread) :
      Argument .selectThread ('g'.toUInt8 :: field) (.selectThread .inspect thread)
  | selectToResume {field : List UInt8} {thread : Option ThreadId} (h : Reads ThreadId.Spells field thread) :
      Argument .selectThread ('c'.toUInt8 :: field) (.selectThread .resume thread)
  | readMemory {addr length : List UInt8} {a : UInt64} {n : Nat} (haddr : Hex.Denotes 64 addr a.toNat)
      (hlength : Hex.Denotes 64 length n) : Argument .readMemory (addr ++ ','.toUInt8 :: length) (.readMemory a n)
  | writeMemory {addr length digits : List UInt8} {a : UInt64} {n : Nat} {first second : UInt8}
      (haddr : Hex.Denotes 64 addr a.toNat) (hlength : Hex.Denotes 64 length n)
      (hfirst : first = ','.toUInt8 ∨ first = ':'.toUInt8) (hsecond : second = ','.toUInt8 ∨ second = ':'.toUInt8)
      (all : ∀ c ∈ digits, Hex.isDigit c = true) (twice : digits.length = 2 * n) :
      Argument .writeMemory (addr ++ first :: (length ++ second :: digits)) (.writeMemory a n digits)
  | supportedNothing : Argument .supported [] (.supported [])
  | supported {bytes : List UInt8} {fields : List (List UInt8)} {features : List (Option Feature)}
      (split : Fields ';'.toUInt8 fields bytes)
      (each : List.Forall₂ (Reads Feature.Spells) (fields.filter (!·.isEmpty)) features) :
      Argument .supported (':'.toUInt8 :: bytes) (.supported features)
  | threadAlive {field : List UInt8} {id : ThreadId} (h : ThreadId.Spells field id) :
      Argument .threadAlive field (.threadAlive id)
  | removeBreakpoint {field : List UInt8} {spec : BreakpointSpec} (h : BreakpointSpec.Spells field spec) :
      Argument .removeBreakpoint field (.removeBreakpoint spec)
  | insertBreakpoint {field : List UInt8} {spec : BreakpointSpec} (h : BreakpointSpec.Spells field spec) :
      Argument .insertBreakpoint field (.insertBreakpoint spec)
  | resume {bytes : List UInt8} {fields : List (List UInt8)} {actions : List (Option Action)} (filled : bytes ≠ [])
      (split : Fields ';'.toUInt8 fields bytes) (each : List.Forall₂ (Reads Action.Spells) fields actions) :
      Argument .resume (';'.toUInt8 :: bytes) (.resume actions)

theorem bare_eq_some_iff {c : Command} : bare c argument = some command ↔ argument = [] ∧ command = c := by
  cases argument <;> simp [bare, eq_comm]

theorem parseDetach?_eq_some_iff : parseDetach? argument = some command ↔ Argument .detach argument command := by
  constructor
  · intro h
    unfold parseDetach? at h
    split at h
    · cases h
      exact .detachAll
    · split at h
      · obtain rfl := isChar_iff.1 ‹_›
        split at h
        · rename_i n read
          cases h
          exact .detach (Hex.number?_eq_some_iff.1 read) (Nat.succ_ne_zero n)
        · cases h
      · cases h
  · intro h
    cases h with
    | detachAll => rfl
    | detach h nonzero =>
      obtain ⟨n, rfl⟩ := Nat.exists_eq_succ_of_ne_zero nonzero
      have semicolon : isChar ';' ';'.toUInt8 = true := by decide
      simp only [parseDetach?, semicolon, if_true, Hex.number?_eq_some_iff.2 h]

theorem parseWriteRegisters?_eq_some_iff :
    parseWriteRegisters? argument = some command ↔ Argument .writeRegisters argument command := by
  unfold parseWriteRegisters?
  constructor
  · intro h
    split at h
    · rename_i pairs
      cases h
      exact .writeRegisters (List.all_eq_true.1 pairs.2) pairs.1
    · cases h
  · intro h
    cases h with
    | writeRegisters all even => exact if_pos ⟨even, List.all_eq_true.2 all⟩

theorem parseSelectThread?_eq_some_iff :
    parseSelectThread? argument = some command ↔ Argument .selectThread argument command := by
  have reads {field : List UInt8} {thread : Option ThreadId} :
      Reads ThreadId.Spells field thread ↔ ThreadId.parse? field = thread :=
    reads_iff fun _ _ => ThreadId.parse?_eq_some_iff
  constructor
  · intro h
    unfold parseSelectThread? at h
    split at h
    · cases h
    · split at h
      · obtain rfl := isChar_iff.1 ‹_›
        cases h
        exact .selectToInspect (reads.2 rfl)
      · split at h
        · obtain rfl := isChar_iff.1 ‹_›
          cases h
          exact .selectToResume (reads.2 rfl)
        · cases h
  · intro h
    cases h with
    | selectToInspect h | selectToResume h =>
      rw [← reads.1 h]
      rfl

theorem parseReadMemory?_eq_some_iff :
    parseReadMemory? argument = some command ↔ Argument .readMemory argument command := by
  constructor
  · intro h
    unfold parseReadMemory? at h
    split at h
    · cases h
    · rename_i addr length cutting
      obtain ⟨-, rfl⟩ := cut_isChar_eq_some_iff.1 cutting
      split at h
      · rename_i readAddr readLength
        cases h
        exact .readMemory (Hex.word?_eq_some_iff.1 readAddr) (Hex.number?_eq_some_iff.1 readLength)
      · cases h
  · intro h
    cases h with | @readMemory addr length a n haddr hlength
    have cutting : cut (isChar ',') (addr ++ ','.toUInt8 :: length) = (addr, some length) :=
      cut_isChar_eq_some_iff.2 ⟨haddr.notMem (by decide), rfl⟩
    simp only [parseReadMemory?, cutting, Hex.word?_eq_some_iff.2 haddr, Hex.number?_eq_some_iff.2 hlength]

theorem parseWriteMemory?_eq_some_iff :
    parseWriteMemory? argument = some command ↔ Argument .writeMemory argument command := by
  have separates {b : UInt8} : (isChar ',' b || isChar ':' b) = true ↔ b = ','.toUInt8 ∨ b = ':'.toUInt8 := by
    simp only [Bool.or_eq_true, isChar_iff]
  constructor
  · intro h
    unfold parseWriteMemory? at h
    dsimp only at h
    split at h
    · cases h
    · rename_i addr rest cutFirst
      split at h
      · cases h
      · rename_i length digits cutSecond
        obtain ⟨-, first, hfirst, rfl⟩ := cut_eq_some_iff.1 cutFirst
        obtain ⟨-, second, hsecond, rfl⟩ := cut_eq_some_iff.1 cutSecond
        split at h
        · rename_i readAddr readLength
          split at h
          · rename_i fits
            cases h
            exact .writeMemory (Hex.word?_eq_some_iff.1 readAddr) (Hex.number?_eq_some_iff.1 readLength)
              (separates.1 hfirst) (separates.1 hsecond) (List.all_eq_true.1 fits.2) fits.1
          · cases h
        · cases h
  · intro h
    cases h with | @writeMemory addr length digits a n first second haddr hlength hfirst hsecond all twice
    have free {bits n : Nat} {field : List UInt8} (h : Hex.Denotes bits field n) (b : UInt8) (hb : b ∈ field) :
        (isChar ',' b || isChar ':' b) = false := by
      rw [Bool.eq_false_iff, ne_eq, separates]
      rintro (rfl | rfl) <;> exact h.notMem (by decide) hb
    have cutFirst := cut_append (free haddr) (separates.2 hfirst) (length ++ second :: digits)
    have cutSecond := cut_append (free hlength) (separates.2 hsecond) digits
    simp only [parseWriteMemory?, cutFirst, cutSecond, Hex.word?_eq_some_iff.2 haddr, Hex.number?_eq_some_iff.2 hlength]
    exact if_pos ⟨twice, List.all_eq_true.2 all⟩

theorem parseSupported?_eq_some_iff :
    parseSupported? argument = some command ↔ Argument .supported argument command := by
  have each {fields : List (List UInt8)} {features : List (Option Feature)} :
      List.Forall₂ (Reads Feature.Spells) fields features ↔ fields.map Feature.parse? = features :=
    forall₂_reads_iff fun _ _ => Feature.parse?_eq_some_iff
  constructor
  · intro h
    unfold parseSupported? at h
    split at h
    · cases h
      exact .supportedNothing
    · split at h
      · obtain rfl := isChar_iff.1 ‹_›
        cases h
        exact .supported (fields_iff.2 rfl) (each.2 rfl)
      · cases h
  · intro h
    cases h with
    | supportedNothing => rfl
    | supported split read =>
      rw [← each.1 read, ← fields_iff.1 split]
      rfl

theorem parseResume?_eq_some_iff : parseResume? argument = some command ↔ Argument .resume argument command := by
  have each {fields : List (List UInt8)} {actions : List (Option Action)} :
      List.Forall₂ (Reads Action.Spells) fields actions ↔ fields.map Action.parse? = actions :=
    forall₂_reads_iff fun _ _ => Action.parse?_eq_some_iff
  constructor
  · intro h
    unfold parseResume? at h
    split at h
    · cases h
    · split at h
      · rename_i opens
        rw [Bool.and_eq_true, isChar_iff, Bool.not_eq_true', List.isEmpty_eq_false_iff] at opens
        obtain ⟨rfl, filled⟩ := opens
        cases h
        exact .resume filled (fields_iff.2 rfl) (each.2 rfl)
      · cases h
  · intro h
    cases h with | @resume bytes fields actions filled split read
    have opens : (isChar ';' ';'.toUInt8 && !bytes.isEmpty) = true := by
      rw [Bool.and_eq_true, isChar_iff, Bool.not_eq_true', List.isEmpty_eq_false_iff]
      exact ⟨rfl, filled⟩
    simp only [parseResume?, opens, if_true, fields_iff.1 split, each.1 read]

/-- Just what is spelled as an argument of a name is read as one. -/
theorem parseArgument?_eq_some_iff : parseArgument? name argument = some command ↔
    Argument name argument command := by
  cases name with
  | detach => exact parseDetach?_eq_some_iff
  | writeRegisters => exact parseWriteRegisters?_eq_some_iff
  | selectThread => exact parseSelectThread?_eq_some_iff
  | readMemory => exact parseReadMemory?_eq_some_iff
  | writeMemory => exact parseWriteMemory?_eq_some_iff
  | supported => exact parseSupported?_eq_some_iff
  | resume => exact parseResume?_eq_some_iff
  | haltReason | attached | symbols =>
    rw [parseArgument?, Option.some.injEq]
    exact ⟨fun h => h ▸ by constructor, fun h => by cases h; rfl⟩
  | readRegisters | currentThread | firstThreads | nextThreads | traceStatus | resumptions =>
    rw [parseArgument?, bare_eq_some_iff]
    exact ⟨fun ⟨empty, same⟩ => empty ▸ same ▸ by constructor, fun h => by cases h; exact ⟨rfl, rfl⟩⟩
  | threadAlive =>
    rw [parseArgument?, Option.map_eq_some_iff]
    constructor
    · rintro ⟨id, read, rfl⟩
      exact .threadAlive (ThreadId.parse?_eq_some_iff.1 read)
    · intro h
      cases h with | threadAlive h => exact ⟨_, ThreadId.parse?_eq_some_iff.2 h, rfl⟩
  | removeBreakpoint =>
    rw [parseArgument?, Option.map_eq_some_iff]
    constructor
    · rintro ⟨spec, read, rfl⟩
      exact .removeBreakpoint (BreakpointSpec.parse?_eq_some_iff.1 read)
    · intro h
      cases h with | removeBreakpoint h => exact ⟨_, BreakpointSpec.parse?_eq_some_iff.2 h, rfl⟩
  | insertBreakpoint =>
    rw [parseArgument?, Option.map_eq_some_iff]
    constructor
    · rintro ⟨spec, read, rfl⟩
      exact .insertBreakpoint (BreakpointSpec.parse?_eq_some_iff.1 read)
    · intro h
      cases h with | insertBreakpoint h => exact ⟨_, BreakpointSpec.parse?_eq_some_iff.2 h, rfl⟩

/-! ## Commands -/

/-- How a command is spelled. A body that no name begins is a command of its own. -/
inductive Spells : List UInt8 → Command → Prop
  | named {name : CommandName} {argument body : List UInt8} {command : Command} (h : name.Begins argument body)
      (harg : Argument name argument command) : Spells body command
  | unknown {body : List UInt8} (filled : body ≠ []) (nameless : ∀ name : CommandName, ¬ name.bytes <+: body) :
      Spells body (.unknown body)

theorem parse_of_begins (h : name.Begins argument body) :
    parse body = match parseArgument? name argument with
      | none => .error (.malformed name)
      | some command => .ok command := by
  cases argued : parseArgument? name argument <;>
    simp only [parse, List.isEmpty_eq_false_iff.2 h.filled, Bool.false_eq_true, if_false, split?_eq_some_iff.2 h,
      argued]

theorem parse_of_nameless (filled : body ≠ []) (h : ∀ name : CommandName, ¬ name.bytes <+: body) :
    parse body = .ok (.unknown body) := by
  simp only [parse, List.isEmpty_eq_false_iff.2 filled, Bool.false_eq_true, if_false, split?_eq_none_iff.2 h]

/-- A body that is not empty begins with a longest name or with none. -/
theorem begins_or_nameless (body : List UInt8) :
    (∃ name argument, CommandName.Begins name argument body) ∨ ∀ name : CommandName, ¬ name.bytes <+: body := by
  cases found : split? body with
  | none => exact .inr (split?_eq_none_iff.1 found)
  | some pair => exact .inl ⟨pair.1, pair.2, split?_eq_some_iff.1 found⟩

theorem parse_eq_empty_iff : parse body = .error .empty ↔ body = [] := by
  refine ⟨fun h => ?_, fun h => h ▸ rfl⟩
  by_contra filled
  rcases begins_or_nameless body with ⟨name, argument, begins⟩ | nameless
  · rw [parse_of_begins begins] at h
    split at h <;> cases h
  · cases (parse_of_nameless filled nameless).symm.trans h

theorem parse_eq_ok_iff : parse body = .ok command ↔ Spells body command := by
  constructor
  · intro h
    have filled : body ≠ [] := by
      rintro rfl
      cases h
    rcases begins_or_nameless body with ⟨name, argument, begins⟩ | nameless
    · rw [parse_of_begins begins] at h
      split at h
      · cases h
      · rename_i read
        cases h
        exact .named begins (parseArgument?_eq_some_iff.1 read)
    · cases (parse_of_nameless filled nameless).symm.trans h
      exact .unknown filled nameless
  · intro h
    cases h with
    | named begins harg => rw [parse_of_begins begins, parseArgument?_eq_some_iff.2 harg]
    | unknown filled nameless => exact parse_of_nameless filled nameless

theorem parse_eq_malformed_iff : parse body = .error (.malformed name) ↔
    ∃ argument, name.Begins argument body ∧ ∀ command, ¬ Argument name argument command := by
  constructor
  · intro h
    have filled : body ≠ [] := by
      rintro rfl
      cases h
    rcases begins_or_nameless body with ⟨name', argument, begins⟩ | nameless
    · rw [parse_of_begins begins] at h
      split at h
      · rename_i unread
        cases h
        exact ⟨argument, begins, fun command harg => nomatch unread.symm.trans (parseArgument?_eq_some_iff.2 harg)⟩
      · cases h
    · cases (parse_of_nameless filled nameless).symm.trans h
  · rintro ⟨argument, begins, unspelled⟩
    have unread : parseArgument? name argument = none :=
      Option.eq_none_iff_forall_ne_some.2 fun command read => unspelled command (parseArgument?_eq_some_iff.1 read)
    rw [parse_of_begins begins, unread]

/-- A body is no command if it is empty; otherwise the longest name that begins it decides, or it is unknown as a whole.
It is read as a command exactly if it is spelled so: its numbers, ids, features and actions are those that are spelled.
It is malformed exactly if what follows the name is no argument of it. -/
theorem parse_by_grammar (body : List UInt8) :
    (parse body = .error .empty ↔ body = []) ∧
      (∀ command, parse body = .ok command ↔ Spells body command) ∧
      ∀ name, parse body = .error (.malformed name) ↔
        ∃ argument, name.Begins argument body ∧ ∀ command, ¬ Argument name argument command :=
  ⟨parse_eq_empty_iff, fun _ => parse_eq_ok_iff, fun _ => parse_eq_malformed_iff⟩

/-! ## What commands about memory are spelled with -/

section Memory

variable {addr : UInt64} {length : Nat} {digits : List UInt8}

/-- A command that writes memory comes with as many digits as it says. -/
theorem digits_of_parse (h : parse body = .ok (.writeMemory addr length digits)) :
    digits.length = 2 * length ∧ digits.all Hex.isDigit = true := by
  cases parse_eq_ok_iff.1 h with
  | named _ harg => cases harg with | writeMemory _ _ _ _ all twice => exact ⟨twice, List.all_eq_true.2 all⟩

theorem four_le_of_readMemory (h : parse body = .ok (.readMemory addr length)) : 4 ≤ body.length := by
  cases parse_eq_ok_iff.1 h with
  | named begins harg =>
    cases harg with
    | readMemory haddr hlength =>
      have first := List.length_pos_iff.2 haddr.filled
      have second := List.length_pos_iff.2 hlength.filled
      have name : CommandName.readMemory.bytes.length = 1 := by decide
      simp only [begins.spelled, List.length_append, List.length_cons]
      omega

theorem four_le_of_writeMemory (h : parse body = .ok (.writeMemory addr length digits)) : 4 ≤ body.length := by
  cases parse_eq_ok_iff.1 h with
  | named begins harg =>
    cases harg with
    | writeMemory haddr hlength =>
      have first := List.length_pos_iff.2 haddr.filled
      have second := List.length_pos_iff.2 hlength.filled
      have name : CommandName.writeMemory.bytes.length = 1 := by decide
      simp only [begins.spelled, List.length_append, List.length_cons]
      omega

end Memory

end Command
end RemoteDebug
