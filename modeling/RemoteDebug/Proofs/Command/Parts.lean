import RemoteDebug.Command.Parser
import RemoteDebug.Proofs.Field
import RemoteDebug.Proofs.Thread.Grammar

/-!
# How parts of commands are spelled

Breakpoints, features and actions each have a grammar of their own (`BreakpointSpec.Spells`, `Feature.Spells`,
`Action.Spells`), in which numbers are the runs of digits that denote them. Just what is spelled so is read.
-/

namespace RemoteDebug

/-! ## Separators -/

section Separators

variable {c : Char} {bytes field rest : List UInt8}

theorem isChar_iff {b : UInt8} : isChar c b = true ↔ b = c.toUInt8 := beq_iff_eq

theorem cut_isChar_eq_none_iff : cut (isChar c) bytes = (field, none) ↔ field = bytes ∧ c.toUInt8 ∉ bytes := by
  simp only [cut_eq_none_iff, isChar, beq_eq_false_iff_ne]
  exact and_congr_right fun _ => ⟨fun free mem => free _ mem rfl, fun free b mem same => free (same ▸ mem)⟩

theorem cut_isChar_eq_some_iff :
    cut (isChar c) bytes = (field, some rest) ↔ c.toUInt8 ∉ field ∧ bytes = field ++ c.toUInt8 :: rest := by
  simp only [cut_eq_some_iff, isChar, beq_eq_false_iff_ne, beq_iff_eq, exists_eq_left]
  exact and_congr_left fun _ => ⟨fun free mem => free _ mem rfl, fun free b mem same => free (same ▸ mem)⟩

end Separators

/-! ## Breakpoints -/

/-- How a kind of breakpoint is spelled. -/
def BreakpointKind.text : BreakpointKind → String
  | .software => "0"
  | .hardware => "1"
  | .write => "2"
  | .read => "3"
  | .access => "4"

theorem BreakpointKind.parse?_eq_some_iff {field : List UInt8} {kind : BreakpointKind} :
    parse? field = some kind ↔ field = ascii kind.text := by
  constructor
  · intro h
    unfold parse? at h
    repeat' split at h
    all_goals cases h
    all_goals assumption
  · rintro rfl
    cases kind <;> decide

namespace BreakpointSpec

/-- How the argument of a breakpoint command is spelled. -/
inductive Spells : List UInt8 → BreakpointSpec → Prop
  | mk {kind : BreakpointKind} {addr size : List UInt8} {a n : UInt64} (haddr : Hex.Denotes 64 addr a.toNat)
      (hsize : Hex.Denotes 64 size n.toNat) :
      Spells (ascii kind.text ++ ','.toUInt8 :: (addr ++ ','.toUInt8 :: size)) ⟨kind, a, n⟩

theorem parse?_eq_some_iff {argument : List UInt8} {spec : BreakpointSpec} :
    parse? argument = some spec ↔ Spells argument spec := by
  constructor
  · intro h
    unfold parse? at h
    split at h
    · cases h
    · rename_i kind rest first
      split at h
      · cases h
      · rename_i addr size second
        split at h
        · rename_i readKind readAddr readSize
          cases h
          obtain ⟨-, rfl⟩ := cut_isChar_eq_some_iff.1 first
          obtain ⟨-, rfl⟩ := cut_isChar_eq_some_iff.1 second
          obtain rfl := BreakpointKind.parse?_eq_some_iff.1 readKind
          exact .mk (Hex.word?_eq_some_iff.1 readAddr) (Hex.word?_eq_some_iff.1 readSize)
        · cases h
  · rintro ⟨haddr, hsize⟩
    rename_i kind addr size a n
    have first : cut (isChar ',') (ascii kind.text ++ ','.toUInt8 :: (addr ++ ','.toUInt8 :: size)) =
        (ascii kind.text, some (addr ++ ','.toUInt8 :: size)) :=
      cut_isChar_eq_some_iff.2 ⟨by cases kind <;> decide, rfl⟩
    have second : cut (isChar ',') (addr ++ ','.toUInt8 :: size) = (addr, some size) :=
      cut_isChar_eq_some_iff.2 ⟨haddr.notMem (by decide), rfl⟩
    simp only [parse?, first, second, BreakpointKind.parse?_eq_some_iff.2 rfl, Hex.word?_eq_some_iff.2 haddr,
      Hex.word?_eq_some_iff.2 hsize]

end BreakpointSpec

/-! ## Features -/

/-- The mark behind a feature. -/
def Support.mark : Support → UInt8
  | .yes => '+'.toUInt8
  | .no => '-'.toUInt8
  | .maybe => '?'.toUInt8

namespace Feature

/-- How a feature is spelled. -/
inductive Spells : List UInt8 → Feature → Prop
  | marked {name : List UInt8} {support : Support} : Spells (name ++ [support.mark]) ⟨name, none, support⟩
  | valued {name value : List UInt8} (first : '='.toUInt8 ∉ name)
      (unmarked : ∀ support : Support, value.getLast? ≠ some support.mark) :
      Spells (name ++ '='.toUInt8 :: value) ⟨name, some value, .yes⟩

theorem parse?_eq_some_iff {field : List UInt8} {feature : Feature} :
    parse? field = some feature ↔ Spells field feature := by
  have last_valued (name value : List UInt8) :
      (name ++ '='.toUInt8 :: value).getLast? = some (value.getLast?.getD '='.toUInt8) := by
    simp [List.getLast?_append, List.getLast?_cons]
  constructor
  · intro h
    unfold parse? at h
    split at h
    · cases h
    · rename_i mark last
      have whole : field.dropLast ++ [mark] = field := List.dropLast_append_getLast? mark last
      have marked (support : Support) (hm : mark = support.mark) :
          Spells field ⟨field.dropLast, none, support⟩ := by
        have spelled : Spells (field.dropLast ++ [support.mark]) ⟨field.dropLast, none, support⟩ := .marked
        rwa [← hm, whole] at spelled
      split at h
      · cases h
        exact marked .yes (isChar_iff.1 ‹_›)
      · split at h
        · cases h
          exact marked .no (isChar_iff.1 ‹_›)
        · split at h
          · cases h
            exact marked .maybe (isChar_iff.1 ‹_›)
          · rename_i notYes notNo notMaybe
            split at h
            · cases h
            · rename_i name value cutting
              cases h
              obtain ⟨first, rfl⟩ := cut_isChar_eq_some_iff.1 cutting
              refine .valued first fun support hs => ?_
              rw [last_valued, hs, Option.getD_some, Option.some.injEq] at last
              subst last
              cases support
              · exact notYes rfl
              · exact notNo rfl
              · exact notMaybe rfl
  · rintro (⟨⟩ | ⟨first, unmarked⟩)
    · rename_i name support
      cases support
      all_goals simp only [parse?, List.getLast?_concat, List.dropLast_concat]
      all_goals rfl
    · rename_i name value
      have other (support : Support) : (value.getLast?.getD '='.toUInt8 == support.mark) = false := by
        rw [beq_eq_false_iff_ne]
        cases hlast : value.getLast? with
        | none => cases support <;> decide
        | some b =>
          rintro rfl
          exact unmarked support hlast
      have cutting : cut (isChar '=') (name ++ '='.toUInt8 :: value) = (name, some value) :=
        cut_isChar_eq_some_iff.2 ⟨first, rfl⟩
      have yes : isChar '+' (value.getLast?.getD '='.toUInt8) = false := other .yes
      have no : isChar '-' (value.getLast?.getD '='.toUInt8) = false := other .no
      have maybe : isChar '?' (value.getLast?.getD '='.toUInt8) = false := other .maybe
      simp only [parse?, last_valued, yes, no, maybe, Bool.false_eq_true, if_false, cutting]

end Feature

/-! ## Actions -/

namespace Motion

/-- How a motion is spelled. -/
inductive Spells : List UInt8 → Motion → Prop
  | continue : Spells (ascii "c") .continue
  | step : Spells (ascii "s") .step
  | continueWith {digits : List UInt8} {signal : UInt8} (h : Hex.Denotes 8 digits signal.toNat) :
      Spells ('C'.toUInt8 :: digits) (.continueWith signal)
  | stepWith {digits : List UInt8} {signal : UInt8} (h : Hex.Denotes 8 digits signal.toNat) :
      Spells ('S'.toUInt8 :: digits) (.stepWith signal)

theorem parse?_eq_some_iff {field : List UInt8} {motion : Motion} :
    parse? field = some motion ↔ Spells field motion := by
  have reads {digits : List UInt8} {n : Nat} (h : Hex.number 8 digits = .ok n) :
      Hex.Denotes 8 digits (UInt8.ofNat n).toNat := by
    have denotes := (Hex.number_eq_ok_iff (by decide)).1 h
    rwa [UInt8.toNat_ofNat', Nat.mod_eq_of_lt denotes.fits]
  have read {digits : List UInt8} {signal : UInt8} (h : Hex.Denotes 8 digits signal.toNat) :
      Hex.number 8 digits = .ok signal.toNat := (Hex.number_eq_ok_iff (by decide)).2 h
  constructor
  · intro h
    unfold parse? at h
    split at h
    · cases h
    · rename_i letter signal
      split at h
      · obtain rfl := isChar_iff.1 ‹_›
        split at h
        · rename_i bare
          cases h
          rw [List.isEmpty_iff.1 bare]
          exact .continue
        · cases h
      · split at h
        · obtain rfl := isChar_iff.1 ‹_›
          split at h
          · rename_i bare
            cases h
            rw [List.isEmpty_iff.1 bare]
            exact .step
          · cases h
        · split at h
          · obtain rfl := isChar_iff.1 ‹_›
            split at h
            · cases h
              exact .continueWith (reads ‹_›)
            · cases h
          · split at h
            · obtain rfl := isChar_iff.1 ‹_›
              split at h
              · cases h
                exact .stepWith (reads ‹_›)
              · cases h
            · cases h
  · rintro (_ | _ | ⟨h⟩ | ⟨h⟩)
    · rfl
    · rfl
    · have letters : isChar 'c' 'C'.toUInt8 = false ∧ isChar 's' 'C'.toUInt8 = false ∧
        isChar 'C' 'C'.toUInt8 = true := by
        decide
      simp only [parse?, letters, Bool.false_eq_true, if_false, if_true, read h, UInt8.ofNat_toNat]
    · have letters : isChar 'c' 'S'.toUInt8 = false ∧ isChar 's' 'S'.toUInt8 = false ∧
        isChar 'C' 'S'.toUInt8 = false ∧
          isChar 'S' 'S'.toUInt8 = true := by
        decide
      simp only [parse?, letters, Bool.false_eq_true, if_false, if_true, read h, UInt8.ofNat_toNat]

/-- No colon stands in a motion. -/
theorem Spells.notMem {field : List UInt8} {motion : Motion} (h : Spells field motion) : ':'.toUInt8 ∉ field := by
  cases h with
  | «continue» | step => decide
  | continueWith h | stepWith h => exact List.not_mem_cons_of_ne_of_not_mem (by decide) (h.notMem (by decide))

end Motion

namespace Action

/-- How an action is spelled. -/
inductive Spells : List UInt8 → Action → Prop
  | everywhere {field : List UInt8} {motion : Motion} (h : Motion.Spells field motion) : Spells field ⟨motion, none⟩
  | aimed {field threads : List UInt8} {motion : Motion} {id : ThreadId} (h : Motion.Spells field motion)
      (aim : ThreadId.Spells threads id) : Spells (field ++ ':'.toUInt8 :: threads) ⟨motion, some id⟩

theorem parse?_eq_some_iff {field : List UInt8} {action : Action} :
    parse? field = some action ↔ Spells field action := by
  constructor
  · intro h
    unfold parse? at h
    split at h
    · rename_i motion cutting
      obtain ⟨rfl, -⟩ := cut_isChar_eq_none_iff.1 cutting
      obtain ⟨m, read, rfl⟩ := Option.map_eq_some_iff.1 h
      exact .everywhere (Motion.parse?_eq_some_iff.1 read)
    · rename_i motion threads cutting
      obtain ⟨-, rfl⟩ := cut_isChar_eq_some_iff.1 cutting
      split at h
      · rename_i m id readMotion readThreads
        cases h
        exact .aimed (Motion.parse?_eq_some_iff.1 readMotion) (ThreadId.parse?_eq_some_iff.1 readThreads)
      · cases h
  · rintro (⟨h⟩ | ⟨h, aim⟩)
    · have whole := cut_isChar_eq_none_iff.2 ⟨rfl, h.notMem⟩
      simp only [parse?, whole, Motion.parse?_eq_some_iff.2 h, Option.map_some]
    · rename_i motion threads m id
      have parts : cut (isChar ':') (motion ++ ':'.toUInt8 :: threads) = (motion, some threads) :=
        cut_isChar_eq_some_iff.2 ⟨h.notMem, rfl⟩
      simp only [parse?, parts, Motion.parse?_eq_some_iff.2 h, ThreadId.parse?_eq_some_iff.2 aim]

end Action

end RemoteDebug
