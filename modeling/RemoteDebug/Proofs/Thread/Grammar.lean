import RemoteDebug.Proofs.Field
import RemoteDebug.Proofs.Hex.Denotation
import RemoteDebug.Thread.Id

/-!
# How thread ids are spelled

A part of a thread id is a wildcard or a number other than zero (`Selector.Spells`), and a thread id is a part alone, a
process behind `p`, or a process behind `p` and a thread behind a dot (`ThreadId.Spells`). Just what is spelled so is
read (`ThreadId.parse?_eq_some_iff`).
-/

namespace RemoteDebug

/-! ## Parts -/

/-- How one part of a thread id is spelled. -/
inductive Selector.Spells : List UInt8 → Selector → Prop
  | all : Spells (ascii "-1") .all
  | any : Spells (ascii "0") .any
  | only {digits : List UInt8} {id : Nat} (h : Hex.Denotes 64 digits id) (nonzero : id ≠ 0) : Spells digits (.only id)

namespace Selector

variable {field : List UInt8} {selector : Selector}

theorem parse?_eq_some_iff : parse? field = some selector ↔ Spells field selector := by
  have dash : ¬ ∃ n, Hex.Denotes 64 (ascii "-1") n :=
    fun ⟨n, h⟩ => h.notMem (c := '-'.toUInt8) (by decide) (by decide)
  have zero {n : Nat} (h : Hex.Denotes 64 (ascii "0") n) : n = 0 := h.value.symm.trans (by decide)
  unfold parse?
  constructor
  · intro h
    split at h
    · rename_i spelled
      cases h
      exact spelled ▸ .all
    · split at h
      · rename_i spelled
        cases h
        exact spelled ▸ .any
      · split at h
        · rename_i id read
          cases h
          exact .only (Hex.number?_eq_some_iff.1 read) (Nat.succ_ne_zero id)
        · cases h
  · rintro (_ | _ | ⟨denotes, nonzero⟩)
    · rfl
    · rfl
    · rename_i id
      obtain ⟨m, rfl⟩ := Nat.exists_eq_succ_of_ne_zero nonzero
      have noDash : field ≠ ascii "-1" := by
        rintro rfl
        exact dash ⟨_, denotes⟩
      have noZero : field ≠ ascii "0" := by
        rintro rfl
        exact nonzero (zero denotes)
      rw [if_neg noDash, if_neg noZero, Hex.number?_eq_some_iff.2 denotes]

/-- No separator and no letter `p` stands in a part. -/
theorem Spells.notMem (h : Spells field selector) {c : UInt8} (digit : Hex.isDigit c = false)
    (dash : c ≠ '-'.toUInt8) :
    c ∉ field := by
  cases h with
  | all =>
    have one : c ≠ '1'.toUInt8 := by
      rintro rfl
      revert digit
      decide
    simpa [ascii] using ⟨dash, one⟩
  | any =>
    have zero : c ≠ '0'.toUInt8 := by
      rintro rfl
      revert digit
      decide
    simpa [ascii] using zero
  | only denotes => exact denotes.notMem digit

end Selector

/-! ## Thread ids -/

namespace ThreadId

variable {field : List UInt8} {id : ThreadId}

/-- How a thread id is spelled. -/
inductive Spells : List UInt8 → ThreadId → Prop
  | thread {field : List UInt8} {t : Selector} (h : Selector.Spells field t) : Spells field ⟨none, t⟩
  | process {pid : List UInt8} {p : Selector} (h : Selector.Spells pid p) :
      Spells ('p'.toUInt8 :: pid) ⟨some p, .all⟩
  | both {pid tid : List UInt8} {p t : Selector} (process : Selector.Spells pid p) (thread : Selector.Spells tid t) :
      Spells ('p'.toUInt8 :: (pid ++ '.'.toUInt8 :: tid)) ⟨some p, t⟩

/-- Just what is spelled as a thread id is read as one. -/
theorem parse?_eq_some_iff : parse? field = some id ↔ Spells field id := by
  have undotted {pid : List UInt8} {p : Selector} (h : Selector.Spells pid p) :
      ∀ b ∈ pid, (b == '.'.toUInt8) = false := by
    rintro b hb
    rw [beq_eq_false_iff_ne]
    rintro rfl
    exact h.notMem (by decide) (by decide) hb
  constructor
  · intro h
    unfold parse? at h
    split at h
    · cases h
    · rename_i b rest
      split at h
      · rename_i behind
        subst behind
        split at h
        · rename_i pid cutting
          obtain ⟨rfl, -⟩ := cut_eq_none_iff.1 cutting
          obtain ⟨p, read, rfl⟩ := Option.map_eq_some_iff.1 h
          exact .process (Selector.parse?_eq_some_iff.1 read)
        · rename_i pid tid cutting
          obtain ⟨-, mark, dot, rfl⟩ := cut_eq_some_iff.1 cutting
          obtain rfl := eq_of_beq dot
          split at h
          · rename_i p t process thread
            cases h
            exact .both (Selector.parse?_eq_some_iff.1 process) (Selector.parse?_eq_some_iff.1 thread)
          · cases h
      · obtain ⟨t, read, rfl⟩ := Option.map_eq_some_iff.1 h
        exact .thread (Selector.parse?_eq_some_iff.1 read)
  · rintro (⟨h⟩ | ⟨h⟩ | ⟨process, thread⟩)
    · have read := Selector.parse?_eq_some_iff.2 h
      cases field with
      | nil => cases read
      | cons b rest =>
        have alone : b ≠ 'p'.toUInt8 := by
          rintro rfl
          exact h.notMem (by decide) (by decide) List.mem_cons_self
        simp only [parse?, if_neg alone, read, Option.map_some]
    · have whole := cut_of_forall (undotted h)
      simp only [parse?, if_true, whole, Selector.parse?_eq_some_iff.2 h, Option.map_some]
    · rename_i pid tid p t
      have parts := cut_append (undotted process) (beq_self_eq_true _) tid
      simp only [parse?, if_true, parts, Selector.parse?_eq_some_iff.2 process, Selector.parse?_eq_some_iff.2 thread]

end ThreadId
end RemoteDebug
