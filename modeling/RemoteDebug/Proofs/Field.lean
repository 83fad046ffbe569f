import Mathlib.Data.List.Forall2
import RemoteDebug.Field

/-!
# Fields and separators

The first field of bytes is what stands in front of the first separator (`cut_eq_some_iff`), and all fields are what
stands between the separators (`fields_iff`). A list of fields is read field by field (`forall₂_reads_iff`).
-/

namespace RemoteDebug

variable {bytes field : List UInt8}

/-! ## The first field -/

section Cut

variable {separator : UInt8 → Bool} {rest : List UInt8}

/-- Nothing is cut off bytes that hold no separator. -/
theorem cut_eq_none_iff : cut separator bytes = (field, none) ↔
    field = bytes ∧ ∀ b ∈ bytes, separator b = false := by
  constructor
  · intro h
    induction bytes generalizing field with
    | nil => exact ⟨(congrArg Prod.fst h).symm, List.forall_mem_nil _⟩
    | cons b bytes ih =>
      unfold cut at h
      split at h
      · cases h
      · rename_i hb
        rcases cutting : cut separator bytes with ⟨first, tail⟩
        rw [cutting] at h
        cases h
        obtain ⟨rfl, free⟩ := ih cutting
        exact ⟨rfl, List.forall_mem_cons.2 ⟨Bool.eq_false_iff.2 hb, free⟩⟩
  · rintro ⟨rfl, free⟩
    exact cut_of_forall free

/-- Bytes are cut at the first separator. -/
theorem cut_eq_some_iff : cut separator bytes = (field, some rest) ↔
    (∀ b ∈ field, separator b = false) ∧ ∃ mark, separator mark = true ∧ bytes = field ++ mark :: rest := by
  constructor
  · intro h
    induction bytes generalizing field with
    | nil => cases congrArg Prod.snd h
    | cons b bytes ih =>
      unfold cut at h
      split at h
      · rename_i hb
        cases h
        exact ⟨List.forall_mem_nil _, b, hb, rfl⟩
      · rename_i hb
        rcases cutting : cut separator bytes with ⟨first, tail⟩
        rw [cutting] at h
        cases h
        obtain ⟨free, mark, hm, rfl⟩ := ih cutting
        exact ⟨List.forall_mem_cons.2 ⟨Bool.eq_false_iff.2 hb, free⟩, mark, hm, rfl⟩
  · rintro ⟨free, mark, hm, rfl⟩
    exact cut_append free hm rest

end Cut

/-! ## All fields -/

/-- Bytes consist of fields between marks. -/
structure Fields (mark : UInt8) (fields : List (List UInt8)) (bytes : List UInt8) : Prop where
  filled : fields ≠ []
  free : ∀ field ∈ fields, mark ∉ field
  joined : bytes = [mark].intercalate fields

theorem notMem_of_mem_splitOn {mark : UInt8} (h : field ∈ bytes.splitOn mark) : mark ∉ field := by
  induction bytes generalizing field with
  | nil =>
    rw [List.splitOn_nil, List.mem_singleton] at h
    rw [h]
    exact List.not_mem_nil
  | cons b bytes ih =>
    rw [List.splitOn, List.splitOnP_cons_eq_if_modifyHead] at h
    change field ∈ if (b == mark) = true then [] :: bytes.splitOn mark
      else (bytes.splitOn mark).modifyHead (List.cons b)
      at h
    split at h
    · rcases List.mem_cons.1 h with rfl | later
      · exact List.not_mem_nil
      · exact ih later
    · rename_i other
      cases fields : bytes.splitOn mark with
      | nil => exact absurd fields (List.splitOn_ne_nil _ _)
      | cons first others =>
        rw [fields, List.modifyHead_cons] at h
        rcases List.mem_cons.1 h with rfl | later
        · have differ : mark ≠ b := fun same => other (beq_iff_eq.2 same.symm)
          exact List.not_mem_cons_of_ne_of_not_mem differ (ih (fields ▸ List.mem_cons_self))
        · exact ih (fields ▸ List.mem_cons_of_mem _ later)

/-- Splitting finds the fields. -/
theorem fields_iff {mark : UInt8} {fields : List (List UInt8)} :
    Fields mark fields bytes ↔ bytes.splitOn mark = fields := by
  constructor
  · rintro ⟨filled, free, rfl⟩
    exact List.splitOn_intercalate mark free filled
  · rintro rfl
    exact ⟨List.splitOn_ne_nil _ _, fun field => notMem_of_mem_splitOn, (List.intercalate_splitOn mark).symm⟩

/-- What is read from a field, by how things are spelled: nothing only if nothing is spelled so. -/
def Reads {α : Type} (spells : List UInt8 → α → Prop) (field : List UInt8) : Option α → Prop
  | some a => spells field a
  | none => ∀ a, ¬ spells field a

theorem reads_iff {α : Type} {spells : List UInt8 → α → Prop} {parse? : List UInt8 → Option α}
    (h : ∀ field a, parse? field = some a ↔ spells field a) {a : Option α} :
    Reads spells field a ↔ parse? field = a := by
  cases a with
  | some a => exact (h field a).symm
  | none => simp only [Reads, ← h, Option.eq_none_iff_forall_ne_some, ne_eq]

theorem forall₂_reads_iff {α : Type} {spells : List UInt8 → α → Prop} {parse? : List UInt8 → Option α}
    (h : ∀ field a, parse? field = some a ↔ spells field a) {fields : List (List UInt8)} {as : List (Option α)} :
    List.Forall₂ (Reads spells) fields as ↔ fields.map parse? = as := by
  have same : Reads spells = fun field a => parse? field = a := by
    funext field a
    exact propext (reads_iff h)
  rw [same, ← List.forall₂_eq_eq_eq, List.forall₂_map_left_iff]

end RemoteDebug
