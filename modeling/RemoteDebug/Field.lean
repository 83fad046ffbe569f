/-!
# Fields of a command

The arguments of a command are fields between separators. `cut` takes the first field; `List.splitOn` takes them all.
-/

namespace RemoteDebug

/-- The first field and, if a separator ends it, what follows the separator. -/
def cut (separator : UInt8 → Bool) : List UInt8 → List UInt8 × Option (List UInt8)
  | [] => ([], none)
  | b :: rest =>
    if separator b then ([], some rest)
    else
      let (field, tail) := cut separator rest
      (b :: field, tail)

theorem cut_of_forall {separator : UInt8 → Bool} {field : List UInt8} (h : ∀ b ∈ field, separator b = false) :
    cut separator field = (field, none) := by
  induction field with
  | nil => rfl
  | cons b field ih => simp_all [cut]

theorem cut_append {separator : UInt8 → Bool} {field : List UInt8} (h : ∀ b ∈ field, separator b = false)
    {mark : UInt8} (hm : separator mark = true) (rest : List UInt8) :
    cut separator (field ++ mark :: rest) = (field, some rest) := by
  induction field with
  | nil => simp [cut, hm]
  | cons b field ih => simp_all [cut]

end RemoteDebug
